import BoostRedis.Adapter.Types
import BoostRedis.Resp3.Value

/-!
# Results of elements and of optional elements

The adapters of `result<T>` and of `result<std::optional<T>>` are separate code over the adapter of
`T`.  Both store an error that is the first node.  An error that comes later is given to the adapter
of `T` by the first, and is stored by the second.

So a reply that is not null leaves the same in both, unless an error is reached after the first
node: that is, if the adapter of `T` has taken in all nodes before it.
-/

namespace Redis

open Resp3

section Runs

variable {V : Type} (impl : Impl V)

/-- The initial value, and the adapter when it is available. -/
def Impl.ready : V × impl.State := (impl.initial, impl.onValueAvailable impl.start)

/-- Whether an adapter takes in all nodes, without an error and without an exception. -/
def Impl.takes (nds : List Node) : Bool := isTaken (feedUntil impl.feed nds impl.ready)

/-! ### The adapters after the first node -/

/-- What `wrapper<result<T>>` does with a node. -/
def feedValue (nd : Node) (s : WrapperState V impl.State) : Fed (WrapperState V impl.State) :=
  (wrapper impl).feed nd s

/-- What `wrapper<result<std::optional<T>>>` does with a node. -/
def feedOptional (nd : Node) (s : WrapperState (Option V) impl.State) :
    Fed (WrapperState (Option V) impl.State) :=
  (optionalWrapper impl).feed nd s

variable {impl} {nd : Node}

/-- An adapter that has been called, and a result that holds a value. -/
def holding {W S : Type} (f : V → W) (p : V × S) : WrapperState W S := ⟨.ok (f p.1), p.2, true⟩

/-- After the first node all nodes are given to the adapter of the value. -/
theorem feedValue_holding (nd : Node) (p : V × impl.State) :
  feedValue impl nd (holding id p) = mapState (holding id) (impl.feed nd p)
  := by
  simp only [feedValue, wrapper, holding, Bool.not_true, Bool.false_and, Bool.false_eq_true,
    ↓reduceIte]
  rfl

/-- A node that is no error is given to the adapter of the value. -/
theorem feedOptional_holding (h : isErrorType nd.dataType = false) (p : V × impl.State) :
  feedOptional impl nd (holding some p) = mapState (holding some) (impl.feed nd p)
  := by
  simp only [feedOptional, optionalWrapper, holding, h, Bool.not_true, Bool.false_and,
    Bool.false_eq_true, ↓reduceIte]
  rfl

/-- An error is stored. -/
theorem feedOptional_error (h : isErrorType nd.dataType = true) {o : Option V} {called : Bool}
    (i : impl.State) :
  feedOptional impl nd ⟨.ok o, i, called⟩ = .ok (⟨.error (.ofNode nd), i, called⟩, none)
  := by
  simp only [feedOptional, optionalWrapper, h, ↓reduceIte]

/-- Once an error is stored, nothing changes. -/
theorem feedUntil_feedOptional_stored {e : RespError} {i : impl.State} {called : Bool} :
  ∀ nds : List Node,
    feedUntil (feedOptional impl) nds ⟨.error e, i, called⟩ = .ok (⟨.error e, i, called⟩, none)
  | [] => rfl
  | nd :: nds => by
      rw [feedUntil_cons]
      apply feedUntil_feedOptional_stored nds

/-- Once an error is stored, nothing changes. -/
theorem feedUntil_feedValue_stored {e : RespError} {i : impl.State} {called : Bool} :
  ∀ nds : List Node,
    feedUntil (feedValue impl) nds ⟨.error e, i, called⟩ = .ok (⟨.error e, i, called⟩, none)
  | [] => rfl
  | nd :: nds => by
      rw [feedUntil_cons]
      apply feedUntil_feedValue_stored nds

/-! ### Replies that are not null -/

/-- Whether the adapter of a value is never given an error: it refuses a node before. -/
def Impl.SparedErrors (impl : Impl V) (p : V × impl.State) (nds : List Node) : Prop :=
  ∀ pre e post, nds = pre ++ e :: post → isErrorType e.dataType = true →
    isTaken (feedUntil impl.feed pre p) = false

theorem Impl.sparedErrors_cons {p : V × impl.State} {nds : List Node}
    (h : isErrorType nd.dataType = false) :
  impl.SparedErrors p (nd :: nds) ↔ ∀ q, impl.feed nd p = .ok (q, none) → impl.SparedErrors q nds
  := by
  constructor
  · intro hspared q hfeed pre e post hsplit herror
    have hfalse := hspared (nd :: pre) e post (by rw [hsplit, List.cons_append]) herror
    rw [feedUntil_cons, hfeed] at hfalse
    apply hfalse
  · intro hspared pre e post hsplit herror
    cases pre with
    | nil =>
        obtain ⟨rfl, _⟩ := List.cons.inj hsplit
        rw [h] at herror
        cases herror
    | cons nd' pre =>
        obtain ⟨rfl, hrest⟩ := List.cons.inj hsplit
        rw [feedUntil_cons]
        rcases hfeed : impl.feed nd p with t | ⟨q, _ | ec⟩
        · rfl
        · apply hspared q hfeed pre e post hrest herror
        · rfl

/-- After the first node, an optional holds the value that the adapter of the value leaves exactly
if that is not given an error. -/
theorem feedOptional_holding_iff :
  ∀ {nds : List Node} {p : V × impl.State},
    mapState WrapperState.result (feedUntil (feedOptional impl) nds (holding some p))
        = mapState (fun q => .ok (some q.1)) (feedUntil impl.feed nds p)
      ↔ impl.SparedErrors p nds
  | [], p => by
      apply iff_of_true rfl
      intro pre e post hsplit
      simp at hsplit
  | nd :: nds, p => by
      rw [feedUntil_cons]
      cases hnd : isErrorType nd.dataType with
      | false =>
          rw [feedOptional_holding hnd, Impl.sparedErrors_cons hnd, feedUntil_cons]
          rcases impl.feed nd p with t | ⟨q, _ | ec⟩
          · apply iff_of_true rfl
            rintro _ ⟨⟩
          · apply Iff.trans feedOptional_holding_iff
            constructor
            · rintro hspared _ ⟨⟩
              apply hspared
            · intro hspared
              apply hspared q rfl
          · apply iff_of_true rfl
            rintro _ ⟨⟩
      | true =>
          apply iff_of_false
          · rw [holding, feedOptional_error hnd, feedUntil.resume, feedUntil_feedOptional_stored]
            rcases feedUntil impl.feed (nd :: nds) p with t | q <;> rintro ⟨⟩
          · intro hspared
            cases hspared [] nd nds rfl hnd

/-- The first node, if it is neither an error nor null, is given to the adapter of the value. -/
theorem feedValue_first (herror : isErrorType nd.dataType = false) (hnull : nd.dataType ≠ .null) :
  feedValue impl nd ⟨.ok impl.initial, impl.onValueAvailable impl.start, false⟩
    = mapState (holding id) (impl.feed nd impl.ready)
  := by
  simp only [feedValue, wrapper, herror, hnull, decide_false, Bool.or_false, Bool.and_false,
    Bool.false_eq_true, ↓reduceIte]
  rfl

/-- The first node, if it is neither an error nor null, is given to the adapter of the value. -/
theorem feedOptional_first (herror : isErrorType nd.dataType = false)
    (hnull : nd.dataType ≠ .null) :
  feedOptional impl nd ⟨.ok none, impl.start, false⟩
    = mapState (holding some) (impl.feed nd impl.ready)
  := by
  simp only [feedOptional, optionalWrapper, herror, hnull, decide_false, Bool.and_false,
    Bool.false_eq_true, ↓reduceIte]
  rfl

/-- An error, or a null, that is the first node is stored. -/
theorem feedValue_error (h : (isErrorType nd.dataType || nd.dataType = .null) = true) {v : V}
    (i : impl.State) :
  feedValue impl nd ⟨.ok v, i, false⟩ = .ok (⟨.error (.ofNode nd), i, true⟩, none)
  := by
  simp only [feedValue, wrapper, h, Bool.not_false, Bool.true_and, ↓reduceIte]

/-- A null that is the first node leaves the result as it is. -/
theorem feedOptional_null (h : nd.dataType = .null) {o : Option V} (i : impl.State) :
  feedOptional impl nd ⟨.ok o, i, false⟩ = .ok (⟨.ok o, i, true⟩, none)
  := by
  simp [feedOptional, optionalWrapper, h, isErrorType]

/-- After the first node the adapter of the value does all the work. -/
theorem feedUntil_feedValue_holding (nds : List Node) (p : V × impl.State) :
  mapState (fun s => s.result.map some) (feedUntil (feedValue impl) nds (holding id p))
    = mapState (fun q => .ok (some q.1)) (feedUntil impl.feed nds p)
  := by
  rw [feedUntil_mapState impl.feed feedValue_holding, mapState_mapState]
  rfl

end Runs

/-- A reply that is not null leaves in an optional what it leaves in an element, the same error code
and the same error included, exactly if it starts with an error, or the adapter of the element
refuses a node before it is given an error. -/
theorem optional_read_iff (t : ElementType) (nd : Node) (nds : List Node)
    (hnull : nd.dataType ≠ .null) :
  (ResultType.optional t).adapter.read (ResultType.optional t).adapter.fresh (nd :: nds)
      = mapState (fun r : Result t.Value => r.map some)
        ((ResultType.value t).adapter.read (ResultType.value t).adapter.fresh (nd :: nds))
    ↔ isErrorType nd.dataType = true ∨ ∀ pre e post, nds = pre ++ e :: post →
      isErrorType e.dataType = true → t.impl.takes (nd :: pre) = false
  := by
  have hoptional : (ResultType.optional t).adapter.read (ResultType.optional t).adapter.fresh
        (nd :: nds)
      = mapState WrapperState.result
        (feedUntil (feedOptional t.impl) (nd :: nds) ⟨.ok none, t.impl.start, false⟩) := rfl
  have hvalue : mapState (fun r : Result t.Value => r.map some)
        ((ResultType.value t).adapter.read (ResultType.value t).adapter.fresh (nd :: nds))
      = mapState (fun s => s.result.map some) (feedUntil (feedValue t.impl) (nd :: nds)
        ⟨.ok t.impl.initial, t.impl.onValueAvailable t.impl.start, false⟩) :=
    mapState_mapState _ WrapperState.result _
  rw [hoptional, hvalue, feedUntil_cons, feedUntil_cons]
  cases herror : isErrorType nd.dataType with
  | true =>
      rw [feedOptional_error herror, feedValue_error (by rw [herror, Bool.true_or])]
      apply iff_of_true _ (Or.inl rfl)
      rw [feedUntil.resume, feedUntil.resume, feedUntil_feedOptional_stored,
        feedUntil_feedValue_stored]
      rfl
  | false =>
      rw [feedOptional_first herror hnull, feedValue_first herror hnull]
      simp only [Bool.false_eq_true, false_or, Impl.takes, feedUntil_cons]
      rcases t.impl.feed nd t.impl.ready with thrown | ⟨q, _ | ec⟩
      · apply iff_of_true rfl
        intros
        rfl
      · have hiff : mapState WrapperState.result
              (feedUntil (feedOptional t.impl) nds (holding some q))
            = mapState (fun s => s.result.map some)
              (feedUntil (feedValue t.impl) nds (holding id q))
            ↔ t.impl.SparedErrors q nds := by
          rw [feedUntil_feedValue_holding]
          apply feedOptional_holding_iff
        exact hiff
      · apply iff_of_true rfl
        intros
        rfl

/-- An error in an array that is read into a vector of strings. -/
theorem optional_read_error_element :
  let t : ElementType := .vector 10 Bytes
  let reply := (Value.aggregate .array 1 [.simple .simpleError (ascii "ERR")]).nodes 0
  (ResultType.value t).adapter.read (ResultType.value t).adapter.fresh reply
      = .ok (Except.ok [ascii "ERR"], none)
    ∧ (ResultType.optional t).adapter.read (ResultType.optional t).adapter.fresh reply
      = .ok (Except.error ⟨.simpleError, ascii "ERR"⟩, none)
  := by
  exact ⟨rfl, rfl⟩

/-- A vector of strings is read into an optional as it is read without. -/
theorem optional_read_strings :
  let t : ElementType := .vector 10 Bytes
  let reply := (Value.aggregate .array 1 [.simple .simpleString (ascii "a")]).nodes 0
  (ResultType.optional t).adapter.read (ResultType.optional t).adapter.fresh reply
    = mapState (fun r : Result t.Value => r.map some)
      ((ResultType.value t).adapter.read (ResultType.value t).adapter.fresh reply)
  := by
  intro t reply
  apply (optional_read_iff t ⟨.array, 1, 0, []⟩ [⟨.simpleString, 1, 1, ascii "a"⟩] (by decide)).mpr
  right
  intro pre e post hsplit herror
  cases pre with
  | nil =>
      obtain ⟨rfl, _⟩ := List.cons.inj hsplit
      cases herror
  | cons nd pre => simp at hsplit

/-! ### Errors -/

namespace ResultType

/-- The error that a result holds. -/
def storedError : (t : ResultType) → t.adapter.Response → Option RespError
  | value _, Except.error e => some e
  | optional _, Except.error e => some e
  | node, Except.error e => some e
  | nodes, Except.error e => some e
  | tuple _, Except.error e => some e
  | _, _ => none

/-- Whether a result can hold an error that it receives: it is neither ignored nor a tuple. -/
def keepsErrors : ResultType → Bool
  | ignore | tuple _ => false
  | _ => true

end ResultType

/-- An error in place of a reply is stored, and no error code is set, exactly if the result is
neither ignored nor a tuple. -/
theorem error_reply_stored_iff (t : ResultType) (dt : DataType) (text : Bytes)
    (herror : isErrorType dt = true) :
  (∃ r, t.adapter.read t.adapter.fresh [⟨dt, 1, 0, text⟩] = .ok (r, none)
      ∧ t.storedError r = some ⟨dt, text⟩)
    ↔ t.keepsErrors = true
  := by
  have hdt : dt = .simpleError ∨ dt = .blobError := by
    revert herror
    cases dt <;> decide
  cases t with
  | value t | optional t | node | nodes =>
      apply iff_of_true _ rfl
      rcases hdt with rfl | rfl <;> exact ⟨_, rfl, rfl⟩
  | ignore =>
      apply iff_of_false _ Bool.false_ne_true
      rintro ⟨_, _, ⟨⟩⟩
  | tuple elements =>
      apply iff_of_false _ Bool.false_ne_true
      rintro ⟨r, hread, hstored⟩
      -- A tuple always holds its elements.
      obtain ⟨s, rfl⟩ := ResultAdapter.exists_response_of_read hread
      cases hstored

/-- An error in place of a transaction is refused for a tuple of two, and is lost for a tuple of
one. -/
theorem error_reply_tuple :
  let string : ResultType := .value (.simple Bytes)
  let one := ResultType.tuple fun _ : Fin 1 => string
  let two := ResultType.tuple fun _ : Fin 2 => string
  let reply : List Node := [⟨.simpleError, 1, 0, ascii "EXECABORT"⟩]
  (two.adapter.read two.adapter.fresh reply).map Prod.snd = .ok (some (.redis .incompatibleSize))
    ∧ (one.adapter.read one.adapter.fresh reply).map (fun out => (one.storedError out.1, out.2))
      = .ok (none, none)
  := by
  exact ⟨rfl, rfl⟩

/-- An error is stored in place of a string. -/
theorem error_reply_string :
  let t := ResultType.value (.simple Bytes)
  ∃ r, t.adapter.read t.adapter.fresh [⟨.blobError, 1, 0, ascii "ERR"⟩] = .ok (r, none)
    ∧ t.storedError r = some ⟨.blobError, ascii "ERR"⟩
  := by
  intro t
  exact (error_reply_stored_iff t .blobError (ascii "ERR") rfl).mpr rfl

end Redis
