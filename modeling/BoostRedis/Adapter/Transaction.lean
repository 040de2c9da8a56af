import BoostRedis.Adapter.Reuse
import BoostRedis.Adapter.Tuple
import BoostRedis.Adapter.Wrapper

/-!
# Replies in a transaction

The replies to the commands of a transaction are the elements of an array, which is read into a
tuple.  An element is then one level deeper than it would be alone.

Two things make a difference.  The adapters of sets, maps and lists tell from the depth of a node
whether it is a reply by itself.  And the adapter of the tuple counts nodes, so that a value that
is not flat is cut off.
-/

namespace Redis

open Resp3

/-! ### Nodes one level deeper -/

/-- A node, one level deeper. -/
def deeper (nd : Node) : Node := { nd with depth := nd.depth + 1 }

@[simp]
theorem deeper_dataType (nd : Node) : (deeper nd).dataType = nd.dataType := rfl

@[simp]
theorem deeper_aggregateSize (nd : Node) : (deeper nd).aggregateSize = nd.aggregateSize := rfl

@[simp]
theorem deeper_depth (nd : Node) : (deeper nd).depth = nd.depth + 1 := rfl

mutual

/-- The nodes of a value that is one level deeper. -/
theorem nodes_succ (depth : ℕ) :
  ∀ v : Value, v.nodes (depth + 1) = (v.nodes depth).map deeper
  | .simple _ _ | .bulk _ _ => rfl
  | .streamed parts => by
      simp only [Value.nodes, List.map_cons, List.map_map]
      rfl
  | .aggregate t size elements => by
      rw [Value.nodes, Value.nodes, List.map_cons, nodesAll_succ (depth + 1) elements]
      rfl

/-- The nodes of values that are one level deeper. -/
theorem nodesAll_succ (depth : ℕ) :
  ∀ vs : List Value, Value.nodesAll (depth + 1) vs = (Value.nodesAll depth vs).map deeper
  | [] => rfl
  | v :: vs => by
      rw [Value.nodesAll, Value.nodesAll, List.map_append, nodes_succ depth v,
        nodesAll_succ depth vs]

end

/-! ### Conversions -/

/-- Whether the conversion of a node does not depend on its depth. -/
def DepthFree (T : Type) [FromBulk T] : Prop :=
  ∀ nd : Node, (FromBulk.fromBulk (deeper nd) : T → T × Option ErrorCode) = FromBulk.fromBulk nd

theorem depthFree_bytes : DepthFree Bytes := fun _ => rfl

theorem depthFree_bool : DepthFree Bool := fun _ => rfl

theorem depthFree_integral {signed : Bool} {width : ℕ} : DepthFree (Integral signed width) :=
  fun _ => rfl

theorem depthFree_floatingPoint {D : Type} (zero : D) (fromChars : Bytes → Option D) :
  @DepthFree D (floatingPoint zero fromChars)
  := by
  intro _
  rfl

theorem depthFree_option {T : Type} [FromBulk T] (h : DepthFree T) :
  DepthFree (Option T)
  := by
  intro nd
  funext o
  apply congrArg (fun f : T → T × Option ErrorCode =>
    if nd.dataType ≠ .null then (some (f FromBulk.initial).1, (f FromBulk.initial).2)
    else (o, none)) (h nd)

/-! ### Adapters of elements -/

section Deeper

variable {T K V : Type} [FromBulk T] [FromBulk K] [DecidableEq K] [FromBulk V] {nd : Node}

theorem simpleImpl_deeper (h : DepthFree T) :
  (simpleImpl T).feed (deeper nd) = (simpleImpl T).feed nd
  := by
  simp only [simpleImpl, h nd, deeper_dataType]

theorem vectorImpl_deeper {maxSize : ℕ} (h : DepthFree T) :
  (vectorImpl maxSize T).feed (deeper nd) = (vectorImpl maxSize T).feed nd
  := by
  simp only [vectorImpl, h nd, deeper_dataType, deeper_aggregateSize]
  rfl

theorem arrayImpl_deeper {n : ℕ} (h : DepthFree T) :
  (arrayImpl n T).feed (deeper nd) = (arrayImpl n T).feed nd
  := by
  simp only [arrayImpl, h nd, deeper_dataType, deeper_aggregateSize]
  rfl

/-- A node that is one level deeper is a reply by itself neither before nor after. -/
theorem deeper_depth_lt_iff (hnd : 1 ≤ nd.depth) :
  (deeper nd).depth < 1 ↔ nd.depth < 1
  := by
  rw [deeper_depth]
  omega

theorem setImpl_deeper {mult : Multiplicity} (h : DepthFree K)
    (hnd : isAggregate nd.dataType = true ∨ 1 ≤ nd.depth) :
  (setImpl mult K).feed (deeper nd) = (setImpl mult K).feed nd
  := by
  rcases hnd with hnd | hnd
  · simp only [setImpl, deeper_dataType, hnd, ↓reduceIte]
    rfl
  · simp only [setImpl, h nd, deeper_dataType, deeper_aggregateSize, deeper_depth_lt_iff hnd]
    rfl

theorem mapImpl_deeper {mult : Multiplicity} (hK : DepthFree K) (hV : DepthFree V)
    (hnd : isAggregate nd.dataType = true ∨ 1 ≤ nd.depth) :
  (mapImpl mult K V).feed (deeper nd) = (mapImpl mult K V).feed nd
  := by
  rcases hnd with hnd | hnd
  · simp only [mapImpl, deeper_dataType, hnd, ↓reduceIte]
    rfl
  · simp only [mapImpl, hK nd, hV nd, deeper_dataType, deeper_aggregateSize,
      deeper_depth_lt_iff hnd]
    rfl

theorem listImpl_deeper (h : DepthFree T) (hnd : isAggregate nd.dataType = true ∨ 1 ≤ nd.depth) :
  (listImpl T).feed (deeper nd) = (listImpl T).feed nd
  := by
  rcases hnd with hnd | hnd
  · simp only [listImpl, deeper_dataType, hnd, ↓reduceIte]
  · simp only [listImpl, h nd, deeper_dataType, deeper_aggregateSize, deeper_depth_lt_iff hnd]

end Deeper

namespace ElementType

/-- Whether the conversions of elements do not depend on the depth. -/
def DepthFree : ElementType → Prop
  | simple T | vector _ T | array _ T | list T => Redis.DepthFree T
  | set _ K => Redis.DepthFree K
  | map _ K V => Redis.DepthFree K ∧ Redis.DepthFree V

/-- Whether the adapter looks at the depth of a node that is no aggregate. -/
def checksDepth : ElementType → Bool
  | set _ _ | map _ _ _ | list _ => true
  | simple _ | vector _ _ | array _ _ => false

/-- A node that is one level deeper makes no difference, unless it is a reply by itself that is
read into a set, a map or a list. -/
theorem feed_deeper {t : ElementType} (ht : t.DepthFree) {nd : Node}
    (h : t.checksDepth = true → isAggregate nd.dataType = true ∨ 1 ≤ nd.depth) :
  t.impl.feed (deeper nd) = t.impl.feed nd
  := by
  cases t with
  | simple T => apply simpleImpl_deeper ht
  | set mult K => apply setImpl_deeper ht (h rfl)
  | map mult K V => apply mapImpl_deeper ht.1 ht.2 (h rfl)
  | vector maxSize T => apply vectorImpl_deeper ht
  | array n T => apply arrayImpl_deeper ht
  | list T => apply listImpl_deeper ht (h rfl)

end ElementType

/-! ### Results -/

namespace ResultType

/-- The type of the element, if a result holds one or an optional one. -/
def element? : ResultType → Option ElementType
  | value t | optional t => some t
  | _ => none

/-- A result depends on the depth of a node only through the adapter of the element. -/
theorem feed_deeper {r : ResultType} {t : ElementType} (hr : r.element? = some t) {nd : Node}
    (h : t.impl.feed (deeper nd) = t.impl.feed nd) :
  r.adapter.feed (deeper nd) = r.adapter.feed nd
  := by
  cases r with
  | value t' =>
      obtain rfl : t' = t := Option.some.inj hr
      simp only [adapter, wrapper, h, deeper_dataType]
      rfl
  | optional t' =>
      obtain rfl : t' = t := Option.some.inj hr
      simp only [adapter, optionalWrapper, h, deeper_dataType]
      rfl
  | node | nodes | ignore | tuple => cases hr

end ResultType

/-! ### Tuples with one element -/

section Single

variable {A : ResultAdapter}

/-- The only element of a tuple is called. -/
theorem callElement_single (nd : Node) (a : A.State) :
  callElement (fun _ : Fin 1 => A) (0, nd) (fun _ => a) = mapState (fun a _ => a) (A.feed nd a)
  := by
  have hupdate : ∀ b : A.State, Function.update (fun _ : Fin 1 => a) 0 b = fun _ => b := by
    intro b
    funext k
    rw [Subsingleton.elim k 0, Function.update_self]
  rw [callElement, dif_pos one_pos, visit]
  rcases A.feed nd a with t | ⟨b, ec⟩
  · rfl
  · apply congrArg fun s => Except.ok (s, ec)
    apply hupdate

/-- What happens to the calls that go on: an index is used that is not one of an element. -/
def overrun {σ : Type} : Fed σ → Fed σ
  | .ok (_, none) => .error .badIndex
  | stopped => stopped

/-- The first element is called for some nodes. -/
theorem feedUntil_callElement_single (nds : List Node) (a : A.State) :
  feedUntil (callElement fun _ : Fin 1 => A) (nds.map (0, ·)) (fun _ => a)
    = mapState (fun a _ => a) (feedUntil A.feed nds a)
  := by
  rw [feedUntil_map]
  apply feedUntil_mapState A.feed callElement_single

/-- Calls that go on after the only element has been passed its nodes. -/
theorem resume_callElement_next {s : TupleState fun _ : Fin 1 => A} {nds : List Node}
    (hi : s.i = 0) (hdepth : ∀ nd ∈ nds, nd.depth ≠ 0) (fed : Fed A.State) :
  feedUntil.resume (callElement fun _ : Fin 1 => A) (s.next.calls nds)
      (mapState (fun a _ => a) fed)
    = mapState (fun a _ => a) (if nds = [] then fed else overrun fed)
  := by
  cases nds with
  | nil => rcases fed with t | ⟨a, _ | ec⟩ <;> rfl
  | cons nd nds =>
      have hnext : s.next.i = 1 := by
        rw [TupleState.next, hi]
      rw [TupleState.calls_cons (List.forall_mem_cons.mp hdepth).1, hnext,
        if_neg (List.cons_ne_nil nd nds)]
      rcases fed with t | ⟨a, _ | ec⟩ <;> rfl

end Single

/-- The tuple of one element that an adapter leaves. -/
def ResultType.single (r : ResultType) (a : r.adapter.State) :
    Result (Fin 1 → r.adapter.Response) :=
  .ok fun _ => r.adapter.response a

/-- A tuple of one element before an array is read. -/
def ResultType.singleState {r : ResultType} (s₀ : r.adapter.State) :
    TupleState fun _ : Fin 1 => r.adapter :=
  { adapters := fun _ => s₀ }

/-- Nodes that are read into a tuple of one element. -/
theorem ResultType.read_single {r : ResultType} {s₀ : r.adapter.State}
    (hs : r.adapter.adapt r.adapter.fresh = .ok s₀) (nds : List Node) :
  let T := ResultType.tuple fun _ : Fin 1 => r
  T.adapter.read T.adapter.fresh nds
    = mapState (fun a => Except.ok fun k => r.adapter.response (a k))
      (tupleOutcome (feedUntil feedTuple nds (singleState s₀)))
  := by
  intro T
  have hadapt : T.adapter.adapt T.adapter.fresh = .ok (singleState s₀) := by
    have hassign := assign_eq_ok_iff.mpr fun _ : Fin 1 => hs
    simp only [T, ResultType.adapter, staticAggregateAdapter, hassign]
    rfl
  rw [ResultAdapter.read, hadapt, tupleOutcome, mapState_mapState]
  rfl

theorem depth_ne_zero_of_mem_nodes {v : Value} {nd : Node} (h : nd ∈ v.nodes 1) :
  nd.depth ≠ 0
  := by
  have := Value.le_depth_of_mem_nodes h
  omega

/-- The calls for an array with one element: as many as are counted for it, and then those that go
on. -/
theorem ResultType.calls_single {r : ResultType} {s₀ : r.adapter.State} {v : Value}
    (hwf : v.wellFormed = true) (hlength : v.encode.length < 2 ^ 64) :
  (singleState s₀).calls (⟨.array, 1, 0, []⟩ :: v.nodes 1)
    = ((v.nodes 1).take v.quota).map (0, ·)
      ++ (singleState s₀).next.calls ((v.nodes 1).drop v.quota)
  := by
  have h : (singleState s₀).calls (v.nodes 1 ++ [])
      = ((v.nodes 1).take v.quota).map ((singleState s₀).i, ·)
        ++ (singleState s₀).next.calls ((v.nodes 1).drop v.quota ++ []) :=
    TupleState.calls_nodes rfl hwf hlength
  rw [List.append_nil, List.append_nil] at h
  apply h

theorem drop_quota_eq_nil_iff {v : Value} :
  (v.nodes 1).drop v.quota = [] ↔ v.isFlat = true
  := by
  rw [List.drop_eq_nil_iff, ← Value.length_nodes_eq_quota_iff 1]
  have := v.quota_le 1
  omega

/-- An array with one element is read into a tuple with one element.  The element is read as it is
at its depth, up to the nodes that are counted for it. -/
theorem single_read {r : ResultType} {v : Value} {s₀ : r.adapter.State} (hwf : v.wellFormed = true)
    (hlength : v.encode.length < 2 ^ 64) (hs : r.adapter.adapt r.adapter.fresh = .ok s₀) :
  let T := ResultType.tuple fun _ : Fin 1 => r
  T.adapter.read T.adapter.fresh ((Value.aggregate .array 1 [v]).nodes 0)
    = mapState r.single
      (if v.isFlat then feedUntil r.adapter.feed (v.nodes 1) s₀
        else overrun (feedUntil r.adapter.feed ((v.nodes 1).take v.quota) s₀))
  := by
  intro T
  have hnodes : (Value.aggregate .array 1 [v]).nodes 0 = ⟨.array, 1, 0, []⟩ :: v.nodes 1 := by
    simp only [Value.nodes, Value.nodesAll, List.append_nil]
  have hdeclared : ∀ nd ∈ (⟨.array, 1, 0, []⟩ :: v.nodes 1 : List Node), nd.depth = 0 →
      nd.aggregateSize * elementMultiplicity nd.dataType % 2 ^ 64 = 1 := by
    rw [List.forall_mem_cons]
    exact ⟨fun _ => rfl, fun nd hnd hzero => absurd hzero (depth_ne_zero_of_mem_nodes hnd)⟩
  rw [ResultType.read_single hs, hnodes, feedTuple_eq_calls hdeclared,
    ResultType.calls_single hwf hlength, feedUntil_append]
  apply (congrArg (mapState _ <| feedUntil.resume _ _ ·) (feedUntil_callElement_single _ s₀)).trans
  rw [resume_callElement_next rfl, mapState_mapState]
  · congr 1
    by_cases h : v.isFlat = true
    · rw [if_pos h, if_pos (drop_quota_eq_nil_iff.mpr h),
        ← Value.length_nodes_eq_quota_iff 1 |>.mpr h, List.take_length]
    · rw [if_neg h, if_neg (mt drop_quota_eq_nil_iff.mp h)]
  · intro nd hnd
    apply depth_ne_zero_of_mem_nodes (List.mem_of_mem_drop hnd)

/-! ### What is taken in -/

section Taken

variable {V : Type} {impl : Impl V} {nd : Node} {nds : List Node}

/-- A result takes in the nodes that the adapter of the element does. -/
theorem isTaken_feedValue (herror : isErrorType nd.dataType = false) (hnull : nd.dataType ≠ .null) :
  isTaken (feedUntil (feedValue impl) (nd :: nds)
      ⟨.ok impl.initial, impl.onValueAvailable impl.start, false⟩)
    = impl.takes (nd :: nds)
  := by
  rw [feedUntil_cons, feedValue_first herror hnull, Impl.takes, feedUntil_cons]
  rcases impl.feed nd impl.ready with t | ⟨p, _ | ec⟩
  · rfl
  · have h := feedUntil_mapState impl.feed feedValue_holding nds p
    apply (congrArg isTaken h).trans
    apply isTaken_mapState
  · rfl

/-- After the first node, an optional takes in the nodes up to an error that the adapter of the
element does. -/
theorem isTaken_feedOptional_holding :
  ∀ {nds : List Node} {p : V × impl.State},
    isTaken (feedUntil (feedOptional impl) nds (holding some p))
      = isTaken (feedUntil impl.feed (nds.takeWhile fun nd => !isErrorType nd.dataType) p)
  | [], _ => rfl
  | nd :: nds, p => by
      rw [feedUntil_cons, List.takeWhile_cons]
      cases hnd : isErrorType nd.dataType with
      | true =>
          rw [holding, feedOptional_error hnd, feedUntil.resume, feedUntil_feedOptional_stored]
          rfl
      | false =>
          rw [feedOptional_holding hnd, Bool.not_false, if_pos rfl, feedUntil_cons]
          rcases impl.feed nd p with t | ⟨q, _ | ec⟩
          · rfl
          · apply isTaken_feedOptional_holding
          · rfl

theorem isTaken_feedOptional (herror : isErrorType nd.dataType = false)
    (hnull : nd.dataType ≠ .null) :
  isTaken (feedUntil (feedOptional impl) (nd :: nds) ⟨.ok none, impl.start, false⟩)
    = impl.takes ((nd :: nds).takeWhile fun nd => !isErrorType nd.dataType)
  := by
  rw [feedUntil_cons, feedOptional_first herror hnull, List.takeWhile_cons, herror, Bool.not_false,
    if_pos rfl, Impl.takes, feedUntil_cons]
  rcases impl.feed nd impl.ready with t | ⟨p, _ | ec⟩
  · rfl
  · apply isTaken_feedOptional_holding
  · rfl

end Taken

namespace ResultType

/-- The nodes that are not stored as an error: for an optional, those before the first error. -/
def unstored : ResultType → List Node → List Node
  | optional _, nds => nds.takeWhile fun nd => !isErrorType nd.dataType
  | _, nds => nds

/-- A new result takes in the nodes that the adapter of the element does. -/
theorem isTaken_feedUntil {r : ResultType} {t : ElementType} {s : r.adapter.State} {nd : Node}
    {nds : List Node} (hr : r.element? = some t) (hs : r.adapter.adapt r.adapter.fresh = .ok s)
    (herror : isErrorType nd.dataType = false) (hnull : nd.dataType ≠ .null) :
  isTaken (feedUntil r.adapter.feed (nd :: nds) s) = t.impl.takes (r.unstored (nd :: nds))
  := by
  cases r with
  | value t' =>
      obtain rfl : t' = t := Option.some.inj hr
      cases hs
      apply isTaken_feedValue herror hnull
  | optional t' =>
      obtain rfl : t' = t := Option.some.inj hr
      cases hs
      apply isTaken_feedOptional herror hnull
  | node | nodes | ignore | tuple => cases hr

end ResultType

/-! ### Indices -/

/-- No adapter of an element uses an index that is not one of an element of a tuple. -/
theorem ElementType.feed_ne_badIndex (t : ElementType) (nd : Node) (p : t.Value × t.impl.State) :
  t.impl.feed nd p ≠ .error .badIndex
  := by
  intro h
  cases t with
  | simple T =>
      simp only [impl, simpleImpl] at h
      split at h <;> cases h
  | set mult K =>
      simp only [impl, setImpl] at h
      repeat' split at h
      all_goals cases h
  | map mult K V =>
      simp only [impl, mapImpl] at h
      repeat' split at h
      all_goals cases h
  | vector maxSize T =>
      simp only [impl, vectorImpl] at h
      repeat' split at h
      all_goals cases h
  | array n T =>
      simp only [impl, arrayImpl] at h
      repeat' split at h
      all_goals cases h
  | list T =>
      simp only [impl, listImpl] at h
      repeat' split at h
      all_goals cases h

theorem map_ne_error {σ τ : Type} {fed : Fed σ} {e : Thrown} (h : fed ≠ .error e)
    (f : σ × Option ErrorCode → τ) :
  fed.map f ≠ .error e
  := by
  rcases fed with t | p
  · rintro ⟨⟩
    apply h rfl
  · rintro ⟨⟩

theorem feedValue_ne_error {V : Type} {impl : Impl V} {e : Thrown}
    (h : ∀ nd p, impl.feed nd p ≠ .error e) (nd : Node) (s : WrapperState V impl.State) :
  feedValue impl nd s ≠ .error e
  := by
  simp only [feedValue, wrapper]
  split
  · rintro ⟨⟩
  · split
    · rintro ⟨⟩
    · apply map_ne_error (h nd _)

theorem feedOptional_ne_error {V : Type} {impl : Impl V} {e : Thrown}
    (h : ∀ nd p, impl.feed nd p ≠ .error e) (nd : Node) (s : WrapperState (Option V) impl.State) :
  feedOptional impl nd s ≠ .error e
  := by
  simp only [feedOptional, optionalWrapper]
  split
  · rintro ⟨⟩
  · split
    · rintro ⟨⟩
    · split
      · rintro ⟨⟩
      · apply map_ne_error (h nd _)

/-- A result of an element uses no index that is not one of an element of a tuple. -/
theorem ResultType.feedUntil_ne_badIndex {r : ResultType} {t : ElementType}
    (hr : r.element? = some t) (nds : List Node) (s : r.adapter.State) :
  feedUntil r.adapter.feed nds s ≠ .error .badIndex
  := by
  apply feedUntil_ne_error
  cases r with
  | value t' => apply feedValue_ne_error t'.feed_ne_badIndex
  | optional t' => apply feedOptional_ne_error t'.feed_ne_badIndex
  | node | nodes | ignore | tuple => cases hr

/-! ### Replies by themselves -/

/-- Whether a value is a single node that is no aggregate. -/
def isScalar : Value → Bool
  | .simple _ _ | .bulk _ _ => true
  | .streamed _ | .aggregate _ _ _ => false

/-- Whether a value is refused as a reply by itself, but not as an element: it is not an aggregate,
and is read into a set, a map or a list. -/
def ElementType.refusesAlone (t : ElementType) (v : Resp3.Value) : Bool :=
  t.checksDepth && isScalar v && !(isErrorType v.dataType || v.dataType = .null)

section Scalar

variable {T K V : Type} [FromBulk T] [FromBulk K] [DecidableEq K] [FromBulk V]
  (mult : Multiplicity) {dt : DataType} (content : Bytes)

theorem setImpl_scalar (h : isAggregate dt = false) :
  (setImpl mult K).feed ⟨dt, 1, 0, content⟩ (setImpl mult K).ready
      = .ok ((setImpl mult K).ready, some (.redis .expectsResp3Set))
    ∧ ∃ k ec, (setImpl mult K).feed ⟨dt, 1, 1, content⟩ (setImpl mult K).ready
      = .ok (([k], true), ec)
  := by
  have hinsert : ∀ k : K, insertKey mult k [] = [k] := by
    intro k
    cases mult <;> rfl
  constructor
  · simp [setImpl, h]
  · simp [setImpl, h, Impl.ready, hinsert]

theorem mapImpl_scalar (h : isAggregate dt = false) :
  (mapImpl mult K V).feed ⟨dt, 1, 0, content⟩ (mapImpl mult K V).ready
      = .ok ((mapImpl mult K V).ready, some (.redis .expectsResp3Map))
    ∧ ∃ e ec, (mapImpl mult K V).feed ⟨dt, 1, 1, content⟩ (mapImpl mult K V).ready
      = .ok (([e], .at 0, false), ec)
  := by
  have hinsert : ∀ k : K, insertPair mult k ([] : List (K × V)) = ([(k, FromBulk.initial)], 0) := by
    intro k
    cases mult <;> rfl
  constructor
  · simp [mapImpl, h]
  · simp [mapImpl, h, Impl.ready, hinsert]

theorem listImpl_scalar (h : isAggregate dt = false) :
  (listImpl T).feed ⟨dt, 1, 0, content⟩ (listImpl T).ready
      = .ok ((listImpl T).ready, some (.redis .expectsResp3Aggregate))
    ∧ ∃ e ec, (listImpl T).feed ⟨dt, 1, 1, content⟩ (listImpl T).ready = .ok (([e], ()), ec)
  := by
  constructor
  · simp [listImpl, h]
  · simp [listImpl, h, Impl.ready]

end Scalar

/-- A set, a map or a list refuses a reply by itself that is not an aggregate, and takes it in one
level deeper. -/
theorem ElementType.feed_scalar {t : ElementType} (hchecks : t.checksDepth = true) {dt : DataType}
    (h : isAggregate dt = false) (content : Bytes) :
  (∃ ec, t.impl.feed ⟨dt, 1, 0, content⟩ t.impl.ready = .ok (t.impl.ready, some ec))
    ∧ ∃ p ec, t.impl.feed ⟨dt, 1, 1, content⟩ t.impl.ready = .ok (p, ec) ∧ p.1 ≠ t.impl.initial
  := by
  cases t with
  | set mult K =>
      obtain ⟨halone, k, ec, helement⟩ := setImpl_scalar (K := K) mult content h
      exact ⟨⟨_, halone⟩, _, ec, helement, List.cons_ne_nil k []⟩
  | map mult K V =>
      obtain ⟨halone, e, ec, helement⟩ := mapImpl_scalar (K := K) (V := V) mult content h
      exact ⟨⟨_, halone⟩, _, ec, helement, List.cons_ne_nil e []⟩
  | list T =>
      obtain ⟨halone, e, ec, helement⟩ := listImpl_scalar (T := T) content h
      exact ⟨⟨_, halone⟩, _, ec, helement, List.cons_ne_nil e []⟩
  | simple | vector | array => cases hchecks

namespace ResultType

variable {r : ResultType} {t : ElementType} {s : r.adapter.State}

/-- The first node, if it is neither an error nor null, is given to the adapter of the element, and
the result tells what that leaves. -/
theorem exists_holding (hr : r.element? = some t)
    (hs : r.adapter.adapt r.adapter.fresh = .ok s) :
  ∃ f : t.Value × t.impl.State → r.adapter.State,
    (∀ nd, isErrorType nd.dataType = false → nd.dataType ≠ .null →
      r.adapter.feed nd s = mapState f (t.impl.feed nd t.impl.ready))
    ∧ ∀ p q, r.adapter.response (f p) = r.adapter.response (f q) → p.1 = q.1
  := by
  cases r with
  | value t' =>
      obtain rfl : t' = t := Option.some.inj hr
      cases hs
      refine ⟨holding id, fun nd => feedValue_first, fun p q h => ?_⟩
      injection h
  | optional t' =>
      obtain rfl : t' = t := Option.some.inj hr
      cases hs
      refine ⟨holding some, fun nd => feedOptional_first, fun p q h => ?_⟩
      injection h with h
      apply Option.some.inj h
  | node | nodes | ignore | tuple => cases hr

/-- The first node, if it is an error or null, is not given to the adapter of the element. -/
theorem feed_deeper_error (hr : r.element? = some t)
    (hs : r.adapter.adapt r.adapter.fresh = .ok s) (nd : Node)
    (h : (isErrorType nd.dataType || nd.dataType = .null) = true) :
  r.adapter.feed (deeper nd) s = r.adapter.feed nd s
  := by
  cases r with
  | value t' =>
      cases hs
      have hdeeper : (isErrorType (deeper nd).dataType || (deeper nd).dataType = .null) = true := h
      exact (feedValue_error hdeeper _).trans (feedValue_error h _).symm
  | optional t' =>
      cases hs
      cases herror : isErrorType nd.dataType with
      | true =>
          have hdeeper : isErrorType (deeper nd).dataType = true := herror
          exact (feedOptional_error hdeeper _).trans (feedOptional_error herror _).symm
      | false =>
          rw [herror, Bool.false_or, decide_eq_true_eq] at h
          have hdeeper : (deeper nd).dataType = .null := h
          exact (feedOptional_null hdeeper _).trans (feedOptional_null h _).symm
  | node | nodes | ignore | tuple => cases hr

/-- A value that is not an aggregate is read in the same way as an element exactly if it is not
refused as a reply by itself. -/
theorem feed_scalar_iff (hr : r.element? = some t) (ht : t.DepthFree)
    (hs : r.adapter.adapt r.adapter.fresh = .ok s) {dt : DataType}
    (haggregate : isAggregate dt = false) (content : Bytes) :
  mapState r.single (r.adapter.feed ⟨dt, 1, 1, content⟩ s)
      = mapState r.single (r.adapter.feed ⟨dt, 1, 0, content⟩ s)
    ↔ (t.checksDepth && !(isErrorType dt || dt = .null)) = false
  := by
  cases herror : isErrorType dt || dt = .null with
  | true =>
      apply iff_of_true _ (by rw [Bool.not_true, Bool.and_false])
      apply congrArg
      apply feed_deeper_error hr hs ⟨dt, 1, 0, content⟩ herror
  | false =>
      cases hchecks : t.checksDepth with
      | false =>
          apply iff_of_true _ (by rw [Bool.false_and])
          apply congrArg
          have hfeed : t.impl.feed (deeper ⟨dt, 1, 0, content⟩)
              = t.impl.feed ⟨dt, 1, 0, content⟩ := by
            apply t.feed_deeper ht
            rw [hchecks]
            rintro ⟨⟩
          apply congrFun (feed_deeper hr hfeed) s
      | true =>
          apply iff_of_false _ (by simp)
          rw [Bool.or_eq_false_iff, decide_eq_false_iff_not] at herror
          obtain ⟨f, hfeed, hresponse⟩ := exists_holding hr hs
          obtain ⟨⟨ec, halone⟩, p, ec', helement, hne⟩ := t.feed_scalar hchecks haggregate content
          rw [hfeed _ herror.1 herror.2, hfeed _ herror.1 herror.2, halone, helement]
          intro h
          apply hne
          apply hresponse p t.impl.ready
          injection h with h
          injection h with h
          injection h with h
          apply congrFun h 0

/-- The nodes of a value that is not by itself on the level of replies are read in the same way one
level deeper. -/
theorem feedUntil_deeper (hr : r.element? = some t) (ht : t.DepthFree) {v : Value}
    (hwf : v.wellFormed = true) (hv : (t.checksDepth && isScalar v) = false) (k : ℕ) :
  feedUntil r.adapter.feed ((v.nodes 1).take k) = feedUntil r.adapter.feed ((v.nodes 0).take k)
  := by
  have hnodes : ∀ nd ∈ v.nodes 0, t.checksDepth = true →
      isAggregate nd.dataType = true ∨ 1 ≤ nd.depth := by
    intro nd hnd hchecks
    rw [hchecks, Bool.true_and] at hv
    cases v with
    | simple | bulk => cases hv
    | streamed parts =>
        right
        rw [Value.nodes, List.mem_cons, List.mem_map] at hnd
        rcases hnd with rfl | ⟨_, _, rfl⟩ <;> rfl
    | aggregate dt size elements =>
        rw [Value.wellFormed, Bool.and_eq_true, Bool.and_eq_true] at hwf
        rw [Value.nodes, List.mem_cons] at hnd
        rcases hnd with rfl | hnd
        · left
          apply hwf.1.1
        · right
          apply Value.le_depth_of_mem_nodesAll hnd
  have hfeed : ∀ nd ∈ (v.nodes 0).take k, r.adapter.feed (deeper nd) = r.adapter.feed nd := by
    intro nd hnd
    apply feed_deeper hr
    apply t.feed_deeper ht (hnodes nd (List.mem_of_mem_take hnd))
  funext s
  rw [nodes_succ 0 v, ← List.map_take, feedUntil_map, feedUntil_congr _ hfeed]

/-- The first node of a value that is not flat is neither an error nor null. -/
theorem exists_take_quota {v : Value} (hwf : v.wellFormed = true) (hflat : v.isFlat = false) :
  ∃ nd nds, (v.nodes 0).take v.quota = nd :: nds ∧ isErrorType nd.dataType = false
    ∧ nd.dataType ≠ .null
  := by
  cases v with
  | simple | bulk => cases hflat
  | streamed parts => exact ⟨_, _, rfl, rfl, by simp⟩
  | aggregate dt size elements =>
      rw [Value.wellFormed, Bool.and_eq_true, Bool.and_eq_true] at hwf
      refine ⟨⟨dt, size, 0, []⟩, _, rfl, ?_, ?_⟩
      · revert hwf
        cases dt <;> simp [isAggregate, isErrorType]
      · rintro rfl
        cases hwf.1.1

/-- Nodes that go on after the ones that are counted are read in the same way exactly if one of
those is refused. -/
theorem overrun_iff (hr : r.element? = some t) (nds nds' : List Node) :
  mapState r.single (overrun (feedUntil r.adapter.feed nds s))
      = mapState r.single (feedUntil r.adapter.feed (nds ++ nds') s)
    ↔ isTaken (feedUntil r.adapter.feed nds s) = false
  := by
  rw [feedUntil_append]
  rcases feedUntil r.adapter.feed nds s with thrown | ⟨a, _ | ec⟩
  · apply iff_of_true rfl rfl
  · apply iff_of_false
    · have hne := feedUntil_ne_badIndex hr nds' a
      intro h
      rw [feedUntil.resume] at h
      apply map_ne_error hne _ h.symm
    · rintro ⟨⟩
  · apply iff_of_true rfl rfl

/-- A value that is not an aggregate, where the depth is checked, is read in the same way as an
element exactly if it is not refused as a reply by itself. -/
theorem scalar_read_iff (hr : r.element? = some t) (ht : t.DepthFree)
    (hs : r.adapter.adapt r.adapter.fresh = .ok s) {v : Value} (hwf : v.wellFormed = true)
    (hv : (t.checksDepth && isScalar v) = true) :
  v.isFlat = true ∧
    (mapState r.single (feedUntil r.adapter.feed (v.nodes 1) s)
        = mapState r.single (feedUntil r.adapter.feed (v.nodes 0) s)
      ↔ t.refusesAlone v = false)
  := by
  have hscalar : ∀ {dt : DataType} {content : Bytes}, isAggregate dt = false →
      (mapState r.single (feedUntil r.adapter.feed [⟨dt, 1, 1, content⟩] s)
          = mapState r.single (feedUntil r.adapter.feed [⟨dt, 1, 0, content⟩] s)
        ↔ (!(isErrorType dt || dt = .null)) = false) := by
    intro dt content haggregate
    rw [feedUntil_singleton, feedUntil_singleton, feed_scalar_iff hr ht hs haggregate,
      (Bool.and_eq_true_iff.mp hv).1, Bool.true_and]
  rw [ElementType.refusesAlone, hv, Bool.true_and]
  cases v with
  | simple dt content =>
      rw [Value.wellFormed] at hwf
      exact ⟨rfl, hscalar (isAggregate_of_simpleContent hwf)⟩
  | bulk dt blob =>
      rw [Value.wellFormed] at hwf
      exact ⟨rfl, hscalar (isAggregate_of_isBulk hwf)⟩
  | streamed | aggregate => simp [isScalar] at hv

/-- Any other value that is flat is read in the same way as an element. -/
theorem flat_read (hr : r.element? = some t) (ht : t.DepthFree) {v : Value}
    (hwf : v.wellFormed = true) (hv : (t.checksDepth && isScalar v) = false) :
  feedUntil r.adapter.feed (v.nodes 1) = feedUntil r.adapter.feed (v.nodes 0)
  := by
  have hall := feedUntil_deeper hr ht hwf hv (v.nodes 1).length
  have hlength : (v.nodes 1).length = (v.nodes 0).length := by
    rw [nodes_succ, List.length_map]
  rw [List.take_length, hlength, List.take_length] at hall
  exact hall

/-- One that is not flat is read in the same way exactly if one of the nodes that are counted for it
is refused. -/
theorem nested_read_iff (hr : r.element? = some t) (ht : t.DepthFree)
    (hs : r.adapter.adapt r.adapter.fresh = .ok s) {v : Value} (hwf : v.wellFormed = true)
    (hv : (t.checksDepth && isScalar v) = false) (hflat : v.isFlat = false) :
  mapState r.single (overrun (feedUntil r.adapter.feed ((v.nodes 1).take v.quota) s))
      = mapState r.single (feedUntil r.adapter.feed (v.nodes 0) s)
    ↔ t.impl.takes (r.unstored ((v.nodes 0).take v.quota)) = false
  := by
  obtain ⟨nd, nds, htake, herror, hnull⟩ := exists_take_quota hwf hflat
  have hiff := overrun_iff (s := s) hr ((v.nodes 0).take v.quota) ((v.nodes 0).drop v.quota)
  rw [List.take_append_drop] at hiff
  rw [htake, isTaken_feedUntil hr hs herror hnull, ← htake] at hiff
  rw [feedUntil_deeper hr ht hwf hv]
  exact hiff

end ResultType

/-- Reading a value as the only element of an array gives what reading it alone does, exactly if it
is not refused alone by a set, a map or a list, and either is flat or has a node that the adapter of
the element refuses among those that are counted for it. -/
theorem transaction_read_iff (r : ResultType) {t : ElementType} (hr : r.element? = some t)
    (ht : t.DepthFree) (m : Message) :
  let T := ResultType.tuple fun _ : Fin 1 => r
  T.adapter.read T.adapter.fresh ((Value.aggregate .array 1 [m.value]).nodes 0)
      = mapState (fun x => Except.ok fun _ => x) (r.adapter.read r.adapter.fresh m.nodes)
    ↔ t.refusesAlone m.value = false
      ∧ (m.value.isFlat = true ∨ t.impl.takes (r.unstored (m.nodes.take m.value.quota)) = false)
  := by
  intro T
  obtain ⟨v, hwf, _, hlength⟩ := m
  obtain ⟨s, hs, _⟩ := r.adapt_fresh
  have halone : mapState (fun x => (Except.ok fun _ => x : Result (Fin 1 → r.adapter.Response)))
      (r.adapter.read r.adapter.fresh (v.nodes 0))
      = mapState r.single (feedUntil r.adapter.feed (v.nodes 0) s) := by
    rw [ResultAdapter.read, hs]
    apply mapState_mapState
  apply (Eq.congr (single_read hwf hlength hs) halone).trans
  cases hv : t.checksDepth && isScalar v with
  | true =>
      obtain ⟨hflat, hiff⟩ := ResultType.scalar_read_iff hr ht hs hwf hv
      rw [if_pos hflat]
      exact hiff.trans (and_iff_left (.inl hflat)).symm
  | false =>
      have hrefuses : t.refusesAlone v = false := by
        rw [ElementType.refusesAlone, hv, Bool.false_and]
      apply Iff.trans _ (and_iff_right hrefuses).symm
      cases hflat : v.isFlat with
      | true =>
          rw [if_pos rfl, ResultType.flat_read hr ht hwf hv]
          exact iff_of_true rfl (.inl rfl)
      | false =>
          rw [if_neg Bool.false_ne_true]
          apply (ResultType.nested_read_iff hr ht hs hwf hv hflat).trans
          exact (or_iff_right Bool.false_ne_true).symm

/-- A string alone is refused by a set, and is an element of it in a transaction. -/
theorem transaction_read_set :
  let r := ResultType.value (.set .unique Bytes)
  let T := ResultType.tuple fun _ : Fin 1 => r
  let v := Value.simple .simpleString (ascii "a")
  r.adapter.read r.adapter.fresh (v.nodes 0) = .ok (Except.ok [], some (.redis .expectsResp3Set))
    ∧ (T.adapter.read T.adapter.fresh ((Value.aggregate .array 1 [v]).nodes 0)).map
        (fun out => ((out.1 : Result (Fin 1 → Result (List Bytes))).map (· 0), out.2))
      = .ok (.ok (.ok [ascii "a"]), none)
  := by
  exact ⟨rfl, rfl⟩

/-- An array of one string. -/
def stringsMessage : Message where
  value := .aggregate .array 1 [.simple .simpleString (ascii "a")]
  wellFormed := by decide
  height_le := by decide
  length_lt := by decide

/-- A vector is read in a transaction as it is alone. -/
theorem transaction_read_vector :
  let r := ResultType.value (.vector 10 Bytes)
  let T := ResultType.tuple fun _ : Fin 1 => r
  T.adapter.read T.adapter.fresh ((Value.aggregate .array 1 [stringsMessage.value]).nodes 0)
    = mapState (fun x => Except.ok fun _ => x)
      (r.adapter.read r.adapter.fresh stringsMessage.nodes)
  := by
  intro r T
  exact (transaction_read_iff r rfl depthFree_bytes stringsMessage).mpr ⟨rfl, .inl rfl⟩

end Redis
