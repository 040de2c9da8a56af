import BoostRedis.Adapter.Transaction
import BoostRedis.General.Assoc
import Mathlib.Data.List.Forall2

/-!
# The containers that replies denote

A flat aggregate is read into a container, one node after the other.  What it denotes is said
without the nodes: a sequence holds the elements in their order, a set the distinct ones, a map
the last value of every key, and a container that repeats its keys holds everything.

The adapters compute just that, within two bounds.  A vector reserves what the header announces,
and an array counts its elements with an `int`.
-/

namespace Redis

open Resp3

/-! ### Conversions -/

section Convert

variable {T : Type} [FromBulk T] {nd : Node} {t : T}

/-- A node converted to an element, unless an error is set. -/
def convert (T : Type) [FromBulk T] (nd : Node) : Option T :=
  match FromBulk.fromBulk nd (FromBulk.initial : T) with
  | (t, none) => some t
  | (_, some _) => none

theorem fromBulk_of_convert (h : convert T nd = some t) :
  FromBulk.fromBulk nd (FromBulk.initial : T) = (t, none)
  := by
  rw [convert] at h
  split at h
  · rename_i heq
    rw [heq, Option.some.inj h]
  · cases h

end Convert

/-! ### What a reply denotes -/

/-- A set holds the distinct keys, and a multiset all of them. -/
def SetOf {K : Type} (mult : Multiplicity) (keys items : List K) : Prop :=
  match mult with
  | .unique => keys.Nodup ∧ ∀ k, k ∈ keys ↔ k ∈ items
  | .multi => keys.Perm items

/-- A map binds every key to the last of its values, and a multimap holds all pairs. -/
def MapOf {K V : Type} [DecidableEq K] (mult : Multiplicity) (pairs items : List (K × V)) : Prop :=
  match mult with
  | .unique => (pairs.map Prod.fst).Nodup ∧ ∀ k, pairs.lookup k = items.reverse.lookup k
  | .multi => pairs.Perm items

namespace ElementType

/-- What an element of a reply is for a container: a key with its value for a map. -/
def Item : ElementType → Type
  | simple T | vector _ T | array _ T | list T => T
  | set _ K => K
  | map _ K V => K × V

/-- The nodes are converted to items.  The nodes of a map are keys and values, in turn. -/
def Converts : (t : ElementType) → List Node → List t.Item → Prop
  | simple T, nds, items | vector _ T, nds, items | array _ T, nds, items | list T, nds, items =>
      List.Forall₂ (fun nd x => convert T nd = some x) nds items
  | set _ K, nds, items => List.Forall₂ (fun nd k => convert K nd = some k) nds items
  | map _ K V, nds, items =>
      ∃ ps : List (Node × Node), nds = ps.flatMap (fun p => [p.1, p.2]) ∧
        List.Forall₂ (fun p item => convert K p.1 = some item.1 ∧ convert V p.2 = some item.2)
          ps items

/-- The items are what a container holds. -/
def Denotes : (t : ElementType) → List t.Item → t.Value → Prop
  | simple _, _, _ => False
  | set mult _, items, keys => SetOf mult keys items
  | map mult _ _, items, pairs => MapOf mult pairs items
  | vector _ _, items, elements | array _ _, items, elements | list _, items, elements =>
      elements = items

/-- The aggregates that are read into a container. -/
def accepts : ElementType → DataType → Bool
  | simple _, _ => false
  | set _ _, dt => dt = .set
  | map _ _ _, dt => dt = .map || dt = .attribute
  | vector _ _, _ | array _ _, _ | list _, _ => true

/-- Whether the elements of a reply are not as many as those of an array. -/
def mismatches : ElementType → ℕ → Bool
  | array n _, total => n ≠ total
  | _, _ => false

/-- Whether the elements of a reply are not too many for a container: a vector can hold them, and
an `int` can count those of an array. -/
def hasRoom : ElementType → ℕ → Bool
  | vector maxSize _, total => total ≤ maxSize
  | array n _, total => n ≠ total || (total : ℤ) ≤ intMax
  | _, _ => true

/-- A reply is read into a result that is constructed by default. -/
def read (t : ElementType) (nds : List Node) : Fed (Result t.Value) :=
  (ResultType.value t).adapter.read (ResultType.value t).adapter.fresh nds

/-- What is left is the container that the items denote, or the error for a size that is not the
one of an array. -/
def Computes (t : ElementType) (items : List t.Item) (total : ℕ) (left : Fed (Result t.Value)) :
    Prop :=
  if t.mismatches total then ∃ r, left = .ok (r, some (.redis .incompatibleSize))
  else ∃ v, left = .ok (.ok v, none) ∧ t.Denotes items v

end ElementType

/-! ### Insertions -/

section Insertions

variable {K V : Type} [DecidableEq K] [FromBulk V]

/-- Keys that are inserted one after the other into an empty container. -/
theorem setOf_insertKey (mult : Multiplicity) (items : List K) :
  SetOf mult (items.foldl (fun keys k => insertKey mult k keys) []) items
  := by
  cases mult with
  | unique =>
      constructor
      · apply Assoc.nodup_foldl_insertNew List.nodup_nil
      · intro k
        apply Assoc.mem_foldl_insertNew items |>.trans
        simp
  | multi =>
      have hall : items.foldl (fun keys k => insertKey .multi k keys) [] = items :=
        Assoc.foldl_append_singleton items []
      rw [hall]
      apply List.Perm.refl

/-- A key is inserted, and then its value is set. -/
def bindPair (mult : Multiplicity) (pairs : List (K × V)) (item : K × V) : List (K × V) :=
  (insertPair mult item.1 pairs).1.modify (insertPair mult item.1 pairs).2 fun p => (p.1, item.2)

theorem bindPair_unique (pairs : List (K × V)) (item : K × V) :
  bindPair .unique pairs item = Assoc.assign item.1 item.2 pairs
  := by
  cases hfind : pairs.findIdx? (fun p => p.1 = item.1) with
  | none =>
      simp only [bindPair, insertPair, hfind, Assoc.modify_append_length]
      apply Assoc.append_eq_assign hfind
  | some i =>
      simp only [bindPair, insertPair, hfind]
      apply Assoc.modify_eq_assign hfind

theorem bindPair_multi (pairs : List (K × V)) (item : K × V) :
  bindPair .multi pairs item = pairs ++ [item]
  := by
  simp only [bindPair, insertPair, Assoc.modify_append_length]

/-- Pairs that are bound one after the other in an empty container. -/
theorem mapOf_bindPair (mult : Multiplicity) (items : List (K × V)) :
  MapOf mult (items.foldl (bindPair mult) []) items
  := by
  cases mult with
  | unique =>
      have hassign : bindPair (K := K) (V := V) .unique
          = fun pairs item => Assoc.assign item.1 item.2 pairs := by
        funext pairs item
        apply bindPair_unique
      rw [hassign]
      constructor
      · apply Assoc.nodup_keys_foldl_assign
        exact List.nodup_nil
      · intro k
        apply (Assoc.lookup_foldl_assign items).trans
        simp
  | multi =>
      have happend : bindPair (K := K) (V := V) .multi = fun pairs item => pairs ++ [item] := by
        funext pairs item
        apply bindPair_multi
      rw [happend, Assoc.foldl_append_singleton]
      apply List.Perm.refl

end Insertions

/-! ### Nodes that are elements -/

/-- The node of an element that is not an aggregate. -/
structure Plain (nd : Node) : Prop where
  type : isAggregate nd.dataType = false
  size : nd.aggregateSize = 1
  depth : ¬ nd.depth < 1

/-- The elements of a flat aggregate are one node each. -/
theorem plain_of_flat (depth : ℕ) :
  ∀ {elements : List Value}, Value.wellFormedAll elements = true →
    elements.all isScalar = true →
    (Value.nodesAll (depth + 1) elements).length = elements.length
      ∧ ∀ nd ∈ Value.nodesAll (depth + 1) elements, Plain nd
  | [], _, _ => by
      simp [Value.nodesAll]
  | v :: vs, hwf, hflat => by
      rw [Value.wellFormedAll, Bool.and_eq_true] at hwf
      rw [List.all_cons, Bool.and_eq_true] at hflat
      obtain ⟨hlength, hplain⟩ := plain_of_flat depth hwf.2 hflat.2
      have hv : ∃ nd, v.nodes (depth + 1) = [nd] ∧ Plain nd := by
        cases v with
        | simple t content =>
            have ht := isAggregate_of_simpleContent (by simpa [Value.wellFormed] using hwf.1)
            exact ⟨_, rfl, ht, rfl, by simp⟩
        | bulk t blob =>
            have ht := isAggregate_of_isBulk (by simpa [Value.wellFormed] using hwf.1)
            exact ⟨_, rfl, ht, rfl, by simp⟩
        | streamed | aggregate => cases hflat.1
      obtain ⟨nd, hnd, hnode⟩ := hv
      rw [Value.nodesAll, hnd, List.singleton_append, List.length_cons, List.length_cons, hlength]
      exact ⟨rfl, List.forall_mem_cons.mpr ⟨hnode, hplain⟩⟩

/-! ### The elements are taken in -/

section Runs

variable {T K V : Type} [FromBulk T] [FromBulk K] [DecidableEq K] [FromBulk V]

/-- A node is an element that is converted. -/
def Taken (T : Type) [FromBulk T] (nd : Node) (x : T) : Prop :=
  Plain nd ∧ convert T nd = some x

/-- Nodes that are taken in one by one. -/
theorem feedUntil_each {V S α : Type} {feed : Node → V × S → Fed (V × S)}
    {R : Node → α → Prop} (next : V → α → V) (P : S → Prop)
    (hstep : ∀ nd x v s, R nd x → P s → ∃ s', feed nd (v, s) = .ok ((next v x, s'), none) ∧ P s')
    {nds : List Node} {items : List α} (h : List.Forall₂ R nds items) {v : V} {s : S} (hs : P s) :
  ∃ s', feedUntil feed nds (v, s) = .ok ((items.foldl next v, s'), none)
  := by
  have hone : ∀ nd x p, R nd x → P p.2 →
      ∃ p', feedUntil feed [nd] p = .ok (p', none) ∧ P p'.2 ∧ p'.1 = next p.1 x := by
    intro nd x p hR hP
    obtain ⟨s', hfeed, hP'⟩ := hstep nd x p.1 p.2 hR hP
    rw [feedUntil_singleton]
    exact ⟨_, hfeed, hP', rfl⟩
  obtain ⟨⟨v', s'⟩, hrun, hv'⟩ :=
    feedUntil_flatMap feed (fun nd => [nd]) Prod.fst next (fun p => P p.2) hone h
      (s := (v, s)) hs
  rw [List.flatMap_singleton'] at hrun
  use s'
  rw [hrun, ← hv']

theorem setImpl_run (mult : Multiplicity) {nds : List Node} {items : List K}
    (h : List.Forall₂ (Taken K) nds items) :
  ∃ s, feedUntil (setImpl mult K).feed nds ([], true)
    = .ok ((items.foldl (fun keys k => insertKey mult k keys) [], s), none)
  := by
  apply feedUntil_each _ (fun s => s = true) _ h rfl
  rintro nd k keys _ ⟨hplain, hk⟩ rfl
  use true
  simp [setImpl, hplain.type, hplain.size, hplain.depth, fromBulk_of_convert hk]

/-- A key is inserted with an initial value, and the value is set where the key is. -/
theorem mapImpl_step (mult : Multiplicity) {key value : Node} {k : K} {v : V} (hk : Taken K key k)
    (hv : Taken V value v) (pairs : List (K × V)) {current : Cursor} (h : current ≠ .singular) :
  feedUntil (mapImpl mult K V).feed [key, value] (pairs, current, true)
    = .ok ((bindPair mult pairs (k, v), .at (insertPair mult k pairs).2, true), none)
  := by
  obtain ⟨hkey, hk⟩ := hk
  obtain ⟨hvalue, hv⟩ := hv
  have hfirst : (mapImpl mult K V).feed key (pairs, current, true)
      = .ok (((insertPair mult k pairs).1, .at (insertPair mult k pairs).2, false), none) := by
    simp [mapImpl, hkey.type, hkey.size, hkey.depth, h, fromBulk_of_convert hk]
  have hsecond : (mapImpl mult K V).feed value
        ((insertPair mult k pairs).1, .at (insertPair mult k pairs).2, false)
      = .ok ((bindPair mult pairs (k, v), .at (insertPair mult k pairs).2, true), none) := by
    simp [mapImpl, hvalue.type, hvalue.size, hvalue.depth, fromBulk_of_convert hv, bindPair]
  rw [feedUntil_cons, hfirst, feedUntil.resume, feedUntil_singleton, hsecond]

theorem mapImpl_run (mult : Multiplicity) {ps : List (Node × Node)} {items : List (K × V)}
    (h : List.Forall₂ (fun p item => Taken K p.1 item.1 ∧ Taken V p.2 item.2) ps items) :
  ∃ p, feedUntil (mapImpl mult K V).feed (ps.flatMap fun p => [p.1, p.2]) ([], .stop, true)
      = .ok (p, none)
    ∧ p.1 = items.foldl (bindPair mult) []
  := by
  apply feedUntil_flatMap _ (fun p : Node × Node => [p.1, p.2]) Prod.fst (bindPair mult)
    (fun s => s.2.1 ≠ .singular ∧ s.2.2 = true) _ h ⟨by simp, rfl⟩
  rintro _ item ⟨pairs, current, _⟩ ⟨hk, hv⟩ ⟨hcurrent, rfl⟩
  exact ⟨_, mapImpl_step mult hk hv pairs hcurrent, ⟨by simp, rfl⟩, rfl⟩

/-- What a sequence holds after elements have been added at its end. -/
theorem exists_foldl_append {α S : Type} {left : Fed (List α × S)} {items : List α}
    (h : ∃ s, left = .ok ((items.foldl (fun xs x => xs ++ [x]) [], s), none)) :
  ∃ s, left = .ok ((items, s), none)
  := by
  rwa [Assoc.foldl_append_singleton] at h

theorem vectorImpl_run (maxSize : ℕ) {nds : List Node} {items : List T}
    (h : List.Forall₂ (Taken T) nds items) :
  ∃ s, feedUntil (vectorImpl maxSize T).feed nds ([], ()) = .ok ((items, s), none)
  := by
  apply exists_foldl_append
  apply feedUntil_each _ (fun _ => True) _ h trivial
  rintro nd x xs s ⟨hplain, hx⟩ _
  use ()
  simp [vectorImpl, hplain.type, fromBulk_of_convert hx]

theorem listImpl_run {nds : List Node} {items : List T} (h : List.Forall₂ (Taken T) nds items) :
  ∃ s, feedUntil (listImpl T).feed nds ([], ()) = .ok ((items, s), none)
  := by
  apply exists_foldl_append
  apply feedUntil_each _ (fun _ => True) _ h trivial
  rintro nd x xs s ⟨hplain, hx⟩ _
  use ()
  simp [listImpl, hplain.type, hplain.size, hplain.depth, fromBulk_of_convert hx]

/-- What `array_impl` does with a node. -/
def feedArray (n : ℕ) (T : Type) [FromBulk T] (nd : Node) (s : List T × ℤ) : Fed (List T × ℤ) :=
  (arrayImpl n T).feed nd s

/-- An element of an array is set, unless it is the last that an `int` can count. -/
theorem arrayImpl_step (n : ℕ) {nd : Node} {x : T} (h : Taken T nd x) (done rest : List T) :
  feedArray n T nd (done ++ FromBulk.initial :: rest, (done.length : ℤ))
    = if (done.length : ℤ) = intMax then .error .overflow
      else .ok ((done ++ x :: rest, (done.length : ℤ) + 1), none)
  := by
  obtain ⟨hplain, hx⟩ := h
  have hindex : ¬ (done.length : ℤ) = -1 := by omega
  simp [feedArray, arrayImpl, hplain.type, hplain.size, hindex, fromBulk_of_convert hx]

/-- The elements of an array are set one by one, unless an `int` cannot count them. -/
theorem arrayImpl_run (n : ℕ) {nds : List Node} {items : List T}
    (h : List.Forall₂ (Taken T) nds items) (done : List T) (hdone : (done.length : ℤ) ≤ intMax) :
  ∃ i, feedUntil (feedArray n T) nds
      (done ++ List.replicate items.length FromBulk.initial, (done.length : ℤ))
    = if (done.length + items.length : ℤ) ≤ intMax then .ok ((done ++ items, i), none)
      else .error .overflow
  := by
  induction h generalizing done with
  | nil =>
      use done.length
      rw [if_pos (by simpa using hdone)]
      rfl
  | cons hnd hnds ih =>
      rename_i nd x nds items
      have hstep := arrayImpl_step n hnd done (List.replicate items.length FromBulk.initial)
      rw [List.length_cons, List.replicate_succ, feedUntil_cons, hstep]
      push_cast
      by_cases hmax : (done.length : ℤ) = intMax
      · use 0
        rw [if_pos hmax, if_neg (by omega)]
        rfl
      · obtain ⟨i, hrest⟩ := ih (done ++ [x]) (by simp; omega)
        use i
        rw [if_neg hmax, feedUntil.resume]
        simpa [add_assoc, add_comm, add_left_comm] using hrest

end Runs

/-! ### Flat aggregates -/

namespace ElementType

/-- A reply that is neither an error nor null is given to the adapter of the container. -/
theorem read_eq (t : ElementType) {nd : Node} {nds : List Node}
    (herror : isErrorType nd.dataType = false) (hnull : nd.dataType ≠ .null) :
  t.read (nd :: nds)
    = mapState (fun p => .ok p.1) (feedUntil t.impl.feed (nd :: nds) t.impl.ready)
  := by
  have hread : t.read (nd :: nds) = mapState WrapperState.result
      (feedUntil (feedValue t.impl) (nd :: nds)
        ⟨.ok t.impl.initial, t.impl.onValueAvailable t.impl.start, false⟩) := rfl
  rw [hread, feedUntil_cons, feedValue_first herror hnull, feedUntil_cons]
  rcases t.impl.feed nd t.impl.ready with thrown | ⟨p, _ | ec⟩
  · rfl
  · have hrest := feedUntil_mapState t.impl.feed feedValue_holding nds p
    simp only [mapState, Except.map, feedUntil.resume] at hrest ⊢
    rw [hrest]
    cases feedUntil t.impl.feed nds p <;> rfl
  · rfl

/-- An aggregate is given to the adapter of the container, its header first. -/
theorem read_aggregate (t : ElementType) {dt : DataType} (h : isAggregate dt = true) (size : ℕ)
    (nds : List Node) :
  t.read (⟨dt, size, 0, []⟩ :: nds)
    = mapState (fun p => .ok p.1)
      (feedUntil.resume t.impl.feed nds (t.impl.feed ⟨dt, size, 0, []⟩ t.impl.ready))
  := by
  rw [t.read_eq, feedUntil_cons]
  · cases dt <;> first | rfl | cases h
  · rintro rfl
    cases h

theorem Converts.taken {T : Type} [FromBulk T] {nds : List Node} {items : List T}
    (hplain : ∀ nd ∈ nds, Plain nd)
    (h : List.Forall₂ (fun nd x => convert T nd = some x) nds items) :
  List.Forall₂ (Taken T) nds items
  := by
  apply (List.forall₂_and_left nds items).mpr ⟨hplain, h⟩

section Headers

variable {T K V : Type} [FromBulk T] [FromBulk K] [DecidableEq K] [FromBulk V] {dt : DataType}
  {size total : ℕ} {nds : List Node}

/-- What is left of a container that has taken everything in. -/
theorem computes_of_run {t : ElementType} {items : List t.Item}
    (htotal : t.mismatches total = false) {left : Fed (t.Value × t.impl.State)}
    {p : t.Value × t.impl.State} (hrun : left = .ok (p, none)) (hdenotes : t.Denotes items p.1) :
  t.Computes items total (mapState (fun p => .ok p.1) left)
  := by
  rw [Computes, htotal, hrun]
  exact ⟨p.1, rfl, hdenotes⟩

/-- Nothing is left if an exception is thrown. -/
theorem not_computes_of_thrown {t : ElementType} {items : List t.Item}
    {left : Fed (t.Value × t.impl.State)} {e : Thrown} (hrun : left = .error e) :
  ¬ t.Computes items total (mapState (fun p => .ok p.1) left)
  := by
  rw [Computes, hrun]
  split
  · rintro ⟨_, ⟨⟩⟩
  · rintro ⟨_, ⟨⟩, _⟩

theorem computes_of_mismatch {t : ElementType} {items : List t.Item}
    (htotal : t.mismatches total = true) {left : Fed (t.Value × t.impl.State)}
    {p : t.Value × t.impl.State} (hrun : left = .ok (p, some (.redis .incompatibleSize))) :
  t.Computes items total (mapState (fun p => .ok p.1) left)
  := by
  rw [Computes, htotal, hrun]
  exact ⟨_, rfl⟩

theorem computes_set (mult : Multiplicity) {items : List K}
    (h : List.Forall₂ (Taken K) nds items) :
  (set mult K).Computes items total ((set mult K).read (⟨.set, size, 0, []⟩ :: nds))
  := by
  obtain ⟨s, hrun⟩ := setImpl_run mult h
  rw [read_aggregate _ rfl]
  apply computes_of_run rfl hrun
  apply setOf_insertKey

theorem computes_map (mult : Multiplicity) (hdt : (dt = .map || dt = .attribute) = true)
    {ps : List (Node × Node)} {items : List (K × V)}
    (h : List.Forall₂ (fun p item => Taken K p.1 item.1 ∧ Taken V p.2 item.2) ps items) :
  (map mult K V).Computes items total
    ((map mult K V).read (⟨dt, size, 0, []⟩ :: ps.flatMap fun p => [p.1, p.2]))
  := by
  obtain ⟨p, hrun, hp⟩ := mapImpl_run mult h
  have hheader : dt = .map ∨ dt = .attribute := by simpa using hdt
  rcases hheader with rfl | rfl
  all_goals
    rw [read_aggregate _ rfl]
    apply computes_of_run rfl hrun
    rw [hp]
    apply mapOf_bindPair

theorem computes_list (hdt : isAggregate dt = true) {items : List T}
    (h : List.Forall₂ (Taken T) nds items) :
  (list T).Computes items total ((list T).read (⟨dt, size, 0, []⟩ :: nds))
  := by
  obtain ⟨s, hrun⟩ := listImpl_run h
  have hheader : (list T).impl.feed ⟨dt, size, 0, []⟩ (list T).impl.ready = .ok (([], ()), none) :=
    if_pos hdt
  rw [read_aggregate _ hdt, hheader]
  apply computes_of_run rfl hrun
  rfl

/-- A vector reserves what the header announces. -/
theorem computes_vector_iff (maxSize : ℕ) (hdt : isAggregate dt = true)
    (htotal : size * elementMultiplicity dt % 2 ^ 64 = total) {items : List T}
    (h : List.Forall₂ (Taken T) nds items) :
  (vector maxSize T).Computes items total ((vector maxSize T).read (⟨dt, size, 0, []⟩ :: nds))
    ↔ total ≤ maxSize
  := by
  have hheader : (vector maxSize T).impl.feed ⟨dt, size, 0, []⟩ (vector maxSize T).impl.ready
      = if maxSize < total then .error .lengthError else .ok (([], ()), none) := by
    rw [← htotal]
    simp [impl, vectorImpl, Impl.ready, hdt, Nat.mul_comm]
    rfl
  rw [read_aggregate _ hdt, hheader]
  by_cases hroom : maxSize < total
  · apply iff_of_false _ (not_le.mpr hroom)
    rw [if_pos hroom]
    apply not_computes_of_thrown rfl
  · apply iff_of_true _ (not_lt.mp hroom)
    rw [if_neg hroom]
    obtain ⟨s, hrun⟩ := vectorImpl_run maxSize h
    apply computes_of_run rfl hrun
    rfl

/-- An array has the size of the reply, and counts with an `int`. -/
theorem computes_array_iff (n : ℕ) (hdt : isAggregate dt = true)
    (htotal : size * elementMultiplicity dt % 2 ^ 64 = total) {items : List T}
    (hitems : items.length = total) (h : List.Forall₂ (Taken T) nds items) :
  (array n T).Computes items total ((array n T).read (⟨dt, size, 0, []⟩ :: nds))
    ↔ n ≠ total ∨ (total : ℤ) ≤ intMax
  := by
  have hheader : (array n T).impl.feed ⟨dt, size, 0, []⟩ (array n T).impl.ready
      = if n ≠ total then .ok ((array n T).impl.ready, some (.redis .incompatibleSize))
        else .ok ((List.replicate n FromBulk.initial, (0 : ℤ)), none) := by
    rw [← htotal]
    simp [impl, arrayImpl, Impl.ready, hdt]
    rfl
  rw [read_aggregate _ hdt, hheader]
  by_cases hn : n = total
  · obtain rfl := hn
    obtain rfl := hitems
    rw [if_neg (not_not.mpr rfl)]
    obtain ⟨i, hrun⟩ := arrayImpl_run items.length h [] (by simp [intMax])
    rw [List.length_nil, Nat.cast_zero, zero_add] at hrun
    by_cases hmax : (items.length : ℤ) ≤ intMax
    · apply iff_of_true _ (Or.inr hmax)
      rw [if_pos hmax] at hrun
      apply computes_of_run (by simp [mismatches]) hrun
      rfl
    · apply iff_of_false _ (by simpa using hmax)
      rw [if_neg hmax] at hrun
      apply not_computes_of_thrown hrun
  · apply iff_of_true _ (Or.inl hn)
    rw [if_pos hn]
    apply computes_of_mismatch (by simpa [mismatches] using hn) rfl

end Headers

end ElementType

/-- The number of elements of a message is the one its header announces. -/
theorem Message.count_eq (m : Message) {dt : DataType} {size : ℕ} {elements : List Value}
    (hm : m.value = .aggregate dt size elements) :
  size * elementMultiplicity dt % 2 ^ 64 = elements.length
  := by
  have hwf := m.wellFormed
  have hlength := m.length_lt
  rw [hm] at hwf hlength
  simp only [Value.wellFormed, Bool.and_eq_true, decide_eq_true_eq] at hwf
  rw [Value.encode, List.length_append] at hlength
  have hall := length_le_encodeAll elements
  rw [← hwf.1.2]
  apply Nat.mod_eq_of_lt
  omega

/-- A flat aggregate whose elements are converted is read into the container that it denotes
exactly if the elements are not too many: a vector can hold them, and an `int` can count those of
an array. -/
theorem container_read_iff (t : ElementType) (m : Message) {dt : DataType} {size : ℕ}
    {elements : List Value} {items : List t.Item} (hm : m.value = .aggregate dt size elements)
    (hflat : elements.all isScalar = true) (haccepts : t.accepts dt = true)
    (hitems : t.Converts (Value.nodesAll 1 elements) items) :
  t.Computes items elements.length (t.read m.nodes) ↔ t.hasRoom elements.length = true
  := by
  have hcount := Message.count_eq m hm
  have hwf := m.wellFormed
  rw [hm] at hwf
  simp only [Value.wellFormed, Bool.and_eq_true, decide_eq_true_eq] at hwf
  obtain ⟨⟨hdt, _⟩, helements⟩ := hwf
  obtain ⟨hlength, hplain⟩ := plain_of_flat 0 helements hflat
  have hnodes : m.nodes = ⟨dt, size, 0, []⟩ :: Value.nodesAll 1 elements := by
    rw [Message.nodes, hm]
    rfl
  rw [hnodes]
  cases t with
  | simple T => cases haccepts
  | set mult K =>
      obtain rfl : dt = .set := by simpa [ElementType.accepts] using haccepts
      apply iff_of_true _ rfl
      apply ElementType.computes_set mult (ElementType.Converts.taken hplain hitems)
  | map mult K V =>
      obtain ⟨ps, hps, hitems⟩ := hitems
      rw [hps] at hplain ⊢
      apply iff_of_true _ rfl
      apply ElementType.computes_map mult haccepts
      have hpairs : ∀ p ∈ ps, Plain p.1 ∧ Plain p.2 := by
        intro p hp
        constructor <;> apply hplain <;> exact List.mem_flatMap.mpr ⟨p, hp, by simp⟩
      apply ((List.forall₂_and_left ps items).mpr ⟨hpairs, hitems⟩).imp
      rintro p item ⟨⟨hkey, hvalue⟩, hk, hv⟩
      exact ⟨⟨hkey, hk⟩, hvalue, hv⟩
  | vector maxSize T =>
      apply (ElementType.computes_vector_iff maxSize hdt hcount
        (ElementType.Converts.taken hplain hitems)).trans
      simp [ElementType.hasRoom]
  | array n T =>
      have hlong : items.length = elements.length := (hitems.length_eq).symm.trans hlength
      apply (ElementType.computes_array_iff (T := T) n hdt hcount hlong
        (ElementType.Converts.taken hplain hitems)).trans
      simp [ElementType.hasRoom]
  | list T =>
      apply iff_of_true _ rfl
      apply ElementType.computes_list hdt (ElementType.Converts.taken hplain hitems)

/-- A map with a key that comes twice. -/
def repeatedKey : Message where
  value := .aggregate .map 3 [.bulk .blobString (ascii "a"), .simple .number (ascii "1"),
    .bulk .blobString (ascii "b"), .simple .number (ascii "2"),
    .bulk .blobString (ascii "a"), .simple .number (ascii "3")]
  wellFormed := by decide
  height_le := by decide
  length_lt := by decide

/-- A key that comes twice is bound to its last value. -/
theorem container_read_map :
  let t := ElementType.map .unique Bytes Bytes
  t.Computes [(ascii "a", ascii "1"), (ascii "b", ascii "2"), (ascii "a", ascii "3")] 6
    (t.read repeatedKey.nodes)
  := by
  intro t
  apply (container_read_iff t repeatedKey rfl rfl rfl _).mpr rfl
  exact ⟨[(⟨.blobString, 1, 1, ascii "a"⟩, ⟨.number, 1, 1, ascii "1"⟩),
    (⟨.blobString, 1, 1, ascii "b"⟩, ⟨.number, 1, 1, ascii "2"⟩),
    (⟨.blobString, 1, 1, ascii "a"⟩, ⟨.number, 1, 1, ascii "3"⟩)], rfl,
    .cons ⟨rfl, rfl⟩ (.cons ⟨rfl, rfl⟩ (.cons ⟨rfl, rfl⟩ .nil))⟩

/-! ### Messages of many strings -/

/-- An array of empty strings. -/
def emptyStrings (n : ℕ) : Value :=
  .aggregate .array n (List.replicate n (.simple .simpleString []))

section EmptyStrings

open Value

theorem wellFormedAll_emptyStrings :
  ∀ n, wellFormedAll (List.replicate n (.simple .simpleString [])) = true
  | 0 => rfl
  | n + 1 => by
      rw [List.replicate_succ, wellFormedAll, wellFormedAll_emptyStrings n]
      decide

theorem heightAll_emptyStrings :
  ∀ n, heightAll (List.replicate n (.simple .simpleString [])) ≤ 1
  | 0 => by decide
  | n + 1 => by
      rw [List.replicate_succ, heightAll]
      exact max_le le_rfl (heightAll_emptyStrings n)

theorem length_encodeAll_emptyStrings :
  ∀ n, (encodeAll (List.replicate n (.simple .simpleString []))).length = 3 * n
  | 0 => rfl
  | n + 1 => by
      rw [List.replicate_succ, encodeAll, List.length_append, length_encodeAll_emptyStrings n,
        Nat.mul_succ, Nat.add_comm]
      rfl

theorem all_isScalar_emptyStrings (n : ℕ) :
  (List.replicate n (Value.simple .simpleString [])).all isScalar = true
  := by
  rw [List.all_eq_true]
  intro v hv
  rw [List.eq_of_mem_replicate hv]
  rfl

/-- Empty strings are converted to empty strings. -/
theorem converts_emptyStrings (size : ℕ) :
  ∀ n, (ElementType.array size Bytes).Converts
    (nodesAll 1 (List.replicate n (.simple .simpleString []))) (List.replicate n ([] : Bytes))
  | 0 => .nil
  | n + 1 => .cons rfl (converts_emptyStrings size n)

theorem length_encode_emptyStrings :
  (emptyStrings (2 ^ 31 + 1)).encode.length < 2 ^ 64
  := by
  have hnumeral : (Decimal.numeral (2 ^ 31 + 1)).length = 10 := by
    norm_num [Decimal.numeral]
  rw [emptyStrings, Value.encode, List.length_append, length_encodeAll_emptyStrings]
  simp only [addHeader, List.length_append, hnumeral, List.length_singleton, List.length_nil]
  decide

end EmptyStrings

/-- An array of more strings than an `int` can count is not read. -/
theorem container_read_overflow :
  let n := 2 ^ 31 + 1
  let t := ElementType.array n Bytes
  let elements := List.replicate n (Value.simple .simpleString [])
  ∃ m : Message, m.value = .aggregate .array n elements
    ∧ elements.all isScalar = true ∧ t.accepts .array = true
    ∧ t.Converts (Value.nodesAll 1 elements) (List.replicate n ([] : Bytes))
    ∧ ¬ t.Computes (List.replicate n ([] : Bytes)) elements.length (t.read m.nodes)
  := by
  intro n t elements
  have hwf : (emptyStrings n).wellFormed = true := by
    simp [emptyStrings, Value.wellFormed, wellFormedAll_emptyStrings, isAggregate,
      elementMultiplicity]
  have hheight : (emptyStrings n).height ≤ maxEmbeddedDepth :=
    (heightAll_emptyStrings n).trans (by decide)
  have hlength : elements.length = n := List.length_replicate
  obtain ⟨_, hplain⟩ := plain_of_flat 0 (wellFormedAll_emptyStrings n)
    (all_isScalar_emptyStrings n)
  refine ⟨⟨emptyStrings n, hwf, hheight, length_encode_emptyStrings⟩, rfl,
    all_isScalar_emptyStrings n, rfl, converts_emptyStrings n n, ?_⟩
  rw [hlength]
  apply mt (ElementType.computes_array_iff (T := Bytes) n rfl (by decide) List.length_replicate
    (ElementType.Converts.taken hplain (converts_emptyStrings n n))).mp
  rw [not_or, not_not]
  exact ⟨rfl, by decide⟩

end Redis
