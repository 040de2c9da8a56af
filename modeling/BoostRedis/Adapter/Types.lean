import BoostRedis.Adapter.Result

/-!
# The types of responses

A response is made of results, and a result holds an element, an optional element, a node, the
nodes of a reply, nothing, or a tuple of results.  `ElementType` and `ResultType` name these types,
and `ElementType.impl` and `ResultType.adapter` are the adapters that `impl_map` and
`result_traits` choose for them.

To read a reply is to adapt a response and to give its nodes to the adapter, up to the first one
for which an error is set.
-/

namespace Redis

open Resp3

/-! ### Elements -/

/-- The types with an adapter of their own in `impl_map`. -/
inductive ElementType : Type 1 where
  | simple (T : Type) [FromBulk T]
  | set (mult : Multiplicity) (K : Type) [FromBulk K] [DecidableEq K]
  | map (mult : Multiplicity) (K V : Type) [FromBulk K] [DecidableEq K] [FromBulk V]
  | vector (maxSize : ℕ) (T : Type) [FromBulk T]
  | array (n : ℕ) (T : Type) [FromBulk T]
  | list (T : Type) [FromBulk T]

namespace ElementType

/-- The values of a type. -/
def Value : ElementType → Type
  | simple T => T
  | set _ K => List K
  | map _ K V => List (K × V)
  | vector _ T | array _ T | list T => List T

/-- `impl_map`. -/
def impl : (t : ElementType) → Impl t.Value
  | simple T => simpleImpl T
  | set mult K => setImpl mult K
  | map mult K V => mapImpl mult K V
  | vector maxSize T => vectorImpl maxSize T
  | array n T => arrayImpl n T
  | list T => listImpl T

end ElementType

/-! ### Results -/

/-- The types with an adapter in `result_traits`. -/
inductive ResultType : Type 1 where
  | value (t : ElementType)
  | optional (t : ElementType)
  | node
  | nodes
  | ignore
  | tuple {n : ℕ} (elements : Fin n → ResultType)

namespace ResultType

/-- `result_traits`. -/
def adapter : ResultType → ResultAdapter
  | value t => wrapper t.impl
  | optional t => optionalWrapper t.impl
  | node => generalSimple
  | nodes => generalAggregate
  | ignore => ignoreResult
  | tuple elements => staticAggregateAdapter fun k => (elements k).adapter

end ResultType

/-- The adapter of `response<Ts...>`. -/
def responseAdapter {n : ℕ} (types : Fin n → ResultType) : ResponseAdapter :=
  staticAdapter fun k => (types k).adapter

/-! ### Reading -/

section Feeding

variable {ι σ τ : Type} (feed : ι → σ → Fed σ)

/-- Calls are made one after the other, up to the first that sets an error. -/
def feedUntil : List ι → σ → Fed σ
  | [], s => .ok (s, none)
  | x :: xs, s =>
      match feed x s with
      | .ok (s, none) => feedUntil xs s
      | stopped => stopped

/-- Whether all calls returned, and none set an error. -/
def isTaken : Fed σ → Bool
  | .ok (_, none) => true
  | _ => false

/-- What is left, seen as something else. -/
def mapState (f : σ → τ) (fed : Fed σ) : Fed τ := fed.map fun p => (f p.1, p.2)

theorem mapState_mapState {υ : Type} (g : τ → υ) (f : σ → τ) (fed : Fed σ) :
  mapState g (mapState f fed) = mapState (fun s => g (f s)) fed
  := by
  cases fed <;> rfl

/-- Calls are made after others, unless one of those stopped. -/
def feedUntil.resume (xs : List ι) : Fed σ → Fed σ
  | .ok (s, none) => feedUntil feed xs s
  | stopped => stopped

theorem feedUntil_cons (x : ι) (xs : List ι) (s : σ) :
  feedUntil feed (x :: xs) s = feedUntil.resume feed xs (feed x s)
  := by
  rw [feedUntil]
  rcases feed x s with t | ⟨s', _ | ec⟩ <;> rfl

/-- Calls can be made in two parts. -/
theorem feedUntil_append (xs ys : List ι) (s : σ) :
  feedUntil feed (xs ++ ys) s = feedUntil.resume feed ys (feedUntil feed xs s)
  := by
  induction xs generalizing s with
  | nil => rfl
  | cons x xs ih =>
      rw [List.cons_append, feedUntil_cons, feedUntil_cons]
      rcases feed x s with t | ⟨s', _ | ec⟩
      · rfl
      · apply ih
      · rfl

/-- Calls of functions that agree on the arguments. -/
theorem feedUntil_congr {feed' : ι → σ → Fed σ} :
  ∀ {xs : List ι}, (∀ x ∈ xs, feed x = feed' x) → feedUntil feed xs = feedUntil feed' xs
  | [], _ => rfl
  | x :: xs, h => by
      obtain ⟨hx, hxs⟩ := List.forall_mem_cons.mp h
      funext s
      rw [feedUntil_cons, feedUntil_cons, hx]
      rcases feed' x s with t | ⟨s', _ | ec⟩
      · rfl
      · rw [feedUntil.resume, feedUntil.resume, feedUntil_congr hxs]
      · rfl

/-- An exception that no call throws is not thrown. -/
theorem feedUntil_ne_error {e : Thrown} (h : ∀ x s, feed x s ≠ .error e) (xs : List ι) (s : σ) :
  feedUntil feed xs s ≠ .error e
  := by
  induction xs generalizing s with
  | nil => rintro ⟨⟩
  | cons x xs ih =>
      rw [feedUntil_cons]
      have hx := h x s
      generalize feed x s = fed at hx ⊢
      rcases fed with t | ⟨s', _ | ec⟩
      · apply hx
      · apply ih
      · rintro ⟨⟩

theorem feedUntil_singleton (x : ι) (s : σ) :
  feedUntil feed [x] s = feed x s
  := by
  rw [feedUntil_cons]
  rcases feed x s with t | ⟨s', _ | ec⟩ <;> rfl

theorem isTaken_mapState (f : σ → τ) (fed : Fed σ) :
  isTaken (mapState f fed) = isTaken fed
  := by
  rcases fed with t | ⟨s, _ | ec⟩ <;> rfl

/-- Calls that correspond to calls for another state leave what corresponds to it. -/
theorem feedUntil_mapState {feed' : ι → τ → Fed τ} {f : σ → τ}
    (h : ∀ x s, feed' x (f s) = mapState f (feed x s)) (xs : List ι) (s : σ) :
  feedUntil feed' xs (f s) = mapState f (feedUntil feed xs s)
  := by
  induction xs generalizing s with
  | nil => rfl
  | cons x xs ih =>
      rw [feedUntil_cons, feedUntil_cons, h]
      rcases feed x s with t | ⟨s', _ | ec⟩
      · rfl
      · apply ih
      · rfl

/-- Calls with arguments that are looked up. -/
theorem feedUntil_map {κ : Type} (f : κ → ι) (ks : List κ) (s : σ) :
  feedUntil feed (ks.map f) s = feedUntil (fun k => feed (f k)) ks s
  := by
  induction ks generalizing s with
  | nil => rfl
  | cons k ks ih =>
      rw [List.map_cons, feedUntil_cons, feedUntil_cons]
      rcases feed (f k) s with t | ⟨s', _ | ec⟩
      · rfl
      · apply ih
      · rfl

/-- Calls are made in groups, and each group takes one item into what is seen of the state. -/
theorem feedUntil_flatMap {κ α : Type} (group : κ → List ι) {R : κ → α → Prop} (seen : σ → τ)
    (next : τ → α → τ) (P : σ → Prop)
    (hstep : ∀ k a s, R k a → P s →
      ∃ s', feedUntil feed (group k) s = .ok (s', none) ∧ P s' ∧ seen s' = next (seen s) a)
    {ks : List κ} {items : List α} {s : σ} (h : List.Forall₂ R ks items) (hs : P s) :
  ∃ s', feedUntil feed (ks.flatMap group) s = .ok (s', none)
    ∧ seen s' = items.foldl next (seen s)
  := by
  induction h generalizing s with
  | nil => exact ⟨s, rfl, rfl⟩
  | cons hk _ ih =>
      obtain ⟨s', hgroup, hs', hseen⟩ := hstep _ _ s hk hs
      rw [List.flatMap_cons, feedUntil_append, hgroup, List.foldl_cons, ← hseen]
      apply ih hs'

end Feeding

/-- A reply is read into a result. -/
def ResultAdapter.read (A : ResultAdapter) (r : A.Response) (nds : List Node) : Fed A.Response :=
  match A.adapt r with
  | .error t => .error t
  | .ok s => mapState A.response (feedUntil A.feed nds s)

/-- What is read is the response of an adapter. -/
theorem ResultAdapter.exists_response_of_read {A : ResultAdapter} {r r' : A.Response}
    {nds : List Node} {ec : Option ErrorCode} (h : A.read r nds = .ok (r', ec)) :
  ∃ s, r' = A.response s
  := by
  rw [ResultAdapter.read] at h
  split at h
  · cases h
  · rename_i s _
    rcases hfed : feedUntil A.feed nds s with t | ⟨s', ec'⟩
    · rw [hfed] at h
      cases h
    · rw [hfed] at h
      cases h
      exact ⟨s', rfl⟩

/-- The calls for some replies, with the index of each. -/
def replyCalls (replies : List (List Node)) : List (ℕ × Node) :=
  replies.zipIdx.flatMap fun (nds, i) => nds.map (i, ·)

/-- Replies are read into a response. -/
def ResponseAdapter.read (A : ResponseAdapter) (r : A.Response) (replies : List (List Node)) :
    Fed A.Response :=
  match A.adapt r with
  | .error t => .error t
  | .ok s =>
      mapState A.response (feedUntil (fun (i, nd) => A.feed i nd) (replyCalls replies) s)

end Redis
