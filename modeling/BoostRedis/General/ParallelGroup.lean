import Mathlib.Data.List.Basic
import Mathlib.Logic.Function.Basic

/-!
# Parallel groups

The operations of a group are suspended on resources.  When what an operation waits for has ended,
its handler is queued, with the result.  Handlers run one at a time, and an operation whose handler
runs completes or suspends again.  When an operation completes, the group may cancel others.

A `GroupOps` has what can be done with a group, on states of any type, and what can be seen of a
state.  What one may assume is its `Contract`.  It does not say which handler runs next, nor which
operations are cancelled and with which results these are resumed.

A `ParallelGroup` keeps the contract.  The first operation of it that completes with an error
cancels the others.
-/

universe u v w x

/-- A group of operations of type `τ`, on resources of type `α`, with errors of type `ε` and states
in `G`: the operations that have completed in this order, and those whose handlers were queued in
this order, with their results; what an operation is suspended on, or was suspended on last; and
whether that was cancelled by the group.

* A group starts with operations that have completed at once, and handlers that were queued at once.
* What an operation is suspended on ends, or all operations that are suspended on a resource are
  resumed with an error.
* An operation whose handler runs completes, or suspends again. -/
structure GroupOps (τ : Type u) (α : Type v) (ε : Type w) (G : Type x) where
  start : List (τ × Option ε) → List (τ × Option ε) → (τ → α) → G
  order : G → List (τ × Option ε)
  ready : G → List (τ × Option ε)
  awaits : G → τ → α
  isCancelled : G → τ → Bool
  wake : G → τ → Option ε → G
  release : G → α → ε → G
  complete : G → τ → Option ε → G
  suspend : G → τ → α → G

namespace GroupOps

variable {τ : Type u} {α : Type v} {ε : Type w} {G : Type x} (ops : GroupOps τ α ε G)

/-- The operations that are not suspended.  The handler of an operation is queued until it has
run. -/
def active (g : G) : List τ := (ops.order g).map Prod.fst ++ (ops.ready g).map Prod.fst

/-- The handlers `new` were queued, of operations that were suspended. -/
structure Queues (g g' : G) (new : List (τ × Option ε)) : Prop where
  order : ops.order g' = ops.order g
  awaits : ops.awaits g' = ops.awaits g
  ready : ops.ready g' = ops.ready g ++ new
  suspended : ∀ p ∈ new, p.1 ∉ ops.active g

/-- Handlers that satisfy `P` were queued. -/
def Posted (P : τ × Option ε → Prop) (g g' : G) : Prop :=
  ∃ new, ops.Queues g g' new ∧ ∀ p ∈ new, P p

/-- What is assumed of a group. -/
structure Contract [DecidableEq τ] : Prop where
  order_start : ∀ order ready awaits, ops.order (ops.start order ready awaits) = order
  ready_start : ∀ order ready awaits, ops.ready (ops.start order ready awaits) = ready
  awaits_start : ∀ order ready awaits, ops.awaits (ops.start order ready awaits) = awaits
  wake : ∀ g t r, ops.Posted (· = (t, r)) g (ops.wake g t r)
  release : ∀ g a e,
    ops.Posted (fun p => ops.awaits g p.1 = a ∧ p.2 = some e) g (ops.release g a e) ∧
      ∀ t, ops.awaits g t = a → t ∈ ops.active (ops.release g a e)
  /-- Other operations that are suspended may be cancelled. -/
  complete : ∀ g t r, t ∈ (ops.ready g).map Prod.fst →
    ops.order (ops.complete g t r) = ops.order g ++ [(t, r)] ∧
      ops.awaits (ops.complete g t r) = ops.awaits g ∧
      ∃ new, ops.ready (ops.complete g t r) = (ops.ready g).eraseP (·.1 = t) ++ new ∧
        ∀ p ∈ new, p.1 ∉ ops.active g
  suspend : ∀ g t a, t ∈ (ops.ready g).map Prod.fst →
    ops.order (ops.suspend g t a) = ops.order g ∧
      ops.awaits (ops.suspend g t a) = Function.update (ops.awaits g) t a ∧
      ops.ready (ops.suspend g t a) = (ops.ready g).eraseP (·.1 = t)
  /-- Nothing is cancelled before an operation has completed. -/
  isCancelled : ∀ g t, ops.isCancelled g t = true → ops.order g ≠ []

/-! ### Queueing handlers -/

variable {ops} {g g' g'' : G} {t t' : τ} {r : Option ε} {P Q : τ × Option ε → Prop}

theorem Queues.active {new : List (τ × Option ε)} (h : ops.Queues g g' new) :
  ops.active g' = ops.active g ++ new.map Prod.fst
  := by
  rw [GroupOps.active, GroupOps.active, h.order, h.ready, List.map_append, List.append_assoc]

namespace Posted

theorem refl (P : τ × Option ε → Prop) (g : G) :
  ops.Posted P g g
  := ⟨[], ⟨rfl, rfl, (List.append_nil _).symm, by simp⟩, by simp⟩

theorem subset (h : ops.Posted P g g') :
  ops.active g ⊆ ops.active g'
  := by
  obtain ⟨new, hnew, -⟩ := h
  rw [hnew.active]
  exact List.subset_append_left _ _

theorem trans (h : ops.Posted P g g') (h' : ops.Posted P g' g'') :
  ops.Posted P g g''
  := by
  have hsubset := h.subset
  obtain ⟨new, hnew, hP⟩ := h
  obtain ⟨new', hnew', hP'⟩ := h'
  refine ⟨new ++ new', ⟨hnew'.order.trans hnew.order, hnew'.awaits.trans hnew.awaits, ?_, ?_⟩, ?_⟩
  · rw [hnew'.ready, hnew.ready, List.append_assoc]
  · intro p hp
    obtain hp | hp := List.mem_append.mp hp
    · exact hnew.suspended p hp
    · exact fun hactive => hnew'.suspended p hp (hsubset hactive)
  · intro p hp
    obtain hp | hp := List.mem_append.mp hp
    · exact hP p hp
    · exact hP' p hp

theorem mono (h : ops.Posted P g g') (hsub : ∀ p, P p → Q p) :
  ops.Posted Q g g'
  := by
  obtain ⟨new, hnew, hP⟩ := h
  exact ⟨new, hnew, fun p hp => hsub p (hP p hp)⟩

theorem awaits (h : ops.Posted P g g') :
  ops.awaits g' = ops.awaits g
  := by
  obtain ⟨new, hnew, -⟩ := h
  exact hnew.awaits

theorem order (h : ops.Posted P g g') :
  ops.order g' = ops.order g
  := by
  obtain ⟨new, hnew, -⟩ := h
  exact hnew.order

/-- Nothing was queued if no operation is suspended whose handler may be queued. -/
theorem ready_eq (h : ops.Posted P g g') (hactive : ∀ p, P p → p.1 ∈ ops.active g) :
  ops.ready g' = ops.ready g
  := by
  obtain ⟨new, hnew, hP⟩ := h
  cases new with
  | nil => rw [hnew.ready, List.append_nil]
  | cons p new =>
      exact absurd (hactive p (hP p List.mem_cons_self)) (hnew.suspended p List.mem_cons_self)

end Posted

/-! ### Running handlers -/

section Run

variable [DecidableEq τ]

/-- The result with which an operation is resumed whose handler is queued. -/
def queued (ops : GroupOps τ α ε G) (g : G) (t : τ) : Option (Option ε) := (ops.ready g).lookup t

theorem mem_ready_of_queued (h : ops.queued g t = some r) :
  (t, r) ∈ ops.ready g
  := by
  obtain ⟨l, l', hl, -⟩ := List.lookup_eq_some_iff.mp h
  rw [hl]
  exact List.mem_append_right _ List.mem_cons_self

theorem mem_active_of_queued (h : ops.queued g t = some r) :
  t ∈ ops.active g
  := List.mem_append_right _ (List.mem_map_of_mem (mem_ready_of_queued h))

theorem Posted.queued (h : ops.Posted P g g') (hqueued : ops.queued g t = some r) :
  ops.queued g' t = some r
  := by
  obtain ⟨new, hnew, -⟩ := h
  rw [GroupOps.queued, hnew.ready, List.lookup_append]
  exact congrArg (Option.or · _) hqueued

/-- Other handlers stay queued when one has run. -/
theorem lookup_eraseP {l : List (τ × Option ε)} (h : t' ≠ t) :
  (l.eraseP (·.1 = t)).lookup t' = l.lookup t'
  := by
  induction l with
  | nil => rfl
  | cons p l ih =>
      by_cases hp : p.1 = t
      · have hne : (t' == p.1) = false := by
          rw [hp]
          exact beq_false_of_ne h
        rw [List.eraseP_cons_of_pos (by simpa using hp), List.lookup_cons, hne]
      · rw [List.eraseP_cons_of_neg (by simpa using hp), List.lookup_cons, List.lookup_cons, ih]

theorem mem_map_eraseP {l : List (τ × Option ε)} (h : t' ≠ t) (ht' : t' ∈ l.map Prod.fst) :
  t' ∈ (l.eraseP (·.1 = t)).map Prod.fst
  := by
  obtain ⟨p, hp, rfl⟩ := List.mem_map.mp ht'
  exact List.mem_map_of_mem ((List.mem_eraseP_of_neg (by simpa using h)).mpr hp)

/-- No operation is suspended when one completes. -/
theorem subset_completed {order ready : List (τ × Option ε)} :
  order.map Prod.fst ++ ready.map Prod.fst ⊆
    (order ++ [(t, r)]).map Prod.fst ++ (ready.eraseP (·.1 = t)).map Prod.fst
  := by
  intro t' ht'
  rw [List.map_append, List.append_assoc]
  obtain ht' | ht' := List.mem_append.mp ht'
  · exact List.mem_append_left _ ht'
  · apply List.mem_append_right
    by_cases hne : t' = t
    · exact List.mem_append_left _ (List.mem_singleton.mpr hne)
    · exact List.mem_append_right _ (mem_map_eraseP hne ht')

namespace Contract

variable (h : ops.Contract) (ht : t ∈ (ops.ready g).map Prod.fst)

include h ht

theorem active_complete :
  ops.active g ⊆ ops.active (ops.complete g t r)
  := by
  obtain ⟨horder, -, new, hready, -⟩ := h.complete g t r ht
  have hsplit : ops.active (ops.complete g t r)
      = (ops.order g ++ [(t, r)]).map Prod.fst ++ ((ops.ready g).eraseP (·.1 = t)).map Prod.fst
        ++ new.map Prod.fst := by
    simp [active, horder, hready]
  rw [hsplit]
  exact List.subset_append_of_subset_left _ subset_completed

theorem queued_complete {r' : Option ε} (hne : t' ≠ t) (hqueued : ops.queued g t' = some r) :
  ops.queued (ops.complete g t r') t' = some r
  := by
  obtain ⟨-, -, new, hready, -⟩ := h.complete g t r' ht
  rw [queued, hready, List.lookup_append, lookup_eraseP hne]
  exact congrArg (Option.or · _) hqueued

variable {a : α}

theorem active_suspend (hne : t' ≠ t) (ht' : t' ∈ ops.active g) :
  t' ∈ ops.active (ops.suspend g t a)
  := by
  obtain ⟨horder, -, hready⟩ := h.suspend g t a ht
  rw [active, horder, hready]
  obtain ht' | ht' := List.mem_append.mp ht'
  · exact List.mem_append_left _ ht'
  · exact List.mem_append_right _ (mem_map_eraseP hne ht')

theorem queued_suspend (hne : t' ≠ t) :
  ops.queued (ops.suspend g t a) t' = ops.queued g t'
  := by
  obtain ⟨-, -, hready⟩ := h.suspend g t a ht
  rw [queued, hready, lookup_eraseP hne]
  rfl

end Contract

end Run

end GroupOps

/-! ### A group that keeps the contract -/

/-- A group with the operations that have completed and those whose handlers are queued, what the
others are suspended on, whether they were cancelled, and which of them have been suspended on
something else since. -/
structure ParallelGroup (τ : Type u) (α : Type v) (ε : Type w) where
  order : List (τ × Option ε)
  ready : List (τ × Option ε)
  awaits : τ → α
  cancelled : Bool
  spared : List τ
  completed : cancelled = true → order ≠ []

namespace ParallelGroup

variable {τ : Type u} {α : Type v} {ε : Type w} [DecidableEq τ]

/-- The handler of an operation is queued, if it is suspended. -/
def post (g : ParallelGroup τ α ε) (t : τ) (r : Option ε) : ParallelGroup τ α ε :=
  if t ∈ g.order.map Prod.fst ++ g.ready.map Prod.fst then g
  else { g with ready := g.ready ++ [(t, r)] }

/-- Handlers are queued one after the other. -/
def postAll (g : ParallelGroup τ α ε) (l : List (τ × Option ε)) : ParallelGroup τ α ε :=
  l.foldl (fun g p => g.post p.1 p.2) g

/-- The operation whose handler runs completes.  The first error cancels the operations `ts` that
are suspended, where `aborted` gives the result for a resource. -/
def complete (ts : List τ) (aborted : α → Option ε) (g : ParallelGroup τ α ε) (t : τ)
    (r : Option ε) : ParallelGroup τ α ε :=
  let g' : ParallelGroup τ α ε :=
    { g with
      order := g.order ++ [(t, r)]
      ready := g.ready.eraseP (·.1 = t)
      cancelled := r.isSome || g.cancelled
      completed := by simp }
  if r.isSome && !g.cancelled then g'.postAll (ts.map fun t => (t, aborted (g.awaits t))) else g'

/-- The operation whose handler runs suspends again. -/
def suspend (g : ParallelGroup τ α ε) (t : τ) (a : α) : ParallelGroup τ α ε :=
  { g with
    ready := g.ready.eraseP (·.1 = t)
    awaits := Function.update g.awaits t a
    spared := if g.cancelled then t :: g.spared else g.spared }

/-- A group of the operations `ts`. -/
def ops [DecidableEq α] (ts : List τ) (aborted : α → Option ε) :
    GroupOps τ α ε (ParallelGroup τ α ε) where
  start order ready awaits := ⟨order, ready, awaits, false, [], by simp⟩
  order := order
  ready := ready
  awaits := awaits
  isCancelled g t := g.cancelled && decide (t ∉ g.spared)
  wake := post
  release g a e := g.postAll ((ts.filter (g.awaits · = a)).map (·, some e))
  complete := complete ts aborted
  suspend := suspend

variable [DecidableEq α] {ts : List τ} {aborted : α → Option ε} {g : ParallelGroup τ α ε}
variable {P : τ × Option ε → Prop} {t : τ} {r : Option ε}

theorem posted_post (hP : P (t, r)) :
  (ops ts aborted).Posted P g (g.post t r)
  := by
  rw [post]
  split
  · exact .refl P g
  · rename_i hnot
    refine ⟨[(t, r)], ⟨rfl, rfl, rfl, ?_⟩, by simpa using hP⟩
    intro p hp
    rw [List.mem_singleton.mp hp]
    exact hnot

theorem mem_active_post (g : ParallelGroup τ α ε) (t : τ) (r : Option ε) :
  t ∈ (ops ts aborted).active (g.post t r)
  := by
  rw [post]
  split
  · assumption
  · simp [GroupOps.active, ops]

theorem posted_postAll {l : List (τ × Option ε)} (hP : ∀ p ∈ l, P p) :
  (ops ts aborted).Posted P g (g.postAll l)
  := by
  induction l generalizing g with
  | nil => exact .refl P g
  | cons p l ih =>
      obtain ⟨hp, hl⟩ := List.forall_mem_cons.mp hP
      exact (posted_post hp).trans (ih hl)

theorem mem_active_postAll {l : List (τ × Option ε)} {p : τ × Option ε} (hp : p ∈ l) :
  p.1 ∈ (ops ts aborted).active (g.postAll l)
  := by
  induction l generalizing g with
  | nil => cases hp
  | cons q l ih =>
      obtain rfl | hp := List.mem_cons.mp hp
      · have hlater :
            (ops ts aborted).Posted (fun _ => True) (g.post p.1 p.2)
              ((g.post p.1 p.2).postAll l) :=
          posted_postAll fun _ _ => trivial
        exact hlater.subset (mem_active_post g p.1 p.2)
      · exact ih hp

/-- The operation that completes stays among those that are not suspended. -/
theorem complete_spec (g : ParallelGroup τ α ε) (t : τ) (r : Option ε) :
  (g.complete ts aborted t r).order = g.order ++ [(t, r)] ∧
    (g.complete ts aborted t r).awaits = g.awaits ∧
    ∃ new, (g.complete ts aborted t r).ready = g.ready.eraseP (·.1 = t) ++ new ∧
      ∀ p ∈ new, p.1 ∉ (ops ts aborted).active g
  := by
  rw [complete]
  split
  · generalize hg' : ParallelGroup.mk (g.order ++ [(t, r)]) (g.ready.eraseP (·.1 = t)) g.awaits
      (r.isSome || g.cancelled) g.spared (by simp) = g'
    have hposted : (ops ts aborted).Posted (fun _ => True) g'
        (g'.postAll (ts.map fun t => (t, aborted (g.awaits t)))) :=
      posted_postAll fun _ _ => trivial
    obtain ⟨new, hnew, -⟩ := hposted
    have hactive : (ops ts aborted).active g ⊆ (ops ts aborted).active g' := by
      rw [← hg']
      exact GroupOps.subset_completed
    refine ⟨hnew.order.trans (by rw [← hg']; rfl), hnew.awaits.trans (by rw [← hg']; rfl),
      new, hnew.ready.trans (by rw [← hg']; rfl), ?_⟩
    intro p hp hbefore
    exact hnew.suspended p hp (hactive hbefore)
  · exact ⟨rfl, rfl, [], (List.append_nil _).symm, by simp⟩

theorem contract (hts : ∀ t, t ∈ ts) (aborted : α → Option ε) :
  (ops ts aborted).Contract
  := by
  refine ⟨fun _ _ _ => rfl, fun _ _ _ => rfl, fun _ _ _ => rfl, fun g t r => posted_post rfl, ?_,
    fun g t r _ => complete_spec g t r, fun g t a _ => ⟨rfl, rfl, rfl⟩, ?_⟩
  · intro g a e
    constructor
    · apply posted_postAll
      intro p hp
      obtain ⟨t, ht, rfl⟩ := List.mem_map.mp hp
      exact ⟨of_decide_eq_true (List.mem_filter.mp ht).2, rfl⟩
    · intro t ha
      have hp : (t, some e) ∈ (ts.filter (g.awaits · = a)).map (·, some e) :=
        List.mem_map_of_mem (List.mem_filter.mpr ⟨hts t, decide_eq_true ha⟩)
      exact mem_active_postAll hp
  · intro g t hcancelled
    exact g.completed (Bool.and_eq_true_iff.mp hcancelled).1

end ParallelGroup
