import BoostRedis.Multiplexer.Order

/-!
# Requests with priority

In every state the requests that wait are behind those that were sent (`Prioritised`), so
`prepare_write`, which looks for the first request that waits, stages all of them, and a `HELLO`
with priority is added in front of them.  On a new connection, where all requests wait, such a
`HELLO` is the first thing that is written (`HelloFirst`).
-/

namespace Redis

open Resp3

variable {ρ : Type}

namespace Multiplexer

/-- The requests that were sent, or are being sent. -/
def sent (m : Multiplexer ρ) : List (Elem ρ) := m.reqs.filter (!·.isWaiting)

/-- The requests that wait. -/
def queued (m : Multiplexer ρ) : List (Elem ρ) := m.reqs.filter Elem.isWaiting

end Multiplexer

/-- The payloads of requests, one after the other. -/
def payloads (reqs : List (Elem ρ)) : Bytes := (reqs.map (·.req.payload)).flatten

/-- The requests that wait are behind those that were sent, a request is added in front of them
if it has priority and behind them if not, and `prepare_write` stages just the requests that
wait. -/
structure Prioritised (w : World ρ) : Prop where
  order : w.mpx.reqs = w.mpx.sent ++ w.mpx.queued
  priority : ∀ req adapter response, req.hasHelloPriority = true →
    (w.operate (.add req adapter response)).mpx.reqs
      = w.mpx.sent ++ .make w.nextId req adapter response :: w.mpx.queued
  last : ∀ req adapter response, req.hasHelloPriority = false →
    (w.operate (.add req adapter response)).mpx.reqs
      = w.mpx.reqs ++ [.make w.nextId req adapter response]
  staged : (w.operate .prepareWrite).mpx.reqs = w.mpx.sent ++ w.mpx.queued.map Elem.markStaged ∧
    w.mpx.prepareWrite.value = w.mpx.queued.length

theorem Orderly.split_sent {w : World ρ} (h : Orderly w) :
  Split w.mpx.reqs w.mpx.sent w.mpx.queued
  := by
  obtain ⟨sent, queued, hsplit⟩ := h.split
  obtain ⟨hsent, hqueued⟩ := hsplit.filter_waiting
  rw [Multiplexer.sent, Multiplexer.queued, hsent, hqueued]
  apply hsplit

theorem Orderly.prioritised {w : World ρ} (h : Orderly w) :
  Prioritised w
  := by
  have hsplit := h.split_sent
  obtain ⟨hsent, hqueued⟩ := hsplit.takeWhile_sent
  constructor
  · apply hsplit.eq
  · intro req adapter response hpriority
    exact hsplit.add_priority rfl hpriority
  · intro req adapter response hpriority
    exact Split.add_last hpriority
  · constructor
    · rw [← hsent, ← hqueued]
      rfl
    · rw [← hqueued]
      rfl

/-! ### The first write on a connection -/

/-- A request with priority is added. -/
def Action.addsPriority : Action ρ → Bool
  | .add req _ _ => req.hasHelloPriority
  | _ => false

/-- A step before the first `prepare_write`. -/
def World.UnsentStep (w : World ρ) (a : Action ρ) (w' : World ρ) : Prop :=
  w.OpenStep a w' ∧ a.isPrepareWrite = false

/-- After a reset, a request with priority that is added before the first `prepare_write`, and
is still in the queue then, is behind no others than those with priority that were added later.
So it is the first in the write buffer, if there are none. -/
def HelloFirst (w : World ρ) : Prop :=
  ∀ as v req adapter response as' v' e, Run World.UnsentStep (w.operate .reset) as v →
    req.hasHelloPriority = true →
    Run World.UnsentStep (v.operate (.add req adapter response)) as' v' →
    e ∈ v'.mpx.reqs → e.id = v.nextId →
    ∃ before behind, v'.mpx.reqs = before ++ e :: behind ∧
      (v'.operate .prepareWrite).mpx.writeBuffer
        = payloads before ++ (req.payload ++ payloads behind) ∧
      (∀ b ∈ before, b.req.hasHelloPriority = true ∧ e.id < b.id) ∧
      ((∀ a ∈ as', a.addsPriority = false) → before = [])

/-- Nothing was sent on the connection. -/
structure Unsent (w : World ρ) : Prop where
  orderly : Orderly w
  waiting : ∀ e ∈ w.mpx.reqs, e.isWaiting = true
  writeBuffer : w.mpx.writeBuffer = []

/-- The request `req` was added with the number `id`.  All requests in front of it have priority,
and are newer. -/
structure Yields (id : ℕ) (req : Request) (w : World ρ) : Prop where
  added : id < w.nextId
  named : ∀ x ∈ w.mpx.entries, x.1 = id → x.2 = req
  front : w.mpx.entries.Pairwise fun x y => y.1 = id → x.2.hasHelloPriority = true ∧ id < x.1

/-- No request that is newer than the request with number `id` has priority. -/
def Newest (id : ℕ) (w : World ρ) : Prop :=
  ∀ x ∈ w.mpx.entries, id < x.1 → x.2.hasHelloPriority = false

namespace Unsent

variable {w w' : World ρ} {a : Action ρ} {id : ℕ}

theorem split (h : Unsent w) :
  Split w.mpx.reqs [] w.mpx.reqs
  := ⟨rfl, by simp, h.waiting⟩

theorem reset (h : Orderly w) (hwaiting : ∀ e ∈ w.mpx.reqs, e.isWaiting = true) :
  Unsent (w.operate .reset)
  := ⟨h.step .reset, hwaiting, rfl⟩

/-- A request is added. -/
theorem entries_add (h : Unsent w) (req : Request) (adapter : ℕ → Adapter ρ) (response : ρ) :
  (w.operate (.add req adapter response)).mpx.entries
    = if req.hasHelloPriority then (w.nextId, req) :: w.mpx.entries
      else w.mpx.entries ++ [(w.nextId, req)]
  := by
  rw [Multiplexer.entries]
  show List.map _ (w.mpx.add _).reqs = _
  split
  · rename_i hpriority
    rw [h.split.add_priority (e := .make w.nextId req adapter response) rfl hpriority]
    rfl
  · rename_i hpriority
    rw [Split.add_last (e := .make w.nextId req adapter response)
      (Bool.eq_false_of_not_eq_true hpriority), List.map_append]
    rfl

/-- Every operation other than `prepare_write`. -/
theorem step (h : Unsent w) (ha : a.isPrepareWrite = false) :
  Unsent (w.operate a)
  := by
  refine ⟨h.orderly.step a, World.waiting_operate h.waiting ha, ?_⟩
  cases hwrites : a.writes with
  | false => exact (World.writeBuffer_operate hwrites).trans h.writeBuffer
  | true =>
      cases a with
      | commitWrite | reset => rfl
      | prepareWrite => cases ha
      | _ => cases hwrites

theorem run {as : List (Action ρ)} (h : Unsent w) (hrun : Run World.UnsentStep w as w') :
  Unsent w'
  := by
  apply hrun.invariant _ h
  rintro w a _ h ⟨⟨-, rfl⟩, ha⟩
  apply h.step ha

end Unsent

section Yields

variable {w w' : World ρ} {a : Action ρ} {id : ℕ} {req : Request}

theorem lt_nextId_of_mem (h : Unsent w) {x : ℕ × Request} (hx : x ∈ w.mpx.entries) :
  x.1 < w.nextId
  := by
  apply h.orderly.lt_nextId
  rw [Multiplexer.ids_eq]
  exact List.mem_map_of_mem hx

/-- The request with priority itself is added. -/
theorem Yields.hello (h : Unsent w) (adapter : ℕ → Adapter ρ) (response : ρ)
    (hpriority : req.hasHelloPriority = true) :
  Yields w.nextId req (w.operate (.add req adapter response)) ∧
    Newest w.nextId (w.operate (.add req adapter response))
  := by
  have hold : ∀ x ∈ w.mpx.entries, x.1 ≠ w.nextId := fun x hx => (lt_nextId_of_mem h hx).ne
  have hentries := h.entries_add req adapter response
  rw [if_pos hpriority] at hentries
  refine ⟨⟨Nat.lt_succ_self _, ?_, ?_⟩, ?_⟩
  · rw [hentries]
    intro x hx heq
    obtain rfl | hx := List.mem_cons.mp hx
    · rfl
    · exact absurd heq (hold x hx)
  · rw [hentries]
    refine List.pairwise_cons.mpr ⟨fun y hy heq => absurd heq (hold y hy), ?_⟩
    apply List.Pairwise.imp_of_mem (R := fun _ _ => True) _ (List.pairwise_of_forall fun _ _ => trivial)
    intro _ y _ hy _ heq
    exact absurd heq (hold y hy)
  · rw [Newest, hentries]
    intro x hx hlt
    obtain rfl | hx := List.mem_cons.mp hx
    · exact absurd hlt (Nat.lt_irrefl _)
    · exact absurd hlt (Nat.lt_asymm (lt_nextId_of_mem h hx))

/-- Another request is added. -/
theorem Yields.add (h : Yields id req w) (hunsent : Unsent w) (req' : Request)
    (adapter : ℕ → Adapter ρ) (response : ρ) :
  Yields id req (w.operate (.add req' adapter response))
  := by
  have hentries := hunsent.entries_add req' adapter response
  refine ⟨Nat.lt_succ_of_lt h.added, ?_, ?_⟩
  · intro x hx heq
    have hmem : x ∈ (w.nextId, req') :: w.mpx.entries := by
      rw [hentries] at hx
      split at hx
      · apply hx
      · apply (List.perm_append_singleton _ _).mem_iff.mp hx
    obtain rfl | hx := List.mem_cons.mp hmem
    · exact absurd heq h.added.ne'
    · apply h.named x hx heq
  · rw [hentries]
    split
    · rename_i hpriority
      exact List.pairwise_cons.mpr ⟨fun _ _ _ => ⟨hpriority, h.added⟩, h.front⟩
    · refine List.pairwise_append.mpr ⟨h.front, List.pairwise_singleton _ _, ?_⟩
      intro x _ y hy heq
      obtain rfl := List.mem_singleton.mp hy
      exact absurd heq h.added.ne'

theorem Yields.step (h : Yields id req w) (hunsent : Unsent w) (a : Action ρ) :
  Yields id req (w.operate a)
  := by
  cases hadd : a.isAdd with
  | false =>
      have hsub := (World.thins (w := w) hadd).entries
      refine ⟨World.lt_nextId_operate h.added, ?_, h.front.sublist hsub⟩
      intro x hx
      apply h.named x (hsub.subset hx)
  | true =>
      cases a with
      | add req' adapter response => apply h.add hunsent
      | _ => cases hadd

theorem Yields.run {as : List (Action ρ)} (h : Yields id req w) (hunsent : Unsent w)
    (hrun : Run World.UnsentStep w as w') :
  Yields id req w'
  := by
  have hboth : Yields id req w' ∧ Unsent w' := by
    apply hrun.invariant (I := fun w => Yields id req w ∧ Unsent w) _ ⟨h, hunsent⟩
    rintro w a _ ⟨h, hunsent⟩ ⟨⟨-, rfl⟩, ha⟩
    exact ⟨h.step hunsent a, hunsent.step ha⟩
  apply hboth.1

theorem Newest.step (h : Newest id w) (hunsent : Unsent w) (ha : a.addsPriority = false) :
  Newest id (w.operate a)
  := by
  cases hadd : a.isAdd with
  | false =>
      intro x hx
      apply h x ((World.thins hadd).entries.subset hx)
  | true =>
      cases a with
      | add req adapter response =>
          rw [Newest, hunsent.entries_add, if_neg (by rw [Action.addsPriority] at ha; simp [ha])]
          intro x hx
          obtain hx | hx := List.mem_append.mp hx
          · apply h x hx
          · obtain rfl := List.mem_singleton.mp hx
            intro _
            apply ha
      | _ => cases hadd

theorem Newest.run {as : List (Action ρ)} (h : Newest id w) (hunsent : Unsent w)
    (hrun : Run World.UnsentStep w as w') (has : ∀ a ∈ as, a.addsPriority = false) :
  Newest id w'
  := by
  induction hrun with
  | nil => apply h
  | cons hstep _ ih =>
      obtain ⟨⟨-, rfl⟩, ha⟩ := hstep
      obtain ⟨hfirst, hrest⟩ := List.forall_mem_cons.mp has
      exact ih (h.step hunsent hfirst) (hunsent.step ha) hrest

end Yields

theorem foldl_payloads (buffer : Bytes) (reqs : List (Elem ρ)) :
  reqs.foldl (fun buffer e => buffer ++ e.req.payload) buffer = buffer ++ payloads reqs
  := by
  induction reqs generalizing buffer with
  | nil => simp [payloads]
  | cons e reqs ih =>
      rw [List.foldl_cons, ih, List.append_assoc]
      rfl

/-- `prepare_write` adds the payloads of the requests that wait to the write buffer. -/
theorem Split.writeBuffer_prepareWrite {m : Multiplexer ρ} {sent queued : List (Elem ρ)}
    (h : Split m.reqs sent queued) :
  m.prepareWrite.mpx.writeBuffer = m.writeBuffer ++ payloads queued
  := by
  rw [← foldl_payloads, ← h.takeWhile_sent.2]
  rfl

theorem Unsent.helloFirst {w : World ρ} (h : Unsent (w.operate .reset)) :
  HelloFirst w
  := by
  intro as v req adapter response as' v' e hrun hpriority hrun' he hid
  have hv := h.run hrun
  have hadded : Unsent (v.operate (.add req adapter response)) := hv.step rfl
  have hv' := hadded.run hrun'
  obtain ⟨hyields, hnewest⟩ := Yields.hello hv adapter response hpriority
  have hyields' := hyields.run hadded hrun'
  obtain ⟨before, behind, hreqs⟩ := List.append_of_mem he
  have hentries : v'.mpx.entries = before.map Elem.entry ++ e.entry :: behind.map Elem.entry := by
    rw [Multiplexer.entries, hreqs, List.map_append, List.map_cons]
  have hreq : e.req = req := by
    apply hyields'.named e.entry _ hid
    rw [hentries]
    apply List.mem_append_right _ List.mem_cons_self
  have hfront : ∀ b ∈ before, b.req.hasHelloPriority = true ∧ e.id < b.id := by
    have hpairs := hyields'.front
    rw [hentries] at hpairs
    intro b hb
    rw [hid]
    exact (List.pairwise_append.mp hpairs).2.2 b.entry (List.mem_map_of_mem hb) e.entry
      List.mem_cons_self hid
  refine ⟨before, behind, hreqs, ?_, hfront, ?_⟩
  · show v'.mpx.prepareWrite.mpx.writeBuffer = _
    rw [hv'.split.writeBuffer_prepareWrite, hv'.writeBuffer, hreqs]
    simp [payloads, hreq]
  · intro hlater
    apply List.eq_nil_iff_forall_not_mem.mpr
    intro b hb
    obtain ⟨hb_priority, hlt⟩ := hfront b hb
    have hmem : b.entry ∈ v'.mpx.entries := by
      rw [hentries]
      apply List.mem_append_left _ (List.mem_map_of_mem hb)
    have hnot := hnewest.run hadded hrun' hlater b.entry hmem (hid ▸ hlt)
    exact Bool.false_ne_true (hnot.symm.trans hb_priority)

/-- The order of the queue in every run of operations, and the place of a `HELLO` with
priority. -/
theorem prioritised_of_run {receiveAdapter : Adapter ρ} {receiveResponse : ρ} {as : List (Action ρ)}
    {w : World ρ} (hrun : Run World.OpenStep (.fresh receiveAdapter receiveResponse) as w) :
  Prioritised w ∧ ((∀ e ∈ w.mpx.reqs, e.isWaiting = true) → HelloFirst w)
  := by
  have horderly := (Orderly.fresh receiveAdapter receiveResponse).run hrun
  exact ⟨horderly.prioritised, fun hwaiting => (Unsent.reset horderly hwaiting).helloFirst⟩

/-- Two requests are added while there is no connection. -/
def pingsFirst : List (Action Unit) :=
  [.add (Request.push {} (ascii "PING") [ascii "req1"]) (fun _ => accepting) (),
    .add (Request.push { config := { helloWithPriority := false } } (ascii "HELLO") [ascii "3"])
      (fun _ => accepting) ()]

theorem prioritised_of_run_hello :
  Prioritised (pingsFirst.foldl World.apply (.fresh accepting ())) ∧
    HelloFirst (pingsFirst.foldl World.apply (.fresh accepting ()))
  := by
  have hfollows : Run.Follows World.apply World.Possible (.fresh accepting ())
      pingsFirst := by
    decide
  obtain ⟨as, hrun⟩ := (Run.of_follows hfollows).refine World.FreeStep.openRun
  obtain ⟨hprioritised, hfirst⟩ := prioritised_of_run hrun
  exact ⟨hprioritised, hfirst (by decide)⟩

end Redis
