import BoostRedis.Multiplexer.Priority

/-!
# What is written

`writer_op` alternates between `prepare_write` and `commit_write`: a write buffer that is not
empty is given to `async_write`, and committed when this has completed.  A `Writer` keeps what
was written on a connection, besides what the multiplexer knows.  The buffers that were written
are the payloads of the requests that were staged, in the order of staging, and every request
is staged once.
-/

namespace Redis

open Resp3

variable {ρ : Type}

/-- The requests that `prepare_write` stages: they wait before, and are staged afterwards. -/
def Multiplexer.stages (m : Multiplexer ρ) : List (Elem ρ) :=
  m.reqs.filter fun e =>
    e.isWaiting && m.prepareWrite.mpx.reqs.any fun e' => e'.id == e.id && e'.isStaged

/-- The requests staged, in order. -/
def stagings : List Event → List ℕ
  | [] => []
  | .staged id _ :: log => id :: stagings log
  | _ :: log => stagings log

/-- A connection with its writer: the buffer that is being written, the buffers whose write was
committed, and the requests that were staged, with their payloads. -/
structure Writer (ρ : Type) where
  world : World ρ
  flight : Option Bytes := none
  committed : List Bytes := []
  staged : List (ℕ × Bytes) := []

namespace Writer

/-- The operations on one connection, with `prepare_write` and `commit_write` as in
`writer_op`. -/
def Permits (s : Writer ρ) : Action ρ → Prop
  | .prepareWrite => s.flight = none
  | .commitWrite => s.flight.isSome = true
  | .connLost | .reset => False
  | _ => True

instance (s : Writer ρ) (a : Action ρ) : Decidable (s.Permits a) :=
  match a with
  | .prepareWrite => inferInstanceAs (Decidable (s.flight = none))
  | .commitWrite => inferInstanceAs (Decidable (s.flight.isSome = true))
  | .connLost | .reset => inferInstanceAs (Decidable False)
  | .add _ _ _ | .remove _ | .receive _ | .cancelWaiting | .commitRead =>
      inferInstanceAs (Decidable True)

/-- What an operation does.  The buffer is written if `prepare_write` does not return zero. -/
def next (s : Writer ρ) : Action ρ → Writer ρ
  | .prepareWrite =>
      { world := s.world.operate .prepareWrite
        flight :=
          if s.world.mpx.prepareWrite.value ≠ 0 then some s.world.mpx.prepareWrite.mpx.writeBuffer
          else none
        committed := s.committed
        staged := s.staged ++ s.world.mpx.stages.map fun e => (e.id, e.req.payload) }
  | .commitWrite =>
      { s with
        world := s.world.operate .commitWrite
        flight := none
        committed := s.committed ++ s.flight.toList }
  | a => { s with world := s.world.operate a }

def Step (s : Writer ρ) (a : Action ρ) (s' : Writer ρ) : Prop :=
  s.world.Possible a ∧ s.Permits a ∧ s' = s.next a

/-- A connection that was just reset. -/
def start (w : World ρ) : Writer ρ :=
  { world := w.operate .reset }

end Writer

/-- A step between `prepare_write` and `commit_write`. -/
def World.PendingStep (w : World ρ) (a : Action ρ) (w' : World ρ) : Prop :=
  w.OpenStep a w' ∧ a.writes = false

/-- What is written is what was queued, once.

* The buffers written, with the one in flight, are the payloads of the requests staged, in the
  order of staging.
* No request is staged twice.
* While a buffer is being written, no operation changes it. -/
structure WritesOnce (s : Writer ρ) : Prop where
  written : (s.committed ++ s.flight.toList).flatten = (s.staged.map Prod.snd).flatten
  order : s.staged.map Prod.fst = stagings s.world.log
  once : (s.staged.map Prod.fst).Nodup
  unchanged : ∀ buffer, s.flight = some buffer → ∀ as w, Run World.PendingStep s.world as w →
    w.mpx.writeBuffer = buffer

/-! ### Staging -/

theorem stagings_append (l l' : List Event) :
  stagings (l ++ l') = stagings l ++ stagings l'
  := by
  induction l with
  | nil => rfl
  | cons e l ih => cases e <;> simp [stagings, ih]

theorem stagings_eq_nil {es : List Event} (h : ∀ id n, .staged id n ∉ es) :
  stagings es = []
  := by
  induction es with
  | nil => rfl
  | cons e es ih =>
      have htail := ih fun id n hmem => h id n (List.mem_cons_of_mem _ hmem)
      cases e with
      | staged id n => exact absurd List.mem_cons_self (h id n)
      | fed _ _ _ | pushed _ | rejected _ | finished _ | notified _ _ => apply htail

theorem stagings_staged (reqs : List (Elem ρ)) :
  stagings (reqs.map fun e => .staged e.id e.req.expectedResponses) = reqs.map Elem.id
  := by
  induction reqs with
  | nil => rfl
  | cons e reqs ih =>
      rw [List.map_cons, List.map_cons, stagings, ih]

theorem not_staged_commitRead (m : Multiplexer ρ) (id n : ℕ) :
  .staged id n ∉ m.commitRead.events
  := by
  have hreport : ∀ {es : List Event}, (∀ b ∈ es, b.isReport = true) → .staged id n ∉ es := by
    intro es hreports hmem
    cases hreports _ hmem
  obtain hread | ⟨e, rest, -, -, -, hread⟩ := m.commitRead_cases
  · obtain ⟨es, hevents, hreports⟩ := m.commitPush_events
    rw [hread, hevents]
    simp [hreport hreports]
  · obtain ⟨es, hevents, hreports⟩ := m.commitResponse_events e rest
    rw [hread, hevents]
    simp [hreport hreports]

/-- Only `prepare_write` stages requests. -/
theorem stagings_calls {w : World ρ} {a : Action ρ} (h : a.isPrepareWrite = false) :
  stagings (w.calls a) = []
  := by
  have hnotified : ∀ {es : List Event}, (∀ e ∈ es, ∃ id ec, e = .notified id ec) →
      stagings es = [] := by
    intro es hes
    apply stagings_eq_nil
    intro id n hmem
    obtain ⟨_, _, heq⟩ := hes _ hmem
    cases heq
  cases a with
  | add _ _ _ | remove _ | receive _ | reset => rfl
  | cancelWaiting => apply hnotified (notified_cancelWaiting _)
  | prepareWrite => cases h
  | commitWrite => apply hnotified (notified_commitWrite _)
  | commitRead => apply stagings_eq_nil (not_staged_commitRead _)
  | connLost => apply hnotified (notified_cancelOnConnLost _)

/-- The requests staged are those that wait. -/
theorem Split.stages {m : Multiplexer ρ} {sent queued : List (Elem ρ)}
    (h : Split m.reqs sent queued) :
  m.stages = queued
  := by
  have hstaged : ∀ e ∈ queued, (m.prepareWrite.mpx.reqs.any fun e' => e'.id == e.id && e'.isStaged)
      = true := by
    intro e he
    refine List.any_eq_true.mpr ⟨e.markStaged, ?_, by simp [Elem.markStaged, Elem.isStaged]⟩
    rw [h.prepareWrite.1.eq, List.append_nil]
    exact List.mem_append_right _ (List.mem_map_of_mem he)
  rw [Multiplexer.stages, ← h.filter_waiting.2]
  apply List.filter_congr
  intro e he
  cases hwait : e.isWaiting with
  | false => rfl
  | true =>
      rw [hstaged e]
      · rfl
      · rw [← h.filter_waiting.2]
        exact List.mem_filter.mpr ⟨he, hwait⟩

/-! ### Writers -/

/-- A request that waits has waited before, or was added. -/
theorem Orderly.waiting_of_operate {w : World ρ} {a : Action ρ} {e : Elem ρ} (h : Orderly w)
    (hlost : a.isConnLost = false) (he : e ∈ (w.operate a).mpx.reqs) (hwait : e.isWaiting = true) :
  e ∈ w.mpx.reqs ∨ e.id = w.nextId
  := by
  obtain ⟨sent, queued, hsplit⟩ := h.split
  cases ha : a.queues with
  | false =>
      obtain ⟨sent', queued', hsplit', hsub⟩ := hsplit.operate ha
      rw [hsplit'.eq] at he
      obtain he | he := List.mem_append.mp he
      · rw [hsplit'.sent_waiting e he] at hwait
        cases hwait
      · rw [hsplit.eq]
        exact .inl (List.mem_append_right _ (hsub.subset he))
  | true =>
      cases a with
      | add req adapter response =>
          obtain ⟨queued', hsplit', hperm⟩ :=
            hsplit.add (e := .make w.nextId req adapter response) rfl
          have he' : e ∈ (w.mpx.add (.make w.nextId req adapter response)).reqs := he
          rw [hsplit'.eq] at he'
          obtain he' | he' := List.mem_append.mp he'
          · rw [hsplit.eq]
            exact .inl (List.mem_append_left _ he')
          · obtain rfl | he' := List.mem_cons.mp (hperm.mem_iff.mp he')
            · exact .inr rfl
            · rw [hsplit.eq]
              exact .inl (List.mem_append_right _ he')
      | connLost => cases hlost
      | _ => cases ha

theorem writeBuffer_of_pending {w w' : World ρ} {as : List (Action ρ)}
    (h : Run World.PendingStep w as w') :
  w'.mpx.writeBuffer = w.mpx.writeBuffer
  := by
  induction h with
  | nil => rfl
  | cons hstep _ ih =>
      obtain ⟨⟨-, rfl⟩, ha⟩ := hstep
      rw [ih, World.writeBuffer_operate ha]

/-- What holds of a writer: it writes the write buffer, and a request that was staged does not
wait any more. -/
structure Writer.Consistent (s : Writer ρ) : Prop where
  orderly : Orderly s.world
  buffer : s.world.mpx.writeBuffer = s.flight.getD []
  written : (s.committed ++ s.flight.toList).flatten = (s.staged.map Prod.snd).flatten
  order : s.staged.map Prod.fst = stagings s.world.log
  once : (s.staged.map Prod.fst).Nodup
  added : ∀ id ∈ s.staged.map Prod.fst, id < s.world.nextId
  sent : ∀ e ∈ s.world.mpx.reqs, e.isWaiting = true → e.id ∉ s.staged.map Prod.fst

namespace Writer.Consistent

variable {s s' : Writer ρ} {a : Action ρ}

theorem writesOnce (h : s.Consistent) :
  WritesOnce s
  := by
  refine ⟨h.written, h.order, h.once, ?_⟩
  intro buffer hflight as w hrun
  rw [writeBuffer_of_pending hrun, h.buffer, hflight]
  rfl

theorem start {w : World ρ} (h : Orderly w) :
  (Writer.start w).Consistent
  := ⟨h.step .reset, rfl, rfl, rfl, List.nodup_nil, by simp [Writer.start], by simp [Writer.start]⟩

/-- The requests that wait are staged. -/
theorem prepareWrite (h : s.Consistent) (hflight : s.flight = none) :
  (s.next .prepareWrite).Consistent
  := by
  have hsplit := h.orderly.split_sent
  have hbuffer : s.world.mpx.prepareWrite.mpx.writeBuffer = payloads s.world.mpx.queued := by
    rw [hsplit.writeBuffer_prepareWrite, h.buffer, hflight]
    rfl
  have hvalue : s.world.mpx.prepareWrite.value = s.world.mpx.queued.length :=
    h.orderly.prioritised.staged.2
  have hflight' : (s.next .prepareWrite).flight.getD [] = payloads s.world.mpx.queued := by
    rw [Writer.next, hbuffer, hvalue]
    cases s.world.mpx.queued <;> rfl
  have hids : (s.next .prepareWrite).staged.map Prod.fst
      = s.staged.map Prod.fst ++ s.world.mpx.queued.map Elem.id := by
    rw [Writer.next, hsplit.stages, List.map_append, List.map_map]
    rfl
  have hwaiting : ∀ e ∈ s.world.mpx.queued, e ∈ s.world.mpx.reqs ∧ e.isWaiting = true :=
    fun e he => List.mem_filter.mp he
  refine ⟨h.orderly.step .prepareWrite, hbuffer.trans hflight'.symm, ?_, ?_, ?_, ?_, ?_⟩
  · have hwritten := h.written
    rw [hflight, Option.toList_none, List.append_nil] at hwritten
    have htoList : (s.next .prepareWrite).flight.toList.flatten = payloads s.world.mpx.queued := by
      rw [← hflight']
      cases (s.next .prepareWrite).flight <;> simp
    rw [List.flatten_append, htoList, Writer.next, hwritten, hsplit.stages, List.map_append,
      List.flatten_append, List.map_map]
    rfl
  · rw [hids, h.order]
    show _ = stagings (s.world.log ++ s.world.mpx.prepareWrite.events)
    rw [stagings_append, hsplit.prepareWrite.2, stagings_staged]
  · rw [hids]
    refine List.nodup_append.mpr ⟨h.once, ?_, ?_⟩
    · apply h.orderly.nodup.sublist (List.filter_sublist.map Elem.id)
    · rintro id hid _ hid' rfl
      obtain ⟨e, he, rfl⟩ := List.mem_map.mp hid'
      exact h.sent e (hwaiting e he).1 (hwaiting e he).2 hid
  · rw [hids]
    intro id hid
    obtain hid | hid := List.mem_append.mp hid
    · apply h.added id hid
    · obtain ⟨e, he, rfl⟩ := List.mem_map.mp hid
      apply h.orderly.lt_nextId e.id (List.mem_map_of_mem (hwaiting e he).1)
  · intro e he hwait
    have he' : e ∈ s.world.mpx.prepareWrite.mpx.reqs := he
    rw [hsplit.prepareWrite.1.eq, List.append_nil] at he'
    have hsplit' := hsplit.prepareWrite.1.sent_waiting e he'
    rw [hwait] at hsplit'
    cases hsplit'

/-- An operation that stages nothing. -/
theorem keep (h : s.Consistent) (hlost : a.isConnLost = false) (hprepare : a.isPrepareWrite = false)
    (hreset : a.isReset = false) (hworld : s'.world = s.world.operate a)
    (hstaged : s'.staged = s.staged) (hbuffer : s'.world.mpx.writeBuffer = s'.flight.getD [])
    (hwritten : (s'.committed ++ s'.flight.toList).flatten = (s.committed ++ s.flight.toList).flatten) :
  s'.Consistent
  := by
  refine ⟨?_, hbuffer, ?_, ?_, ?_, ?_, ?_⟩
  · rw [hworld]
    apply h.orderly.step
  · rw [hstaged, hwritten, h.written]
  · rw [hstaged, hworld, World.operate_log hreset, stagings_append, stagings_calls hprepare,
      List.append_nil, h.order]
  · rw [hstaged]
    apply h.once
  · rw [hstaged, hworld]
    intro id hid
    apply World.lt_nextId_operate (h.added id hid)
  · rw [hstaged, hworld]
    intro e he hwait hid
    obtain he | hnew := h.orderly.waiting_of_operate hlost he hwait
    · exact h.sent e he hwait hid
    · exact (h.added e.id hid).ne hnew

/-- An operation of neither the writer nor the connection. -/
theorem other (h : s.Consistent) (a : Action ρ) (hlost : a.isConnLost = false)
    (hwrites : a.writes = false) (hnext : s.next a = { s with world := s.world.operate a }) :
  (s.next a).Consistent
  := by
  rw [hnext]
  refine h.keep hlost ?_ ?_ rfl rfl ((World.writeBuffer_operate hwrites).trans h.buffer) rfl
  · cases a with
    | prepareWrite => cases hwrites
    | _ => rfl
  · cases a with
    | reset => cases hwrites
    | _ => rfl

theorem step (h : s.Consistent) (ha : s.Permits a) :
  (s.next a).Consistent
  := by
  cases a with
  | prepareWrite => apply h.prepareWrite ha
  | commitWrite =>
      refine h.keep (a := .commitWrite) rfl rfl rfl rfl rfl rfl ?_
      rw [Writer.next, Option.toList_none, List.append_nil]
  | connLost | reset => cases ha
  | add req adapter response => apply h.other (.add req adapter response) rfl rfl rfl
  | remove id => apply h.other (.remove id) rfl rfl rfl
  | receive chunk => apply h.other (.receive chunk) rfl rfl rfl
  | cancelWaiting => apply h.other .cancelWaiting rfl rfl rfl
  | commitRead => apply h.other .commitRead rfl rfl rfl

end Writer.Consistent

/-- What is written on a connection is what was queued, once, in every run from a reset. -/
theorem writesOnce_of_run {receiveAdapter : Adapter ρ} {receiveResponse : ρ} {as : List (Action ρ)}
    {w : World ρ} (hrun : Run World.OpenStep (.fresh receiveAdapter receiveResponse) as w)
    {as' : List (Action ρ)} {s : Writer ρ} (hwrites : Run Writer.Step (.start w) as' s) :
  WritesOnce s
  := by
  have horderly := (Orderly.fresh receiveAdapter receiveResponse).run hrun
  apply Writer.Consistent.writesOnce
  apply hwrites.invariant _ (.start horderly)
  rintro s a _ h ⟨-, ha, rfl⟩
  apply h.step ha

/-- Two requests, the second of which is added while the first one is being written. -/
def overlapping : List (Action Unit) :=
  [.add (Request.push {} (ascii "PING") []) (fun _ => accepting) (), .prepareWrite,
    .add (Request.push {} (ascii "GET") [ascii "k"]) (fun _ => accepting) (), .commitWrite,
    .prepareWrite]

theorem writesOnce_of_run_overlapping :
  WritesOnce (overlapping.foldl Writer.next (.start (.fresh accepting ())))
  := by
  have hfollows : Run.Follows Writer.next
      (fun (s : Writer Unit) a => s.world.Possible a ∧ s.Permits a) (.start (.fresh accepting ()))
      overlapping := by
    decide
  exact writesOnce_of_run (.nil (World.fresh accepting ()))
    ((Run.of_follows hfollows).mono fun h => ⟨h.1.1, h.1.2, h.2⟩)

end Redis
