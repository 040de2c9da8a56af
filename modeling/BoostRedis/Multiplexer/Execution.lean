import BoostRedis.Multiplexer.Notification
import BoostRedis.Multiplexer.Order

/-!
# Operations that are cancelled

A `Client` is a connection with the operations of `async_exec` that have not completed.  Its
moves are what `exec_op`, `writer_op`, `reader_op` and `run_op` do between two suspensions, and
the cancellations a user may ask for.

When `exec_op` is cancelled it removes its request, if this waits.  Otherwise, if the
cancellation is terminal, it closes the connection and completes.  The request is in the queue
no more then, unless it is one that stays when the connection is lost: in this case it is sent
again on the next connection, and its response is written to, after the operation has completed.
-/

namespace Redis

open Resp3

variable {ρ : Type}

/-! ### Moves of a connection -/

/-- A connection: whether the socket is open, the operations of `async_exec` that have not
completed, and those that have completed because of a cancellation, with the number of calls
made before. -/
structure Client (ρ : Type) where
  world : World ρ
  isOpen : Bool := false
  active : List ℕ := []
  aborted : List (ℕ × ℕ) := []

/-- What an operation of the connection does between two suspensions.

* `exec_op` starts, resumes as its request was notified, or resumes as it was cancelled.
* `cancel(operation::exec)` is called.
* `cancel(operation::run)` is called, by the user, or because the stream has failed.
* `run_op` has connected, and has reset the multiplexer, after which the writer and the reader
  start.
* `writer_op` prepares and commits a write.
* `reader_op` has received some bytes, and reads them. -/
inductive Move (ρ : Type) where
  | exec (req : Request) (adapter : ℕ → Adapter ρ) (response : ρ)
  | resume (id : ℕ)
  | cancelled (id : ℕ) (terminal : Bool)
  | cancelWaiting
  | cancelRun
  | connect
  | reset
  | prepareWrite
  | commitWrite
  | receive (chunk : Bytes)
  | commitRead

namespace Client

/-- All calls made to adapters and callbacks. -/
def calls (s : Client ρ) : List Event := s.world.past ++ s.world.log

/-- A request is notified. -/
def notified (s : Client ρ) (id : ℕ) : Bool :=
  s.calls.any fun
    | .notified id' _ => id' == id
    | _ => false

/-- Whether an error is set for a request, `get_error`.  An entry that is not in the queue any
more was notified with the error it has. -/
def failed (s : Client ρ) (id : ℕ) : Bool :=
  match s.world.mpx.reqs.find? (·.id = id) with
  | some e => e.ec.isSome
  | none =>
      s.calls.any fun
        | .notified id' (some _) => id' == id
        | _ => false

/-- `cancel_run`. -/
def cancelRun (s : Client ρ) : Client ρ :=
  { s with world := s.world.operate .connLost, isOpen := false }

/-- An operation completes. -/
def complete (s : Client ρ) (id : ℕ) : Client ρ :=
  { s with active := s.active.filter (· ≠ id) }

/-- An operation completes because of a cancellation. -/
def abort (s : Client ρ) (id : ℕ) : Client ρ :=
  { s.complete id with aborted := s.aborted ++ [(id, s.calls.length)] }

/-- `exec_op` when it resumes as it was cancelled. -/
def cancelled (s : Client ρ) (id : ℕ) (terminal : Bool) : Client ρ :=
  if s.failed id then s.complete id
  else if (s.world.mpx.remove id).2 then
    abort { s with world := s.world.operate (.remove id) } id
  else if terminal then s.cancelRun.abort id
  else s

/-- What a move does. -/
def next (s : Client ρ) : Move ρ → Client ρ
  | .exec req adapter response =>
      if req.config.cancelIfNotConnected && !s.isOpen then s
      else
        { s with
          world := s.world.operate (.add req adapter response)
          active := s.world.nextId :: s.active }
  | .resume id => s.complete id
  | .cancelled id terminal => s.cancelled id terminal
  | .cancelWaiting => { s with world := s.world.operate .cancelWaiting }
  | .cancelRun => s.cancelRun
  | .connect => { s with isOpen := true }
  | .reset => { s with world := s.world.operate .reset }
  | .prepareWrite => { s with world := s.world.operate .prepareWrite }
  | .commitWrite => { s with world := s.world.operate .commitWrite }
  | .receive chunk => { s with world := s.world.operate (.receive chunk) }
  | .commitRead =>
      match s.world.mpx.commitRead.value with
      | .error _ _ => cancelRun { s with world := s.world.operate .commitRead }
      | _ => { s with world := s.world.operate .commitRead }

/-- When a move is possible.  The writer and the reader work while the connection is up. -/
def Possible (s : Client ρ) : Move ρ → Prop
  | .resume id => id ∈ s.active ∧ s.notified id = true
  | .cancelled id _ => id ∈ s.active
  | .connect => s.isOpen = false
  | .reset => s.isOpen = true ∧ s.world.up = false
  | .prepareWrite => s.world.up = true
  | .receive chunk => s.world.up = true ∧ s.world.Possible (.receive chunk)
  | .commitRead => s.world.up = true ∧ s.world.Possible .commitRead
  | .exec _ _ _ | .cancelWaiting | .cancelRun | .commitWrite => True

instance (s : Client ρ) (a : Move ρ) : Decidable (s.Possible a) :=
  match a with
  | .resume id => inferInstanceAs (Decidable (id ∈ s.active ∧ s.notified id = true))
  | .cancelled id _ => inferInstanceAs (Decidable (id ∈ s.active))
  | .connect => inferInstanceAs (Decidable (s.isOpen = false))
  | .reset => inferInstanceAs (Decidable (s.isOpen = true ∧ s.world.up = false))
  | .prepareWrite => inferInstanceAs (Decidable (s.world.up = true))
  | .receive chunk =>
      inferInstanceAs (Decidable (s.world.up = true ∧ s.world.Possible (.receive chunk)))
  | .commitRead => inferInstanceAs (Decidable (s.world.up = true ∧ s.world.Possible .commitRead))
  | .exec _ _ _ | .cancelWaiting | .cancelRun | .commitWrite => inferInstanceAs (Decidable True)

def Step (s : Client ρ) (a : Move ρ) (s' : Client ρ) : Prop :=
  s.Possible a ∧ s' = s.next a

/-- A connection on which nothing has happened. -/
def fresh (receiveAdapter : Adapter ρ) (receiveResponse : ρ) : Client ρ :=
  { world := .fresh receiveAdapter receiveResponse }

end Client

/-- An operation that has completed because of a cancellation leaves nothing behind: its request
is not in the queue, and was neither sent nor fed since. -/
structure LeavesNothing (s : Client ρ) : Prop where
  gone : ∀ p ∈ s.aborted, p.1 ∉ s.world.mpx.ids
  unused : ∀ p ∈ s.aborted, ∀ b ∈ s.calls.drop p.2, b.uses ≠ some p.1

/-- The condition under which it does: an operation whose request was sent is cancelled only if
the request does not stay when the connection is lost. -/
def Client.Releases (s : Client ρ) : Move ρ → Prop
  | .cancelled id true => ∀ e ∈ s.world.mpx.reqs, e.id = id → e.isWaiting = false → e.ec = none →
      e.req.config.cancelIfUnresponded = true
  | _ => True

instance (s : Client ρ) (a : Move ρ) : Decidable (s.Releases a) :=
  match a with
  | .cancelled id true =>
      inferInstanceAs (Decidable (∀ e ∈ s.world.mpx.reqs, e.id = id → e.isWaiting = false →
        e.ec = none → e.req.config.cancelIfUnresponded = true))
  | .cancelled _ false | .exec _ _ _ | .resume _ | .cancelWaiting | .cancelRun | .connect | .reset
  | .prepareWrite | .commitWrite | .receive _ | .commitRead => inferInstanceAs (Decidable True)

/-! ### Operations -/

/-- The requests that an operation uses are in the queue. -/
theorem tidy_calls (w : World ρ) (a : Action ρ) :
  Tidy w.mpx.ids (w.calls a)
  := by
  rw [Multiplexer.ids_eq]
  cases a with
  | add _ _ _ | remove _ | receive _ | reset => apply tidy_nil
  | cancelWaiting => apply tidy_of_notified (notified_cancelWaiting _)
  | prepareWrite => apply tidy_prepareWrite
  | commitWrite => apply tidy_of_notified (notified_commitWrite _)
  | commitRead => apply tidy_commitRead
  | connLost => apply tidy_of_notified (notified_cancelOnConnLost _)

theorem World.history_operate (w : World ρ) (a : Action ρ) :
  (w.operate a).past ++ (w.operate a).log = w.past ++ w.log ++ w.calls a
  := by
  cases a with
  | add _ _ _ | remove _ | receive _ => exact (List.append_nil _).symm
  | reset => rfl
  | cancelWaiting | prepareWrite | commitWrite | commitRead | connLost =>
      exact (List.append_assoc _ _ _).symm

/-- What holds of the multiplexer of a connection: while the connection is down, all requests
wait, and while it is up, it has not been cancelled. -/
structure Governed (w : World ρ) : Prop where
  orderly : Orderly w
  down : w.up = false → ∀ e ∈ w.mpx.reqs, e.isWaiting = true
  up : w.up = true → w.mpx.cancelRunCalled = false

/-- Requests that are gone, and unused since some point of the history. -/
structure Absent (w : World ρ) (aborted : List (ℕ × ℕ)) : Prop where
  gone : ∀ p ∈ aborted, p.1 ∉ w.mpx.ids
  old : ∀ p ∈ aborted, p.1 < w.nextId ∧ p.2 ≤ (w.past ++ w.log).length
  unused : ∀ p ∈ aborted, ∀ b ∈ (w.past ++ w.log).drop p.2, b.uses ≠ some p.1

section Operations

variable {w : World ρ} {a : Action ρ} {aborted : List (ℕ × ℕ)} {id : ℕ}

theorem World.ids_operate :
  ∀ id ∈ (w.operate a).mpx.ids, id ∈ w.mpx.ids ∨ id = w.nextId
  := by
  intro id hid
  cases hadd : a.isAdd with
  | false => exact .inl ((World.thins hadd).ids.subset hid)
  | true =>
      cases a with
      | add req adapter response =>
          have hperm := (Multiplexer.entries_add (m := w.mpx)
            (.make w.nextId req adapter response)).map Prod.fst
          rw [← Multiplexer.ids_eq, List.map_cons, ← Multiplexer.ids_eq] at hperm
          obtain rfl | hid := List.mem_cons.mp (hperm.mem_iff.mp hid)
          · exact .inr rfl
          · exact .inl hid
      | _ => cases hadd

/-- Requests that are gone stay so. -/
theorem Absent.operate (h : Absent w aborted) (a : Action ρ) :
  Absent (w.operate a) aborted
  := by
  have hhistory := w.history_operate a
  refine ⟨?_, ?_, ?_⟩
  · intro p hp hid
    obtain hid | hnew := World.ids_operate _ hid
    · exact h.gone p hp hid
    · exact (h.old p hp).1.ne hnew
  · intro p hp
    obtain ⟨hlt, hle⟩ := h.old p hp
    refine ⟨World.lt_nextId_operate hlt, ?_⟩
    rw [hhistory, List.length_append]
    omega
  · intro p hp b hb huse
    rw [hhistory, List.drop_append_of_le_length (h.old p hp).2] at hb
    obtain hb | hb := List.mem_append.mp hb
    · exact h.unused p hp b hb huse
    · exact h.gone p hp ((tidy_calls w a).mem hb huse)

/-- A request that is gone. -/
theorem Absent.abort (h : Absent w aborted) (hid : id ∉ w.mpx.ids) (hlt : id < w.nextId) :
  Absent w (aborted ++ [(id, (w.past ++ w.log).length)])
  := by
  have hlast : ∀ {P : ℕ × ℕ → Prop}, (∀ p ∈ aborted, P p) → P (id, (w.past ++ w.log).length) →
      ∀ p ∈ aborted ++ [(id, (w.past ++ w.log).length)], P p := by
    intro P hold hnew p hp
    obtain hp | hp := List.mem_append.mp hp
    · apply hold p hp
    · obtain rfl := List.mem_singleton.mp hp
      apply hnew
  refine ⟨hlast h.gone hid, hlast h.old ⟨hlt, le_rfl⟩, hlast h.unused ?_⟩
  intro b hb
  rw [List.drop_length] at hb
  cases hb

theorem Governed.connLost (h : Governed w) :
  Governed (w.operate .connLost)
  := by
  refine ⟨h.orderly.step .connLost, fun _ => ?_, fun hup => by cases hup⟩
  show ∀ e ∈ w.mpx.cancelOnConnLost.mpx.reqs, e.isWaiting = true
  rw [Multiplexer.cancelOnConnLost]
  split
  · rename_i hcalled
    cases hup : w.up with
    | false => apply h.down hup
    | true =>
        rw [h.up hup] at hcalled
        cases hcalled
  · intro e he
    obtain ⟨x, -, rfl⟩ := List.mem_map.mp he
    rfl

theorem Governed.reset (h : Governed w) :
  Governed (w.operate .reset)
  := by
  refine ⟨h.orderly.step .reset, ?_, fun _ => rfl⟩
  intro hup
  cases hup

theorem World.cancelRunCalled_operate (hlost : a.isConnLost = false) (hreset : a.isReset = false) :
  (w.operate a).mpx.cancelRunCalled = w.mpx.cancelRunCalled ∧ (w.operate a).up = w.up
  := by
  cases a with
  | add _ _ _ => exact ⟨(sameReading_add _ _).cancelRunCalled, rfl⟩
  | remove _ => exact ⟨(sameReading_remove _ _).cancelRunCalled, rfl⟩
  | cancelWaiting | prepareWrite | commitWrite | receive _ => exact ⟨rfl, rfl⟩
  | commitRead => exact ⟨w.mpx.commitRead_frame.2, rfl⟩
  | connLost => cases hlost
  | reset => cases hreset

/-- Every operation, where requests are staged only while the connection is up. -/
theorem Governed.operate (h : Governed w) (ha : a.isPrepareWrite = true → w.up = true) :
  Governed (w.operate a)
  := by
  cases hlost : a.isConnLost with
  | true =>
      cases a with
      | connLost => apply h.connLost
      | _ => cases hlost
  | false =>
      cases hreset : a.isReset with
      | true =>
          cases a with
          | reset => apply h.reset
          | _ => cases hreset
      | false =>
          obtain ⟨hcalled, hup⟩ := World.cancelRunCalled_operate (w := w) hlost hreset
          refine ⟨h.orderly.step a, ?_, ?_⟩
          · rw [hup]
            intro hdown
            apply World.waiting_operate (h.down hdown)
            cases hprepare : a.isPrepareWrite with
            | false => rfl
            | true =>
                rw [ha hprepare] at hdown
                cases hdown
          · rw [hup, hcalled]
            apply h.up

/-- A request that is removed is not in the queue any more. -/
theorem Multiplexer.not_mem_remove {m : Multiplexer ρ} (hnodup : m.ids.Nodup)
    (h : (m.remove id).2 = true) :
  id ∉ (m.remove id).1.ids
  := by
  intro hid
  have hmem : id ∈ m.ids := (m.thins_remove id).ids.subset hid
  obtain ⟨e, he, rfl⟩ := List.mem_map.mp hmem
  rw [remove_eq hnodup he] at h hid
  split at h
  · rename_i hwait
    rw [if_pos hwait] at hid
    obtain ⟨x, l₁, l₂, -, hx, hreqs, herase⟩ :=
      List.exists_of_eraseP (p := fun x => decide (x.id = e.id)) he (by simp)
    rw [ids, hreqs, List.map_append, List.map_cons, List.nodup_middle, List.nodup_cons] at hnodup
    apply hnodup.1
    rw [of_decide_eq_true hx, ← List.map_append, ← herase]
    apply hid
  · cases h

/-- A request that was sent and is not kept leaves the queue when the connection is lost. -/
theorem Governed.not_mem_connLost (h : Governed w)
    (hkept : ∀ e ∈ w.mpx.reqs, e.id = id → e.isWaiting = false ∧
      e.req.config.cancelIfUnresponded = true) :
  id ∉ (w.operate .connLost).mpx.ids
  := by
  intro hid
  have hmem : id ∈ w.mpx.ids := (World.thins rfl).ids.subset hid
  obtain ⟨e, he, rfl⟩ := List.mem_map.mp hmem
  obtain ⟨hwait, -⟩ := hkept e he rfl
  have hcalled : w.mpx.cancelRunCalled = false := by
    cases hup : w.up with
    | false =>
        rw [h.down hup e he] at hwait
        cases hwait
    | true => apply h.up hup
  have hids : (w.operate .connLost).mpx.ids
      = ((w.mpx.reqs.filter Multiplexer.keptOnConnLost).map Elem.markWaiting).map Elem.id := by
    show w.mpx.cancelOnConnLost.mpx.ids = _
    rw [Multiplexer.cancelOnConnLost, if_neg (by simp [hcalled])]
    rfl
  rw [hids, List.map_map] at hid
  obtain ⟨x, hx, hxid⟩ := List.mem_map.mp hid
  obtain ⟨hx, hkeep⟩ := List.mem_filter.mp hx
  obtain ⟨hxwait, hcancel⟩ := hkept x hx hxid
  simp [Multiplexer.keptOnConnLost, hxwait, hcancel] at hkeep

end Operations

/-! ### Moves -/

/-- What holds of a connection whose moves meet the condition. -/
structure Client.Sound (s : Client ρ) : Prop where
  governed : Governed s.world
  active : ∀ id ∈ s.active, id < s.world.nextId
  absent : Absent s.world s.aborted

namespace Client.Sound

variable {s : Client ρ} {id : ℕ} {a : Action ρ}

theorem fresh (receiveAdapter : Adapter ρ) (receiveResponse : ρ) :
  (Client.fresh receiveAdapter receiveResponse).Sound
  := by
  refine ⟨⟨Orderly.fresh receiveAdapter receiveResponse, fun _ => ?_, ?_⟩, ?_, ⟨?_, ?_, ?_⟩⟩
  · simp [Client.fresh, World.fresh]
  · intro hup
    cases hup
  · simp [Client.fresh]
  · simp [Client.fresh]
  · simp [Client.fresh]
  · simp [Client.fresh]

theorem leavesNothing (h : s.Sound) :
  LeavesNothing s
  := ⟨h.absent.gone, h.absent.unused⟩

theorem operate (h : s.Sound) (ha : a.isPrepareWrite = true → s.world.up = true) :
  Client.Sound { s with world := s.world.operate a }
  := by
  refine ⟨h.governed.operate ha, ?_, h.absent.operate a⟩
  intro id hid
  apply World.lt_nextId_operate (h.active id hid)

theorem cancelRun (h : s.Sound) :
  s.cancelRun.Sound
  := by
  have hlost : Client.Sound { s with world := s.world.operate .connLost } :=
    h.operate fun hprepare => by cases hprepare
  exact ⟨hlost.governed, hlost.active, hlost.absent⟩

theorem complete (h : s.Sound) :
  (s.complete id).Sound
  := ⟨h.governed, fun id hid => h.active id (List.mem_of_mem_filter hid), h.absent⟩

theorem abort (h : s.Sound) (hid : id ∉ s.world.mpx.ids) (hlt : id < s.world.nextId) :
  (s.abort id).Sound
  := ⟨h.governed, h.complete.active, h.absent.abort hid hlt⟩

/-- An operation is cancelled. -/
theorem cancelled (h : s.Sound) (hid : id ∈ s.active) {terminal : Bool}
    (hreleases : s.Releases (.cancelled id terminal)) :
  (s.cancelled id terminal).Sound
  := by
  have hlt := h.active id hid
  rw [Client.cancelled]
  split
  · apply h.complete
  rename_i hfailed
  split
  · rename_i hremove
    have hremoved : Client.Sound { s with world := s.world.operate (.remove id) } :=
      h.operate fun hprepare => by cases hprepare
    apply hremoved.abort (Multiplexer.not_mem_remove h.governed.orderly.nodup hremove) hlt
  rename_i hremove
  split
  · rename_i hterminal
    subst hterminal
    apply h.cancelRun.abort _ hlt
    apply h.governed.not_mem_connLost
    rintro e he rfl
    have hnodup := h.governed.orderly.nodup
    rw [Client.failed, Multiplexer.find_id hnodup he] at hfailed
    rw [Multiplexer.remove_eq hnodup he] at hremove
    have hwait : e.isWaiting = false := by
      cases hwait : e.isWaiting with
      | false => rfl
      | true => simp [hwait] at hremove
    exact ⟨hwait, hreleases e he rfl hwait (by simpa using hfailed)⟩
  · exact h

/-- Every move that meets the condition. -/
theorem step {a : Move ρ} (h : s.Sound) (hpossible : s.Possible a) (hreleases : s.Releases a) :
  (s.next a).Sound
  := by
  have hother : ∀ {a : Action ρ}, a.isPrepareWrite = false →
      Client.Sound { s with world := s.world.operate a } := by
    intro a ha
    apply h.operate
    intro hprepare
    rw [ha] at hprepare
    cases hprepare
  cases a with
  | exec req adapter response =>
      rw [Client.next]
      split
      · exact h
      · have hadded := hother (a := .add req adapter response) rfl
        refine ⟨hadded.governed, ?_, hadded.absent⟩
        intro id hid
        obtain rfl | hid := List.mem_cons.mp hid
        · exact Nat.lt_succ_self _
        · apply hadded.active id hid
  | resume id => apply h.complete
  | cancelled id terminal => apply h.cancelled hpossible hreleases
  | cancelWaiting => apply hother rfl
  | cancelRun => apply h.cancelRun
  | connect => exact ⟨h.governed, h.active, h.absent⟩
  | reset => apply hother rfl
  | prepareWrite => exact h.operate fun _ => hpossible
  | commitWrite => apply hother rfl
  | receive chunk => apply hother rfl
  | commitRead =>
      rw [Client.next]
      split
      · exact (hother (a := .commitRead) rfl).cancelRun
      · apply hother rfl

end Client.Sound

/-- An operation that is cancelled leaves nothing behind, in every run in which no operation is
cancelled whose request was sent and stays when the connection is lost. -/
theorem leavesNothing_of_run {receiveAdapter : Adapter ρ} {receiveResponse : ρ}
    {as : List (Move ρ)} {s : Client ρ}
    (hrun : Run (fun s a s' => Client.Step s a s' ∧ s.Releases a)
      (.fresh receiveAdapter receiveResponse) as s) :
  LeavesNothing s
  := by
  apply Client.Sound.leavesNothing
  apply hrun.invariant _ (.fresh receiveAdapter receiveResponse)
  rintro s a _ h ⟨⟨hpossible, rfl⟩, hreleases⟩
  apply h.step hpossible hreleases

/-- An operation is cancelled after its request was sent.  The connection is established again
afterwards. -/
def cancelledLate (cancelIfUnresponded : Bool) : List (Move Unit) :=
  [.connect, .reset,
    .exec
      (Request.push { config := { cancelIfUnresponded := cancelIfUnresponded } } (ascii "PING") [])
      (fun _ => accepting) (),
    .prepareWrite, .cancelled 0 true, .connect, .reset, .prepareWrite]

theorem leavesNothing_of_run_late :
  LeavesNothing ((cancelledLate true).foldl Client.next (.fresh accepting ())) ∧
    ((cancelledLate true).foldl Client.next (.fresh accepting ())).aborted = [(0, 2)]
  := by
  have hfollows : Run.Follows Client.next (fun s a => s.Possible a ∧ s.Releases a)
      (Client.fresh accepting ()) (cancelledLate true) := by
    decide
  exact ⟨leavesNothing_of_run ((Run.of_follows hfollows).mono fun h => ⟨⟨h.1.1, h.2⟩, h.1.2⟩),
    by decide⟩

/-- A request that stays when the connection is lost is sent again after its operation was
cancelled. -/
theorem leavesNothing_of_run_fails :
  ¬ ∀ (receiveAdapter : Adapter Unit) (as : List (Move Unit)) (s : Client Unit),
    Run Client.Step (.fresh receiveAdapter ()) as s → LeavesNothing s
  := by
  intro h
  have hfollows : Run.Follows Client.next Client.Possible (Client.fresh accepting ())
      (cancelledLate false) := by
    decide
  obtain ⟨hgone, hunused⟩ := h accepting _ _ (Run.of_follows hfollows)
  have haborted : ((cancelledLate false).foldl Client.next (.fresh accepting ())).aborted = [(0, 1)] := by
    decide
  have hcalls : ((cancelledLate false).foldl Client.next (.fresh accepting ())).calls
      = [.staged 0 1, .staged 0 1] := by
    decide
  have hagain := hunused (0, 1) (by rw [haborted]; simp) (.staged 0 1) (by rw [hcalls]; simp)
  exact hagain rfl

end Redis
