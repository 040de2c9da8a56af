import BoostRedis.Multiplexer.Execution

/-!
# The writer is woken up

`writer_op` sends the requests that wait, and when there are none it suspends on a timer that is
used as a condition variable.  An operation `exec_op` that adds a request cancels the timer, but
only if the stream is open and the write buffer is empty: otherwise a write is supposed to be going
on, after which the writer looks at the queue again.

A `Connection` is a `Client` with the places at which `run_op` and `writer_op` are suspended.  The
wake-up is never lost: while the stream is open, and the writer is suspended on the timer and is
not about to be resumed, no request waits.
-/

namespace Redis

open Resp3

variable {ρ : Type}

/-! ### The operations of a connection -/

/-- Where `run_op` is.

* No writer exists, and the stream is not connected.
* `async_connect` or the SSL handshake is going on.
* The multiplexer was reset, and the operations that come before the writer are started.
* The parallel group was started, and `run_op` is suspended until all its operations complete. -/
inductive Stage where
  | down
  | connecting
  | starting
  | running
deriving DecidableEq, Repr

/-- Where `writer_op` is: it has completed or was not started, it is suspended on `async_write`, or
it is suspended on the timer, where `cancelled` says that the wait was cancelled and the writer is
about to be resumed. -/
inductive WriterState where
  | finished
  | writing
  | waiting (cancelled : Bool)
deriving DecidableEq, Repr

/-- `writer_timer_.cancel()`. -/
def WriterState.cancelTimer : WriterState → WriterState
  | .waiting _ => .waiting true
  | w => w

/-- A connection: a client, and where `run_op` and `writer_op` are. -/
structure Connection (ρ : Type) where
  client : Client ρ
  stage : Stage := .down
  writer : WriterState := .finished

/-- What happens to a connection between two suspensions.

* `exec_op` starts, resumes as its request was notified, or resumes as it was cancelled.
* `cancel(operation::exec)` or `cancel(operation::run)` is called, by the user or by one of the
  operations.
* `reset_stream` is called.
* `run_op` opens the stream, as it connects, fails to connect, resets the multiplexer, starts the
  writer, or is resumed as all operations of the parallel group have completed.
* `async_write` completes, with an error if `failed`.
* The wait on the timer is resumed as it was cancelled, or expires.
* `reader_op` has received some bytes, or reads them. -/
inductive Transition (ρ : Type) where
  | exec (req : Request) (adapter : ℕ → Adapter ρ) (response : ρ)
  | resume (id : ℕ)
  | cancelled (id : ℕ) (terminal : Bool)
  | cancelWaiting
  | cancelRun
  | resetStream
  | connect
  | connectFailed
  | reset
  | startWriter
  | groupDone
  | wrote (failed : Bool)
  | woken
  | expired
  | receive (chunk : Bytes)
  | commitRead

namespace Connection

/-- The connection before `async_run`. -/
def fresh (receiveAdapter : Adapter ρ) (receiveResponse : ρ) : Connection ρ :=
  { client := .fresh receiveAdapter receiveResponse }

def mpx (s : Connection ρ) : Multiplexer ρ := s.client.world.mpx

/-- A move of the client. -/
def move (s : Connection ρ) (a : Move ρ) : Connection ρ :=
  { s with client := s.client.next a }

def cancelTimer (s : Connection ρ) : Connection ρ :=
  { s with writer := s.writer.cancelTimer }

/-- `trigger_write`. -/
def triggerWrite (s : Connection ρ) : Bool :=
  s.client.isOpen && s.mpx.writeBuffer.isEmpty

/-- `exec_op` when it starts. -/
def exec (s : Connection ρ) (req : Request) (adapter : ℕ → Adapter ρ) (response : ρ) :
    Connection ρ :=
  let s' := s.move (.exec req adapter response)
  if req.config.cancelIfNotConnected && !s.client.isOpen then s'
  else if s'.triggerWrite then s'.cancelTimer
  else s'

/-- `cancel_run`. -/
def cancelRun (s : Connection ρ) : Connection ρ :=
  (s.move .cancelRun).cancelTimer

/-- `exec_op` when it resumes as it was cancelled.  It calls `cancel_run` if its request is not
removed and the cancellation is terminal. -/
def cancelled (s : Connection ρ) (id : ℕ) (terminal : Bool) : Connection ρ :=
  let s' := s.move (.cancelled id terminal)
  if s.client.failed id || (s.mpx.remove id).2 || !terminal then s' else s'.cancelTimer

/-- `reader_op` when it reads.  It calls `cancel_run` after an error. -/
def commitRead (s : Connection ρ) : Connection ρ :=
  let s' := s.move .commitRead
  match s.mpx.commitRead.value with
  | .error _ _ => s'.cancelTimer
  | _ => s'

/-- `writer_op` from the start of its loop to where it suspends. -/
def write (s : Connection ρ) : Connection ρ :=
  if s.mpx.prepareWrite.value ≠ 0 then { s.move .prepareWrite with writer := .writing }
  else { s.move .prepareWrite with writer := .waiting false }

/-- `writer_op` goes on only if the stream is open. -/
def writeIfOpen (s : Connection ρ) : Connection ρ :=
  if s.client.isOpen then s.write else { s with writer := .finished }

/-- `writer_op` after `async_write`. -/
def wrote (s : Connection ρ) (failed : Bool) : Connection ρ :=
  if failed then { s.cancelRun with writer := .finished }
  else (s.move .commitWrite).writeIfOpen

/-- What a transition does. -/
def next (s : Connection ρ) : Transition ρ → Connection ρ
  | .exec req adapter response => s.exec req adapter response
  | .resume id => s.move (.resume id)
  | .cancelled id terminal => s.cancelled id terminal
  | .cancelWaiting => s.move .cancelWaiting
  | .cancelRun => s.cancelRun
  | .resetStream => { s with client := { s.client with isOpen := false } }
  | .connect => { s.move .connect with stage := .connecting }
  | .connectFailed => { s with stage := .down }
  | .reset => { s.move .reset with stage := .starting }
  | .startWriter => write { s with stage := .running }
  | .groupDone => { s with stage := .down }
  | .wrote failed => s.wrote failed
  | .woken | .expired => s.writeIfOpen
  | .receive chunk => s.move (.receive chunk)
  | .commitRead => s.commitRead

/-- When a transition is possible.  A wait is resumed only if it was cancelled or expires, and
`run_op` is resumed only after the writer has completed. -/
def Possible (s : Connection ρ) : Transition ρ → Prop
  | .exec _ _ _ | .cancelWaiting | .cancelRun | .resetStream => True
  | .resume id => s.client.Possible (.resume id)
  | .cancelled id terminal => s.client.Possible (.cancelled id terminal)
  | .connect => s.stage = .down ∨ s.stage = .connecting
  | .connectFailed | .reset => s.stage = .connecting
  | .startWriter => s.stage = .starting
  | .groupDone => s.stage = .running ∧ s.writer = .finished
  | .wrote _ => s.writer = .writing
  | .woken => s.writer = .waiting true
  | .expired => s.writer = .waiting true ∨ s.writer = .waiting false
  | .receive chunk => s.stage = .running ∧ s.client.world.Possible (.receive chunk)
  | .commitRead => s.stage = .running ∧ s.client.world.Possible .commitRead

instance (s : Connection ρ) (a : Transition ρ) : Decidable (s.Possible a) :=
  match a with
  | .exec _ _ _ | .cancelWaiting | .cancelRun | .resetStream => inferInstanceAs (Decidable True)
  | .resume id => inferInstanceAs (Decidable (s.client.Possible (.resume id)))
  | .cancelled id terminal =>
      inferInstanceAs (Decidable (s.client.Possible (.cancelled id terminal)))
  | .connect => inferInstanceAs (Decidable (s.stage = .down ∨ s.stage = .connecting))
  | .connectFailed | .reset => inferInstanceAs (Decidable (s.stage = .connecting))
  | .startWriter => inferInstanceAs (Decidable (s.stage = .starting))
  | .groupDone => inferInstanceAs (Decidable (s.stage = .running ∧ s.writer = .finished))
  | .wrote _ => inferInstanceAs (Decidable (s.writer = .writing))
  | .woken => inferInstanceAs (Decidable (s.writer = .waiting true))
  | .expired => inferInstanceAs (Decidable (s.writer = .waiting true ∨ s.writer = .waiting false))
  | .receive chunk =>
      inferInstanceAs (Decidable (s.stage = .running ∧ s.client.world.Possible (.receive chunk)))
  | .commitRead =>
      inferInstanceAs (Decidable (s.stage = .running ∧ s.client.world.Possible .commitRead))

def Step (s : Connection ρ) (a : Transition ρ) (s' : Connection ρ) : Prop :=
  s.Possible a ∧ s' = s.next a

/-- No wake-up is lost: while the stream is open and the writer is suspended on the timer, and the
wait was not cancelled, nothing is to be written. -/
def NoLostWakeUp (s : Connection ρ) : Prop :=
  s.client.isOpen = true → s.writer = .waiting false →
    s.mpx.writeBuffer = [] ∧ ∀ e ∈ s.mpx.reqs, e.isWaiting = false

end Connection

/-! ### Moves that neither write nor add -/

namespace Client

/-- The write buffer stays as it is, and if the stream is open afterwards then it was before, and no
request has begun to wait. -/
structure Quiet (c c' : Client ρ) : Prop where
  buffer : c'.world.mpx.writeBuffer = c.world.mpx.writeBuffer
  opened : c'.isOpen = true → c.isOpen = true
  served : c'.isOpen = true → (∀ e ∈ c.world.mpx.reqs, e.isWaiting = false) →
    ∀ e ∈ c'.world.mpx.reqs, e.isWaiting = false

namespace Quiet

variable {c c' c'' : Client ρ} {a : Action ρ}

theorem refl (c : Client ρ) :
  Quiet c c
  := ⟨rfl, id, fun _ h => h⟩

theorem trans (h : Quiet c c') (h' : Quiet c' c'') :
  Quiet c c''
  := by
  refine ⟨h'.buffer.trans h.buffer, fun hopen => h.opened (h'.opened hopen), ?_⟩
  intro hopen hserved
  apply h'.served hopen (h.served (h'.opened hopen) hserved)

/-- An operation of the multiplexer that neither writes nor makes requests wait. -/
theorem operate (hwrites : a.writes = false) (hqueues : a.queues = false) :
  Quiet c { c with world := c.world.operate a }
  := by
  refine ⟨World.writeBuffer_operate hwrites, id, ?_⟩
  intro _ hserved e he
  have hsplit : Split c.world.mpx.reqs c.world.mpx.reqs [] :=
    ⟨(List.append_nil _).symm, hserved, by simp⟩
  obtain ⟨sent', queued', hsplit', hsub⟩ := hsplit.operate hqueues
  obtain rfl := List.sublist_nil.mp hsub
  apply hsplit'.sent_waiting
  rw [hsplit'.eq, List.append_nil] at he
  exact he

/-- Requests may wait again when the connection is lost, but the stream is closed then. -/
theorem cancelRun (c : Client ρ) :
  Quiet c c.cancelRun
  := by
  refine ⟨World.writeBuffer_operate rfl, ?_, ?_⟩
  · intro hopen
    cases hopen
  · intro hopen
    cases hopen

theorem cancelled (c : Client ρ) (id : ℕ) (terminal : Bool) :
  Quiet c (c.cancelled id terminal)
  := by
  rw [Client.cancelled]
  split
  · exact ⟨rfl, fun h => h, fun _ h => h⟩
  · split
    · obtain ⟨hbuffer, hopened, hserved⟩ := operate (c := c) (a := .remove id) rfl rfl
      exact ⟨hbuffer, hopened, hserved⟩
    · split
      · obtain ⟨hbuffer, hopened, hserved⟩ := cancelRun c
        exact ⟨hbuffer, hopened, hserved⟩
      · apply refl

theorem commitRead (c : Client ρ) :
  Quiet c (c.next .commitRead)
  := by
  have hread : Quiet c { c with world := c.world.operate .commitRead } := operate rfl rfl
  rw [Client.next]
  split
  · apply hread.trans (cancelRun _)
  · apply hread

end Quiet

end Client

/-! ### The writer looks at the queue before it waits -/

/-- If `prepare_write` finds nothing to write then no request waits. -/
theorem Multiplexer.prepareWrite_value_eq_zero {m : Multiplexer ρ}
    (h : m.prepareWrite.value = 0) :
  m.prepareWrite.mpx.writeBuffer = m.writeBuffer ∧
    ∀ e ∈ m.prepareWrite.mpx.reqs, e.isWaiting = false
  := by
  have hqueued : m.reqs.dropWhile (!·.isWaiting) = [] := List.eq_nil_of_length_eq_zero h
  simp only [prepareWrite, hqueued]
  refine ⟨rfl, ?_⟩
  intro e he
  rw [List.map_nil, List.append_nil] at he
  simpa using List.mem_takeWhile_imp he

namespace Connection

/-- What holds between two transitions.

* While the writer is suspended on the timer, the write buffer is empty.
* While the stream is open besides, and the wait was not cancelled, no request waits.
* The write buffer is empty when the writer is to be started.
* There is a writer only while the parallel group runs. -/
structure Awake (s : Connection ρ) : Prop where
  empty : ∀ cancelled, s.writer = .waiting cancelled → s.mpx.writeBuffer = []
  served : s.client.isOpen = true → s.writer = .waiting false →
    ∀ e ∈ s.mpx.reqs, e.isWaiting = false
  starting : s.stage = .starting → s.mpx.writeBuffer = []
  alone : s.stage ≠ .running → s.writer = .finished

namespace Awake

variable {s : Connection ρ} {a : Transition ρ}

theorem noLostWakeUp (h : Awake s) :
  s.NoLostWakeUp
  := fun hopen hwaiting => ⟨h.empty false hwaiting, h.served hopen hwaiting⟩

/-- Where there is no writer, no wake-up is lost. -/
theorem of_finished (hwriter : s.writer = .finished)
    (hstarting : s.stage = .starting → s.mpx.writeBuffer = []) :
  Awake s
  := by
  refine ⟨?_, ?_, hstarting, fun _ => hwriter⟩
  · intro cancelled hwaiting
    rw [hwriter] at hwaiting
    cases hwaiting
  · intro _ hwaiting
    rw [hwriter] at hwaiting
    cases hwaiting

/-- There is a writer, so the parallel group runs. -/
theorem running (h : Awake s) (hwriter : s.writer ≠ .finished) :
  s.stage = .running
  := by
  by_contra hstage
  exact hwriter (h.alone hstage)

theorem quiet (h : Awake s) {c : Client ρ} (hquiet : s.client.Quiet c) :
  Awake { s with client := c }
  := by
  refine ⟨?_, ?_, ?_, h.alone⟩
  · intro cancelled hwaiting
    exact hquiet.buffer.trans (h.empty cancelled hwaiting)
  · intro hopen hwaiting
    apply hquiet.served hopen (h.served (hquiet.opened hopen) hwaiting)
  · intro hstage
    exact hquiet.buffer.trans (h.starting hstage)

theorem writer_cancelTimer {w : WriterState} {cancelled : Bool}
    (h : w.cancelTimer = .waiting cancelled) :
  cancelled = true ∧ ∃ before, w = .waiting before
  := by
  cases w with
  | finished | writing => cases h
  | waiting before =>
      cases h
      exact ⟨rfl, before, rfl⟩

theorem cancelTimer (h : Awake s) :
  Awake s.cancelTimer
  := by
  refine ⟨?_, ?_, h.starting, ?_⟩
  · intro cancelled hwaiting
    obtain ⟨-, before, hbefore⟩ := writer_cancelTimer hwaiting
    apply h.empty before hbefore
  · intro _ hwaiting
    cases (writer_cancelTimer hwaiting).1
  · intro hstage
    show s.writer.cancelTimer = .finished
    rw [h.alone hstage]
    rfl

theorem cancelRun (h : Awake s) :
  Awake s.cancelRun
  := (h.quiet (.cancelRun s.client)).cancelTimer

/-- A request is added.  The timer is cancelled unless nobody waits on it. -/
theorem exec (h : Awake s) (req : Request) (adapter : ℕ → Adapter ρ) (response : ρ) :
  Awake (s.exec req adapter response)
  := by
  rw [Connection.exec]
  split
  · rename_i hrefused
    have hsame : s.move (.exec req adapter response) = s := by
      rw [move, Client.next, if_pos hrefused]
    rw [hsame]
    apply h
  · rename_i hadded
    have hmove : s.move (.exec req adapter response) =
        { s with
          client :=
            { s.client with
              world := s.client.world.operate (.add req adapter response)
              active := s.client.world.nextId :: s.client.active } } := by
      rw [move, Client.next, if_neg hadded]
    have hbuffer : (s.client.world.operate (.add req adapter response)).mpx.writeBuffer
        = s.mpx.writeBuffer := World.writeBuffer_operate rfl
    rw [hmove]
    split
    · refine ⟨?_, ?_, ?_, ?_⟩
      · intro cancelled hwaiting
        obtain ⟨-, before, hbefore⟩ := writer_cancelTimer hwaiting
        exact hbuffer.trans (h.empty before hbefore)
      · intro _ hwaiting
        cases (writer_cancelTimer hwaiting).1
      · intro hstage
        exact hbuffer.trans (h.starting hstage)
      · apply h.cancelTimer.alone
    · rename_i htrigger
      refine ⟨?_, ?_, ?_, h.alone⟩
      · intro cancelled hwaiting
        exact hbuffer.trans (h.empty cancelled hwaiting)
      · intro hopen hwaiting
        have hopen : s.client.isOpen = true := hopen
        exfalso
        apply htrigger
        rw [triggerWrite, hopen, mpx, hbuffer, h.empty false hwaiting]
        rfl
      · intro hstage
        exact hbuffer.trans (h.starting hstage)

/-- The writer waits only when it has found nothing to write. -/
theorem write (hstage : s.stage = .running) (hbuffer : s.mpx.writeBuffer = []) :
  Awake s.write
  := by
  have hstarting : s.stage = .starting → (s.move .prepareWrite).mpx.writeBuffer = [] := by
    rw [hstage]
    intro hstage
    cases hstage
  rw [Connection.write]
  split
  · refine ⟨?_, ?_, hstarting, fun hnot => absurd hstage hnot⟩
    · intro cancelled hwaiting
      cases hwaiting
    · intro _ hwaiting
      cases hwaiting
  · rename_i hvalue
    obtain ⟨hsame, hserved⟩ := Multiplexer.prepareWrite_value_eq_zero (not_not.mp hvalue)
    refine ⟨?_, ?_, hstarting, fun hnot => absurd hstage hnot⟩
    · intro _ _
      exact hsame.trans hbuffer
    · intro _ _
      exact hserved

theorem writeIfOpen (hstage : s.stage = .running) (hbuffer : s.mpx.writeBuffer = []) :
  Awake s.writeIfOpen
  := by
  rw [Connection.writeIfOpen]
  split
  · apply write hstage hbuffer
  · exact of_finished rfl fun _ => hbuffer

theorem wrote (h : Awake s) (hwriting : s.writer = .writing) (failed : Bool) :
  Awake (s.wrote failed)
  := by
  have hstage := h.running (by rw [hwriting]; simp)
  rw [Connection.wrote]
  split
  · exact of_finished rfl h.cancelRun.starting
  · exact writeIfOpen (s := s.move .commitWrite) hstage rfl

/-- Every transition. -/
theorem step (h : Awake s) (ha : s.Possible a) :
  Awake (s.next a)
  := by
  have hresumed : ∀ {cancelled}, s.writer = .waiting cancelled → Awake s.writeIfOpen := by
    intro cancelled hwaiting
    apply writeIfOpen (h.running (by rw [hwaiting]; simp)) (h.empty cancelled hwaiting)
  cases a with
  | exec req adapter response => apply h.exec
  | resume id => exact h.quiet ⟨rfl, fun hopen => hopen, fun _ hserved => hserved⟩
  | cancelled id terminal =>
      have hquiet := h.quiet (.cancelled s.client id terminal)
      show Awake (s.cancelled id terminal)
      rw [Connection.cancelled]
      split
      · exact hquiet
      · exact hquiet.cancelTimer
  | cancelWaiting => exact h.quiet (.operate rfl rfl)
  | cancelRun => apply h.cancelRun
  | resetStream =>
      refine h.quiet ⟨rfl, ?_, ?_⟩
      · intro hopen
        cases hopen
      · intro hopen
        cases hopen
  | connect =>
      refine of_finished (h.alone ?_) fun hstage => by cases hstage
      rcases ha with hstage | hstage
      · simp [hstage]
      · simp [hstage]
  | connectFailed =>
      have hstage : s.stage = .connecting := ha
      exact of_finished (h.alone (by simp [hstage])) fun hstage => by cases hstage
  | reset =>
      have hstage : s.stage = .connecting := ha
      exact of_finished (h.alone (by simp [hstage])) fun _ => rfl
  | startWriter => exact write rfl (h.starting ha)
  | groupDone => exact of_finished ha.2 fun hstage => by cases hstage
  | wrote failed => apply h.wrote ha
  | woken => apply hresumed ha
  | expired =>
      rcases ha with hwaiting | hwaiting
      · apply hresumed hwaiting
      · apply hresumed hwaiting
  | receive chunk => exact h.quiet (.operate rfl rfl)
  | commitRead =>
      have hquiet := h.quiet (.commitRead s.client)
      show Awake s.commitRead
      rw [Connection.commitRead]
      split
      · exact hquiet.cancelTimer
      · exact hquiet

end Awake

end Connection

/-- No wake-up of the writer is lost, in any run of a connection. -/
theorem noLostWakeUp_of_run {receiveAdapter : Adapter ρ} {receiveResponse : ρ}
    {as : List (Transition ρ)} {s : Connection ρ}
    (hrun : Run Connection.Step (.fresh receiveAdapter receiveResponse) as s) :
  s.NoLostWakeUp
  := by
  apply Connection.Awake.noLostWakeUp
  apply hrun.invariant (I := Connection.Awake)
  · rintro s a _ h ⟨ha, rfl⟩
    apply h.step ha
  · exact .of_finished rfl fun hstage => by cases hstage

/-- A request without commands and another one are added while the writer waits, the connection is
lost and established again, and a request that stayed is sent again. -/
def awaited : List (Transition Unit) :=
  [.connect, .reset, .startWriter, .exec {} (fun _ => accepting) (), .woken,
    .exec (Request.push { config := { cancelIfUnresponded := false } } (ascii "PING") [])
      (fun _ => accepting) (),
    .wrote false, .cancelRun, .wrote true, .groupDone, .resetStream, .connect, .reset, .startWriter,
    .wrote false]

theorem noLostWakeUp_of_run_ping :
  (awaited.foldl Connection.next (.fresh accepting ())).NoLostWakeUp
    ∧ (awaited.foldl Connection.next (.fresh accepting ())).client.isOpen = true
    ∧ (awaited.foldl Connection.next (.fresh accepting ())).writer = .waiting false
    ∧ (awaited.foldl Connection.next (.fresh accepting ())).mpx.ids = [1]
  := by
  have hfollows : Run.Follows Connection.next Connection.Possible (Connection.fresh accepting ())
      awaited := by
    decide
  exact ⟨noLostWakeUp_of_run (Run.of_follows hfollows), by decide, by decide, by decide⟩

end Redis
