import BoostRedis.General.Channel
import BoostRedis.Multiplexer.Reader
import BoostRedis.System.Exchange

/-!
# Receiving pushes

After each push the reader sends its size to the receive channel, from which the user receives it.
When the channel is full the reader is paused until a size is received.  The channel is cancelled
when the run is, and by the user.

The channel is a parameter, of which only the contract is assumed: the operations `ops` on states
of some type, with `ops.Contract capacity`.  A send that is blocked completes when its size is in
the buffer or is received, or with an error when the channel is cancelled.  The reader is resumed
some time later.

* While the connection is up, the sizes that were received and those in the channel are the sizes
  of the pushes that were read, and the reader is paused exactly if one of them is not in the
  buffer (`receives_pushes`).  This is so unless a reply is taken for a push.
* If the user cancels the receive operations while the reader is paused, the connection is lost
  (`cancel_receive_loses`), whatever the server sends.
-/

namespace Redis

open Resp3

variable {ρ C : Type}

/-- A reader with its receive channel, how `async_send` has completed when the reader is to be
resumed, and the sizes that were received. -/
structure Receiver (ρ C : Type) where
  reader : Reader ρ
  channel : C
  resumed : Option Bool := none
  received : List ℕ := []

/-- A step of the reader, of somebody else while it is suspended, or of the user who receives
pushes: `async_receive`, `receive`, and `cancel(operation::receive)`. -/
inductive Intake (ρ : Type) where
  | loop
  | appended (chunk : Bytes)
  | appendFailed
  | commitRead
  | resume
  | other (a : Action ρ)
  | receive
  | tryReceive
  | cancel

/-- Whether a step of the reader cancels the run. -/
def Reader.cancelsRun (s : Reader ρ) : Turn ρ → Bool
  | .appendFailed | .other .connLost => true
  | .commitRead _ =>
      match s.world.mpx.commitRead.value with
      | .error _ _ => true
      | _ => false
  | .sent failed => failed
  | .loop | .appended _ | .other _ => false

namespace Receiver

variable (ops : ChannelOps ℕ C)

/-- `receive_channel_.cancel()`. -/
def cancelChannel (s : Receiver ρ C) : Receiver ρ C :=
  { s with
    channel := ops.cancel s.channel
    resumed := if ops.senders s.channel = [] then s.resumed else some true }

/-- A step of the reader. -/
def turn (s : Receiver ρ C) (a : Turn ρ) : Receiver ρ C :=
  if s.reader.cancelsRun a then cancelChannel ops { s with reader := s.reader.next a }
  else { s with reader := s.reader.next a }

/-- The size of a push is sent to the channel. -/
def send (s : Receiver ρ C) (size : ℕ) : Receiver ρ C :=
  let sending := (ops.send s.channel size).2
  { reader := s.reader.next (.commitRead (sending != .blocked))
    channel := (ops.send s.channel size).1
    resumed := none
    received := s.received ++ if sending = .given then [size] else [] }

/-- A size is received from the channel, which may make room for the reader. -/
def accept (s : Receiver ρ C) (op : C → C × Option ℕ) : Receiver ρ C :=
  let channel := (op s.channel).1
  { s with
    channel := channel
    resumed :=
      if ops.senders s.channel ≠ [] ∧ ops.senders channel = [] then some false else s.resumed
    received := s.received ++ (op s.channel).2.toList }

def next (s : Receiver ρ C) : Intake ρ → Receiver ρ C
  | .loop => s.turn ops .loop
  | .appended chunk => s.turn ops (.appended chunk)
  | .appendFailed => s.turn ops .appendFailed
  | .commitRead =>
      match s.reader.world.mpx.commitRead.value with
      | .message true size => s.send ops size
      | _ => s.turn ops (.commitRead true)
  | .resume =>
      match s.resumed with
      | some failed => { s.turn ops (.sent failed) with resumed := none }
      | none => s
  | .other a => s.turn ops (.other a)
  | .receive => s.accept ops ops.receive
  | .tryReceive => s.accept ops ops.tryReceive
  | .cancel => s.cancelChannel ops

/-- The reader is suspended or has completed, so that somebody else may do something. -/
def Idle (s : Receiver ρ C) : Prop :=
  s.reader.stage = .reading ∨ s.reader.stage = .sending ∨ s.reader.stage = .completed

instance (s : Receiver ρ C) : Decidable s.Idle :=
  inferInstanceAs (Decidable (_ ∨ _ ∨ _))

/-- When a step is possible, whatever the server sends.  The writer works while the connection is
up. -/
def Possible (s : Receiver ρ C) : Intake ρ → Prop
  | .loop => s.reader.stage = .loop
  | .appended chunk => s.reader.Ready (.appended chunk)
  | .appendFailed => s.reader.stage = .reading
  | .commitRead => s.reader.stage = .committing
  | .resume => s.reader.stage = .sending ∧ s.resumed.isSome = true
  | .other a => s.Idle ∧ a.reads = false ∧ s.reader.world.Possible a ∧
      (a.isPrepareWrite = true → s.reader.world.up = true)
  | .receive | .tryReceive | .cancel => s.Idle

instance (s : Receiver ρ C) (a : Intake ρ) : Decidable (s.Possible a) :=
  match a with
  | .loop => inferInstanceAs (Decidable (s.reader.stage = .loop))
  | .appended chunk => inferInstanceAs (Decidable (s.reader.Ready (.appended chunk)))
  | .appendFailed => inferInstanceAs (Decidable (s.reader.stage = .reading))
  | .commitRead => inferInstanceAs (Decidable (s.reader.stage = .committing))
  | .resume => inferInstanceAs (Decidable (s.reader.stage = .sending ∧ s.resumed.isSome = true))
  | .other a =>
      inferInstanceAs (Decidable (s.Idle ∧ a.reads = false ∧ s.reader.world.Possible a ∧
        (a.isPrepareWrite = true → s.reader.world.up = true)))
  | .receive | .tryReceive | .cancel => inferInstanceAs (Decidable s.Idle)

def Step (s : Receiver ρ C) (a : Intake ρ) (s' : Receiver ρ C) : Prop :=
  s.Possible a ∧ s' = s.next ops a

/-- The server sends the messages `ms`, the replies among them in answer to commands that were
staged, and no reply is taken for a push. -/
def Conforms (ms : List Message) (s : Receiver ρ C) : Intake ρ → Prop
  | .appended chunk => World.Sendable ms s.reader.world.log (s.reader.world.received ++ chunk)
  | .commitRead => ¬ Overtaken s.reader.world.mpx
  | _ => True

instance (ms : List Message) (s : Receiver ρ C) (a : Intake ρ) : Decidable (s.Conforms ms a) :=
  match a with
  | .appended chunk =>
      inferInstanceAs (Decidable
        (World.Sendable ms s.reader.world.log (s.reader.world.received ++ chunk)))
  | .commitRead => inferInstanceAs (Decidable (¬ Overtaken s.reader.world.mpx))
  | .loop | .appendFailed | .resume | .other _ | .receive | .tryReceive | .cancel =>
      inferInstanceAs (Decidable True)

def ConformingStep (ms : List Message) (s : Receiver ρ C) (a : Intake ρ) (s' : Receiver ρ C) :
    Prop :=
  s.Step ops a s' ∧ s.Conforms ms a

/-- A connection that is just up. -/
def start (receiveAdapter : Adapter ρ) (receiveResponse : ρ) : Receiver ρ C where
  reader := .start (.fresh receiveAdapter receiveResponse)
  channel := ops.empty

end Receiver

/-! ### The pushes of a stream -/

/-- The sizes of the pushes among the first `k` messages. -/
def pushSizes (ms : List Message) (k : ℕ) : List ℕ :=
  ((ms.take k).filter (·.isPush)).map fun m => m.encode.length

theorem pushSizes_succ {ms : List Message} {k : ℕ} {x : Message} (hx : ms[k]? = some x) :
  pushSizes ms (k + 1) = pushSizes ms k ++ if x.isPush then [x.encode.length] else []
  := by
  rw [pushSizes, pushSizes, List.take_add_one, hx, List.filter_append, List.map_append]
  cases hpush : x.isPush <;> simp [hpush]

/-- No other operation finishes a message. -/
theorem finished_calls {w : World ρ} {a : Action ρ} (h : a.isCommitRead = false) :
  finished (w.calls a) = 0
  := by
  cases a with
  | add _ _ _ | remove _ | receive _ | reset => rfl
  | cancelWaiting => apply (notifications (notified_cancelWaiting _)).2.2
  | prepareWrite =>
      show finished (List.map _ _) = 0
      generalize w.mpx.reqs.dropWhile (!·.isWaiting) = reqs
      induction reqs with
      | nil => rfl
      | cons e reqs ih => apply ih
  | commitWrite => apply (notifications (notified_commitWrite _)).2.2
  | commitRead => cases h
  | connLost => apply (notifications (notified_cancelOnConnLost _)).2.2

/-- What the server may have sent is part of its messages. -/
theorem World.Sendable.stream {ms : List Message} {log : List Event} {bytes : Bytes}
    (h : World.Sendable ms log bytes) :
  bytes <+: encodeMessages ms
  := by
  obtain ⟨n, hbytes, -⟩ := h
  apply hbytes.trans
  have happend := encodeMessages_append (ms.take n) (ms.drop n)
  rw [List.take_append_drop] at happend
  rw [happend]
  apply List.prefix_append

/-! ### The pace of the reader -/

section Stages

variable {s : Reader ρ}

theorem Reader.stage_goOn {stage : ReaderStage} (h : stage ≠ .sending) :
  (s.goOn stage).stage ≠ .sending
  := by
  rw [Reader.goOn]
  dsimp only
  split
  · exact h
  · rintro ⟨⟩

/-- The reader is suspended on the channel if a push was read, and its size could not be sent. -/
theorem Reader.stage_commitRead (sent : Bool) :
  (s.commitRead sent).stage = .sending ↔
    (∃ size, s.world.mpx.commitRead.value = .message true size) ∧ sent = false
  := by
  rw [Reader.commitRead]
  cases hvalue : s.world.mpx.commitRead.value with
  | needsMore | error _ _ | faulted => simp [Reader.fail]
  | message isPush size =>
      cases isPush with
      | false => simp
      | true =>
          cases sent with
          | false => simp
          | true =>
              constructor
              · intro hsending
                apply absurd hsending
                apply stage_goOn
                rintro ⟨⟩
              · rintro ⟨-, ⟨⟩⟩

end Stages

/-- The reader is paused exactly if its send is blocked. -/
structure Paced (ops : ChannelOps ℕ C) (s : Receiver ρ C) : Prop where
  paused : s.reader.stage = .sending → s.resumed = none →
    ops.senders s.channel = [s.reader.res.2]
  room : s.reader.stage ≠ .sending ∨ s.resumed ≠ none → ops.senders s.channel = []
  suspended : s.resumed ≠ none → s.reader.stage = .sending

namespace Paced

variable {ops : ChannelOps ℕ C} {capacity : ℕ} {s : Receiver ρ C} {reader : Reader ρ}

/-- Either the reader is paused, or no send is blocked. -/
theorem paused_or_room (h : Paced ops s) :
  (s.reader.stage = .sending ∧ s.resumed = none ∧ ops.senders s.channel = [s.reader.res.2]) ∨
    (s.reader.stage ≠ .sending ∨ s.resumed ≠ none) ∧ ops.senders s.channel = []
  := by
  by_cases hroom : s.reader.stage ≠ .sending ∨ s.resumed ≠ none
  · exact .inr ⟨hroom, h.room hroom⟩
  · obtain ⟨hstage, hnone⟩ := not_or.mp hroom
    rw [not_not] at hstage hnone
    exact .inl ⟨hstage, hnone, h.paused hstage hnone⟩

/-- The reader is somewhere else. -/
theorem goOn (h : Paced ops s) (hstage : s.reader.stage ≠ .sending)
    (hstage' : reader.stage ≠ .sending) :
  Paced ops { s with reader := reader }
  := by
  have hnone : s.resumed = none := by
    by_contra hsome
    exact hstage (h.suspended hsome)
  exact ⟨fun hsending => absurd hsending hstage', fun _ => h.room (.inl hstage),
    fun hsome => absurd hnone hsome⟩

/-- The reader is resumed. -/
theorem resume (h : Paced ops s) (hresumed : s.resumed ≠ none)
    (hstage' : reader.stage ≠ .sending) :
  Paced ops { s with reader := reader, resumed := none }
  := ⟨fun hsending => absurd hsending hstage', fun _ => h.room (.inr hresumed),
    fun hnone => absurd rfl hnone⟩

theorem cancel (h : Paced ops s) (hcontract : ops.Contract capacity) :
  Paced ops (s.cancelChannel ops)
  := by
  have hnil := hcontract.senders_cancel s.channel
  obtain ⟨hstage, -, hblocked⟩ | ⟨-, hroom⟩ := h.paused_or_room
  · rw [Receiver.cancelChannel, hblocked, if_neg (List.cons_ne_nil _ _)]
    exact ⟨by rintro - ⟨⟩, fun _ => hnil, fun _ => hstage⟩
  · rw [Receiver.cancelChannel, if_pos hroom]
    refine ⟨?_, fun _ => hnil, h.suspended⟩
    intro hstage hnone
    cases (h.paused hstage hnone).symm.trans hroom

/-- A size is received. -/
theorem accept (h : Paced ops s) (hcontract : ops.Contract capacity) {op : C → C × Option ℕ}
    (hop : ops.Takes op) :
  Paced ops (s.accept ops op)
  := by
  have hnil : ops.senders (op s.channel).1 = [] := by
    apply hcontract.senders_take hop
    obtain ⟨-, -, hblocked⟩ | ⟨-, hroom⟩ := h.paused_or_room
    · rw [hblocked, List.length_singleton]
    · rw [hroom]
      exact Nat.zero_le 1
  obtain ⟨hstage, -, hblocked⟩ | ⟨-, hroom⟩ := h.paused_or_room
  · rw [Receiver.accept, hblocked, if_pos ⟨List.cons_ne_nil _ _, hnil⟩]
    exact ⟨by rintro - ⟨⟩, fun _ => hnil, fun _ => hstage⟩
  · rw [Receiver.accept, if_neg fun hmoves => hmoves.1 hroom]
    refine ⟨?_, fun _ => hnil, h.suspended⟩
    intro hstage hnone
    cases (h.paused hstage hnone).symm.trans hroom

/-- A size is sent. -/
theorem send (h : Paced ops s) (hcontract : ops.Contract capacity)
    (hstage : s.reader.stage ≠ .sending) {size : ℕ}
    (hvalue : s.reader.world.mpx.commitRead.value = .message true size) :
  Paced ops (s.send ops size)
  := by
  have hsending : (s.send ops size).reader.stage = .sending ↔
      (ops.send s.channel size).2 = .blocked := by
    refine (Reader.stage_commitRead _).trans ?_
    simp [hvalue]
  have hsize : (s.send ops size).reader.res.2 = size := by
    show (s.reader.commitRead _).res.2 = size
    rw [Reader.commitRead, hvalue]
    dsimp only
    split <;> rfl
  refine ⟨?_, ?_, fun hnone => absurd rfl hnone⟩
  · intro hstage' _
    rw [hsize]
    show ops.senders (ops.send s.channel size).1 = [size]
    rw [(hcontract.blocked _ _ (hsending.mp hstage')).2, h.room (.inl hstage), List.nil_append]
  · intro hroom
    apply hcontract.senders_send
    intro hblocked
    obtain hstage' | hnone := hroom
    · exact hstage' (hsending.mpr hblocked)
    · exact hnone rfl

end Paced

namespace Receiver

variable {ops : ChannelOps ℕ C} {capacity : ℕ} {ms : List Message} {s s' : Receiver ρ C}
  {a : Intake ρ}

theorem reader_turn (a : Turn ρ) :
  (s.turn ops a).reader = s.reader.next a
  := by
  rw [turn]
  split <;> rfl

theorem paced_turn (hcontract : ops.Contract capacity) {a : Turn ρ}
    (h : Paced ops { s with reader := s.reader.next a }) :
  Paced ops (s.turn ops a)
  := by
  rw [turn]
  split
  · exact h.cancel hcontract
  · exact h

theorem paced_step (h : Paced ops s) (hcontract : ops.Contract capacity)
    (hpossible : s.Possible a) :
  Paced ops (s.next ops a)
  := by
  cases a with
  | loop =>
      apply paced_turn hcontract
      apply h.goOn (by rw [show s.reader.stage = .loop from hpossible]; rintro ⟨⟩)
      rw [Reader.next]
      dsimp only
      split <;> rintro ⟨⟩
  | appended chunk =>
      apply paced_turn hcontract
      apply h.goOn (by rw [hpossible.1]; rintro ⟨⟩)
      apply Reader.stage_goOn
      rintro ⟨⟩
  | appendFailed =>
      apply paced_turn hcontract
      apply h.goOn (by rw [show s.reader.stage = .reading from hpossible]; rintro ⟨⟩)
      rintro ⟨⟩
  | commitRead =>
      have hstage : s.reader.stage ≠ .sending := by
        rw [show s.reader.stage = .committing from hpossible]
        rintro ⟨⟩
      rw [next]
      split
      · rename_i hvalue
        exact h.send hcontract hstage hvalue
      · apply paced_turn hcontract
        apply h.goOn hstage
        intro hsending
        cases ((Reader.stage_commitRead true).mp hsending).2
  | resume =>
      obtain ⟨hstage, hresumed⟩ := hpossible
      obtain ⟨failed, hfailed⟩ := Option.isSome_iff_exists.mp hresumed
      have hstage' : (s.reader.next (.sent failed)).stage ≠ .sending := by
        rw [Reader.next]
        split
        · rintro ⟨⟩
        · apply Reader.stage_goOn
          rintro ⟨⟩
      have hsome : s.resumed ≠ none := by
        rw [hfailed]
        rintro ⟨⟩
      have hroom := h.room (.inr hsome)
      simp only [next, hfailed, turn]
      split
      · have hcancel := h.cancel hcontract
        rw [cancelChannel, if_pos hroom] at hcancel
        rw [cancelChannel]
        exact hcancel.resume hsome hstage'
      · exact h.resume hsome hstage'
  | other a => exact paced_turn hcontract ⟨h.paused, h.room, h.suspended⟩
  | receive => exact h.accept hcontract hcontract.receive
  | tryReceive => exact h.accept hcontract hcontract.tryReceive
  | cancel => exact h.cancel hcontract

theorem paced_start (hcontract : ops.Contract capacity) (receiveAdapter : Adapter ρ)
    (receiveResponse : ρ) :
  Paced ops (.start ops receiveAdapter receiveResponse)
  := ⟨by rintro ⟨⟩, fun _ => (List.append_eq_nil_iff.mp hcontract.contents_empty).2,
    fun hnone => absurd rfl hnone⟩

/-! ### The sizes of pushes -/

/-- The receiver does what the reader does. -/
theorem sound_step (h : Reader.Sound ms s.reader) (hpossible : s.Possible a)
    (hconforms : s.Conforms ms a) :
  Reader.Sound ms (s.next ops a).reader
  := by
  cases a with
  | loop =>
      rw [next, reader_turn]
      exact h.step (a := .loop) ⟨hpossible, trivial⟩
  | appended chunk =>
      rw [next, reader_turn]
      exact h.step (a := .appended chunk) ⟨hpossible, World.Sendable.stream hconforms⟩
  | appendFailed =>
      rw [next, reader_turn]
      exact h.step (a := .appendFailed) ⟨hpossible, trivial⟩
  | commitRead =>
      rw [next]
      split
      · exact h.step (a := .commitRead _) ⟨hpossible, trivial⟩
      · rw [reader_turn]
        exact h.step (a := .commitRead true) ⟨hpossible, trivial⟩
  | resume =>
      obtain ⟨hstage, hresumed⟩ := hpossible
      obtain ⟨failed, hfailed⟩ := Option.isSome_iff_exists.mp hresumed
      simp only [next, hfailed, reader_turn]
      exact h.step (a := .sent failed) ⟨hstage, trivial⟩
  | other a =>
      rw [next, reader_turn]
      obtain ⟨hidle, hreads, hworld, -⟩ := hpossible
      obtain hreading | hsending | hcompleted := hidle
      · exact h.step (a := .other a) ⟨⟨.inl hreading, hreads, hworld⟩, trivial⟩
      · exact h.step (a := .other a) ⟨⟨.inr hsending, hreads, hworld⟩, trivial⟩
      · show ReaderStage.Keeps ms _ _ s.reader.stage
        rw [hcompleted]
        trivial
  | receive | tryReceive | cancel => exact h

theorem world_commitRead {s : Reader ρ} (sent : Bool) :
  (s.next (.commitRead sent)).world = s.world.apply .commitRead
  := by
  rw [Reader.next, Reader.commitRead, World.apply]
  cases s.world.mpx.commitRead.value with
  | needsMore | error _ _ | faulted => rfl
  | message isPush size =>
      cases isPush with
      | false => rfl
      | true => cases sent <;> rfl

/-- What holds while the connection is up: the sizes that were received and those in the channel
are the sizes of the pushes that were read, unless one was dropped and the reader is about to
fail. -/
structure Delivered (ops : ChannelOps ℕ C) (ms : List Message) (s : Receiver ρ C) : Prop where
  tracked : Tracked ms s.reader.world
  sizes : s.resumed ≠ some true →
    s.received ++ ops.contents s.channel = pushSizes ms (finished s.reader.world.log)

/-- What holds of a receiver. -/
structure Receiving (ops : ChannelOps ℕ C) (ms : List Message) (s : Receiver ρ C) : Prop where
  sound : Reader.Sound ms s.reader
  paced : Paced ops s
  delivered : s.reader.world.up = true → Delivered ops ms s

/-- A step of the reader that does not cancel the run. -/
theorem Delivered.turn {a : Turn ρ} (h : Delivered ops ms s)
    (hcancels : s.reader.cancelsRun a = false) (htracked : Tracked ms (s.reader.next a).world)
    (hsizes : pushSizes ms (finished (s.reader.next a).world.log)
      = pushSizes ms (finished s.reader.world.log)) :
  Delivered ops ms (s.turn ops a)
  := by
  rw [Receiver.turn, hcancels]
  refine ⟨htracked, ?_⟩
  show s.resumed ≠ some true → s.received ++ ops.contents s.channel
    = pushSizes ms (finished (s.reader.next a).world.log)
  rw [hsizes]
  exact h.sizes

/-- The size of a push is sent to the channel. -/
theorem Delivered.send {size : ℕ} (h : Delivered ops ms s) (hcontract : ops.Contract capacity)
    (hresumed : s.resumed ≠ some true) (htracked : Tracked ms (s.reader.world.apply .commitRead))
    (hsizes : pushSizes ms (finished (s.reader.world.apply .commitRead).log)
      = pushSizes ms (finished s.reader.world.log) ++ [size]) :
  Delivered ops ms (s.send ops size)
  := by
  have hworld : (s.send ops size).reader.world = s.reader.world.apply .commitRead :=
    world_commitRead _
  refine ⟨hworld ▸ htracked, ?_⟩
  intro _
  rw [hworld, hsizes, ← h.sizes hresumed, List.append_assoc, ← hcontract.contents_send,
    ← List.append_assoc]
  rfl

/-- A size is received from the channel. -/
theorem Delivered.accept (h : Delivered ops ms s) (hpaced : Paced ops s)
    {op : C → C × Option ℕ} (hop : ops.Takes op) :
  Delivered ops ms (s.accept ops op)
  := by
  refine ⟨h.tracked, ?_⟩
  intro hresumed
  have hbefore : s.resumed ≠ some true := by
    intro htrue
    have hnil := hpaced.room (.inr (by rw [htrue]; rintro ⟨⟩))
    apply hresumed
    show (if ops.senders s.channel ≠ [] ∧ ops.senders (op s.channel).1 = [] then some false
      else s.resumed) = some true
    rw [if_neg fun hmoves => hmoves.1 hnil, htrue]
  show s.received ++ (op s.channel).2.toList ++ ops.contents (op s.channel).1 = _
  rw [List.append_assoc, ← (hop s.channel).1]
  exact h.sizes hbefore

/-- Nothing is dropped if no send is blocked. -/
theorem contents_cancel (hcontract : ops.Contract capacity) (hnil : ops.senders s.channel = []) :
  ops.contents (ops.cancel s.channel) = ops.contents s.channel
  := by
  rw [ChannelOps.contents, ChannelOps.contents, hcontract.buffer_cancel, hcontract.senders_cancel,
    hnil]

theorem Delivered.cancel (h : Delivered ops ms s) (hcontract : ops.Contract capacity) :
  Delivered ops ms (s.cancelChannel ops)
  := by
  refine ⟨h.tracked, ?_⟩
  show (if ops.senders s.channel = [] then s.resumed else some true) ≠ some true →
    s.received ++ ops.contents (ops.cancel s.channel)
      = pushSizes ms (finished s.reader.world.log)
  intro hresumed
  split at hresumed
  · rename_i hnil
    rw [contents_cancel hcontract hnil]
    exact h.sizes hresumed
  · exact absurd rfl hresumed

theorem Receiving.commitRead (h : Receiving ops ms s) (hcontract : ops.Contract capacity)
    (hstage : s.reader.stage = .committing) (hover : ¬ Overtaken s.reader.world.mpx)
    (hup : (s.next ops .commitRead).reader.world.up = true) :
  Delivered ops ms (s.next ops .commitRead)
  := by
  have hworld : (s.next ops .commitRead).reader.world = s.reader.world.apply .commitRead := by
    rw [next]
    split
    · exact world_commitRead _
    · rw [reader_turn, world_commitRead]
  rw [hworld] at hup
  obtain ⟨hupw, hoperate⟩ := World.apply_of_up hup rfl
  have hdelivered := h.delivered hupw
  have hsound := h.sound
  rw [Reader.Sound, hstage] at hsound
  obtain ⟨sent, queued, cur, hinv⟩ := hdelivered.tracked.live
  obtain ⟨x, hx, hout⟩ := hinv.outcome hsound.2 hover
  have hstep :
      World.ClassifiedStep ms s.reader.world .commitRead (s.reader.world.apply .commitRead) :=
    ⟨⟨⟨⟨⟨hsound.2, hout.reports.ne_faulted⟩, hupw⟩, rfl⟩, rfl⟩, hover⟩
  have htracked := hdelivered.tracked.step hstep hup
  have hlog : finished (s.reader.world.apply .commitRead).log
      = finished s.reader.world.log + finished s.reader.world.mpx.commitRead.events := by
    rw [hoperate, World.operate_log rfl, finished_append]
    rfl
  have hresumed : s.resumed ≠ some true := by
    intro htrue
    have hsending := h.paced.suspended (by rw [htrue]; rintro ⟨⟩)
    cases hstage.symm.trans hsending
  have hquiet : (∀ size, s.reader.world.mpx.commitRead.value ≠ .message true size) →
      s.reader.cancelsRun (.commitRead true) = false →
      pushSizes ms (finished (s.reader.world.apply .commitRead).log)
        = pushSizes ms (finished s.reader.world.log) →
      Delivered ops ms (s.next ops .commitRead) := by
    intro hvalue hcancels hsizes
    have hnext : s.next ops .commitRead = s.turn ops (.commitRead true) := by
      rw [next]
      split
      · rename_i hvalue'
        exact absurd hvalue' (hvalue _)
      · rfl
    rw [hnext]
    apply hdelivered.turn hcancels
    · rw [world_commitRead]
      exact htracked
    · rw [world_commitRead, hsizes]
  cases hout with
  | proceeds hvalue hnot hfin _ =>
      apply hquiet
      · simp [hvalue]
      · rw [Reader.cancelsRun, hvalue]
      · rw [hlog, hfin, Nat.add_zero]
  | finishes hends _ =>
      cases hpush : x.isPush with
      | true =>
          have hnext : s.next ops .commitRead = s.send ops x.encode.length := by
            rw [next, hends.value, hpush]
          rw [hnext]
          apply hdelivered.send hcontract hresumed htracked
          rw [hlog, hends.finished, pushSizes_succ hx, if_pos hpush]
      | false =>
          apply hquiet
          · simp [hends.value, hpush]
          · rw [Reader.cancelsRun, hends.value]
          · rw [hlog, hends.finished, pushSizes_succ hx, hpush]
            simp
  | rejected hvalue _ _ _ _ =>
      rw [World.apply, hvalue] at hup
      cases hup

theorem Receiving.step (h : Receiving ops ms s) (hcontract : ops.Contract capacity)
    (hstep : s.ConformingStep ops ms a s') :
  Receiving ops ms s'
  := by
  obtain ⟨⟨hpossible, rfl⟩, hconforms⟩ := hstep
  refine ⟨sound_step h.sound hpossible hconforms, paced_step h.paced hcontract hpossible, ?_⟩
  intro hup
  cases a with
  | loop =>
      rw [next, reader_turn] at hup
      have hdelivered := h.delivered hup
      exact hdelivered.turn rfl hdelivered.tracked rfl
  | appended chunk =>
      rw [next, reader_turn] at hup
      have hdelivered := h.delivered hup
      have hstep : World.ClassifiedStep ms s.reader.world (.receive chunk)
          (s.reader.world.apply (.receive chunk)) :=
        ⟨⟨⟨⟨hpossible.2.2, fun _ => hconforms⟩, rfl⟩, rfl⟩, trivial⟩
      exact hdelivered.turn rfl (hdelivered.tracked.step hstep hup) rfl
  | appendFailed =>
      rw [next, reader_turn] at hup
      cases hup
  | commitRead => exact h.commitRead hcontract hpossible hconforms hup
  | resume =>
      obtain ⟨hstage, hresumed⟩ := hpossible
      obtain ⟨failed, hfailed⟩ := Option.isSome_iff_exists.mp hresumed
      simp only [next, hfailed, reader_turn] at hup ⊢
      cases failed with
      | true => cases hup
      | false =>
          have hdelivered := h.delivered hup
          refine ⟨hdelivered.tracked, fun _ => hdelivered.sizes ?_⟩
          rw [hfailed]
          rintro ⟨⟩
  | other a =>
      rw [next, reader_turn] at hup
      obtain ⟨-, hreads, hworld, hprepare⟩ := hpossible
      have hreset : a.isReset = false := by
        cases a with
        | reset => cases hreads
        | _ => rfl
      have hcommit : a.isCommitRead = false := by
        cases a with
        | commitRead => cases hreads
        | _ => rfl
      obtain ⟨hupw, hoperate⟩ := World.apply_of_up hup hreset
      have hdelivered := h.delivered hupw
      have hallowed : s.reader.world.Allowed (fun _ => ms) a := by
        refine ⟨hworld, ?_⟩
        cases a with
        | prepareWrite => exact hprepare rfl
        | receive _ | commitRead | reset => cases hreads
        | add _ _ _ | remove _ | cancelWaiting | commitWrite | connLost => trivial
      have hover : s.reader.world.Classifies a := by
        cases a with
        | commitRead => cases hcommit
        | _ => trivial
      apply hdelivered.turn
      · cases a with
        | connLost => cases hup
        | _ => rfl
      · exact hdelivered.tracked.step ⟨⟨⟨hallowed, rfl⟩, hreset⟩, hover⟩ hup
      · show pushSizes ms (finished (s.reader.world.apply a).log) = _
        rw [hoperate, World.operate_log hreset, finished_append, finished_calls hcommit,
          Nat.add_zero]
  | receive => exact (h.delivered hup).accept h.paced hcontract.receive
  | tryReceive => exact (h.delivered hup).accept h.paced hcontract.tryReceive
  | cancel => exact (h.delivered hup).cancel hcontract

theorem Receiving.start (hcontract : ops.Contract capacity) (receiveAdapter : Adapter ρ)
    (receiveResponse : ρ) :
  Receiving ops ms (.start ops receiveAdapter receiveResponse)
  := by
  refine ⟨Reader.Sound.start ms _, paced_start hcontract _ _, fun _ => ?_⟩
  exact ⟨Tracked.start rfl rfl rfl rfl, fun _ => hcontract.contents_empty⟩

/-! ### Cancelling the receive operations -/

/-- The reader is about to fail, or has failed, and no size is sent to the channel any more. -/
structure Failing (ops : ChannelOps ℕ C) (sizes : List ℕ) (s : Receiver ρ C) : Prop where
  stage : s.reader.stage = .sending ∧ s.resumed = some true ∨
    s.reader.stage = .completed ∧ s.reader.world.up = false
  sizes_eq : s.received ++ ops.contents s.channel = sizes

variable {sizes : List ℕ}

theorem Failing.cancel (h : Failing ops sizes s) (hcontract : ops.Contract capacity)
    (hnil : ops.senders s.channel = []) :
  Failing ops sizes (s.cancelChannel ops)
  := by
  rw [cancelChannel, if_pos hnil]
  refine ⟨h.stage, ?_⟩
  show s.received ++ ops.contents (ops.cancel s.channel) = sizes
  rw [contents_cancel hcontract hnil]
  exact h.sizes_eq

theorem Failing.accept {op : C → C × Option ℕ} (h : Failing ops sizes s)
    (hnil : ops.senders s.channel = []) (hop : ops.Takes op) :
  Failing ops sizes (s.accept ops op)
  := by
  rw [Receiver.accept, if_neg fun hmoves => hmoves.1 hnil]
  refine ⟨h.stage, ?_⟩
  show s.received ++ (op s.channel).2.toList ++ ops.contents (op s.channel).1 = sizes
  rw [List.append_assoc, ← (hop s.channel).1]
  exact h.sizes_eq

theorem Failing.step (h : Failing ops sizes s) (hpaced : Paced ops s)
    (hcontract : ops.Contract capacity) (hstep : s.Step ops a s') :
  Failing ops sizes s'
  := by
  obtain ⟨hpossible, rfl⟩ := hstep
  have hnil : ops.senders s.channel = [] := by
    apply hpaced.room
    obtain ⟨-, hresumed⟩ | ⟨hstage, -⟩ := h.stage
    · exact .inr (by rw [hresumed]; rintro ⟨⟩)
    · exact .inl (by rw [hstage]; rintro ⟨⟩)
  have hstage : s.reader.stage = .sending ∨ s.reader.stage = .completed :=
    h.stage.imp And.left And.left
  cases a with
  | loop | appendFailed | commitRead =>
      rw [Possible] at hpossible
      rw [hpossible] at hstage
      simp at hstage
  | appended chunk =>
      rw [hpossible.1] at hstage
      simp at hstage
  | resume =>
      obtain ⟨hsending, -⟩ := hpossible
      obtain ⟨-, hresumed⟩ | ⟨hcompleted, -⟩ := h.stage
      · have hnext : s.next ops .resume
            = { s.cancelChannel ops with reader := s.reader.fail, resumed := none } := by
          simp only [next, hresumed]
          rfl
        rw [hnext]
        exact ⟨.inr ⟨rfl, rfl⟩, (h.cancel hcontract hnil).sizes_eq⟩
      · cases hsending.symm.trans hcompleted
  | other a =>
      obtain ⟨-, hreads, -⟩ := hpossible
      have hmoved : Failing ops sizes { s with reader := s.reader.next (.other a) } := by
        refine ⟨?_, h.sizes_eq⟩
        obtain hsending | ⟨hcompleted, hdown⟩ := h.stage
        · exact .inl hsending
        · refine .inr ⟨hcompleted, World.up_apply ?_ hdown⟩
          cases a with
          | reset => cases hreads
          | _ => rfl
      rw [next, turn]
      split
      · exact hmoved.cancel hcontract hnil
      · exact hmoved
  | receive => exact h.accept hnil hcontract.receive
  | tryReceive => exact h.accept hnil hcontract.tryReceive
  | cancel => exact h.cancel hcontract hnil

end Receiver

section Pushes

variable {ops : ChannelOps ℕ C} {capacity : ℕ} {receiveAdapter : Adapter ρ} {receiveResponse : ρ}
variable {as as' : List (Intake ρ)} {s t : Receiver ρ C}

/-- For every channel that keeps the contract, while the connection is up, unless a reply is taken
for a push or the receive operations were cancelled while the reader was paused, the sizes that were
received and those in the channel are those of the pushes that were read, in order.  At most one of
them is not in the buffer, exactly if the reader is paused. -/
theorem receives_pushes {ms : List Message} (hcontract : ops.Contract capacity)
    (hrun : Run (Receiver.ConformingStep ops ms) (.start ops receiveAdapter receiveResponse) as s)
    (hup : s.reader.world.up = true) (hresumed : s.resumed ≠ some true) :
  s.received ++ ops.contents s.channel = pushSizes ms (finished s.reader.world.log) ∧
    (ops.contents s.channel).length ≤ capacity + 1 ∧
    (capacity < (ops.contents s.channel).length ↔ s.reader.stage = .sending ∧ s.resumed = none)
  := by
  have h : Receiver.Receiving ops ms s :=
    hrun.invariant (fun h hstep => h.step hcontract hstep) (.start hcontract _ _)
  refine ⟨(h.delivered hup).sizes hresumed, ?_⟩
  rw [ChannelOps.contents, List.length_append]
  obtain ⟨hstage, hnone, hblocked⟩ | ⟨hroom, hnil⟩ := h.paced.paused_or_room
  · have hfull := hcontract.full s.channel (by rw [hblocked]; exact List.cons_ne_nil _ _)
    rw [hblocked, hfull, List.length_singleton]
    exact ⟨Nat.le_refl _, fun _ => ⟨hstage, hnone⟩, fun _ => Nat.lt_succ_self _⟩
  · have hle := hcontract.buffer_le s.channel
    rw [hnil, List.length_nil]
    refine ⟨by omega, by omega, ?_⟩
    rintro ⟨hstage, hnone⟩
    exact absurd hroom (by simp [hstage, hnone])

/-- For every channel that keeps the contract, if the receive operations are cancelled while the
reader is paused, the size with which it waits is never received, and the reader fails and cancels
the run as soon as it is resumed. -/
theorem cancel_receive_loses (hcontract : ops.Contract capacity)
    (hrun : Run (Receiver.Step ops) (.start ops receiveAdapter receiveResponse) as s)
    (hstage : s.reader.stage = .sending) (hresumed : s.resumed = none)
    (hrun' : Run (Receiver.Step ops) (s.next ops .cancel) as' t) :
  ops.contents s.channel = ops.buffer s.channel ++ [s.reader.res.2] ∧
    t.received ++ ops.contents t.channel = s.received ++ ops.buffer s.channel ∧
    (t.reader.stage = .sending ∧ t.resumed = some true ∨
      t.reader.stage = .completed ∧ t.reader.world.up = false)
  := by
  have hpaced : Paced ops s := by
    apply hrun.invariant _ (Receiver.paced_start hcontract _ _)
    rintro s a s' h ⟨hpossible, rfl⟩
    exact Receiver.paced_step h hcontract hpossible
  have hblocked := hpaced.paused hstage hresumed
  have hcancel :
      Receiver.Failing ops (s.received ++ ops.buffer s.channel) (s.next ops .cancel) := by
    refine ⟨.inl ⟨hstage, ?_⟩, ?_⟩
    · show (if ops.senders s.channel = [] then s.resumed else some true) = some true
      rw [hblocked, if_neg (List.cons_ne_nil _ _)]
    · show s.received
        ++ (ops.buffer (ops.cancel s.channel) ++ ops.senders (ops.cancel s.channel)) = _
      rw [hcontract.buffer_cancel, hcontract.senders_cancel, List.append_nil]
  have hend : Paced ops t ∧ Receiver.Failing ops (s.received ++ ops.buffer s.channel) t := by
    apply hrun'.invariant _ ⟨hpaced.cancel hcontract, hcancel⟩
    rintro s a s' ⟨hpaced, hfailing⟩ hstep
    refine ⟨?_, hfailing.step hpaced hcontract hstep⟩
    obtain ⟨hpossible, rfl⟩ := hstep
    exact Receiver.paced_step hpaced hcontract hpossible
  refine ⟨?_, hend.2.sizes_eq, hend.2.stage⟩
  rw [ChannelOps.contents, hblocked]

end Pushes

/-- A request that expects no response is sent.  Then two pushes arrive together, and the channel
has room for one. -/
def crowded : List (Intake Unit) :=
  [.loop,
    .other (.add (Request.push {} (ascii "SUBSCRIBE") [ascii "news"]) (fun _ => accepting) ()),
    .other .prepareWrite, .other .commitWrite,
    .appended (ascii ">1\r\n+hi\r\n>1\r\n+hi\r\n"), .commitRead, .loop, .commitRead]

/-- The second push waits for room. -/
def crowdedReceiver : Receiver Unit (Channel ℕ 1) :=
  crowded.foldl (Receiver.next (Channel.ops ℕ 1)) (.start (Channel.ops ℕ 1) accepting ())

theorem receives_pushes_crowded :
  crowdedReceiver.channel.contents = [9, 9] ∧ crowdedReceiver.reader.stage = .sending
  := by
  have hfollows : Run.Follows (Receiver.next (Channel.ops ℕ 1))
      (fun s a => s.Possible a ∧ s.Conforms [greeting, greeting] a)
      (.start (Channel.ops ℕ 1) accepting ()) crowded := by
    decide
  have h := receives_pushes (Channel.contract ℕ 1)
    ((Run.of_follows hfollows).mono fun h => ⟨⟨h.1.1, h.2⟩, h.1.2⟩) (s := crowdedReceiver)
    (by decide) (by decide)
  refine ⟨?_, (h.2.2.mp (by decide)).1⟩
  have hreceived : crowdedReceiver.received = [] := by
    decide
  rw [hreceived, List.nil_append, Channel.contents_ops] at h
  exact h.1.trans (by decide)

/-- The receive operations are cancelled, and then the size in the buffer is received. -/
def cancelled : Receiver Unit (Channel ℕ 1) :=
  [.receive, .resume].foldl (Receiver.next (Channel.ops ℕ 1))
    (crowdedReceiver.next (Channel.ops ℕ 1) .cancel)

theorem cancel_receive_loses_crowded :
  crowdedReceiver.channel.contents = [9, 9] ∧
    cancelled.received ++ cancelled.channel.contents = [9] ∧ cancelled.reader.world.up = false
  := by
  have hfollows : Run.Follows (Receiver.next (Channel.ops ℕ 1)) Receiver.Possible
      (.start (Channel.ops ℕ 1) accepting ()) crowded := by
    decide
  have hfollows' : Run.Follows (Receiver.next (Channel.ops ℕ 1)) Receiver.Possible
      (crowdedReceiver.next (Channel.ops ℕ 1) .cancel) [.receive, .resume] := by
    decide
  obtain ⟨hsize, hsizes, hstage⟩ := cancel_receive_loses (Channel.contract ℕ 1)
    (Run.of_follows hfollows) (s := crowdedReceiver) (t := cancelled) (by decide) (by decide)
    (Run.of_follows hfollows')
  rw [Channel.contents_ops] at hsize hsizes
  refine ⟨hsize.trans (by decide), hsizes.trans (by decide), ?_⟩
  obtain ⟨hsending, -⟩ | ⟨-, hdown⟩ := hstage
  · exact absurd hsending (by decide)
  · exact hdown

end Redis
