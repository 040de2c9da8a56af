import BoostRedis.Multiplexer.Delivery
import BoostRedis.Multiplexer.Order

/-!
# The reader

`reader_op` reads from the socket if the last call of `commit_read` has asked for more data, or if
the read buffer is empty, and calls `commit_read` otherwise.  After a push it may have to wait for
the receive channel.  While it is suspended, the other operations on the multiplexer take place.

The parser does not depend on the adapters unless these set an error, so at any time it stands
where it has asked for more data on a part of the read buffer.  It does not matter that the request
that gets the nodes of a message may change while the message is read.
-/

namespace Redis

open Resp3

variable {ρ : Type}

/-- Where `reader_op` stands: at the head of its loop, suspended on `async_append_some`, about to
call `commit_read`, suspended on `async_send`, or completed. -/
inductive ReaderStage where
  | loop
  | reading
  | committing
  | sending
  | completed
deriving DecidableEq, Repr

/-- A connection with its reader, and the result of the last call of `commit_read`. -/
structure Reader (ρ : Type) where
  world : World ρ
  stage : ReaderStage := .loop
  res : Option Bool × ℕ := (some false, 0)

/-- A step of the reader, or of somebody else while the reader is suspended. -/
inductive Turn (ρ : Type) where
  | loop
  | appended (chunk : Bytes)
  | appendFailed
  | commitRead (sent : Bool)
  | sent (failed : Bool)
  | other (a : Action ρ)

/-- The operations that only the reader does, and the reset before the reader is started. -/
def Action.reads : Action ρ → Bool
  | .receive _ | .commitRead | .reset => true
  | .add _ _ _ | .remove _ | .cancelWaiting | .prepareWrite | .commitWrite | .connLost => false

namespace Reader

/-- The reader completes with an error, and cancels the run. -/
def fail (s : Reader ρ) : Reader ρ :=
  { s with world := s.world.lose, stage := .completed }

/-- The reader goes on if the connection is still open. -/
def goOn (s : Reader ρ) (stage : ReaderStage) : Reader ρ :=
  { s with stage := if s.world.up then stage else .completed }

/-- `commit_read` is called.  Its result is sent to the receive channel if it is about a push, at
once if the channel has room. -/
def commitRead (s : Reader ρ) (sent : Bool) : Reader ρ :=
  let world := s.world.after s.world.mpx.commitRead
  match s.world.mpx.commitRead.value with
  | .needsMore => { world := world, stage := .loop, res := (none, 0) }
  | .message false size => { world := world, stage := .loop, res := (some false, size) }
  | .message true size =>
      let s : Reader ρ := { world := world, stage := .sending, res := (some true, size) }
      if sent then s.goOn .loop else s
  | .error isPush _ => fail { world := world, res := (some isPush, 0) }
  | .faulted => { s with world := world, stage := .completed }

def next (s : Reader ρ) : Turn ρ → Reader ρ
  | .loop =>
      { s with
        stage :=
          if s.res.1.isNone || s.world.mpx.readBuffer.isEmpty then .reading else .committing }
  | .appended chunk => goOn { s with world := s.world.apply (.receive chunk) } .committing
  | .appendFailed => s.fail
  | .commitRead sent => s.commitRead sent
  | .sent failed => if failed then s.fail else s.goOn .loop
  | .other a => { s with world := s.world.apply a }

/-- When a step is possible, whatever the server sends.  A read that succeeds delivers some
bytes. -/
def Ready (s : Reader ρ) : Turn ρ → Prop
  | .loop => s.stage = .loop
  | .appended chunk => s.stage = .reading ∧ chunk ≠ [] ∧ s.world.Possible (.receive chunk)
  | .appendFailed => s.stage = .reading
  | .commitRead _ => s.stage = .committing
  | .sent _ => s.stage = .sending
  | .other a => (s.stage = .reading ∨ s.stage = .sending) ∧ a.reads = false ∧ s.world.Possible a

instance (s : Reader ρ) (a : Turn ρ) : Decidable (s.Ready a) :=
  match a with
  | .loop => inferInstanceAs (Decidable (s.stage = .loop))
  | .appended chunk =>
      inferInstanceAs (Decidable (s.stage = .reading ∧ chunk ≠ [] ∧
        s.world.Possible (.receive chunk)))
  | .appendFailed => inferInstanceAs (Decidable (s.stage = .reading))
  | .commitRead _ => inferInstanceAs (Decidable (s.stage = .committing))
  | .sent _ => inferInstanceAs (Decidable (s.stage = .sending))
  | .other a =>
      inferInstanceAs (Decidable ((s.stage = .reading ∨ s.stage = .sending) ∧ a.reads = false ∧
        s.world.Possible a))

/-- When a step is possible, if the server sends the messages `ms`. -/
def Possible (ms : List Message) (s : Reader ρ) (a : Turn ρ) : Prop :=
  s.Ready a ∧
    match a with
    | .appended chunk => s.world.received ++ chunk <+: encodeMessages ms
    | _ => True

instance (ms : List Message) (s : Reader ρ) (a : Turn ρ) : Decidable (s.Possible ms a) :=
  match a with
  | .appended chunk =>
      inferInstanceAs (Decidable (_ ∧ s.world.received ++ chunk <+: encodeMessages ms))
  | .loop | .appendFailed | .commitRead _ | .sent _ | .other _ =>
      inferInstanceAs (Decidable (_ ∧ True))

def Step (ms : List Message) (s : Reader ρ) (a : Turn ρ) (s' : Reader ρ) : Prop :=
  s.Possible ms a ∧ s' = s.next a

/-- The reader is started on a connection that was just reset. -/
def start (w : World ρ) : Reader ρ :=
  { world := w.apply .reset }

end Reader

/-- No message is in the buffer as a whole: there is nothing, or a proper part of one message. -/
def Unfinished (ms : List Message) (buffer : Bytes) : Prop :=
  buffer = [] ∨ ∃ x ∈ ms, buffer <+: x.encode ∧ buffer ≠ x.encode

/-- The reader drains its buffer.

* When it is suspended on the socket, no message is in the read buffer as a whole.
* It calls `commit_read` on a read buffer that is not empty.
* The call does not fail, unless an adapter sets an error. -/
structure Drains (ms : List Message) (s : Reader ρ) : Prop where
  suspended : s.stage = .reading → Unfinished ms s.world.mpx.readBuffer
  called : s.stage = .committing → s.world.mpx.readBuffer ≠ []
  accepted : s.stage = .committing → (∀ ec, .rejected ec ∉ s.world.mpx.commitRead.events) →
    s.world.mpx.commitRead.value = .needsMore ∨
      ∃ isPush size, s.world.mpx.commitRead.value = .message isPush size

/-! ### Reading on -/

/-- How a call of `commit_read` that goes on with the message `x` ends. -/
inductive CommitsPart (m : Multiplexer ρ) (x : Message) (r : Effect ρ ReadResult) : Prop where
  | part : r.value = .needsMore → r.mpx.readBuffer = m.readBuffer →
      r.mpx.parser.PausedOn m.readBuffer → ¬ x.encode <+: m.readBuffer → CommitsPart m x r
  | whole {isPush : Bool} {size : ℕ} : r.value = .message isPush size →
      r.mpx.readBuffer = m.readBuffer.drop x.encode.length → r.mpx.parser = .fresh →
      x.encode <+: m.readBuffer → CommitsPart m x r
  | rejected {isPush : Bool} {ec : ErrorCode} : r.value = .error isPush ec →
      .rejected ec ∈ r.events → CommitsPart m x r

namespace Multiplexer

variable {m : Multiplexer ρ} {x : Message} {s : Bytes}

theorem commitsPart_push (hpaused : m.parser.PausedOn m.readBuffer)
    (hpre : m.readBuffer <+: x.encode ++ s) (hv : m.readBuffer.length < 2 ^ 64) :
  CommitsPart m x m.commitPush
  := by
  obtain ⟨nds, hpaused⟩ := hpaused
  have hgoes := hpaused.goesOn hpre hv m.receiveAdapter m.receiveResponse
  rw [commitPush]
  generalize parse m.parser m.readBuffer m.receiveAdapter m.receiveResponse = r at hgoes ⊢
  obtain ⟨q, state, nodes, status⟩ := r
  cases hgoes with
  | done hs _ hconsumed hwhole =>
      obtain rfl : status = .done := hs
      exact .whole rfl (congrArg (m.readBuffer.drop ·) hconsumed) rfl hwhole
  | needsMore hs hq hnot =>
      obtain rfl : status = .needsMore := hs
      exact .part rfl rfl ⟨_, hq⟩ hnot
  | rejected hs =>
      obtain rfl : status = .rejected _ := hs
      exact .rejected rfl (by simp)

theorem commitsPart_response (hpaused : m.parser.PausedOn m.readBuffer)
    (hpre : m.readBuffer <+: x.encode ++ s) (hv : m.readBuffer.length < 2 ^ 64) (e : Elem ρ)
    (rest : List (Elem ρ)) :
  CommitsPart m x (m.commitResponse e rest)
  := by
  obtain ⟨nds, hpaused⟩ := hpaused
  have hgoes := hpaused.goesOn hpre hv e.getAdapter e.response
  rw [Multiplexer.commitResponse]
  generalize parse m.parser m.readBuffer e.getAdapter e.response = r at hgoes ⊢
  obtain ⟨q, state, nodes, status⟩ := r
  cases hgoes with
  | done hs _ hconsumed hwhole =>
      obtain rfl : status = .done := hs
      dsimp only
      split
      · exact .whole rfl (congrArg (m.readBuffer.drop ·) hconsumed) rfl hwhole
      · exact .whole rfl (congrArg (m.readBuffer.drop ·) hconsumed) rfl hwhole
  | needsMore hs hq hnot =>
      obtain rfl : status = .needsMore := hs
      exact .part rfl rfl ⟨_, hq⟩ hnot
  | rejected hs =>
      obtain rfl : status = .rejected _ := hs
      exact .rejected rfl (by simp)

theorem commitsPart (hpaused : m.parser.PausedOn m.readBuffer)
    (hpre : m.readBuffer <+: x.encode ++ s) (hv : m.readBuffer.length < 2 ^ 64) :
  CommitsPart m x m.commitRead
  := by
  obtain hread | ⟨e, rest, -, -, -, hread⟩ := m.commitRead_cases
  · rw [hread]
    apply commitsPart_push hpaused hpre hv
  · rw [hread]
    apply commitsPart_response hpaused hpre hv

end Multiplexer

/-- What is not done by the reader leaves the bytes and the parser as they are. -/
theorem World.reading_apply {w : World ρ} {a : Action ρ} (h : a.reads = false) :
  (w.apply a).received = w.received ∧ (w.apply a).mpx.readBuffer = w.mpx.readBuffer ∧
    (w.apply a).mpx.parser = w.mpx.parser
  := by
  have hsame : ∀ {m : Multiplexer ρ}, SameReading w.mpx m →
      m.readBuffer = w.mpx.readBuffer ∧ m.parser = w.mpx.parser :=
    fun h => ⟨h.readBuffer, h.parser⟩
  cases a with
  | add req adapter response => exact ⟨rfl, hsame (sameReading_add _ _)⟩
  | remove id => exact ⟨rfl, hsame (sameReading_remove _ _)⟩
  | cancelWaiting => exact ⟨rfl, hsame (sameReading_cancelWaiting _)⟩
  | prepareWrite => exact ⟨rfl, hsame (sameReading_prepareWrite _)⟩
  | commitWrite => exact ⟨rfl, hsame (sameReading_commitWrite _)⟩
  | connLost =>
      obtain ⟨reqs, called, heq⟩ := w.operate_of_requeues (a := .connLost) rfl
      exact ⟨rfl, congrArg (·.readBuffer) heq, congrArg (·.parser) heq⟩
  | receive _ | commitRead | reset => cases h

/-! ### The reader's place in the stream -/

/-- The bytes received are some messages of the stream, followed by the read buffer, and the parser
has asked for more data on a part of that. -/
structure Placed (ms : List Message) (w : World ρ) : Prop where
  stream : ∃ before rest, ms = before ++ rest ∧
    w.received = encodeMessages before ++ w.mpx.readBuffer ∧
    w.mpx.readBuffer <+: encodeMessages rest
  paused : w.mpx.parser.PausedOn w.mpx.readBuffer
  short : w.mpx.readBuffer.length < 2 ^ 64

namespace Placed

variable {ms : List Message} {w w' : World ρ} {a : Action ρ}

theorem reset (ms : List Message) (w : World ρ) :
  Placed ms (w.apply .reset)
  := ⟨⟨[], ms, rfl, rfl, List.nil_prefix⟩, .fresh [], Nat.two_pow_pos 64⟩

theorem receive {chunk : Bytes} (h : Placed ms w) (hshort : w.Possible (.receive chunk))
    (hstream : w.received ++ chunk <+: encodeMessages ms) :
  Placed ms (w.apply (.receive chunk))
  := by
  obtain ⟨before, rest, rfl, hreceived, -⟩ := h.stream
  rw [hreceived, encodeMessages_append, List.append_assoc, List.prefix_append_right_inj] at hstream
  refine ⟨⟨before, rest, rfl, ?_, hstream⟩, h.paused.append chunk, hshort⟩
  show w.received ++ chunk = _
  rw [hreceived, List.append_assoc]
  rfl

theorem other (h : Placed ms w) (ha : a.reads = false) :
  Placed ms (w.apply a)
  := by
  obtain ⟨hreceived, hbuffer, hparser⟩ := World.reading_apply (w := w) ha
  refine ⟨?_, ?_, ?_⟩
  · rw [hreceived, hbuffer]
    apply h.stream
  · rw [hparser, hbuffer]
    apply h.paused
  · rw [hbuffer]
    apply h.short

/-- The message to which the first byte of the read buffer belongs. -/
theorem current (h : Placed ms w) (hb : w.mpx.readBuffer ≠ []) :
  ∃ before x rest, ms = before ++ x :: rest ∧
    w.received = encodeMessages before ++ w.mpx.readBuffer ∧
    w.mpx.readBuffer <+: x.encode ++ encodeMessages rest
  := by
  obtain ⟨before, rest, hms, hreceived, hpre⟩ := h.stream
  cases rest with
  | nil => exact absurd (List.prefix_nil.mp hpre) hb
  | cons x rest => exact ⟨before, x, rest, hms, hreceived, hpre⟩

/-- More data is needed, and the read buffer stays. -/
theorem part {r : Effect ρ ReadResult} (h : Placed ms w)
    (hbuffer : r.mpx.readBuffer = w.mpx.readBuffer)
    (hparser : r.mpx.parser.PausedOn w.mpx.readBuffer) :
  Placed ms (w.after r)
  := by
  refine ⟨?_, ?_, ?_⟩
  · show ∃ before rest, ms = before ++ rest ∧
      w.received = encodeMessages before ++ r.mpx.readBuffer ∧
      r.mpx.readBuffer <+: encodeMessages rest
    rw [hbuffer]
    apply h.stream
  · show r.mpx.parser.PausedOn r.mpx.readBuffer
    rw [hbuffer]
    apply hparser
  · show r.mpx.readBuffer.length < 2 ^ 64
    rw [hbuffer]
    apply h.short

/-- The current message is read. -/
theorem whole {x : Message} {before rest : List Message} {r : Effect ρ ReadResult}
    (h : Placed ms w) (hms : ms = before ++ x :: rest)
    (hreceived : w.received = encodeMessages before ++ w.mpx.readBuffer)
    (hpre : w.mpx.readBuffer <+: x.encode ++ encodeMessages rest)
    (hwhole : x.encode <+: w.mpx.readBuffer)
    (hbuffer : r.mpx.readBuffer = w.mpx.readBuffer.drop x.encode.length)
    (hparser : r.mpx.parser = .fresh) :
  Placed ms (w.after r)
  := by
  have hshort := h.short
  obtain ⟨u, hu⟩ := hwhole
  rw [← hu, List.drop_left] at hbuffer
  rw [← hu, List.prefix_append_right_inj] at hpre
  refine ⟨⟨before ++ [x], rest, ?_, ?_, ?_⟩, ?_, ?_⟩
  · rw [hms, List.append_assoc]
    rfl
  · show w.received = _ ++ r.mpx.readBuffer
    rw [hreceived, hbuffer, ← hu, encodeMessages_append, List.append_assoc]
    simp [encodeMessages]
  · show r.mpx.readBuffer <+: _
    rw [hbuffer]
    apply hpre
  · show r.mpx.parser.PausedOn r.mpx.readBuffer
    rw [hparser]
    apply Parser.PausedOn.fresh
  · show r.mpx.readBuffer.length < 2 ^ 64
    rw [← hu, List.length_append] at hshort
    rw [hbuffer]
    omega

end Placed

/-- A part of the stream that does not begin with a whole message. -/
theorem unfinished_of_part {ms : List Message} {x : Message} {buffer s : Bytes} (hx : x ∈ ms)
    (hpre : buffer <+: x.encode ++ s) (hnot : ¬ x.encode <+: buffer) :
  Unfinished ms buffer
  := by
  obtain hwhole | hpart := List.prefix_or_prefix_of_prefix (List.prefix_append x.encode s) hpre
  · exact absurd hwhole hnot
  · refine .inr ⟨x, hx, hpart, ?_⟩
    rintro rfl
    exact hnot List.prefix_rfl

/-! ### The reader's loop -/

/-- What holds at each stage of the reader.  Once it has completed, nothing is said about it. -/
def ReaderStage.Keeps (ms : List Message) (w : World ρ) (res : Option Bool × ℕ) :
    ReaderStage → Prop
  | .loop => Placed ms w ∧ (res.1 = none → Unfinished ms w.mpx.readBuffer)
  | .reading => Placed ms w ∧ Unfinished ms w.mpx.readBuffer
  | .committing => Placed ms w ∧ w.mpx.readBuffer ≠ []
  | .sending => Placed ms w ∧ res.1 ≠ none
  | .completed => True

namespace Reader

/-- What holds of a reader whenever it stands somewhere. -/
def Sound (ms : List Message) (s : Reader ρ) : Prop := s.stage.Keeps ms s.world s.res

namespace Sound

variable {ms : List Message} {s : Reader ρ}

theorem start (ms : List Message) (w : World ρ) :
  Sound ms (.start w)
  := ⟨.reset ms w, by rintro ⟨⟩⟩

theorem goOn {stage : ReaderStage} (h : stage.Keeps ms s.world s.res) :
  Sound ms (s.goOn stage)
  := by
  rw [Reader.goOn, Sound]
  dsimp only
  split
  · apply h
  · trivial

/-- The head of the loop: the reader needs data, or there are bytes for `commit_read`. -/
theorem loop (h : Sound ms s) (hstage : s.stage = .loop) :
  Sound ms (s.next .loop)
  := by
  rw [Sound, hstage] at h
  obtain ⟨hplaced, hunfinished⟩ := h
  rw [next, Sound]
  dsimp only
  split
  · rename_i hneeded
    refine ⟨hplaced, ?_⟩
    obtain hnone | hempty := Bool.or_eq_true_iff.mp hneeded
    · exact hunfinished (Option.isNone_iff_eq_none.mp hnone)
    · exact .inl (List.isEmpty_iff.mp hempty)
  · rename_i hneeded
    refine ⟨hplaced, ?_⟩
    intro hempty
    rw [hempty] at hneeded
    simp at hneeded

theorem appended {chunk : Bytes} (h : Sound ms s) (hstage : s.stage = .reading) (hne : chunk ≠ [])
    (hshort : s.world.Possible (.receive chunk))
    (hstream : s.world.received ++ chunk <+: encodeMessages ms) :
  Sound ms (s.next (.appended chunk))
  := by
  rw [Sound, hstage] at h
  apply goOn
  refine ⟨h.1.receive hshort hstream, ?_⟩
  exact List.append_ne_nil_of_right_ne_nil _ hne

/-- After `commit_read` the current message is not there as a whole, or it was read. -/
theorem commitRead (h : Sound ms s) (hstage : s.stage = .committing) (sent : Bool) :
  Sound ms (s.commitRead sent)
  := by
  rw [Sound, hstage] at h
  obtain ⟨hplaced, hb⟩ := h
  obtain ⟨before, x, rest, hms, hreceived, hpre⟩ := hplaced.current hb
  have hx : x ∈ ms := by simp [hms]
  rw [Reader.commitRead]
  cases Multiplexer.commitsPart hplaced.paused hpre hplaced.short with
  | part hvalue hbuffer hparser hnot =>
      rw [hvalue]
      refine ⟨hplaced.part hbuffer hparser, fun _ => ?_⟩
      show Unfinished ms s.world.mpx.commitRead.mpx.readBuffer
      rw [hbuffer]
      apply unfinished_of_part hx hpre hnot
  | @whole isPush size hvalue hbuffer hparser hwhole =>
      have hplaced' := hplaced.whole hms hreceived hpre hwhole hbuffer hparser
      rw [hvalue]
      cases isPush with
      | false => exact ⟨hplaced', by rintro ⟨⟩⟩
      | true =>
          dsimp only
          split
          · apply goOn
            exact ⟨hplaced', by rintro ⟨⟩⟩
          · exact ⟨hplaced', by simp⟩
  | rejected hvalue _ =>
      rw [hvalue]
      trivial

theorem sent (h : Sound ms s) (hstage : s.stage = .sending) (failed : Bool) :
  Sound ms (s.next (.sent failed))
  := by
  rw [Sound, hstage] at h
  rw [next]
  split
  · trivial
  · apply goOn
    exact ⟨h.1, fun hnone => absurd hnone h.2⟩

theorem other {a : Action ρ} (h : Sound ms s) (hstage : s.stage = .reading ∨ s.stage = .sending)
    (ha : a.reads = false) :
  Sound ms (s.next (.other a))
  := by
  rw [next, Sound]
  dsimp only
  rw [Sound] at h
  obtain hstage | hstage := hstage
  · rw [hstage] at h ⊢
    refine ⟨h.1.other ha, ?_⟩
    rw [(World.reading_apply ha).2.1]
    apply h.2
  · rw [hstage] at h ⊢
    exact ⟨h.1.other ha, h.2⟩

theorem step {a : Turn ρ} (h : Sound ms s) (ha : s.Possible ms a) :
  Sound ms (s.next a)
  := by
  obtain ⟨hready, hstream⟩ := ha
  cases a with
  | loop => apply h.loop hready
  | appended chunk => apply h.appended hready.1 hready.2.1 hready.2.2 hstream
  | appendFailed => trivial
  | commitRead sent => apply h.commitRead hready
  | sent failed => apply h.sent hready
  | other a => apply h.other hready.1 hready.2.1

theorem drains (h : Sound ms s) :
  Drains ms s
  := by
  refine ⟨?_, ?_, ?_⟩
  · intro hstage
    rw [Sound, hstage] at h
    apply h.2
  · intro hstage
    rw [Sound, hstage] at h
    apply h.2
  · intro hstage haccepted
    rw [Sound, hstage] at h
    obtain ⟨before, x, rest, -, -, hpre⟩ := h.1.current h.2
    cases Multiplexer.commitsPart h.1.paused hpre h.1.short with
    | part hvalue _ _ _ => exact .inl hvalue
    | whole hvalue _ _ _ => exact .inr ⟨_, _, hvalue⟩
    | rejected _ hmem => exact absurd hmem (haccepted _)

end Sound

end Reader

/-- The reader drains its buffer before it waits, in every run on a stream of messages. -/
theorem drains_of_run {ms : List Message} {w : World ρ} {as : List (Turn ρ)} {s : Reader ρ}
    (hrun : Run (Reader.Step ms) (.start w) as s) :
  Drains ms s
  := by
  apply Reader.Sound.drains
  apply hrun.invariant _ (Reader.Sound.start ms w)
  rintro s a _ h ⟨ha, rfl⟩
  apply h.step ha

/-- A push. -/
def greeting : Message where
  value := .aggregate .push 1 [.simple .simpleString (ascii "hi")]
  wellFormed := by decide
  height_le := by decide
  length_lt := by decide

/-- A reply arrives in two parts, the second of them with a push, for which the receive channel has
no room at first, and with the beginning of another message. -/
def readInParts : List (Turn Unit) :=
  [.loop, .other (.add (Request.push {} (ascii "PING") []) (fun _ => accepting) ()),
    .other .prepareWrite, .other .commitWrite, .appended (ascii "+PO"), .commitRead true, .loop,
    .appended (ascii "NG\r\n>1\r\n+hi\r\n+P"), .commitRead true, .loop, .commitRead false,
    .sent false, .loop, .commitRead true, .loop]

theorem drains_of_run_parts :
  (readInParts.foldl Reader.next (.start (.fresh accepting ()))).stage = .reading ∧
    Unfinished [pong, greeting, pong]
      (readInParts.foldl Reader.next (.start (.fresh accepting ()))).world.mpx.readBuffer
  := by
  have hfollows : Run.Follows Reader.next (Reader.Possible [pong, greeting, pong])
      (.start (.fresh accepting ())) readInParts := by
    decide
  have hstage : (readInParts.foldl Reader.next (.start (.fresh accepting ()))).stage
      = .reading := by
    decide
  exact ⟨hstage, (drains_of_run (Run.of_follows hfollows)).suspended hstage⟩

end Redis
