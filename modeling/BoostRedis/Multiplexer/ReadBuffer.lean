import BoostRedis.Multiplexer.Reader

/-!
# The size of the read buffer

`append_some_op` grows the read buffer by the number of bytes that the parser suggests, reads into
the new part of it, and cuts off what was not filled, unless the read fails.  If `max_read_size`
leaves no room for the growth, the dynamic buffer throws an exception out of the reader.

* The read buffer is never larger than `max_read_size`, and on a stream of messages it needs about
  twice the size of the longest message, however many of them have arrived
  (`readBuffer_le_longest`).
* On a stream of messages nothing is thrown, however the stream is cut into pieces and whatever
  happens in between, exactly if there is room for each proper part of a message and the growth
  that is suggested after it.
* As long as a bulk is expected, the parser suggests its whole length, also if almost all of it has
  arrived.  So a bulk may need room for twice its length.
-/

namespace Resp3

/-! ### Where the parser has asked for more data -/

/-- The parser has asked for more data, when it was given the view. -/
def Parser.PausedAt (p : Parser) (view : Bytes) : Prop :=
  (parse .fresh view accepting ()).parser = p ∧
    (parse .fresh view accepting ()).status = .needsMore

theorem Parser.PausedAt.fresh :
  Parser.fresh.PausedAt []
  := by
  have hparse : parse .fresh [] accepting () = ⟨.fresh, (), [], .needsMore⟩ :=
    parse_of_needsMore rfl rfl ()
  rw [PausedAt, hparse]
  exact ⟨rfl, rfl⟩

theorem Parser.PausedAt.pausedOn {p : Parser} {view : Bytes} (h : p.PausedAt view) (c : Bytes) :
  p.PausedOn (view ++ c)
  := by
  refine ⟨(parse .fresh view accepting ()).nodes, view, c, rfl, ?_⟩
  rw [← h.1, ← h.2]

/-- A call of `parse` that goes on with a message and needs more data has looked at the whole
view. -/
theorem Parser.PausedOn.pausedAt {σ : Type} {p : Parser} {view s : Bytes} {x : Message}
    (h : p.PausedOn view) (hpre : view <+: x.encode ++ s) (hv : view.length < 2 ^ 64)
    (adapter : Adapter σ) (t : σ) (hmore : (parse p view adapter t).status = .needsMore) :
  (parse p view adapter t).parser.PausedAt view
  := by
  obtain ⟨nds, v, c, rfl, hparse⟩ := h
  obtain ⟨hwhole, -⟩ := parse_part_resumed hpre hv accepting () hparse rfl
  obtain ⟨ec, hec⟩ | heq := parse_eq_accepting p (v ++ c) adapter t
  · rw [hmore] at hec
    cases hec
  · rw [PausedAt, hwhole, ← heq]
    exact ⟨rfl, hmore⟩

/-- The adapter that accepts every node, for any response. -/
def trusting {σ : Type} : Adapter σ := fun _ s => (s, none)

theorem parseLoop_trusting {σ : Type} (view : Bytes) (n : ℕ) (p : Parser) (s : σ)
    (ec : ErrorCode) :
  (parseLoop trusting view n p s).status ≠ .rejected ec
  := by
  induction n generalizing p s with
  | zero =>
      intro h
      cases h
  | succ n ih =>
      rw [parseLoop]
      split
      · simp
      · split
        · simp
        · simp
        · simp
        · apply ih

end Resp3

namespace Redis

open Resp3

variable {ρ : Type}

/-! ### The read buffer of the multiplexer -/

namespace Multiplexer

variable {m : Multiplexer ρ} {x : Message} {s : Bytes}

/-- If `commit_read` needs more data, then the parser has looked at the whole read buffer. -/
theorem pausedAt_commitRead (hpaused : m.parser.PausedOn m.readBuffer)
    (hpre : m.readBuffer <+: x.encode ++ s) (hv : m.readBuffer.length < 2 ^ 64)
    (hmore : m.commitRead.value = .needsMore) :
  m.commitRead.mpx.parser.PausedAt m.readBuffer
  := by
  obtain hread | ⟨e, rest, -, -, -, hread⟩ := m.commitRead_cases
  · have hpausedAt := hpaused.pausedAt hpre hv m.receiveAdapter m.receiveResponse
    rw [hread, commitPush] at hmore ⊢
    generalize parse m.parser m.readBuffer m.receiveAdapter m.receiveResponse = r
      at hpausedAt hmore ⊢
    obtain ⟨q, state, nodes, status⟩ := r
    cases status with
    | needsMore => exact hpausedAt rfl
    | done | failed _ | rejected _ | faulted _ | exhausted => cases hmore
  · have hpausedAt := hpaused.pausedAt hpre hv e.getAdapter e.response
    rw [hread, Multiplexer.commitResponse] at hmore ⊢
    generalize parse m.parser m.readBuffer e.getAdapter e.response = r at hpausedAt hmore ⊢
    obtain ⟨q, state, nodes, status⟩ := r
    cases status with
    | needsMore => exact hpausedAt rfl
    | done =>
        dsimp only at hmore
        split at hmore
        · cases hmore
        · cases hmore
    | failed _ | rejected _ | faulted _ | exhausted => cases hmore

/-- With an empty queue and an adapter that accepts every node nothing is rejected. -/
theorem commitRead_trusting (hreqs : m.reqs = []) (hadapter : m.receiveAdapter = trusting)
    (ec : ErrorCode) :
  .rejected ec ∉ m.commitRead.events ∧ m.commitRead.mpx.reqs = [] ∧
    m.commitRead.mpx.receiveAdapter = trusting
  := by
  have hpush : m.commitRead = m.commitPush := by
    rw [commitRead, isNextPush, hreqs]
    simp
  have htrusting := parseLoop_trusting m.readBuffer (m.readBuffer.length + 2) m.parser
    m.receiveResponse
  rw [hpush, commitPush, parse, hadapter]
  generalize parseLoop trusting m.readBuffer (m.readBuffer.length + 2) m.parser
    m.receiveResponse = r at htrusting ⊢
  obtain ⟨q, state, nodes, status⟩ := r
  cases status with
  | rejected ec => exact absurd rfl (htrusting ec)
  | needsMore | failed _ | done | faulted _ | exhausted => exact ⟨by simp, hreqs, rfl⟩

end Multiplexer

/-! ### Appending to the read buffer -/

/-- `reader_op::buffer_growth_hint`. -/
def bufferGrowthHint : ℕ := 4096

/-- A connection with its reader, the number of bytes by which `append_some_op` has grown the read
buffer, and whether it has thrown an exception. -/
structure Appender (ρ : Type) where
  reader : Reader ρ
  size : ℕ := 0
  thrown : Bool := false

/-- The number of bytes that are read in a step. -/
def Turn.bytes : Turn ρ → ℕ
  | .appended chunk => chunk.length
  | _ => 0

namespace Appender

/-- The bytes in the read buffer. -/
def buffer (s : Appender ρ) : Bytes := s.reader.world.mpx.readBuffer

/-- The number of bytes that the reader passes to `async_append_some`. -/
def growth (s : Appender ρ) : ℕ :=
  s.reader.world.mpx.parser.getSuggestedBufferGrowth bufferGrowthHint

/-- `append_some_op` until it is suspended.  The function `grow` of the dynamic buffer throws an
exception if the limit leaves no room for the growth. -/
def appendSome (maxReadSize : ℕ) (s : Appender ρ) : Appender ρ :=
  if maxReadSize - s.buffer.length < s.growth then { s with thrown := true }
  else { s with size := s.growth }

/-- `append_some_op` returns without a call of `shrink` if the read has failed, so that the part
that was added stays in the read buffer. -/
def appendFailed (s : Appender ρ) : Appender ρ :=
  let reader := s.reader.next .appendFailed
  let mpx := reader.world.mpx
  let mpx := { mpx with readBuffer := mpx.readBuffer ++ List.replicate s.size 0 }
  { s with reader := { reader with world := { reader.world with mpx := mpx } } }

def next (maxReadSize : ℕ) (s : Appender ρ) : Turn ρ → Appender ρ
  | .loop =>
      let s := { s with reader := s.reader.next .loop }
      if s.reader.stage = .reading then s.appendSome maxReadSize else s
  | .appended chunk => { s with reader := s.reader.next (.appended chunk) }
  | .appendFailed => s.appendFailed
  | .commitRead sent => { s with reader := s.reader.next (.commitRead sent) }
  | .sent failed => { s with reader := s.reader.next (.sent failed) }
  | .other a => { s with reader := s.reader.next (.other a) }

/-- Nothing goes on after an exception, and no more bytes are read than there is room for. -/
def Possible (s : Appender ρ) (a : Turn ρ) : Prop :=
  s.thrown = false ∧ s.reader.Ready a ∧ a.bytes ≤ s.size

instance (s : Appender ρ) (a : Turn ρ) : Decidable (s.Possible a) :=
  inferInstanceAs (Decidable (s.thrown = false ∧ s.reader.Ready a ∧ a.bytes ≤ s.size))

def Step (maxReadSize : ℕ) (s : Appender ρ) (a : Turn ρ) (s' : Appender ρ) : Prop :=
  s.Possible a ∧ s' = s.next maxReadSize a

/-- The reader is started on a connection that was just reset. -/
def start (w : World ρ) : Appender ρ :=
  { reader := .start w }

variable {maxReadSize : ℕ} {s : Appender ρ} {a : Turn ρ}

@[simp]
theorem reader_appendSome (maxReadSize : ℕ) (s : Appender ρ) :
  (s.appendSome maxReadSize).reader = s.reader
  := by
  rw [appendSome]
  split
  · rfl
  · rfl

/-- The reader does the same as without a limit, unless a read fails. -/
theorem reader_next (maxReadSize : ℕ) (s : Appender ρ) (ha : a ≠ .appendFailed) :
  (s.next maxReadSize a).reader = s.reader.next a
  := by
  cases a with
  | loop =>
      rw [next]
      split
      · apply reader_appendSome
      · rfl
  | appendFailed => exact absurd rfl ha
  | appended _ | commitRead _ | sent _ | other _ => rfl

theorem received_next (maxReadSize : ℕ) (s : Appender ρ) (a : Turn ρ) :
  (s.next maxReadSize a).reader.world.received = (s.reader.next a).world.received
  := by
  cases a with
  | appendFailed => rfl
  | loop => rw [reader_next maxReadSize s (by rintro ⟨⟩)]
  | appended _ | commitRead _ | sent _ | other _ => rfl

/-- If nothing is thrown, the read buffer is grown within the limit. -/
theorem appendSome_of_not_thrown (h : (s.appendSome maxReadSize).thrown = false) :
  s.appendSome maxReadSize = { s with size := s.growth } ∧
    s.growth ≤ maxReadSize - s.buffer.length
  := by
  rw [appendSome] at h ⊢
  split at h
  · cases h
  · rename_i hroom
    exact ⟨if_neg hroom, Nat.le_of_not_lt hroom⟩

/-- The head of the loop, where the reader needs data. -/
theorem next_loop (h : (s.reader.next .loop).stage = .reading) :
  s.next maxReadSize .loop
    = appendSome maxReadSize { s with reader := s.reader.next .loop }
  := if_pos h

end Appender

namespace Reader

variable {s : Reader ρ} {a : Turn ρ} {ms : List Message}

/-- The bytes received are kept. -/
theorem received_next (h : s.Ready a) :
  s.world.received <+: (s.next a).world.received
  := by
  cases a with
  | loop | appendFailed => exact List.prefix_rfl
  | appended chunk => apply List.prefix_append
  | commitRead sent =>
      rw [next, commitRead]
      cases s.world.mpx.commitRead.value with
      | needsMore | error _ _ | faulted => exact List.prefix_rfl
      | message isPush size =>
          cases isPush with
          | false => exact List.prefix_rfl
          | true =>
              dsimp only
              split
              · exact List.prefix_rfl
              · exact List.prefix_rfl
  | sent failed =>
      cases failed with
      | false => exact List.prefix_rfl
      | true => exact List.prefix_rfl
  | other a =>
      have hsame := (World.reading_apply (w := s.world) h.2.1).1
      show s.world.received <+: (s.world.apply a).received
      rw [hsame]

/-- A step that is ready is possible on a stream of messages that begins with what is received. -/
theorem possible_of_ready (h : s.Ready a)
    (hstream : (s.next a).world.received <+: encodeMessages ms) :
  s.Possible ms a
  := by
  cases a with
  | appended chunk => exact ⟨h, hstream⟩
  | loop | appendFailed | commitRead _ | sent _ | other _ => exact ⟨h, trivial⟩

theorem readBuffer_fail (s : Reader ρ) :
  s.fail.world.mpx.readBuffer = s.world.mpx.readBuffer
  := (World.reading_apply (a := .connLost) rfl).2.1

/-- The read buffer grows by the bytes that are read. -/
theorem length_readBuffer_next (h : s.Ready a) :
  (s.next a).world.mpx.readBuffer.length ≤ s.world.mpx.readBuffer.length + a.bytes
  := by
  cases a with
  | loop => exact Nat.le_add_right _ _
  | appended chunk => exact (List.length_append).le
  | appendFailed => exact (congrArg List.length (readBuffer_fail s)).le
  | commitRead sent =>
      have hle := s.world.mpx.length_readBuffer_commitRead
      rw [next, commitRead]
      cases s.world.mpx.commitRead.value with
      | needsMore | faulted => exact hle
      | error isPush ec =>
          rw [readBuffer_fail]
          exact hle
      | message isPush size =>
          cases isPush with
          | false => exact hle
          | true =>
              dsimp only
              split
              · exact hle
              · exact hle
  | sent failed =>
      cases failed with
      | false => exact Nat.le_add_right _ _
      | true => exact (congrArg List.length (readBuffer_fail s)).le
  | other a => exact (congrArg List.length (World.reading_apply h.2.1).2.1).le

/-- The reader is suspended on the socket only after the head of its loop. -/
theorem stage_next (h : s.Ready a) (hstage : (s.next a).stage = .reading) :
  a = .loop ∨ s.stage = .reading ∧ ∃ b, a = .other b
  := by
  cases a with
  | loop => exact .inl rfl
  | appended chunk =>
      rw [next, goOn] at hstage
      dsimp only at hstage
      split at hstage
      · cases hstage
      · cases hstage
  | appendFailed => cases hstage
  | commitRead sent =>
      rw [next, commitRead] at hstage
      cases hvalue : s.world.mpx.commitRead.value with
      | needsMore | faulted | error _ _ =>
          rw [hvalue] at hstage
          cases hstage
      | message isPush size =>
          rw [hvalue] at hstage
          cases isPush with
          | false => cases hstage
          | true =>
              dsimp only at hstage
              split at hstage
              · rw [goOn] at hstage
                dsimp only at hstage
                split at hstage
                · cases hstage
                · cases hstage
              · cases hstage
  | sent failed =>
      cases failed with
      | true => cases hstage
      | false =>
          rw [next, goOn] at hstage
          simp only [Bool.false_eq_true, ↓reduceIte] at hstage
          split at hstage
          · cases hstage
          · cases hstage
  | other b => exact .inr ⟨hstage, b, rfl⟩

end Reader

/-! ### The size of the read buffer -/

namespace Appender

variable {maxReadSize room : ℕ} {s : Appender ρ} {a : Turn ρ}

/-- The size of the read buffer, with the part that was added for a read. -/
def held (s : Appender ρ) : ℕ :=
  s.buffer.length + if s.thrown = false ∧ s.reader.stage = .reading then s.size else 0

theorem length_buffer_le (s : Appender ρ) :
  s.buffer.length ≤ s.held
  := Nat.le_add_right _ _

theorem held_of_reading (hthrown : s.thrown = false) (hstage : s.reader.stage = .reading) :
  s.held = s.buffer.length + s.size
  := by
  rw [held, if_pos ⟨hthrown, hstage⟩]

theorem held_of_not_reading (hstage : s.reader.stage ≠ .reading) :
  s.held = s.buffer.length
  := by
  rw [held, if_neg fun h => hstage h.2]
  rfl

/-- The head of the loop grows the read buffer, if it does not throw. -/
theorem held_loop (h : s.held ≤ room)
    (hgrown : (s.reader.next .loop).stage = .reading → (s.next maxReadSize .loop).thrown = false →
      s.buffer.length + s.growth ≤ room) :
  (s.next maxReadSize .loop).held ≤ room
  := by
  have hbuffer : (s.next maxReadSize .loop).buffer = s.buffer := by
    rw [buffer, reader_next maxReadSize s (by rintro ⟨⟩)]
    rfl
  have hbefore := s.length_buffer_le.trans h
  rw [held, hbuffer]
  split
  · rename_i hreading
    obtain ⟨hthrown, hstage⟩ := hreading
    rw [reader_next maxReadSize s (by rintro ⟨⟩)] at hstage
    have hle := hgrown hstage hthrown
    rw [next_loop hstage] at hthrown ⊢
    rw [(appendSome_of_not_thrown hthrown).1]
    exact hle
  · exact hbefore

/-- The read buffer stays within some room, if it does so whenever it is grown. -/
theorem held_step (h : s.held ≤ room) (ha : s.Possible a)
    (hgrown : a = .loop → (s.reader.next .loop).stage = .reading →
      (s.next maxReadSize .loop).thrown = false → s.buffer.length + s.growth ≤ room) :
  (s.next maxReadSize a).held ≤ room
  := by
  obtain ⟨hthrown, hready, hbytes⟩ := ha
  have hlen := Reader.length_readBuffer_next hready
  have hquiet : a ≠ .loop → (∀ b, a ≠ .other b) →
      (s.next maxReadSize a).reader.stage ≠ .reading := by
    intro hloop hother hstage
    have hstage' : (s.reader.next a).stage = .reading := by
      cases a with
      | appendFailed => cases hstage
      | _ => rwa [reader_next maxReadSize s (by rintro ⟨⟩)] at hstage
    obtain heq | ⟨-, b, heq⟩ := Reader.stage_next hready hstage'
    · exact hloop heq
    · exact hother b heq
  cases a with
  | loop => exact held_loop h (hgrown rfl)
  | appended chunk =>
      rw [held_of_reading hthrown hready.1] at h
      rw [held_of_not_reading (hquiet (by rintro ⟨⟩) (by rintro _ ⟨⟩))]
      exact (hlen.trans (Nat.add_le_add_left hbytes _)).trans h
  | appendFailed =>
      rw [held_of_reading hthrown hready] at h
      rw [held_of_not_reading (hquiet (by rintro ⟨⟩) (by rintro _ ⟨⟩))]
      show ((s.reader.next .appendFailed).world.mpx.readBuffer ++ _).length ≤ room
      rw [List.length_append, List.length_replicate]
      exact (Nat.add_le_add_right hlen _).trans h
  | commitRead sent =>
      rw [held_of_not_reading (hquiet (by rintro ⟨⟩) (by rintro _ ⟨⟩))]
      exact hlen.trans (s.length_buffer_le.trans h)
  | sent failed =>
      rw [held_of_not_reading (hquiet (by rintro ⟨⟩) (by rintro _ ⟨⟩))]
      exact hlen.trans (s.length_buffer_le.trans h)
  | other b =>
      have hsame : (s.next maxReadSize (.other b)).buffer = s.buffer :=
        (World.reading_apply hready.2.1).2.1
      rw [held, hsame]
      exact h

end Appender

theorem held_le_maxReadSize {maxReadSize : ℕ} {w : World ρ} {as : List (Turn ρ)}
    {s : Appender ρ} (hrun : Run (Appender.Step maxReadSize) (.start w) as s) :
  s.held ≤ maxReadSize
  := by
  apply hrun.invariant (I := fun s => s.held ≤ maxReadSize) _ (Nat.zero_le _)
  rintro s a _ h ⟨ha, rfl⟩
  apply Appender.held_step h ha
  intro _ hstage hthrown
  rw [Appender.next_loop hstage] at hthrown
  have hroom := (Appender.appendSome_of_not_thrown hthrown).2
  have hbuffer := s.length_buffer_le.trans h
  change s.growth ≤ maxReadSize - s.buffer.length at hroom
  omega

/-! ### Streams of messages -/

/-- The growth that is suggested after the first `n` bytes of a message. -/
def growthAfter (x : Message) (n : ℕ) : ℕ :=
  (parse .fresh (x.encode.take n) accepting ()).parser.getSuggestedBufferGrowth bufferGrowthHint

theorem one_le_growthAfter (x : Message) (n : ℕ) :
  1 ≤ growthAfter x n
  := by
  rw [growthAfter, Parser.getSuggestedBufferGrowth, bufferGrowthHint]
  split
  · split
    · omega
    · omega
  · omega

/-- A bulk that is expected is part of a view on which the parser goes on to the end of the
message. -/
theorem bulk_le_of_done {p : Parser} {view : Bytes} (hbulk : p.bulkExpected = true)
    (hv : view.length < 2 ^ 64) (hdone : (parse p view accepting ()).status = .done) :
  (p.bulkLength + 2) % 2 ^ 64 ≤ view.length
  := by
  have hnot : p.done = false := by
    simp only [Parser.bulkExpected, decide_eq_true_eq] at hbulk
    simp [Parser.done, hbulk]
  rw [parse, parseLoop, hnot, Parser.consume, if_pos hbulk, Parser.consumeBulk] at hdone
  split at hdone
  · rename_i hshort
    cases hshort
  · by_cases hshort : subSize view.length p.consumed < (p.bulkLength + 2) % 2 ^ 64
    · rw [if_pos hshort] at hdone
      cases hdone
    · rw [if_neg hshort, substr] at hdone
      by_cases hle : p.consumed ≤ view.length
      · rw [subSize] at hshort
        omega
      · rw [if_neg hle] at hdone
        cases hdone

/-- No more is suggested than the message needs, beyond the hint. -/
theorem growthAfter_le {x : Message} {n : ℕ} (hn : n < x.encode.length) :
  growthAfter x n ≤ max bufferGrowthHint x.encode.length
  := by
  have hlong : ¬ x.encode <+: x.encode.take n := by
    intro hwhole
    have hle := hwhole.length_le
    rw [List.length_take] at hle
    omega
  have hpre : x.encode.take n <+: x.encode ++ [] := by
    rw [List.append_nil]
    apply List.take_prefix
  have hmore : (parse .fresh (x.encode.take n) accepting ()).status = .needsMore := by
    cases parse_part hpre ((List.length_take_le' _ _).trans_lt x.length_lt) accepting () with
    | needsMore hs _ _ => exact hs
    | done _ _ _ hwhole => exact absurd hwhole hlong
    | rejected hs _ => exact absurd hs (parseLoop_trusting _ _ _ _ _)
  have hsplit : x.encode.take n ++ x.encode.drop n = x.encode := List.take_append_drop n x.encode
  obtain ⟨-, hwhole⟩ := parse_part_resumed (m := x) (s := []) (c := x.encode.drop n)
    (by rw [hsplit, List.append_nil]) (by rw [hsplit]; exact x.length_lt) accepting () rfl hmore
  rw [hsplit] at hwhole
  generalize hp : (parse .fresh (x.encode.take n) accepting ()).parser = p at hwhole
  have hdone : (parse p x.encode accepting ()).status = .done := by
    cases hwhole with
    | done hs _ _ _ => exact hs
    | needsMore _ _ hnot => exact absurd List.prefix_rfl hnot
    | rejected hs _ => exact absurd hs (parseLoop_trusting _ _ _ _ _)
  rw [growthAfter, hp, Parser.getSuggestedBufferGrowth]
  split
  · rename_i hbulk
    have hle := bulk_le_of_done hbulk x.length_lt hdone
    split
    · exact hle.trans (le_max_right _ _)
    · exact le_max_left _ _
  · exact le_max_left _ _

/-- There is room for each proper part of a message and the growth that is suggested after it. -/
def HasRoom (maxReadSize : ℕ) (ms : List Message) : Prop :=
  bufferGrowthHint ≤ maxReadSize ∧
    ∀ x ∈ ms, ∀ n < x.encode.length, n + growthAfter x n ≤ maxReadSize

/-- No exception is thrown while the server sends the messages, on a connection with responses of
type `ρ`. -/
def NeverThrows (ρ : Type) (maxReadSize : ℕ) (ms : List Message) : Prop :=
  ∀ (w : World ρ) (as : List (Turn ρ)) (s : Appender ρ),
    Run (Appender.Step maxReadSize) (.start w) as s →
    s.reader.world.received <+: encodeMessages ms → s.thrown = false

/-- Twice the size of the longest message is room enough, or that size and the growth hint. -/
theorem hasRoom_of_longest {longest : ℕ} {ms : List Message}
    (h : ∀ x ∈ ms, x.encode.length ≤ longest) :
  HasRoom (longest + max bufferGrowthHint longest) ms
  := by
  refine ⟨(le_max_left _ _).trans (Nat.le_add_left _ _), ?_⟩
  intro x hx n hn
  have hle := h x hx
  have hgrowth := growthAfter_le hn
  have hmono : max bufferGrowthHint x.encode.length ≤ max bufferGrowthHint longest :=
    max_le_max_left _ hle
  omega

theorem HasRoom.le {maxReadSize : ℕ} {ms : List Message} {p : Parser} {buffer : Bytes}
    (h : HasRoom maxReadSize ms) (hbuffer : Unfinished ms buffer) (hp : p.PausedAt buffer) :
  buffer.length + p.getSuggestedBufferGrowth bufferGrowthHint ≤ maxReadSize
  := by
  obtain rfl | ⟨x, hx, hpre, hne⟩ := hbuffer
  · obtain rfl : Parser.fresh = p := Parser.PausedAt.fresh.1.symm.trans hp.1
    rw [List.length_nil, Nat.zero_add]
    exact h.1
  · have htake := List.prefix_iff_eq_take.mp hpre
    have hlt : buffer.length < x.encode.length := by
      apply lt_of_le_of_ne hpre.length_le
      intro heq
      exact hne (hpre.eq_of_length heq)
    have hroom := h.2 x hx buffer.length hlt
    rw [growthAfter, ← htake, hp.1] at hroom
    exact hroom

/-- Where the reader needs data, the parser has looked at the whole read buffer. -/
def ReaderStage.PausesAt (m : Multiplexer ρ) (res : Option Bool × ℕ) : ReaderStage → Prop
  | .loop => res.1 = none ∨ m.readBuffer = [] → m.parser.PausedAt m.readBuffer
  | .sending => m.readBuffer = [] → m.parser.PausedAt m.readBuffer
  | .reading | .committing | .completed => True

namespace Reader

variable {ms : List Message} {s : Reader ρ} {a : Turn ρ}

/-- The parser has looked at the whole read buffer whenever the reader needs data. -/
def Exact (s : Reader ρ) : Prop := s.stage.PausesAt s.world.mpx s.res

namespace Exact

theorem start (w : World ρ) :
  Exact (.start w)
  := fun _ => .fresh

theorem goOn {stage : ReaderStage} (h : stage.PausesAt s.world.mpx s.res) :
  Exact (s.goOn stage)
  := by
  rw [Reader.goOn, Exact]
  dsimp only
  split
  · apply h
  · trivial

theorem commitRead (h : Sound ms s) (hstage : s.stage = .committing) (sent : Bool) :
  Exact (s.commitRead sent)
  := by
  rw [Sound, hstage] at h
  obtain ⟨hplaced, hb⟩ := h
  obtain ⟨before, x, rest, -, -, hpre⟩ := hplaced.current hb
  rw [Reader.commitRead]
  cases Multiplexer.commitsPart hplaced.paused hpre hplaced.short with
  | part hvalue hbuffer _ _ =>
      have hpausedAt := Multiplexer.pausedAt_commitRead hplaced.paused hpre hplaced.short hvalue
      rw [← hbuffer] at hpausedAt
      rw [hvalue]
      exact fun _ => hpausedAt
  | @whole isPush size hvalue _ hparser _ =>
      -- The parser was reset, so it is paused if there is nothing left in the buffer.
      have hfresh : s.world.mpx.commitRead.mpx.readBuffer = [] →
          s.world.mpx.commitRead.mpx.parser.PausedAt s.world.mpx.commitRead.mpx.readBuffer := by
        intro hempty
        rw [hempty, hparser]
        exact .fresh
      have hloop : ∀ isPush size, ReaderStage.PausesAt s.world.mpx.commitRead.mpx
          (some isPush, size) .loop := by
        rintro isPush size (hnone | hempty)
        · cases hnone
        · exact hfresh hempty
      rw [hvalue]
      cases isPush with
      | false => exact hloop false size
      | true =>
          dsimp only
          split
          · apply goOn
            exact hloop true size
          · exact hfresh
  | rejected hvalue _ =>
      rw [hvalue]
      trivial

theorem sent (h : Exact s) (hsound : Sound ms s) (hstage : s.stage = .sending) (failed : Bool) :
  Exact (s.next (.sent failed))
  := by
  rw [Sound, hstage] at hsound
  rw [Exact, hstage] at h
  cases failed with
  | true => trivial
  | false =>
      apply goOn
      rintro (hnone | hempty)
      · exact absurd hnone hsound.2
      · exact h hempty

theorem other {b : Action ρ} (h : Exact s) (hb : s.Ready (.other b)) :
  Exact (s.next (.other b))
  := by
  obtain ⟨hstage, hreads, -⟩ := hb
  obtain ⟨-, hbuffer, hparser⟩ := World.reading_apply (w := s.world) hreads
  rw [next, Exact]
  dsimp only
  rw [Exact] at h
  obtain hstage | hstage := hstage
  · rw [hstage]
    trivial
  · rw [hstage] at h ⊢
    rw [ReaderStage.PausesAt, hbuffer, hparser]
    exact h

theorem step (h : Exact s) (hsound : Sound ms s) (ha : s.Possible ms a) :
  Exact (s.next a)
  := by
  cases a with
  | loop =>
      rw [next, Exact]
      dsimp only
      split
      · trivial
      · trivial
  | appended chunk => exact goOn trivial
  | appendFailed => trivial
  | commitRead sent => exact commitRead hsound ha.1 sent
  | sent failed => exact h.sent hsound ha.1 failed
  | other b => exact h.other ha.1

end Exact

end Reader

namespace Appender

variable {maxReadSize room : ℕ} {ms : List Message} {s : Appender ρ} {a : Turn ρ}

/-- What holds as long as the bytes received belong to the messages. -/
structure Fitting (ms : List Message) (s : Appender ρ) : Prop where
  sound : s.reader.Sound ms
  paused : s.reader.Exact

/-- At the head of the loop the reader needs data only if no message is in the read buffer, and
there is room for that. -/
theorem Fitting.le (h : Fitting ms s) (hroom : HasRoom room ms) (hstage : s.reader.stage = .loop)
    (hreading : (s.reader.next .loop).stage = .reading) :
  s.buffer.length + s.growth ≤ room
  := by
  have hunfinished := (h.sound.loop hstage).drains.suspended hreading
  have hneeded : s.reader.res.1 = none ∨ s.reader.world.mpx.readBuffer = [] := by
    simp only [Reader.next] at hreading
    split at hreading
    · rename_i hneeded
      obtain hnone | hempty := Bool.or_eq_true_iff.mp hneeded
      · exact .inl (Option.isNone_iff_eq_none.mp hnone)
      · exact .inr (List.isEmpty_iff.mp hempty)
    · cases hreading
  have hexact := h.paused
  rw [Reader.Exact, hstage] at hexact
  exact hroom.le hunfinished (hexact hneeded)

/-- Nothing is thrown where the reader needs data. -/
theorem Fitting.loop (h : Fitting ms s) (hroom : HasRoom maxReadSize ms)
    (hstage : s.reader.stage = .loop) (hthrown : s.thrown = false) :
  (s.next maxReadSize .loop).thrown = false
  := by
  rw [next]
  split
  · rename_i hreading
    have hle := h.le hroom hstage hreading
    rw [appendSome, if_neg]
    · exact hthrown
    · change ¬ maxReadSize - s.buffer.length < s.growth
      omega
  · exact hthrown

theorem Fitting.step (h : Fitting ms s) (ha : s.Possible a)
    (hstream : (s.next maxReadSize a).reader.world.received <+: encodeMessages ms) :
  Fitting ms (s.next maxReadSize a)
  := by
  obtain ⟨-, hready, -⟩ := ha
  rw [received_next] at hstream
  have hpossible := Reader.possible_of_ready hready hstream
  by_cases hfailed : a = .appendFailed
  · subst hfailed
    exact ⟨trivial, trivial⟩
  · refine ⟨?_, ?_⟩
    · rw [reader_next maxReadSize s hfailed]
      exact h.sound.step hpossible
    · rw [reader_next maxReadSize s hfailed]
      exact h.paused.step h.sound hpossible

end Appender

/-- What holds on a stream of messages along a run: the reader fits the stream, and what else every
step keeps. -/
theorem Appender.fitting_of_run {maxReadSize : ℕ} {ms : List Message} {w : World ρ}
    {as : List (Turn ρ)} {s : Appender ρ} {I : Appender ρ → Prop}
    (hrun : Run (Appender.Step maxReadSize) (.start w) as s)
    (hstream : s.reader.world.received <+: encodeMessages ms) (hstart : I (.start w))
    (hstep : ∀ s a, s.Fitting ms → I s → s.Possible a → I (s.next maxReadSize a)) :
  s.Fitting ms ∧ I s
  := by
  apply hrun.invariant (I := fun s => s.reader.world.received <+: encodeMessages ms →
    s.Fitting ms ∧ I s) _ (fun _ => ⟨⟨.start ms w, .start w⟩, hstart⟩) hstream
  rintro s a _ hs ⟨ha, rfl⟩ hstream
  have hbefore := Reader.received_next ha.2.1
  rw [← received_next maxReadSize] at hbefore
  obtain ⟨hfitting, hI⟩ := hs (hbefore.trans hstream)
  exact ⟨hfitting.step ha hstream, hstep s a hfitting hI ha⟩

/-- The read buffer stays within `max_read_size`, whatever the server sends.  On a stream of
messages it also stays within twice the size of the longest one, or that size and the growth hint,
however many messages have arrived. -/
theorem readBuffer_le_longest {maxReadSize longest : ℕ} {ms : List Message} {w : World ρ}
    {as : List (Turn ρ)} {s : Appender ρ}
    (hrun : Run (Appender.Step maxReadSize) (.start w) as s) :
  s.held ≤ maxReadSize ∧
    (s.reader.world.received <+: encodeMessages ms → (∀ x ∈ ms, x.encode.length ≤ longest) →
      s.held ≤ longest + max bufferGrowthHint longest)
  := by
  refine ⟨held_le_maxReadSize hrun, ?_⟩
  intro hstream hlongest
  have hroom := hasRoom_of_longest hlongest
  refine (Appender.fitting_of_run hrun hstream
    (I := fun s => s.held ≤ longest + max bufferGrowthHint longest) (Nat.zero_le _) ?_).2
  intro s a hfitting hheld ha
  apply Appender.held_step hheld ha
  rintro rfl hreading -
  exact hfitting.le hroom ha.2.1 hreading

/-- Three messages arrive in two pieces, and the reader waits for the rest of the last one. -/
def pieces : List (Turn Unit) :=
  [.loop, .appended (ascii "+PONG\r\n+PONG\r\n+PO"), .commitRead true, .loop, .commitRead true,
    .loop, .commitRead true, .loop]

def waitingForRest : Appender Unit :=
  pieces.foldl (Appender.next 5000) (.start (.fresh accepting ()))

theorem readBuffer_le_longest_pong :
  waitingForRest.held = 4099 ∧ waitingForRest.held ≤ 7 + 4096
  := by
  have hfollows : Run.Follows (Appender.next 5000) Appender.Possible
      (.start (.fresh accepting ())) pieces := by
    decide
  have hlongest : ∀ x ∈ [pong, pong, pong], x.encode.length ≤ 7 := by
    decide
  have hle : waitingForRest.held ≤ 7 + max bufferGrowthHint 7 :=
    (readBuffer_le_longest (Run.of_follows hfollows)).2 (by decide) hlongest
  exact ⟨by decide, hle⟩

theorem neverThrows_of_hasRoom {maxReadSize : ℕ} {ms : List Message}
    (h : HasRoom maxReadSize ms) :
  NeverThrows ρ maxReadSize ms
  := by
  intro w as s hrun hstream
  refine (Appender.fitting_of_run hrun hstream (I := fun s => s.thrown = false) rfl ?_).2
  intro s a hfitting hthrown ha
  cases a with
  | loop => exact hfitting.loop h ha.2.1 hthrown
  | appended _ | appendFailed | commitRead _ | sent _ | other _ => exact hthrown

/-! ### A run that waits after each byte -/

/-- The reader is about to wait, after the first `n` bytes of the message `x`.  No request is in the
queue, and nothing is rejected. -/
structure Reader.Stands (before : List Message) (x : Message) (n : ℕ) (s : Reader ρ) : Prop where
  stage : s.stage = .loop
  up : s.world.up = true
  reqs : s.world.mpx.reqs = []
  adapter : s.world.mpx.receiveAdapter = trusting
  received : s.world.received = encodeMessages before ++ x.encode.take n
  buffer : s.world.mpx.readBuffer = x.encode.take n
  paused : s.world.mpx.parser.PausedAt (x.encode.take n)
  needed : s.res.1 = none ∨ s.world.mpx.readBuffer = []

namespace Reader.Stands

variable {before : List Message} {x : Message} {n : ℕ} {s : Reader ρ}

theorem start (x : Message) (response : ρ) :
  Reader.Stands [] x 0 (.start (.fresh trusting response))
  := ⟨rfl, rfl, rfl, rfl, rfl, rfl, .fresh, .inr rfl⟩

/-- The reader waits. -/
theorem next_loop (h : s.Stands before x n) :
  s.next .loop = { s with stage := .reading }
  := by
  have hneeded : (s.res.1.isNone || s.world.mpx.readBuffer.isEmpty) = true := by
    obtain hnone | hempty := h.needed
    · rw [hnone]
      rfl
    · rw [hempty]
      simp
  rw [Reader.next, hneeded]
  rfl

/-- The reader gets the next byte. -/
theorem next_appended (h : s.Stands before x n) :
  Reader.next { s with stage := .reading } (.appended ((x.encode.drop n).take 1))
    = { s with world := s.world.apply (.receive ((x.encode.drop n).take 1)), stage := .committing }
  := by
  have hup : (s.world.apply (.receive ((x.encode.drop n).take 1))).up = true := h.up
  rw [Reader.next, Reader.goOn]
  simp only [hup, ↓reduceIte]

/-- After the call of `commit_read` the reader is about to wait again, for another byte of the
message or for the next message. -/
theorem next_commitRead (h : s.Stands before x n) {w : World ρ}
    (hw : w = s.world.apply (.receive ((x.encode.drop n).take 1))) {s' : Reader ρ}
    (hs' : s' = Reader.commitRead { s with world := w, stage := .committing } true) :
  (n + 1 < x.encode.length → s'.Stands before x (n + 1)) ∧
    (n + 1 = x.encode.length → ∀ y, s'.Stands (before ++ [x]) y 0)
  := by
  have hup : w.up = true := by
    rw [hw]
    exact h.up
  have hbuffer : w.mpx.readBuffer = x.encode.take (n + 1) := by
    rw [hw, List.take_add, ← h.buffer]
    rfl
  have hreceived : w.received = encodeMessages before ++ x.encode.take (n + 1) := by
    rw [hw, List.take_add, ← List.append_assoc, ← h.received]
    rfl
  have hpaused : w.mpx.parser.PausedOn w.mpx.readBuffer := by
    rw [hbuffer, List.take_add, hw]
    exact h.paused.pausedOn _
  have hpre : w.mpx.readBuffer <+: x.encode ++ [] := by
    rw [hbuffer, List.append_nil]
    apply List.take_prefix
  have hlen : w.mpx.readBuffer.length < 2 ^ 64 := by
    rw [hbuffer]
    exact (List.length_take_le' _ _).trans_lt x.length_lt
  have htrusting := fun ec => Multiplexer.commitRead_trusting (m := w.mpx)
    (by rw [hw]; exact h.reqs) (by rw [hw]; exact h.adapter) ec
  obtain ⟨-, hreqs, hadapter⟩ := htrusting .operationAborted
  rw [Reader.commitRead] at hs'
  cases Multiplexer.commitsPart hpaused hpre hlen with
  | part hvalue hsame _ hnot =>
      have hpausedAt := Multiplexer.pausedAt_commitRead hpaused hpre hlen hvalue
      rw [hvalue] at hs'
      rw [hbuffer] at hsame hpausedAt hnot
      refine ⟨fun _ => ?_, fun heq => ?_⟩
      · rw [hs']
        exact ⟨rfl, hup, hreqs, hadapter, hreceived, hsame, hpausedAt, .inl rfl⟩
      · rw [heq, List.take_length] at hnot
        exact absurd List.prefix_rfl hnot
  | @whole isPush size hvalue hsame hparser hwhole =>
      refine ⟨fun hlt => ?_, fun heq y => ?_⟩
      · rw [hbuffer] at hwhole
        have hle := hwhole.length_le
        rw [List.length_take] at hle
        omega
      · rw [heq, List.take_length] at hbuffer hreceived
        rw [hbuffer, List.drop_length] at hsame
        have hreceived' : w.received = encodeMessages (before ++ [x]) ++ y.encode.take 0 := by
          rw [hreceived, encodeMessages_append]
          simp [encodeMessages]
        have hpausedAt : w.mpx.commitRead.mpx.parser.PausedAt (y.encode.take 0) := by
          rw [hparser]
          exact .fresh
        rw [hvalue] at hs'
        cases isPush with
        | false =>
            rw [hs']
            exact ⟨rfl, hup, hreqs, hadapter, hreceived', hsame, hpausedAt, .inr hsame⟩
        | true =>
            have hstage : s'.stage = .loop := by
              rw [hs']
              exact if_pos hup
            rw [hs'] at hstage ⊢
            exact ⟨hstage, hup, hreqs, hadapter, hreceived', hsame, hpausedAt, .inr hsame⟩
  | rejected _ hmem => exact absurd hmem (htrusting _).1

end Reader.Stands

namespace Appender

variable {maxReadSize : ℕ} {ms before rest : List Message} {x : Message} {n : ℕ}
  {s : Appender ρ} {w : World ρ}

/-- A state that can be reached. -/
def Reaches (maxReadSize : ℕ) (w : World ρ) (s : Appender ρ) : Prop :=
  ∃ as, Run (Step maxReadSize) (.start w) as s

theorem Reaches.next {a : Turn ρ} (h : Reaches maxReadSize w s) (ha : s.Possible a) :
  Reaches maxReadSize w (s.next maxReadSize a)
  := by
  obtain ⟨as, hrun⟩ := h
  exact ⟨as ++ [a], hrun.snoc ⟨ha, rfl⟩⟩

section Bytewise

variable (hnever : NeverThrows ρ maxReadSize ms) (hms : ms = before ++ x :: rest)

include hnever hms

theorem not_thrown (hreach : Reaches maxReadSize w s)
    (hreceived : s.reader.world.received = encodeMessages before ++ x.encode.take n) :
  s.thrown = false
  := by
  obtain ⟨as, hrun⟩ := hreach
  apply hnever w as s hrun
  rw [hreceived, hms, encodeMessages_append, List.prefix_append_right_inj]
  exact (List.take_prefix n x.encode).trans (List.prefix_append x.encode (encodeMessages rest))

/-- The reader waits, so there is room for the growth. -/
theorem waits (hreach : Reaches maxReadSize w s) (h : s.reader.Stands before x n) :
  Reaches maxReadSize w { s with
      reader := { s.reader with stage := .reading }
      size := growthAfter x n } ∧
    growthAfter x n ≤ maxReadSize - (x.encode.take n).length
  := by
  have hthrown := not_thrown hnever hms hreach h.received
  have hreach' := hreach.next (a := .loop) ⟨hthrown, h.stage, Nat.zero_le _⟩
  have hthrown' := not_thrown hnever hms hreach' (n := n) (by rw [received_next]; exact h.received)
  have hreading : (s.reader.next .loop).stage = .reading := by
    rw [h.next_loop]
  rw [next_loop hreading] at hreach' hthrown'
  obtain ⟨hsome, hroom⟩ := appendSome_of_not_thrown hthrown'
  have hgrowth : growth { s with reader := s.reader.next .loop } = growthAfter x n := by
    show s.reader.world.mpx.parser.getSuggestedBufferGrowth bufferGrowthHint = _
    rw [growthAfter, h.paused.1]
  have hlen : (buffer { s with reader := s.reader.next .loop }).length
      = (x.encode.take n).length :=
    congrArg List.length h.buffer
  rw [hsome, hgrowth, h.next_loop] at hreach'
  rw [hgrowth, hlen] at hroom
  exact ⟨hreach', hroom⟩

/-- The reader gets one more byte. -/
theorem reads (hreach : Reaches maxReadSize w s) (h : s.reader.Stands before x n)
    (hn : n < x.encode.length) :
  ∃ s', Reaches maxReadSize w s' ∧
    (n + 1 < x.encode.length → s'.reader.Stands before x (n + 1)) ∧
    (n + 1 = x.encode.length → ∀ y, s'.reader.Stands (before ++ [x]) y 0)
  := by
  have hthrown := not_thrown hnever hms hreach h.received
  obtain ⟨hwaits, -⟩ := waits hnever hms hreach h
  have hbyte : ((x.encode.drop n).take 1).length = 1 := by
    rw [List.length_take, List.length_drop]
    omega
  have hgrowth := one_le_growthAfter x n
  have hready : Reader.Ready { s.reader with stage := .reading }
      (.appended ((x.encode.drop n).take 1)) := by
    refine ⟨rfl, ?_, ?_⟩
    · intro hnil
      rw [hnil] at hbyte
      cases hbyte
    · show (s.reader.world.mpx.readBuffer ++ _).length < 2 ^ 64
      rw [h.buffer, ← List.take_add]
      exact (List.length_take_le' _ _).trans_lt x.length_lt
  have happended := hwaits.next ⟨hthrown, hready, hbyte.le.trans hgrowth⟩
  rw [Appender.next, h.next_appended] at happended
  have hcommitted := happended.next (a := .commitRead true) ⟨hthrown, rfl, Nat.zero_le _⟩
  exact ⟨_, hcommitted, h.next_commitRead rfl rfl⟩

/-- The reader comes to wait after each proper part of a message. -/
theorem reaches_part (hreach : Reaches maxReadSize w s) (h : s.reader.Stands before x 0)
    (hn : n < x.encode.length) :
  ∃ s', Reaches maxReadSize w s' ∧ s'.reader.Stands before x n
  := by
  induction n with
  | zero => exact ⟨s, hreach, h⟩
  | succ n ih =>
      obtain ⟨s', hreach', h'⟩ := ih (Nat.lt_of_succ_lt hn)
      obtain ⟨s'', hreach'', hpart, -⟩ := reads hnever hms hreach' h' (Nat.lt_of_succ_lt hn)
      exact ⟨s'', hreach'', hpart hn⟩

/-- The reader comes to wait for the next message. -/
theorem reaches_whole (hreach : Reaches maxReadSize w s) (h : s.reader.Stands before x 0) :
  ∃ s', Reaches maxReadSize w s' ∧ ∀ y, s'.reader.Stands (before ++ [x]) y 0
  := by
  have hpos : 0 < x.encode.length := List.length_pos_iff.mpr (encode_ne_nil x.value)
  have hlast : x.encode.length - 1 < x.encode.length := Nat.sub_one_lt_of_lt hpos
  obtain ⟨s', hreach', h'⟩ := reaches_part hnever hms hreach h hlast
  obtain ⟨s'', hreach'', -, hwhole⟩ := reads hnever hms hreach' h' hlast
  exact ⟨s'', hreach'', hwhole (Nat.sub_add_cancel hpos)⟩

end Bytewise

/-- The reader comes to wait for each message of the stream. -/
theorem reaches_message (hnever : NeverThrows ρ maxReadSize ms) (response : ρ)
    (hms : ms = before ++ rest) :
  ∃ s, Reaches maxReadSize (.fresh trusting response) s ∧ ∀ y, s.reader.Stands before y 0
  := by
  induction before using List.reverseRecOn generalizing rest with
  | nil => exact ⟨_, ⟨[], .nil _⟩, fun y => Reader.Stands.start y response⟩
  | append_singleton before x ih =>
      have hms' : ms = before ++ x :: rest := by
        rw [hms, List.append_assoc]
        rfl
      obtain ⟨s, hreach, h⟩ := ih hms'
      exact reaches_whole hnever hms' hreach (h x)

end Appender

/-- If nothing is ever thrown, there is room for everything: otherwise the server sends the stream
byte by byte. -/
theorem hasRoom_of_neverThrows [Inhabited ρ] {maxReadSize : ℕ} {ms : List Message}
    (h : NeverThrows ρ maxReadSize ms) :
  HasRoom maxReadSize ms
  := by
  refine ⟨?_, ?_⟩
  · have hthrown := h (.fresh trusting default) [.loop] _
      (.single ⟨⟨rfl, rfl, Nat.zero_le _⟩, rfl⟩)
      (by rw [Appender.received_next]; exact List.nil_prefix)
    rw [Appender.next_loop rfl] at hthrown
    exact (Appender.appendSome_of_not_thrown hthrown).2
  · intro x hx n hn
    obtain ⟨before, rest, hms⟩ := List.append_of_mem hx
    obtain ⟨s, hreach, hstands⟩ := Appender.reaches_message h default hms
    obtain ⟨s', hreach', hstands'⟩ := Appender.reaches_part h hms hreach (hstands x) hn
    obtain ⟨-, hroom⟩ := Appender.waits h hms hreach' hstands'
    rw [List.length_take_of_le hn.le] at hroom
    have hgrowth := one_le_growthAfter x n
    omega

/-- When nothing is thrown on a stream of messages. -/
theorem neverThrows_iff [Inhabited ρ] (maxReadSize : ℕ) (ms : List Message) :
  NeverThrows ρ maxReadSize ms ↔ HasRoom maxReadSize ms
  := ⟨hasRoom_of_neverThrows, neverThrows_of_hasRoom⟩

/-! ### Bulks -/

section Bulk

variable {x : Message} {t : DataType} {data : Bytes} {n : ℕ}

theorem encode_bulk (hx : x.value = .bulk t data) :
  x.encode = (toCode t :: Decimal.numeral data.length ++ sep) ++ (data ++ sep)
  := by
  rw [Message.encode, hx]
  simp [Value.encode, addBlob, addHeader]

theorem length_encode_bulk (hx : x.value = .bulk t data) :
  x.encode.length = (Decimal.numeral data.length).length + 3 + (data.length + 2)
  := by
  rw [encode_bulk hx]
  simp [sep]
  omega

theorem isBulk_of_message (hx : x.value = .bulk t data) :
  isBulk t = true
  := by
  have hwell := x.wellFormed
  rw [hx] at hwell
  exact hwell

/-- The header of a bulk is a line once it has arrived. -/
theorem nextLine_bulk (hx : x.value = .bulk t data)
    (hn : (Decimal.numeral data.length).length + 3 ≤ n) :
  Parser.fresh.nextLine (x.encode.take n)
    = some ⟨t, Decimal.numeral data.length, (Decimal.numeral data.length).length + 3⟩
  := by
  have hts : t ≠ .streamedString := by
    rintro rfl
    cases isBulk_of_message hx
  have hlen : (x.encode.take n).length < 2 ^ 64 :=
    (List.length_take_le' _ _).trans_lt x.length_lt
  have hview : (x.encode.take n).drop Parser.fresh.consumed
      = (toCode t :: Decimal.numeral data.length ++ sep)
        ++ (data ++ sep).take (n - (toCode t :: Decimal.numeral data.length ++ sep).length) := by
    rw [encode_bulk hx, List.take_append, List.take_of_length_le (by simp [sep]; omega)]
    rfl
  have hline := nextLine_of_drop hlen hts (sep_not_infix_numeral data.length) hview
  rw [hline]
  simp [Parser.fresh]

/-- Before that there is no line. -/
theorem nextLine_bulk_none (hx : x.value = .bulk t data)
    (hn : n < (Decimal.numeral data.length).length + 3) :
  Parser.fresh.nextLine (x.encode.take n) = none
  := by
  cases hl : Parser.fresh.nextLine (x.encode.take n) with
  | none => rfl
  | some l =>
      exfalso
      have hwhole := nextLine_bulk (n := x.encode.length) hx (by rw [length_encode_bulk hx]; omega)
      have hlen : (x.encode.take n).length < 2 ^ 64 :=
        (List.length_take_le' _ _).trans_lt x.length_lt
      have hnext := (Parser.nextLine_next hl).2
      have happend := Parser.nextLine_append (x.encode.drop n) hlen hl
      rw [List.take_append_drop, ← List.take_length (l := x.encode), hwhole] at happend
      obtain heq | ⟨-, l', heq, hinvalid⟩ := happend
      · obtain rfl := Option.some.inj heq
        rw [List.length_take] at hnext
        simp only at hnext
        omega
      · obtain rfl := Option.some.inj heq
        simp only at hinvalid
        have hbulk := isBulk_of_message hx
        rw [hinvalid] at hbulk
        cases hbulk

/-- Once the header of a bulk has arrived, the whole length of the bulk is suggested. -/
theorem growthAfter_bulk (hx : x.value = .bulk t data) (hn : n < x.encode.length) :
  growthAfter x n = if (Decimal.numeral data.length).length + 3 ≤ n
    then max bufferGrowthHint (data.length + 2) else bufferGrowthHint
  := by
  have hlen : (x.encode.take n).length < 2 ^ 64 :=
    (List.length_take_le' _ _).trans_lt x.length_lt
  have hsize := length_encode_bulk hx
  have hlt : x.encode.length < 2 ^ 64 := x.length_lt
  have hdata : data.length < 2 ^ 64 := by omega
  split
  · rename_i hle
    have hline := nextLine_bulk hx hle
    have hheader := header_of_blob (.inl (isBulk_of_message hx)) hdata
      ((Decimal.numeral data.length).length + 3)
    have hnext := (Parser.nextLine_next hline).2
    have hshort : ¬ Line.finish ⟨t, Decimal.numeral data.length,
        (Decimal.numeral data.length).length + 3⟩ ≤ (x.encode.take n).length := by
      rw [Line.finish, hheader, List.length_take]
      dsimp only
      rw [Nat.mod_eq_of_lt (by omega)]
      omega
    have hconsume := (Parser.consume_of_line rfl hline).trans
      (Parser.onLine_bulk_short hlen hnext hheader hshort)
    have hexpected : Parser.bulkExpected { Parser.fresh with
        bulkLength := data.length
        bulk := t
        consumed := (Decimal.numeral data.length).length + 3 } = true := by
      have hbulk := isBulk_of_message hx
      cases t with
      | blobString | blobError | verbatimString => rfl
      | _ => cases hbulk
    rw [growthAfter, parse_of_needsMore rfl hconsume, Parser.getSuggestedBufferGrowth,
      if_pos hexpected]
    dsimp only
    rw [Nat.mod_eq_of_lt (by omega)]
    split
    · rename_i hlt
      exact (max_eq_right_of_lt hlt).symm
    · rename_i hlt
      exact (max_eq_left (Nat.le_of_not_lt hlt)).symm
  · rename_i hle
    have hnone := nextLine_bulk_none hx (Nat.lt_of_not_le hle)
    rw [growthAfter, parse_of_needsMore rfl (Parser.consume_of_no_line rfl hnone)]
    rfl

/-- How much room a bulk needs.  The last read asks for the whole length of it once more. -/
theorem bulk_neverThrows_iff [Inhabited ρ] (maxReadSize : ℕ) (hx : x.value = .bulk t data) :
  NeverThrows ρ maxReadSize [x] ↔
    x.encode.length + max bufferGrowthHint (data.length + 2) ≤ maxReadSize + 1
  := by
  have hsize := length_encode_bulk hx
  constructor
  · intro hnever
    have hlast : x.encode.length - 1 < x.encode.length := by omega
    have hroom := (hasRoom_of_neverThrows hnever).2 x (List.mem_singleton_self x) _ hlast
    rw [growthAfter_bulk hx hlast, if_pos (by omega)] at hroom
    omega
  · intro hle
    have hhint := le_max_left bufferGrowthHint (data.length + 2)
    refine neverThrows_of_hasRoom ⟨by omega, fun y hy n hn => ?_⟩
    obtain rfl := List.mem_singleton.mp hy
    rw [growthAfter_bulk hx hn]
    split
    · omega
    · omega

theorem length_numeral_large :
  (Decimal.numeral 5000).length = 4
  := by
  simp [Decimal.numeral]

/-- A string of five thousand bytes. -/
def large : Message where
  value := .bulk .blobString (List.replicate 5000 0)
  wellFormed := rfl
  height_le := Nat.zero_le _
  length_lt := by
    simp only [Value.encode, addBlob, addHeader, sep, List.length_append, List.length_replicate,
      List.length_cons, List.length_nil, length_numeral_large]
    decide

theorem bulk_neverThrows_iff_large :
  large.encode.length = 5009 ∧ ¬ NeverThrows Unit 10000 [large]
  := by
  have hlen : large.encode.length = 5009 := by
    rw [@length_encode_bulk large .blobString (List.replicate 5000 0) rfl, List.length_replicate,
      length_numeral_large]
  refine ⟨hlen, ?_⟩
  rw [bulk_neverThrows_iff 10000 (x := large) rfl, hlen, bufferGrowthHint, List.length_replicate]
  decide

end Bulk

end Redis
