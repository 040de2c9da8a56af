import BoostRedis.General.Counter
import BoostRedis.Multiplexer.Writing

/-!
# What is counted as sent

`prepare_write` counts the commands of the requests that it stages, but it counts the bytes of the
whole write buffer, with those that an earlier call has left there.  A `Tally` keeps the requests
each time they are staged, and the bytes that `prepare_write` has found in the write buffer.  The
commands sent are always those of the requests staged, while the bytes found in the write buffer
are counted again.
-/

namespace Redis

open Resp3 Counter

variable {ρ : Type}

/-- The bytes that are in the write buffer after `prepare_write`: those that are there already and
those of the requests that wait. -/
def Multiplexer.unsent (m : Multiplexer ρ) : Bytes := m.writeBuffer ++ payloads m.queued

/-- A second `prepare_write` returns zero and changes nothing. -/
structure Multiplexer.PreparesOnce (m : Multiplexer ρ) : Prop where
  value : m.prepareWrite.mpx.prepareWrite.value = 0
  state : m.prepareWrite.mpx.prepareWrite.mpx = m.prepareWrite.mpx

/-- A world with the requests, each time they were staged, and the number of bytes that
`prepare_write` has found in the write buffer. -/
structure Tally (ρ : Type) where
  world : World ρ
  staged : List Request := []
  found : ℕ := 0

namespace Tally

def fresh (receiveAdapter : Adapter ρ) (receiveResponse : ρ) : Tally ρ :=
  { world := .fresh receiveAdapter receiveResponse }

def next (s : Tally ρ) : Action ρ → Tally ρ
  | .prepareWrite =>
      { world := s.world.operate .prepareWrite
        staged := s.staged ++ s.world.mpx.stages.map Elem.req
        found := s.found + s.world.mpx.writeBuffer.length }
  | a => { s with world := s.world.operate a }

/-- The operations in any order. -/
def Step (s : Tally ρ) (a : Action ρ) (s' : Tally ρ) : Prop :=
  s.world.Possible a ∧ s' = s.next a

/-- The commands of the requests staged. -/
def commands (s : Tally ρ) : ℕ := (s.staged.map Request.commands).sum

/-- The size of the payloads of the requests staged. -/
def bytes (s : Tally ρ) : ℕ := (s.staged.map fun req => req.payload.length).sum

/-- The counters of `usage` are those of the requests staged, as numbers of type `std::size_t`. -/
structure Agrees (s : Tally ρ) : Prop where
  commands : s.world.mpx.usage.commandsSent = s.commands % 2 ^ 64
  bytes : s.world.mpx.usage.bytesSent = s.bytes % 2 ^ 64

end Tally

/-! ### A second call -/

namespace Multiplexer

variable {m : Multiplexer ρ}

/-- After `prepare_write` no request is behind the partition point. -/
theorem dropWhile_prepareWrite (m : Multiplexer ρ) :
  m.prepareWrite.mpx.reqs.dropWhile (!·.isWaiting) = []
  := by
  apply List.dropWhile_eq_nil_iff.mpr
  intro e he
  obtain he | he := List.mem_append.mp he
  · apply List.mem_takeWhile_imp he
  · obtain ⟨_, -, rfl⟩ := List.mem_map.mp he
    rfl

/-- Where no request is behind the partition point, `prepare_write` counts the write buffer. -/
theorem prepareWrite_of_dropWhile (h : m.reqs.dropWhile (!·.isWaiting) = []) :
  m.prepareWrite.value = 0 ∧
    m.prepareWrite.mpx =
      { m with
        usage :=
          { m.usage with bytesSent := (m.usage.bytesSent + m.writeBuffer.length) % 2 ^ 64 } }
  := by
  have hsent : m.reqs.takeWhile (!·.isWaiting) = m.reqs := by
    rw [← List.append_nil (m.reqs.takeWhile _), ← h, List.takeWhile_append_dropWhile]
  simp only [prepareWrite, h, hsent, List.map_nil, List.append_nil]
  exact ⟨rfl, rfl⟩

theorem preparesOnce_iff_length (m : Multiplexer ρ) :
  m.PreparesOnce ↔ m.prepareWrite.mpx.writeBuffer.length % 2 ^ 64 = 0
  := by
  obtain ⟨hvalue, hstate⟩ := prepareWrite_of_dropWhile m.dropWhile_prepareWrite
  have hsize : m.prepareWrite.mpx.usage.bytesSent < 2 ^ 64 := Nat.mod_lt _ (by decide)
  rw [← add_mod_eq_self_iff hsize]
  constructor
  · intro h
    have hbytes := congrArg (·.usage.bytesSent) (hstate.symm.trans h.state)
    exact hbytes
  · intro h
    refine ⟨hvalue, ?_⟩
    rw [hstate, h]

end Multiplexer

theorem Split.preparesOnce_iff {m : Multiplexer ρ} {sent queued : List (Elem ρ)}
    (h : Split m.reqs sent queued) :
  m.PreparesOnce ↔ m.unsent.length % 2 ^ 64 = 0
  := by
  rw [m.preparesOnce_iff_length, h.writeBuffer_prepareWrite, Multiplexer.unsent,
    Multiplexer.queued, h.filter_waiting.2]

/-! ### The counters -/

namespace Usage

/-- The counters of what is sent. -/
def sent (u : Usage) : ℕ × ℕ := (u.commandsSent, u.bytesSent)

theorem sent_commitRead (m : Multiplexer ρ) :
  m.commitRead.mpx.usage.sent = m.usage.sent
  := by
  obtain hread | ⟨e, rest, -, -, -, hread⟩ := m.commitRead_cases
  · rw [hread, Multiplexer.commitPush]
    dsimp only
    split <;> rfl
  · rw [hread, Multiplexer.commitResponse]
    dsimp only
    split
    · rfl
    · rfl
    · rfl
    · split <;> rfl
    · rfl
    · rfl

/-- Only `prepare_write` counts what is sent. -/
theorem sent_operate {w : World ρ} {a : Action ρ} (h : a.isPrepareWrite = false) :
  (w.operate a).mpx.usage.sent = w.mpx.usage.sent
  := by
  cases hqueue : a.requeues with
  | true =>
      obtain ⟨reqs, called, heq⟩ := w.operate_of_requeues hqueue
      rw [heq]
  | false =>
      cases a with
      | commitRead => apply sent_commitRead
      | prepareWrite => cases h
      | commitWrite | receive _ | reset => rfl
      | add _ _ _ | remove _ | cancelWaiting | connLost => cases hqueue

end Usage

theorem length_payloads (es : List (Elem ρ)) :
  (payloads es).length = ((es.map Elem.req).map fun req => req.payload.length).sum
  := by
  rw [payloads, List.length_flatten, List.map_map, List.map_map]
  rfl

namespace Tally

/-- What holds of a tally: the commands are those of the requests staged, and the bytes are those
of the requests staged together with those found in the write buffer. -/
structure Kept (s : Tally ρ) : Prop where
  orderly : Orderly s.world
  commands : s.world.mpx.usage.commandsSent = s.commands % 2 ^ 64
  bytes : s.world.mpx.usage.bytesSent = (s.bytes + s.found) % 2 ^ 64

namespace Kept

variable {s : Tally ρ} {a : Action ρ}

theorem prepareWrite (h : s.Kept) :
  (s.next .prepareWrite).Kept
  := by
  have hsplit := h.orderly.split_sent
  have hqueued := hsplit.takeWhile_sent.2
  refine ⟨h.orderly.step .prepareWrite, ?_, ?_⟩
  · show (s.world.mpx.reqs.dropWhile _).foldl _ s.world.mpx.usage.commandsSent
      = ((s.staged ++ s.world.mpx.stages.map Elem.req).map Request.commands).sum % 2 ^ 64
    rw [hqueued, h.commands, foldl_add_mod (fun e : Elem ρ => e.req.commands), hsplit.stages,
      List.map_append, List.sum_append, List.map_map]
    rfl
  · show (s.world.mpx.usage.bytesSent + s.world.mpx.prepareWrite.mpx.writeBuffer.length) % 2 ^ 64
      = (((s.staged ++ s.world.mpx.stages.map Elem.req).map fun req => req.payload.length).sum
        + (s.found + s.world.mpx.writeBuffer.length)) % 2 ^ 64
    rw [hsplit.writeBuffer_prepareWrite, h.bytes, hsplit.stages, List.length_append,
      length_payloads, List.map_append, List.sum_append, Nat.mod_add_mod, Tally.bytes]
    congr 1
    omega

theorem other (h : s.Kept) (ha : a.isPrepareWrite = false) :
  ({ s with world := s.world.operate a } : Tally ρ).Kept
  := by
  obtain ⟨hcommands, hbytes⟩ := Prod.mk.inj (Usage.sent_operate (w := s.world) ha)
  exact ⟨h.orderly.step a, hcommands.trans h.commands, hbytes.trans h.bytes⟩

theorem step (h : s.Kept) (a : Action ρ) :
  (s.next a).Kept
  := by
  cases a with
  | prepareWrite => apply h.prepareWrite
  | add _ _ _ | remove _ | cancelWaiting | commitWrite | receive _ | commitRead | connLost
  | reset => exact h.other rfl

theorem agrees_iff (h : s.Kept) :
  s.Agrees ↔ s.found % 2 ^ 64 = 0
  := by
  rw [← add_mod_eq_mod_iff s.bytes, ← h.bytes]
  exact ⟨fun hagrees => hagrees.bytes, fun hbytes => ⟨h.commands, hbytes⟩⟩

end Kept

end Tally

/-- In every state of a run, a second `prepare_write` changes nothing just if there is nothing to
be written, and the counters of what was sent are those of the requests staged just if no
`prepare_write` has found anything in the write buffer. -/
theorem prepareWrite_once_iff {receiveAdapter : Adapter ρ} {receiveResponse : ρ}
    {as : List (Action ρ)} {s : Tally ρ}
    (hrun : Run Tally.Step (.fresh receiveAdapter receiveResponse) as s) :
  (s.world.mpx.PreparesOnce ↔ s.world.mpx.unsent.length % 2 ^ 64 = 0) ∧
    (s.Agrees ↔ s.found % 2 ^ 64 = 0)
  := by
  have hkept : s.Kept := by
    apply hrun.invariant _ ⟨Orderly.fresh receiveAdapter receiveResponse, rfl, rfl⟩
    rintro s a _ h ⟨-, rfl⟩
    apply h.step a
  exact ⟨hkept.orderly.split_sent.preparesOnce_iff, hkept.agrees_iff⟩

theorem Tally.run_foldl {as : List (Action ρ)} {s : Tally ρ}
    (h : Run.Follows Tally.next (fun s a => s.world.Possible a) s as) :
  Run Tally.Step s as (as.foldl Tally.next s)
  := Run.of_follows h

/-- Two requests are written, one after the other. -/
def writtenInTurn : List (Action Unit) := overlapping ++ [.commitWrite]

theorem prepareWrite_once_written :
  (writtenInTurn.foldl Tally.next (.fresh accepting ())).world.mpx.PreparesOnce ∧
    (writtenInTurn.foldl Tally.next (.fresh accepting ())).Agrees
  := by
  have hrun : Run Tally.Step (.fresh accepting ()) writtenInTurn _ := Tally.run_foldl (by decide)
  obtain ⟨honce, hagrees⟩ := prepareWrite_once_iff hrun
  exact ⟨honce.mpr (by decide), hagrees.mpr (by decide)⟩

/-- A request is staged, and `prepare_write` is called once more before it is written. -/
def preparedTwice : List (Action Unit) :=
  [.add (Request.push {} (ascii "PING") []) (fun _ => accepting) (), .prepareWrite, .prepareWrite]

/-- The bytes of the request are counted twice, and would be counted again. -/
theorem prepareWrite_once_fails :
  ∃ s : Tally Unit, Run Tally.Step (.fresh accepting ()) preparedTwice s ∧
    ¬ s.world.mpx.PreparesOnce ∧ ¬ s.Agrees
  := by
  refine ⟨_, Tally.run_foldl (by decide), ?_, ?_⟩
  · intro h
    have hbytes := congrArg (·.usage.bytesSent) h.state
    exact absurd hbytes (by decide)
  · intro h
    exact absurd h.bytes (by decide)

end Redis
