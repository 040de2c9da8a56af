import BoostRedis.General.Posting
import BoostRedis.Multiplexer.Destination
import BoostRedis.Resp3.Nesting

/-!
# The messages of a stream

A `Ledger` is a world with a record of the messages that were read, and of what the requests that
have left the queue had counted.  As long as the multiplexer is not reset, the bytes received are
those of the messages, followed by those in the read buffer, and the counters of `usage` are those
of the messages, modulo `2 ^ 64`.  It does not matter whether messages arrive in pieces, and whether
`commit_read` fails.
-/

namespace Redis

open Resp3 Posting

variable {ρ : Type}

/-! ### What an entry keeps -/

/-- Operations other than `add` and `commit_read` take entries out, and change nothing but the status
of those that stay. -/
theorem World.map_operate {β : Type} {key : Elem ρ → β}
    (hkey : ∀ e status, key { e with status := status } = key e) {w : World ρ} {a : Action ρ}
    (hadd : a.isAdd = false) (hread : a.isCommitRead = false) :
  ((w.operate a).mpx.reqs.map key).Sublist (w.mpx.reqs.map key)
  := by
  have hmap : ∀ (f : Elem ρ → Elem ρ) (es : List (Elem ρ)), (∀ e, key (f e) = key e) →
      (es.map f).map key = es.map key := by
    intro f es hf
    rw [List.map_map]
    apply List.map_congr_left
    intro e _
    apply hf
  cases a with
  | add _ _ _ => cases hadd
  | commitRead => cases hread
  | remove id =>
      show ((w.mpx.remove id).1.reqs.map key).Sublist _
      rw [Multiplexer.remove]
      split
      · exact .refl _
      · split
        · exact List.eraseP_sublist.map _
        · exact .refl _
  | cancelWaiting => exact List.filter_sublist.map _
  | prepareWrite =>
      show ((w.mpx.reqs.takeWhile _ ++ (w.mpx.reqs.dropWhile _).map Elem.markStaged).map
        key).Sublist _
      rw [List.map_append, hmap Elem.markStaged _ fun e => hkey e .staged, ← List.map_append,
        List.takeWhile_append_dropWhile]
  | commitWrite =>
      have hwritten : (w.mpx.reqs.map Split.written).map key = w.mpx.reqs.map key := by
        apply hmap
        intro e
        rw [Split.written]
        split
        · apply hkey
        · rfl
      rw [← hwritten]
      exact List.filter_sublist.map _
  | connLost =>
      show (w.mpx.cancelOnConnLost.mpx.reqs.map key).Sublist _
      rw [Multiplexer.cancelOnConnLost]
      split
      · exact .refl _
      · rw [hmap Elem.markWaiting _ fun e => hkey e .waiting]
        exact List.filter_sublist.map _
  | receive _ | reset => exact .refl _

/-! ### Messages and accounts -/

/-- What an entry has counted: its number, and its `read_size_`. -/
def Elem.account (e : Elem ρ) : ℕ × ℕ := (e.id, e.readSize)

/-- The accounts of the entries of the queue. -/
def Multiplexer.accounts (m : Multiplexer ρ) : List (ℕ × ℕ) := m.reqs.map Elem.account

/-- A message that was read: the request to which it is a reply, if it is not a push, and what was
erased from the read buffer. -/
structure Receipt where
  owner : Option ℕ
  bytes : Bytes
deriving DecidableEq, Repr

namespace World

/-- The message that an operation completes, if it does. -/
def receipts (w : World ρ) : Action ρ → List Receipt
  | .commitRead =>
      match w.mpx.commitRead.value with
      | .message isPush _ =>
          let erased := w.mpx.readBuffer.length - w.mpx.commitRead.mpx.readBuffer.length
          [⟨if isPush then none else w.mpx.reqs.head?.map Elem.id, w.mpx.readBuffer.take erased⟩]
      | _ => []
  | _ => []

/-- The accounts of the entries of the queue before an operation, where a reply that it completes is
counted. -/
def credited (w : World ρ) : Action ρ → List (ℕ × ℕ)
  | .commitRead =>
      match w.mpx.commitRead.value, w.mpx.reqs with
      | .message false size, e :: rest => (e.commitResponse size).account :: rest.map Elem.account
      | _, reqs => reqs.map Elem.account
  | _ => w.mpx.accounts

/-- The accounts of the entries that leave the queue. -/
def closed (w : World ρ) (a : Action ρ) : List (ℕ × ℕ) :=
  (w.credited a).filter fun p => p.1 ∉ (w.operate a).mpx.accounts.map Prod.fst

end World

/-- A world with the messages that were read, and the accounts of the entries that have left. -/
structure Ledger (ρ : Type) where
  world : World ρ
  messages : List Receipt := []
  closed : List (ℕ × ℕ) := []

namespace Ledger

/-- Nothing has happened. -/
def fresh (receiveAdapter : Adapter ρ) (receiveResponse : ρ) : Ledger ρ :=
  { world := .fresh receiveAdapter receiveResponse }

def next (l : Ledger ρ) (a : Action ρ) : Ledger ρ where
  world := l.world.operate a
  messages := l.messages ++ l.world.receipts a
  closed := l.closed ++ l.world.closed a

/-- The operations in any order, without `reset`. -/
def Possible (l : Ledger ρ) (a : Action ρ) : Prop :=
  l.world.Possible a ∧ a.isReset = false

instance (l : Ledger ρ) (a : Action ρ) : Decidable (l.Possible a) :=
  inferInstanceAs (Decidable (_ ∧ _))

def Step (l : Ledger ρ) (a : Action ρ) (l' : Ledger ρ) : Prop :=
  l.Possible a ∧ l' = l.next a

/-- The accounts of all entries. -/
def accounts (l : Ledger ρ) : List (ℕ × ℕ) := l.closed ++ l.world.mpx.accounts

/-- The sizes of the messages, posted to those who got them. -/
def postings (l : Ledger ρ) : List (Option ℕ × ℕ) :=
  l.messages.map fun m => (m.owner, m.bytes.length)

end Ledger

/-! ### Reading a message -/

/-- A call of `parse` leaves the parser in a valid state, whatever the adapter does. -/
theorem parse_valid {σ : Type} {p : Parser} {view : Bytes} (h : p.Valid view)
    (hv : view.length < 2 ^ 64) (adapter : Adapter σ) (s : σ) :
  (parse p view adapter s).parser.Valid view
    ∧ ((parse p view adapter s).status = .done → (parse p view adapter s).parser.done = true)
  := by
  obtain ⟨q, hrun, hend⟩ := parse_run p view adapter s
  have hq : q.Valid view := by
    apply hrun.invariant (I := fun q => q.Valid view) _ h
    intro p nd q hp hconsumes
    apply hp.consume hv hconsumes.not_done hconsumes.consume
  generalize parse p view adapter s = r at hend
  obtain ⟨parser, state, nodes, status⟩ := r
  cases hend with
  | done hd => exact ⟨hq, fun _ => hd⟩
  | needsMore hd hc => exact ⟨hq.consume hv hd hc, fun hdone => by cases hdone⟩
  | failed hd hc => exact ⟨hq.consume hv hd hc, fun hdone => by cases hdone⟩
  | faulted _ _ => exact ⟨hq, fun hdone => by cases hdone⟩
  | rejected => exact ⟨hq, fun hdone => by cases hdone⟩

/-- The counters after a message. -/
def Usage.received (u : Usage) (isPush : Bool) (size : ℕ) : Usage :=
  if isPush then
    { u with
      pushesReceived := (u.pushesReceived + 1) % 2 ^ 64
      pushBytesReceived := (u.pushBytesReceived + size) % 2 ^ 64 }
  else
    { u with
      responsesReceived := (u.responsesReceived + 1) % 2 ^ 64
      responseBytesReceived := (u.responseBytesReceived + size) % 2 ^ 64 }

/-- What `commit_read` does: it leaves the read buffer and the counters as they are, or it reads a
message, which it counts and erases from the read buffer. -/
inductive Reads (m : Multiplexer ρ) (r : Effect ρ ReadResult) : Prop where
  | part : (∀ isPush size, r.value ≠ .message isPush size) → r.mpx.readBuffer = m.readBuffer →
      r.mpx.usage = m.usage → r.mpx.accounts = m.accounts → r.mpx.parser.Valid m.readBuffer →
      Reads m r
  | push {size : ℕ} : r.value = .message true size → 0 < size → size ≤ m.readBuffer.length →
      r.mpx.readBuffer = m.readBuffer.drop size → r.mpx.usage = m.usage.received true size →
      r.mpx.accounts = m.accounts → r.mpx.parser = .fresh → Reads m r
  | response {e : Elem ρ} {rest : List (Elem ρ)} {size : ℕ} : m.reqs = e :: rest →
      r.value = .message false size → 0 < size → size ≤ m.readBuffer.length →
      r.mpx.readBuffer = m.readBuffer.drop size → r.mpx.usage = m.usage.received false size →
      r.mpx.accounts.Sublist ((e.commitResponse size).account :: rest.map Elem.account) →
      r.mpx.parser = .fresh → Reads m r

/-- A message that is done has some bytes, and they are in the buffer. -/
theorem size_of_done {q : Parser} {view : Bytes} (h : q.Valid view) (hd : q.done = true) :
  0 < q.consumed ∧ q.consumed ≤ view.length
  := by
  have hpos := (of_decide_eq_true hd).2.2
  exact ⟨Nat.pos_of_ne_zero hpos, h.consumed_le⟩

namespace Multiplexer

variable {m : Multiplexer ρ}

theorem reads_commitPush (h : m.parser.Valid m.readBuffer) (hv : m.readBuffer.length < 2 ^ 64) :
  Reads m m.commitPush
  := by
  obtain ⟨hvalid, hdone⟩ := parse_valid h hv m.receiveAdapter m.receiveResponse
  rw [commitPush]
  generalize parse m.parser m.readBuffer m.receiveAdapter m.receiveResponse = r at hvalid hdone ⊢
  obtain ⟨q, state, nodes, status⟩ := r
  cases status with
  | done =>
      obtain ⟨hpos, hle⟩ := size_of_done hvalid (hdone rfl)
      exact .push rfl hpos hle rfl rfl rfl rfl
  | needsMore | failed _ | rejected _ | faulted _ | exhausted =>
      exact .part (by simp) rfl rfl rfl hvalid

theorem reads_commitResponse {e : Elem ρ} {rest : List (Elem ρ)} (hreqs : m.reqs = e :: rest)
    (h : m.parser.Valid m.readBuffer) (hv : m.readBuffer.length < 2 ^ 64) :
  Reads m (m.commitResponse e rest)
  := by
  obtain ⟨hvalid, hdone⟩ := parse_valid h hv e.getAdapter e.response
  have hsame : m.accounts = e.account :: rest.map Elem.account := by
    rw [accounts, hreqs, List.map_cons]
  rw [Multiplexer.commitResponse]
  generalize parse m.parser m.readBuffer e.getAdapter e.response = r at hvalid hdone ⊢
  obtain ⟨q, state, nodes, status⟩ := r
  cases status with
  | done =>
      obtain ⟨hpos, hle⟩ := size_of_done hvalid (hdone rfl)
      dsimp only
      split
      · exact .response hreqs rfl hpos hle rfl rfl (List.sublist_cons_self _ _) rfl
      · exact .response hreqs rfl hpos hle rfl rfl (.refl _) rfl
  | needsMore | failed _ | rejected _ | faulted _ | exhausted =>
      exact .part (by simp) rfl rfl hsame.symm hvalid

theorem reads (h : m.parser.Valid m.readBuffer) (hv : m.readBuffer.length < 2 ^ 64) :
  Reads m m.commitRead
  := by
  obtain hread | ⟨e, rest, hreqs, -, -, hread⟩ := m.commitRead_cases
  · rw [hread]
    apply reads_commitPush h hv
  · rw [hread]
    apply reads_commitResponse hreqs h hv

end Multiplexer

/-! ### The stream and the counters -/

/-- The counters of `usage` are those of the messages. -/
structure Usage.Counts (u : Usage) (postings : List (Option ℕ × ℕ)) : Prop where
  responses : u.responsesReceived = (postings.countP (·.1.isSome)) % 2 ^ 64
  pushes : u.pushesReceived = (postings.countP (·.1.isNone)) % 2 ^ 64
  responseBytes : u.responseBytesReceived = posted Option.isSome postings % 2 ^ 64
  pushBytes : u.pushBytesReceived = posted Option.isNone postings % 2 ^ 64

namespace Usage.Counts

variable {u : Usage} {postings : List (Option ℕ × ℕ)} {size : ℕ}

theorem push (h : u.Counts postings) :
  (u.received true size).Counts (postings ++ [(none, size)])
  := by
  refine ⟨?_, ?_, ?_, ?_⟩
  · rw [List.countP_append]
    exact h.responses
  · rw [List.countP_append]
    show (u.pushesReceived + 1) % 2 ^ 64 = _
    rw [h.pushes, Nat.mod_add_mod]
    rfl
  · rw [posted_append]
    exact h.responseBytes
  · rw [posted_append]
    show (u.pushBytesReceived + size) % 2 ^ 64 = _
    rw [h.pushBytes, Nat.mod_add_mod]
    rfl

theorem response (h : u.Counts postings) (id : ℕ) :
  (u.received false size).Counts (postings ++ [(some id, size)])
  := by
  refine ⟨?_, ?_, ?_, ?_⟩
  · rw [List.countP_append]
    show (u.responsesReceived + 1) % 2 ^ 64 = _
    rw [h.responses, Nat.mod_add_mod]
    rfl
  · rw [List.countP_append]
    exact h.pushes
  · rw [posted_append]
    show (u.responseBytesReceived + size) % 2 ^ 64 = _
    rw [h.responseBytes, Nat.mod_add_mod]
    rfl
  · rw [posted_append]
    exact h.pushBytes

/-- Operations other than `commit_read` count nothing that is received. -/
theorem operate {w : World ρ} {a : Action ρ} (h : w.mpx.usage.Counts postings)
    (ha : a.isCommitRead = false) :
  (w.operate a).mpx.usage.Counts postings
  := by
  cases hqueue : a.requeues with
  | true =>
      obtain ⟨reqs, called, heq⟩ := w.operate_of_requeues hqueue
      rw [heq]
      apply h
  | false =>
      cases a with
      | prepareWrite => exact ⟨h.responses, h.pushes, h.responseBytes, h.pushBytes⟩
      | commitWrite | receive _ | reset => exact h
      | commitRead => cases ha
      | add _ _ _ | remove _ | cancelWaiting | connLost => cases hqueue

end Usage.Counts

/-- An operation other than `commit_read` adds something to the read buffer, or nothing. -/
theorem World.received_operate {w : World ρ} {a : Action ρ} (hpossible : w.Possible a)
    (hshort : w.mpx.readBuffer.length < 2 ^ 64) (hread : a.isCommitRead = false)
    (hreset : a.isReset = false) :
  ∃ chunk, (w.mpx.readBuffer ++ chunk).length < 2 ^ 64
    ∧ (w.operate a).received = w.received ++ chunk
    ∧ (w.operate a).mpx.readBuffer = w.mpx.readBuffer ++ chunk
    ∧ (w.operate a).mpx.parser = w.mpx.parser
  := by
  have hnothing : (w.mpx.readBuffer ++ []).length < 2 ^ 64 := by
    rw [List.append_nil]
    apply hshort
  have hsame : ∀ {w' : World ρ}, w'.received = w.received → SameReading w.mpx w'.mpx →
      ∃ chunk, (w.mpx.readBuffer ++ chunk).length < 2 ^ 64 ∧ w'.received = w.received ++ chunk
        ∧ w'.mpx.readBuffer = w.mpx.readBuffer ++ chunk ∧ w'.mpx.parser = w.mpx.parser := by
    intro w' hreceived h
    exact ⟨[], hnothing, by rw [hreceived, List.append_nil], by rw [h.readBuffer, List.append_nil],
      h.parser⟩
  cases a with
  | add req adapter response => exact hsame rfl (sameReading_add _ _)
  | remove id => exact hsame rfl (sameReading_remove _ _)
  | cancelWaiting => exact hsame rfl (sameReading_cancelWaiting _)
  | prepareWrite => exact hsame rfl (sameReading_prepareWrite _)
  | commitWrite => exact hsame rfl (sameReading_commitWrite _)
  | receive chunk => exact ⟨chunk, hpossible, rfl, rfl, rfl⟩
  | connLost =>
      obtain ⟨reqs, called, heq⟩ := w.operate_of_requeues (a := .connLost) rfl
      rw [heq]
      exact ⟨[], hnothing, (List.append_nil _).symm, (List.append_nil _).symm, rfl⟩
  | commitRead => cases hread
  | reset => cases hreset

namespace Ledger

variable {l : Ledger ρ} {a : Action ρ}

/-- What is read is accounted for: the stream consists of the messages and of what is in the read
buffer, and the counters are those of the messages. -/
structure Reading (l : Ledger ρ) : Prop where
  stream : l.world.received = (l.messages.map Receipt.bytes).flatten ++ l.world.mpx.readBuffer
  nonempty : ∀ m ∈ l.messages, m.bytes ≠ []
  short : l.world.mpx.readBuffer.length < 2 ^ 64
  valid : l.world.mpx.parser.Valid l.world.mpx.readBuffer
  counts : l.world.mpx.usage.Counts l.postings

theorem postings_next (l : Ledger ρ) (a : Action ρ) :
  (l.next a).postings
    = l.postings ++ (l.world.receipts a).map fun m => (m.owner, m.bytes.length)
  := List.map_append

/-- An operation that completes no message leaves the messages as they are. -/
theorem messages_next (h : l.world.receipts a = []) :
  (l.next a).messages = l.messages ∧ (l.next a).postings = l.postings
  := by
  rw [postings_next, next, h]
  exact ⟨List.append_nil _, List.append_nil _⟩

/-- The bytes of a message are those before what remains in the read buffer. -/
theorem receipts_of_message {w : World ρ} {isPush : Bool} {size : ℕ}
    (hvalue : w.mpx.commitRead.value = .message isPush size)
    (hle : size ≤ w.mpx.readBuffer.length)
    (hbuffer : w.mpx.commitRead.mpx.readBuffer = w.mpx.readBuffer.drop size) :
  w.receipts .commitRead
    = [⟨if isPush then none else w.mpx.reqs.head?.map Elem.id, w.mpx.readBuffer.take size⟩]
  := by
  rw [World.receipts, hvalue]
  dsimp only
  rw [hbuffer, List.length_drop, Nat.sub_sub_self hle]

theorem receipts_of_part {w : World ρ}
    (hvalue : ∀ isPush size, w.mpx.commitRead.value ≠ .message isPush size) :
  w.receipts .commitRead = []
  := by
  rw [World.receipts]
  split
  · rename_i isPush size hmessage
    exact absurd hmessage (hvalue isPush size)
  · rfl

namespace Reading

/-- A message is read. -/
theorem message (h : Reading l) {isPush : Bool} {size : ℕ}
    (hvalue : l.world.mpx.commitRead.value = .message isPush size) (hpos : 0 < size)
    (hle : size ≤ l.world.mpx.readBuffer.length)
    (hbuffer : l.world.mpx.commitRead.mpx.readBuffer = l.world.mpx.readBuffer.drop size)
    (hparser : l.world.mpx.commitRead.mpx.parser = .fresh)
    (hcounts : l.world.mpx.commitRead.mpx.usage.Counts (l.next .commitRead).postings) :
  Reading (l.next .commitRead)
  := by
  have hreceipts := receipts_of_message hvalue hle hbuffer
  refine ⟨?_, ?_, ?_, ?_, hcounts⟩
  · show l.world.received = ((l.messages ++ l.world.receipts .commitRead).map Receipt.bytes).flatten
      ++ l.world.mpx.commitRead.mpx.readBuffer
    rw [hreceipts, hbuffer, h.stream, List.map_append, List.flatten_append, List.append_assoc]
    simp
  · intro m hm
    obtain hm | hm := List.mem_append.mp hm
    · apply h.nonempty m hm
    · rw [hreceipts] at hm
      obtain rfl := List.mem_singleton.mp hm
      apply List.ne_nil_of_length_pos
      rw [List.length_take, Nat.min_eq_left hle]
      apply hpos
  · show l.world.mpx.commitRead.mpx.readBuffer.length < 2 ^ 64
    rw [hbuffer, List.length_drop]
    exact (Nat.sub_le _ _).trans_lt h.short
  · show l.world.mpx.commitRead.mpx.parser.Valid _
    rw [hparser]
    apply Parser.fresh_valid

theorem commitRead (h : Reading l) :
  Reading (l.next .commitRead)
  := by
  cases Multiplexer.reads h.valid h.short with
  | part hvalue hbuffer husage _ hvalid =>
      obtain ⟨hmessages, hpostings⟩ := messages_next (receipts_of_part hvalue)
      refine ⟨?_, ?_, ?_, ?_, ?_⟩
      · rw [hmessages]
        show l.world.received = _ ++ l.world.mpx.commitRead.mpx.readBuffer
        rw [hbuffer]
        apply h.stream
      · rw [hmessages]
        apply h.nonempty
      · show l.world.mpx.commitRead.mpx.readBuffer.length < 2 ^ 64
        rw [hbuffer]
        apply h.short
      · show l.world.mpx.commitRead.mpx.parser.Valid l.world.mpx.commitRead.mpx.readBuffer
        rw [hbuffer]
        apply hvalid
      · rw [hpostings]
        show l.world.mpx.commitRead.mpx.usage.Counts _
        rw [husage]
        apply h.counts
  | push hvalue hpos hle hbuffer husage _ hparser =>
      apply h.message hvalue hpos hle hbuffer hparser
      rw [postings_next, receipts_of_message hvalue hle hbuffer, husage]
      simp only [List.map_cons, List.map_nil, List.length_take, Nat.min_eq_left hle]
      apply h.counts.push
  | response hreqs hvalue hpos hle hbuffer husage _ hparser =>
      apply h.message hvalue hpos hle hbuffer hparser
      rw [postings_next, receipts_of_message hvalue hle hbuffer, husage, hreqs]
      simp only [List.map_cons, List.map_nil, List.length_take, Nat.min_eq_left hle]
      apply h.counts.response

theorem step (h : Reading l) (ha : l.Possible a) :
  Reading (l.next a)
  := by
  cases hread : a.isCommitRead with
  | true =>
      cases a with
      | commitRead => apply h.commitRead
      | _ => cases hread
  | false =>
      have hreceipts : l.world.receipts a = [] := by
        cases a with
        | commitRead => cases hread
        | _ => rfl
      obtain ⟨hmessages, hpostings⟩ := messages_next hreceipts
      obtain ⟨chunk, hshort, hreceived, hbuffer, hparser⟩ :=
        World.received_operate ha.1 h.short hread ha.2
      refine ⟨?_, ?_, ?_, ?_, ?_⟩
      · show (l.world.operate a).received = _ ++ (l.world.operate a).mpx.readBuffer
        rw [hmessages, hreceived, hbuffer, h.stream, List.append_assoc]
      · rw [hmessages]
        apply h.nonempty
      · show (l.world.operate a).mpx.readBuffer.length < 2 ^ 64
        rw [hbuffer]
        apply hshort
      · show (l.world.operate a).mpx.parser.Valid (l.world.operate a).mpx.readBuffer
        rw [hparser, hbuffer]
        apply h.valid.append
      · rw [hpostings]
        apply h.counts.operate hread

end Reading

end Ledger

end Redis
