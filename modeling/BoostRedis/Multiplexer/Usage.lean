import BoostRedis.Multiplexer.Ledger
import Mathlib.Algebra.BigOperators.ModEq

/-!
# The accounts of the bytes received

The bytes that are received are counted in four places: by the parser, as it goes through the read
buffer, by the request whose response is read, by the counters of `usage`, and when they are erased
from the read buffer.  In a run without `reset` the four agree, whichever requests leave.  They
agree modulo `2 ^ 64`, as the counters wrap around, and exactly as long as less than `2 ^ 64` bytes
were received.
-/

namespace Redis

open Resp3 Posting

variable {ρ : Type}

namespace Ledger

variable {l : Ledger ρ} {a : Action ρ}

/-- The size of all replies to a request. -/
def attributed (l : Ledger ρ) (id : ℕ) : ℕ := posted (· = some id) l.postings

/-- The received bytes are accounted for, where numbers agree in the sense of `E`.

* There is an account for each request that was added.
* The bytes received are those of responses, those of pushes and those in the read buffer.
* The read buffer is what remains of the stream after the messages.
* The responses and the pushes are the messages.
* The bytes of responses are what the requests have counted.
* A request has counted the replies to it. -/
structure Books (E : ℕ → ℕ → Prop) (l : Ledger ρ) : Prop where
  requests : (l.accounts.map Prod.fst).Perm (List.range l.world.nextId)
  total : E l.world.received.length
    (l.world.mpx.usage.responseBytesReceived + l.world.mpx.usage.pushBytesReceived
      + l.world.mpx.readBuffer.length)
  stream : l.world.received
    = (l.messages.map Receipt.bytes).flatten ++ l.world.mpx.readBuffer
  messages : E (l.world.mpx.usage.responsesReceived + l.world.mpx.usage.pushesReceived)
    l.messages.length
  responses : E l.world.mpx.usage.responseBytesReceived (l.accounts.map Prod.snd).sum
  replies : ∀ p ∈ l.accounts, E p.2 (l.attributed p.1)

/-! ### The accounts of the requests -/

/-- Each request has an account, in which the replies to it are counted. -/
structure Crediting (l : Ledger ρ) : Prop where
  requests : (l.accounts.map Prod.fst).Perm (List.range l.world.nextId)
  owners : ∀ m ∈ l.messages, ∀ id, m.owner = some id → id < l.world.nextId
  replies : ∀ p ∈ l.accounts, p.2 = l.attributed p.1 % 2 ^ 64

theorem attributed_next (l : Ledger ρ) (a : Action ρ) (id : ℕ) :
  (l.next a).attributed id = l.attributed id
    + posted (· = some id) ((l.world.receipts a).map fun m => (m.owner, m.bytes.length))
  := by
  rw [attributed, postings_next, posted_append]
  rfl

/-- Operations other than `add` and `commit_read` leave the accounts of the entries that stay as
they are. -/
theorem accounts_operate {w : World ρ} (hadd : a.isAdd = false) (hread : a.isCommitRead = false) :
  (w.operate a).mpx.accounts.Sublist w.mpx.accounts
  := World.map_operate (fun _ _ => rfl) hadd hread

/-- No reply is counted by an operation that completes none. -/
theorem credited_eq_accounts {w : World ρ}
    (h : ∀ size, a = .commitRead → w.mpx.commitRead.value ≠ .message false size) :
  w.credited a = w.mpx.accounts
  := by
  cases a with
  | commitRead =>
      rw [World.credited]
      split
      · rename_i size _ _ hvalue _
        exact absurd hvalue (h size rfl)
      · rfl
  | _ => rfl

theorem credited_response {w : World ρ} {e : Elem ρ} {rest : List (Elem ρ)} {size : ℕ}
    (hreqs : w.mpx.reqs = e :: rest) (hvalue : w.mpx.commitRead.value = .message false size) :
  w.credited .commitRead = (e.commitResponse size).account :: rest.map Elem.account
  := by
  rw [World.credited, hvalue, hreqs]

theorem accounts_fst (m : Multiplexer ρ) :
  m.accounts.map Prod.fst = m.ids
  := by
  rw [Multiplexer.accounts, List.map_map]
  rfl

/-- The entries that stay have the accounts in which a reply is counted. -/
theorem credited_operate (h : Reading l) (hadd : a.isAdd = false) :
  (l.world.operate a).mpx.accounts.Sublist (l.world.credited a)
    ∧ (l.world.credited a).map Prod.fst = l.world.mpx.ids
  := by
  have hsame : (∀ size, a = .commitRead → l.world.mpx.commitRead.value ≠ .message false size) →
      (l.world.operate a).mpx.accounts.Sublist l.world.mpx.accounts →
      (l.world.operate a).mpx.accounts.Sublist (l.world.credited a)
        ∧ (l.world.credited a).map Prod.fst = l.world.mpx.ids := by
    intro hnone hsub
    rw [credited_eq_accounts hnone]
    exact ⟨hsub, accounts_fst _⟩
  cases hread : a.isCommitRead with
  | false =>
      apply hsame _ (accounts_operate hadd hread)
      rintro size rfl
      cases hread
  | true =>
      cases a with
      | commitRead =>
          cases Multiplexer.reads h.valid h.short with
          | part hvalue _ _ haccounts _ =>
              apply hsame (fun size _ => hvalue false size)
              exact haccounts ▸ .refl _
          | push hvalue _ _ _ _ haccounts _ =>
              apply hsame (fun size _ => by rw [hvalue]; simp)
              exact haccounts ▸ .refl _
          | response hreqs hvalue _ _ _ _ haccounts _ =>
              rw [credited_response hreqs hvalue]
              refine ⟨haccounts, ?_⟩
              rw [Multiplexer.ids, hreqs, List.map_cons, List.map_cons, List.map_map]
              rfl
      | _ => cases hread

/-- The accounts after an operation are those before, where a reply is counted. -/
theorem accounts_next (h : Reading l) (horderly : Orderly l.world) (hadd : a.isAdd = false) :
  (l.next a).accounts.Perm (l.closed ++ l.world.credited a)
  := by
  obtain ⟨hsub, hkeys⟩ := credited_operate h hadd
  show ((l.closed ++ l.world.closed a) ++ (l.world.operate a).mpx.accounts).Perm _
  rw [List.append_assoc]
  apply List.Perm.append_left
  apply filter_keys_perm hsub
  rw [hkeys]
  apply horderly.nodup

namespace Crediting

/-- The numbers of the accounts do not repeat. -/
theorem nodup (h : Crediting l) :
  (l.closed.map Prod.fst ++ l.world.mpx.ids).Nodup
  := by
  rw [← accounts_fst, ← List.map_append]
  exact h.requests.nodup_iff.mpr List.nodup_range

/-- The numbers of the accounts, if none is added. -/
theorem requests_next (h : Crediting l) (hreading : Reading l) (horderly : Orderly l.world)
    (hadd : a.isAdd = false) :
  ((l.next a).accounts.map Prod.fst).Perm (List.range l.world.nextId)
  := by
  apply ((accounts_next hreading horderly hadd).map Prod.fst).trans
  rw [List.map_append, (credited_operate hreading hadd).2, ← accounts_fst, ← List.map_append]
  exact h.requests

theorem nextId_operate {w : World ρ} (hadd : a.isAdd = false) :
  (w.operate a).nextId = w.nextId
  := by
  cases a with
  | add _ _ _ => cases hadd
  | _ => rfl

/-- No reply is counted. -/
theorem unchanged (h : Crediting l) (hreading : Reading l) (horderly : Orderly l.world)
    (hadd : a.isAdd = false) (hcredited : l.world.credited a = l.world.mpx.accounts)
    (howners : ∀ m ∈ l.world.receipts a, m.owner = none) :
  Crediting (l.next a)
  := by
  have hnext : (l.next a).world.nextId = l.world.nextId := nextId_operate hadd
  refine ⟨?_, ?_, ?_⟩
  · rw [hnext]
    apply h.requests_next hreading horderly hadd
  · rw [hnext]
    intro m hm id hid
    obtain hm | hm := List.mem_append.mp hm
    · apply h.owners m hm id hid
    · rw [howners m hm] at hid
      cases hid
  · intro p hp
    have hp := (accounts_next hreading horderly hadd).mem_iff.mp hp
    rw [hcredited] at hp
    have hnothing : posted (· = some p.1)
        ((l.world.receipts a).map fun m => (m.owner, m.bytes.length)) = 0 := by
      apply posted_eq_zero
      intro q hq
      obtain ⟨m, hm, rfl⟩ := List.mem_map.mp hq
      simp [howners m hm]
    rw [attributed_next, hnothing, Nat.add_zero]
    apply h.replies p hp

/-- Where a reply is counted, only the account of the request at the front is another one. -/
theorem mem_credited (h : Crediting l) {e : Elem ρ} {rest : List (Elem ρ)} {size : ℕ}
    (hreqs : l.world.mpx.reqs = e :: rest)
    (hvalue : l.world.mpx.commitRead.value = .message false size) {p : ℕ × ℕ}
    (hp : p ∈ l.closed ++ l.world.credited .commitRead) :
  p = (e.commitResponse size).account ∨ p ∈ l.accounts ∧ p.1 ≠ e.id
  := by
  have hnodup := h.nodup
  rw [Multiplexer.ids, hreqs, List.map_cons] at hnodup
  rw [credited_response hreqs hvalue] at hp
  obtain hp | hp := List.mem_append.mp hp
  · refine .inr ⟨List.mem_append_left _ hp, fun heq => ?_⟩
    apply List.disjoint_of_nodup_append hnodup (List.mem_map_of_mem hp)
    rw [heq]
    apply List.mem_cons_self
  · obtain rfl | hp := List.mem_cons.mp hp
    · exact .inl rfl
    · obtain ⟨x, hx, rfl⟩ := List.mem_map.mp hp
      refine .inr ⟨List.mem_append_right _ ?_, fun heq => ?_⟩
      · rw [Multiplexer.accounts, hreqs]
        exact List.mem_cons_of_mem _ hp
      · apply (List.nodup_cons.mp (List.Nodup.of_append_right hnodup)).1
        rw [← heq]
        exact List.mem_map_of_mem hx

/-- A reply is counted by the request at the front. -/
theorem response (h : Crediting l) (hreading : Reading l) (horderly : Orderly l.world)
    {e : Elem ρ} {rest : List (Elem ρ)} {size : ℕ} (hreqs : l.world.mpx.reqs = e :: rest)
    (hvalue : l.world.mpx.commitRead.value = .message false size)
    (hle : size ≤ l.world.mpx.readBuffer.length)
    (hbuffer : l.world.mpx.commitRead.mpx.readBuffer = l.world.mpx.readBuffer.drop size) :
  Crediting (l.next .commitRead)
  := by
  have he : e ∈ l.world.mpx.reqs := by
    rw [hreqs]
    apply List.mem_cons_self
  have hreceipts : l.world.receipts .commitRead
      = [⟨some e.id, l.world.mpx.readBuffer.take size⟩] := by
    rw [receipts_of_message hvalue hle hbuffer, hreqs]
    rfl
  have hattributed : ∀ id, (l.next .commitRead).attributed id
      = l.attributed id + if e.id = id then size else 0 := by
    intro id
    rw [attributed_next, hreceipts]
    simp only [List.map_cons, List.map_nil, posted_cons, Option.some.injEq, decide_eq_true_eq,
      List.length_take, Nat.min_eq_left hle]
    rfl
  refine ⟨h.requests_next hreading horderly rfl, ?_, ?_⟩
  · intro m hm id hid
    obtain hm | hm := List.mem_append.mp hm
    · apply h.owners m hm id hid
    · rw [hreceipts] at hm
      obtain rfl := List.mem_singleton.mp hm
      obtain rfl := Option.some.inj hid
      apply horderly.lt_nextId _ (List.mem_map_of_mem he)
  · intro p hp
    have hp := (accounts_next hreading horderly rfl).mem_iff.mp hp
    rcases h.mem_credited hreqs hvalue hp with rfl | ⟨hp, hne⟩
    · have hbefore : e.readSize = l.attributed e.id % 2 ^ 64 :=
        h.replies e.account (List.mem_append_right _ (List.mem_map_of_mem he))
      show (e.readSize + size) % 2 ^ 64 = (l.next .commitRead).attributed e.id % 2 ^ 64
      rw [hattributed, if_pos rfl, hbefore, Nat.mod_add_mod]
    · rw [hattributed, if_neg hne.symm, Nat.add_zero]
      apply h.replies p hp

/-- A request is added. -/
theorem add (h : Crediting l) (req : Request) (adapter : ℕ → Adapter ρ) (response : ρ) :
  Crediting (l.next (.add req adapter response))
  := by
  have hadded : (l.world.operate (.add req adapter response)).mpx.accounts.Perm
      ((l.world.nextId, 0) :: l.world.mpx.accounts) := (Multiplexer.add_perm _).map Elem.account
  have hclosed : l.world.closed (.add req adapter response) = [] := by
    apply List.filter_eq_nil_iff.mpr
    intro p hp
    have hstays := (hadded.map Prod.fst).mem_iff.mpr
      (List.mem_cons_of_mem _ (List.mem_map_of_mem (f := Prod.fst) hp))
    simpa using hstays
  have haccounts : (l.next (.add req adapter response)).accounts.Perm
      ((l.world.nextId, 0) :: l.accounts) := by
    show ((l.closed ++ l.world.closed _) ++ _).Perm _
    rw [hclosed, List.append_nil]
    exact (hadded.append_left _).trans List.perm_middle
  have hmessages : (l.next (.add req adapter response)).messages = l.messages := List.append_nil _
  refine ⟨?_, ?_, ?_⟩
  · apply (haccounts.map Prod.fst).trans
    show (l.world.nextId :: l.accounts.map Prod.fst).Perm (List.range (l.world.nextId + 1))
    rw [List.range_succ]
    exact (h.requests.cons _).trans (List.perm_append_singleton _ _).symm
  · rw [hmessages]
    intro m hm id hid
    exact Nat.lt_succ_of_lt (h.owners m hm id hid)
  · intro p hp
    rw [attributed, postings, hmessages]
    obtain rfl | hp := List.mem_cons.mp (haccounts.mem_iff.mp hp)
    · have hnothing : posted (· = some l.world.nextId) l.postings = 0 := by
        apply posted_eq_zero
        intro q hq
        obtain ⟨m, hm, rfl⟩ := List.mem_map.mp hq
        rw [decide_eq_false_iff_not]
        intro hid
        exact Nat.lt_irrefl _ (h.owners m hm _ hid)
      exact (congrArg (· % 2 ^ 64) hnothing).symm
    · exact h.replies p hp

theorem step (h : Crediting l) (hreading : Reading l) (horderly : Orderly l.world) :
  Crediting (l.next a)
  := by
  cases a with
  | add req adapter response => apply h.add
  | commitRead =>
      cases Multiplexer.reads hreading.valid hreading.short with
      | part hvalue =>
          apply h.unchanged hreading horderly rfl
          · exact credited_eq_accounts fun size _ => hvalue false size
          · rw [receipts_of_part hvalue]
            simp
      | push hvalue _ hle hbuffer =>
          apply h.unchanged hreading horderly rfl
          · exact credited_eq_accounts fun size _ => by rw [hvalue]; simp
          · rw [receipts_of_message hvalue hle hbuffer]
            simp
      | response hreqs hvalue _ hle hbuffer =>
          apply h.response hreading horderly hreqs hvalue hle hbuffer
  | remove _ | cancelWaiting | prepareWrite | commitWrite | receive _ | connLost | reset =>
      exact h.unchanged hreading horderly rfl rfl (by simp [World.receipts])

end Crediting

/-! ### The books -/

theorem sum_postings (l : Ledger ρ) :
  (l.postings.map Prod.snd).sum = (l.messages.map Receipt.bytes).flatten.length
  := by
  rw [postings, List.map_map, List.length_flatten, List.map_map]
  rfl

theorem Reading.length_received (h : Reading l) :
  l.world.received.length = posted Option.isSome l.postings + posted Option.isNone l.postings
    + l.world.mpx.readBuffer.length
  := by
  have hall := posted_add_posted_not Option.isSome l.postings
  have hnone : posted (fun k => !Option.isSome k) l.postings = posted Option.isNone l.postings := by
    apply posted_congr
    intro p _
    rw [Option.not_isSome]
  rw [h.stream, List.length_append, ← sum_postings, ← hall, hnone]

theorem Reading.length_messages (h : Reading l) :
  l.messages.length = l.postings.countP (·.1.isSome) + l.postings.countP (·.1.isNone)
    ∧ l.messages.length ≤ l.world.received.length
  := by
  constructor
  · have hsplit := l.postings.length_eq_countP_add_countP fun p => p.1.isSome
    have hnone : l.postings.countP (fun p => ¬ p.1.isSome = true)
        = l.postings.countP (·.1.isNone) := by
      apply List.countP_congr
      intro p _
      simp
    rw [hnone, postings, List.length_map] at hsplit
    exact hsplit
  · have hlengths : (l.messages.map fun m => m.bytes.length).length
        ≤ (l.messages.map fun m => m.bytes.length).sum := by
      apply List.length_le_sum_of_one_le
      intro n hn
      obtain ⟨m, hm, rfl⟩ := List.mem_map.mp hn
      apply List.length_pos_of_ne_nil (h.nonempty m hm)
    rw [List.length_map] at hlengths
    apply hlengths.trans
    rw [h.stream, List.length_append, List.length_flatten, List.map_map]
    apply Nat.le_add_right

/-- What is attributed to requests are the bytes of responses. -/
theorem Crediting.sum_attributed (h : Crediting l) :
  (l.accounts.map fun p => l.attributed p.1).sum = posted Option.isSome l.postings
  := by
  have hkeys : ((l.accounts.map Prod.fst).map some).Nodup :=
    (h.requests.nodup_iff.mpr List.nodup_range).map (Option.some_injective ℕ)
  have hsum := sum_posted hkeys l.postings
  rw [List.map_map, List.map_map] at hsum
  apply hsum.trans
  apply posted_congr
  intro p hp
  obtain ⟨m, hm, rfl⟩ := List.mem_map.mp hp
  cases howner : m.owner with
  | none => simp
  | some id =>
      have hid : id ∈ l.accounts.map Prod.fst :=
        h.requests.mem_iff.mpr (List.mem_range.mpr (h.owners m hm id howner))
      simpa using hid

/-- The books are right where numbers up to the bytes received and their remainders agree. -/
theorem books {n : ℕ} (hreading : Reading l) (h : Crediting l)
    (hmod : ∀ k ≤ l.world.received.length, (k % 2 ^ 64) ≡ k [MOD n]) :
  Books (Nat.ModEq n) l
  := by
  have hlength := hreading.length_received
  obtain ⟨hcount, hmessages⟩ := hreading.length_messages
  have hresponses : l.world.mpx.usage.responseBytesReceived
      ≡ posted Option.isSome l.postings [MOD n] := by
    rw [hreading.counts.responseBytes]
    apply hmod
    omega
  have hattributed : ∀ id, l.attributed id ≤ l.world.received.length := by
    intro id
    apply (posted_le _ _).trans
    rw [sum_postings, hreading.stream, List.length_append]
    apply Nat.le_add_right
  have hreplies : ∀ p ∈ l.accounts, p.2 ≡ l.attributed p.1 [MOD n] := by
    intro p hp
    rw [h.replies p hp]
    apply hmod _ (hattributed p.1)
  refine ⟨h.requests, ?_, hreading.stream, ?_, ?_, hreplies⟩
  · rw [hlength]
    apply Nat.ModEq.add_right
    apply hresponses.symm.add
    rw [hreading.counts.pushBytes]
    apply (hmod _ _).symm
    omega
  · rw [hcount, hreading.counts.responses, hreading.counts.pushes]
    apply (hmod _ _).add (hmod _ _)
    · omega
    · omega
  · apply hresponses.trans
    rw [← h.sum_attributed]
    exact (Nat.ModEq.listSum_map hreplies).symm

end Ledger

/-- Every operation keeps the accounts. -/
theorem Ledger.balanced_of_run {receiveAdapter : Adapter ρ} {receiveResponse : ρ}
    {as : List (Action ρ)} {l : Ledger ρ}
    (hrun : Run Ledger.Step (.fresh receiveAdapter receiveResponse) as l) :
  Orderly l.world ∧ l.Reading ∧ l.Crediting
  := by
  apply hrun.invariant (I := fun l => Orderly l.world ∧ l.Reading ∧ l.Crediting)
  · rintro l a _ ⟨horderly, hreading, h⟩ ⟨ha, rfl⟩
    exact ⟨horderly.step a, hreading.step ha, h.step hreading horderly⟩
  · refine ⟨.fresh receiveAdapter receiveResponse, ?_, ?_⟩
    · exact ⟨rfl, by simp [Ledger.fresh], by simp [Ledger.fresh, World.fresh],
        Parser.fresh_valid _, ⟨rfl, rfl, rfl, rfl⟩⟩
    · exact ⟨.refl _, by simp [Ledger.fresh],
        by simp [Ledger.fresh, Ledger.accounts, World.fresh, Multiplexer.accounts]⟩

/-- The received bytes are accounted for in every run of a new multiplexer without `reset`: modulo
`2 ^ 64`, and exactly as long as fewer bytes were received. -/
theorem books_of_run {receiveAdapter : Adapter ρ} {receiveResponse : ρ} {as : List (Action ρ)}
    {l : Ledger ρ} (hrun : Run Ledger.Step (.fresh receiveAdapter receiveResponse) as l) :
  l.Books (Nat.ModEq (2 ^ 64)) ∧ (l.world.received.length < 2 ^ 64 → l.Books Eq)
  := by
  obtain ⟨-, hreading, h⟩ := Ledger.balanced_of_run hrun
  constructor
  · apply Ledger.books hreading h
    intro k _
    apply Nat.mod_modEq
  · intro hlt
    have hexact : l.Books (Nat.ModEq 0) := by
      apply Ledger.books hreading h
      intro k hk
      rw [Nat.mod_eq_of_lt (hk.trans_lt hlt)]
    have heq : Nat.ModEq 0 = Eq := by
      funext a b
      rw [Nat.modEq_zero_iff]
    rw [heq] at hexact
    exact hexact

/-- Two requests are sent.  The first is responded to, in two pieces, a push comes in between, and
the adapter of the second takes no node. -/
def mixed : List (Action Unit) :=
  [.add (Request.push {} (ascii "PING") []) (fun _ => accepting) (),
    .add (Request.push {} (ascii "PING") [])
      (fun _ _ _ => ((), some (.redis .incompatibleSize))) (),
    .prepareWrite, .commitWrite, .receive (ascii ">1\r\n+x\r\n+PO"), .commitRead, .commitRead,
    .receive (ascii "NG\r\n+PONG\r\n:"), .commitRead, .commitRead, .connLost]

theorem books_of_run_mixed :
  (mixed.foldl Ledger.next (.fresh accepting ())).Books Eq
    ∧ (mixed.foldl Ledger.next (.fresh accepting ())).messages
      = [⟨none, ascii ">1\r\n+x\r\n"⟩, ⟨some 0, ascii "+PONG\r\n"⟩]
    ∧ (mixed.foldl Ledger.next (.fresh accepting ())).accounts = [(0, 7), (1, 0)]
    ∧ (mixed.foldl Ledger.next (.fresh accepting ())).world.mpx.readBuffer = ascii "+PONG\r\n:"
  := by
  have hfollows : Run.Follows Ledger.next Ledger.Possible (Ledger.fresh accepting ()) mixed := by
    decide +kernel
  refine ⟨(books_of_run (Run.of_follows hfollows)).2 ?_, ?_, ?_, ?_⟩
  · decide +kernel
  · decide +kernel
  · decide +kernel
  · decide +kernel

/-! ### Counters that wrap around -/

/-- There are no requests, no message has been read in part, and the receive adapter takes every
node. -/
structure Multiplexer.Idle (m : Multiplexer Unit) (buffer : Bytes) : Prop where
  reqs : m.reqs = []
  readBuffer : m.readBuffer = buffer
  parser : m.parser = .fresh
  receiveAdapter : m.receiveAdapter = accepting

/-- Without requests, a message is a push. -/
theorem Multiplexer.Idle.commitRead {m : Multiplexer Unit} (h : m.Idle (ascii "+OK\r\n")) :
  m.commitRead.value = .message true 5 ∧ m.commitRead.mpx.Idle []
  := by
  have hparse : (parse .fresh (ascii "+OK\r\n") accepting ()).status = .done
      ∧ (parse .fresh (ascii "+OK\r\n") accepting ()).parser.consumed = 5 := by
    decide
  have hpush : (m.onPush || m.isNextPush) = true := by
    rw [isNextPush, h.reqs]
    simp
  rw [Multiplexer.commitRead, if_pos hpush, commitPush, h.parser, h.readBuffer, h.receiveAdapter]
  generalize parse .fresh (ascii "+OK\r\n") accepting () = r at hparse ⊢
  obtain ⟨q, state, nodes, status⟩ := r
  obtain ⟨rfl, hsize⟩ := hparse
  refine ⟨congrArg (ReadResult.message true) hsize, h.reqs, ?_, rfl, rfl⟩
  show (ascii "+OK\r\n").drop q.consumed = []
  rw [show q.consumed = 5 from hsize]
  decide

/-- Any number of pushes may be received. -/
theorem exists_run_pushes (n : ℕ) :
  ∃ as l, Run Ledger.Step (.fresh accepting ()) as l ∧ l.world.mpx.Idle []
    ∧ l.world.received.length = 5 * n
  := by
  induction n with
  | zero => exact ⟨[], _, .nil _, ⟨rfl, rfl, rfl, rfl⟩, rfl⟩
  | succ n ih =>
      obtain ⟨as, l, hrun, hidle, hlength⟩ := ih
      have hbuffer : (l.next (.receive (ascii "+OK\r\n"))).world.mpx.Idle (ascii "+OK\r\n") := by
        refine ⟨hidle.reqs, ?_, hidle.parser, hidle.receiveAdapter⟩
        show l.world.mpx.readBuffer ++ _ = _
        rw [hidle.readBuffer, List.nil_append]
      obtain ⟨hvalue, hidle'⟩ := hbuffer.commitRead
      have hreceive : l.Possible (.receive (ascii "+OK\r\n")) := by
        refine ⟨?_, rfl⟩
        show (l.world.mpx.readBuffer ++ _).length < 2 ^ 64
        rw [hidle.readBuffer]
        decide
      have hread : (l.next (.receive (ascii "+OK\r\n"))).Possible .commitRead := by
        refine ⟨⟨?_, ?_⟩, rfl⟩
        · rw [hbuffer.readBuffer]
          decide
        · rw [hvalue]
          simp
      refine ⟨_, _, (hrun.snoc ⟨hreceive, rfl⟩).snoc ⟨hread, rfl⟩, hidle', ?_⟩
      show (l.world.received ++ _).length = 5 * (n + 1)
      rw [List.length_append, hlength]
      rfl

/-- The counters of `usage` do not hold more than `2 ^ 64` bytes each. -/
theorem books_of_run_wrap :
  ¬ ∀ (receiveAdapter : Adapter Unit) (as : List (Action Unit)) (l : Ledger Unit),
    Run Ledger.Step (.fresh receiveAdapter ()) as l → l.Books Eq
  := by
  intro h
  obtain ⟨as, l, hrun, hidle, hlength⟩ := exists_run_pushes (2 ^ 64)
  have htotal := (h accepting as l hrun).total
  have hcounts := (Ledger.balanced_of_run hrun).2.1.counts
  rw [hlength, hidle.readBuffer, hcounts.responseBytes, hcounts.pushBytes] at htotal
  have hresponses := Nat.mod_lt (posted Option.isSome l.postings) (Nat.two_pow_pos 64)
  have hpushes := Nat.mod_lt (posted Option.isNone l.postings) (Nat.two_pow_pos 64)
  rw [List.length_nil] at htotal
  omega

end Redis
