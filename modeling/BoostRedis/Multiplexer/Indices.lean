import BoostRedis.Adapter.Result
import BoostRedis.Multiplexer.Ledger

/-!
# The indices of responses

The adapter of a request is called with the index of the response that is read, which is the
difference of two counters: the responses that the request expects, and `remaining_responses_`.
Both have the type `std::size_t`, so that the difference would wrap around if more responses
remained than are expected, and so would `remaining_responses_` if `commit_response` was called
when none remains.

A `Roll` keeps the counters of all entries that were ever added, with the arithmetic of
`std::size_t`.  In every run of operations they do not wrap around.  A response is read only for a
request that has some left, so the index is less than the number of responses expected, and a
`static_adapter` of that size has an element for it.
-/

namespace Redis

open Resp3

variable {ρ : Type}

/-- The counters of an entry: its number, the responses that its request expects, and those that
remain. -/
def Elem.counter (e : Elem ρ) : ℕ × ℕ × ℕ :=
  (e.id, e.req.expectedResponses, e.remainingResponses)

/-- The counters of the entries of the queue. -/
def Multiplexer.counters (m : Multiplexer ρ) : List (ℕ × ℕ × ℕ) := m.reqs.map Elem.counter

/-- The entry to which `commit_read` applies `commit_response`, if it does. -/
def Multiplexer.committed (m : Multiplexer ρ) : Option (Elem ρ) :=
  match m.commitRead.value with
  | .message false _ => m.reqs.head?
  | _ => none

/-- A request counts the responses it expects with an `std::size_t`. -/
def Action.Countable : Action ρ → Prop
  | .add req _ _ => req.expectedResponses < 2 ^ 64
  | _ => True

instance (a : Action ρ) : Decidable a.Countable :=
  match a with
  | .add req _ _ => inferInstanceAs (Decidable (req.expectedResponses < 2 ^ 64))
  | .remove _ | .cancelWaiting | .prepareWrite | .commitWrite | .receive _ | .commitRead
  | .connLost | .reset => inferInstanceAs (Decidable True)

/-- A world with the counters of the entries, in the order in which they were added: the responses
that are expected, and `remaining_responses_`. -/
structure Roll (ρ : Type) where
  world : World ρ
  counters : List (ℕ × ℕ) := []

namespace Roll

def fresh (receiveAdapter : Adapter ρ) (receiveResponse : ρ) : Roll ρ :=
  { world := .fresh receiveAdapter receiveResponse }

def next (s : Roll ρ) (a : Action ρ) : Roll ρ where
  world := s.world.operate a
  counters :=
    match a with
    | .add req _ _ => s.counters ++ [(req.expectedResponses, req.expectedResponses)]
    | .commitRead =>
        match s.world.mpx.committed with
        | some e => s.counters.modify e.id fun c => (c.1, predSize c.2)
        | none => s.counters
    | _ => s.counters

/-- A step with the operations in any order, also where one of them assumes something of the
queue or of the buffer. -/
def Step (s : Roll ρ) (a : Action ρ) (s' : Roll ρ) : Prop :=
  a.Countable ∧ s' = s.next a

end Roll

/-- The index of a response, for the counters of a request: it is their difference, and less than
the number of responses expected, and a `static_adapter` with as many elements has one for it. -/
structure IsIndex (c : ℕ × ℕ) (i : ℕ) : Prop where
  difference : i = subSize c.1 c.2
  lt : i < c.1
  selects : ∀ {n : ℕ} (elements : Fin n → ResultAdapter), c.1 ≤ n →
    ∃ k : Fin n, k.val = i ∧ ∀ nd s, (staticAdapter elements).feed i nd s = visit elements k nd s

/-- The indices of the responses are in range.

* The entries of the queue have the counters that are kept.
* No more responses remain than are expected, for every entry that was ever added.
* `commit_response` is applied to an entry for which responses remain.
* Whatever operation comes next, it calls the adapter of a request with the index of a response. -/
structure IndicesInRange (s : Roll ρ) : Prop where
  entries : ∀ e ∈ s.world.mpx.reqs,
    s.counters[e.id]? = some (e.req.expectedResponses, e.remainingResponses)
  bounded : ∀ c ∈ s.counters, c.2 ≤ c.1
  committed : ∀ e, s.world.mpx.committed = some e → 0 < e.remainingResponses
  indexed : ∀ a id i nd, .fed id i nd ∈ s.world.calls a →
    ∃ c, s.counters[id]? = some c ∧ IsIndex c i

/-! ### The calls of adapters -/

theorem IsIndex.of_pos {expected remaining : ℕ} (hsize : expected < 2 ^ 64)
    (hle : remaining ≤ expected) (hpos : remaining ≠ 0) :
  IsIndex (expected, remaining) (expected - remaining)
  := by
  have hlt : expected - remaining < expected := by omega
  refine ⟨(subSize_eq hsize hle).symm, hlt, ?_⟩
  intro n elements hn
  use ⟨expected - remaining, hlt.trans_le hn⟩, rfl
  intro nd s
  apply dif_pos

theorem mem_deliveries {id i : ℕ} {nd : Node} :
  ∀ {es : List Event}, .fed id i nd ∈ es → (.request id i, nd) ∈ deliveries es
  | e :: es, h => by
      obtain rfl | h := List.mem_cons.mp h
      · exact List.mem_cons_self
      · have hrest := mem_deliveries h
        cases e with
        | fed _ _ _ | pushed _ => exact List.mem_cons_of_mem _ hrest
        | staged _ _ | rejected _ | finished _ | notified _ _ => exact hrest

/-- The front of the queue gets a response only if it has some left to read. -/
theorem Multiplexer.front_of_target {m : Multiplexer ρ} {id i : ℕ} (h : m.target = .request id i) :
  ∃ e rest, m.reqs = e :: rest ∧ e.remainingResponses ≠ 0 ∧ e.id = id ∧ e.index = i
  := by
  rw [target] at h
  split at h
  · cases h
  · rename_i hpush
    obtain ⟨e, rest, hreqs, -, hpending, -⟩ :=
      commitRead_response (Bool.eq_false_of_not_eq_true hpush)
    rw [hreqs] at h
    obtain ⟨hid, hindex⟩ := Target.request.inj h
    exact ⟨e, rest, hreqs, hpending, hid, hindex⟩

/-- Only `commit_read` calls the adapter of a request, and only that of the front of the queue. -/
theorem World.front_of_fed {w : World ρ} {a : Action ρ} {id i : ℕ} {nd : Node}
    (h : .fed id i nd ∈ w.calls a) :
  ∃ e rest, w.mpx.reqs = e :: rest ∧ e.remainingResponses ≠ 0 ∧ e.id = id ∧ e.index = i
  := by
  have hdelivery := mem_deliveries h
  cases hread : a.isCommitRead with
  | false =>
      rw [deliveries_calls hread] at hdelivery
      cases hdelivery
  | true =>
      cases a with
      | commitRead =>
          have htarget := target_commitRead w.mpx _ hdelivery
          apply Multiplexer.front_of_target htarget.symm
      | _ => cases hread

/-! ### What `commit_read` does to the counters -/

/-- The counters stay as they are, or a response is counted for the front of the queue. -/
inductive Deducts (m : Multiplexer ρ) (r : Effect ρ ReadResult) : Prop where
  | nothing : (∀ size, r.value ≠ .message false size) → r.mpx.counters = m.counters → Deducts m r
  | response {e : Elem ρ} {rest : List (Elem ρ)} {size : ℕ} : m.reqs = e :: rest →
      e.remainingResponses ≠ 0 → r.value = .message false size →
      r.mpx.counters.Sublist ((e.commitResponse size).counter :: rest.map Elem.counter) →
      Deducts m r

namespace Multiplexer

variable {m : Multiplexer ρ}

theorem deducts_commitPush (m : Multiplexer ρ) :
  Deducts m m.commitPush
  := by
  rw [commitPush]
  generalize parse m.parser m.readBuffer m.receiveAdapter m.receiveResponse = r
  obtain ⟨q, state, nodes, status⟩ := r
  cases status with
  | needsMore | done | failed _ | rejected _ | faulted _ | exhausted =>
      exact .nothing (by simp) rfl

theorem deducts_commitResponse {e : Elem ρ} {rest : List (Elem ρ)} (hreqs : m.reqs = e :: rest)
    (hpending : e.remainingResponses ≠ 0) :
  Deducts m (m.commitResponse e rest)
  := by
  have hsame : m.counters = e.counter :: rest.map Elem.counter := by
    rw [counters, hreqs, List.map_cons]
  rw [Multiplexer.commitResponse]
  generalize parse m.parser m.readBuffer e.getAdapter e.response = r
  obtain ⟨q, state, nodes, status⟩ := r
  cases status with
  | done =>
      dsimp only
      split
      · exact .response hreqs hpending rfl (List.sublist_cons_self _ _)
      · exact .response hreqs hpending rfl (.refl _)
  | needsMore | failed _ | rejected _ | faulted _ | exhausted =>
      exact .nothing (by simp) hsame.symm

theorem deducts (m : Multiplexer ρ) :
  Deducts m m.commitRead
  := by
  obtain hread | ⟨e, rest, hreqs, -, hpending, hread⟩ := m.commitRead_cases
  · rw [hread]
    apply deducts_commitPush
  · rw [hread]
    apply deducts_commitResponse hreqs hpending

theorem committed_eq_none (h : ∀ size, m.commitRead.value ≠ .message false size) :
  m.committed = none
  := by
  rw [committed]
  split
  · rename_i size hvalue
    exact absurd hvalue (h size)
  · rfl

theorem committed_eq_some {e : Elem ρ} {rest : List (Elem ρ)} {size : ℕ}
    (hreqs : m.reqs = e :: rest) (h : m.commitRead.value = .message false size) :
  m.committed = some e
  := by
  rw [committed, h, hreqs]
  rfl

theorem pos_of_committed {e : Elem ρ} (h : m.committed = some e) :
  0 < e.remainingResponses
  := by
  cases m.deducts with
  | nothing hvalue _ =>
      rw [committed_eq_none hvalue] at h
      cases h
  | response hreqs hpending hvalue _ =>
      rw [committed_eq_some hreqs hvalue] at h
      obtain rfl := Option.some.inj h
      apply Nat.pos_of_ne_zero hpending

end Multiplexer

/-! ### The counters of all entries -/

namespace Roll

/-- The counters that are kept are those of the model, which does not wrap around. -/
structure Faithful (s : Roll ρ) : Prop where
  orderly : Orderly s.world
  length : s.counters.length = s.world.nextId
  entries : ∀ c ∈ s.world.mpx.counters, s.counters[c.1]? = some c.2
  bounded : ∀ c ∈ s.counters, c.2 ≤ c.1 ∧ c.1 < 2 ^ 64

namespace Faithful

variable {s : Roll ρ} {a : Action ρ}

theorem fresh (receiveAdapter : Adapter ρ) (receiveResponse : ρ) :
  (Roll.fresh receiveAdapter receiveResponse).Faithful
  := by
  refine ⟨.fresh receiveAdapter receiveResponse, rfl, ?_, ?_⟩
  · rintro c ⟨⟩
  · rintro c ⟨⟩

theorem entry (h : s.Faithful) {e : Elem ρ} (he : e ∈ s.world.mpx.reqs) :
  s.counters[e.id]? = some (e.req.expectedResponses, e.remainingResponses)
  := h.entries e.counter (List.mem_map_of_mem he)

theorem size_lt (h : s.Faithful) {e : Elem ρ} (he : e ∈ s.world.mpx.reqs) :
  e.req.expectedResponses < 2 ^ 64
  := (h.bounded _ (List.mem_of_getElem? (h.entry he))).2

/-- The counters of a new entry are added at the end. -/
theorem add (h : s.Faithful) {req : Request} (hsize : req.expectedResponses < 2 ^ 64)
    (adapter : ℕ → Adapter ρ) (response : ρ) :
  (s.next (.add req adapter response)).Faithful
  := by
  have hreqs : (s.world.operate (.add req adapter response)).mpx.reqs.Perm
      (.make s.world.nextId req adapter response :: s.world.mpx.reqs) := Multiplexer.add_perm _
  refine ⟨h.orderly.step (.add req adapter response), ?_, ?_, ?_⟩
  · show (s.counters ++ [_]).length = s.world.nextId + 1
    rw [List.length_append, h.length]
    rfl
  · intro c hc
    show (s.counters ++ [_])[c.1]? = some c.2
    obtain rfl | hc := List.mem_cons.mp ((hreqs.map Elem.counter).mem_iff.mp hc)
    · show (s.counters ++ [_])[s.world.nextId]? = _
      rw [← h.length, List.getElem?_concat_length]
      rfl
    · have hentry := h.entries c hc
      obtain ⟨hlt, -⟩ := List.getElem?_eq_some_iff.mp hentry
      rw [List.getElem?_append_left hlt]
      apply hentry
  · intro c hc
    obtain hc | hc := List.mem_append.mp hc
    · apply h.bounded c hc
    · obtain rfl := List.mem_singleton.mp hc
      exact ⟨le_rfl, hsize⟩

/-- The entries that stay keep their counters, and those that leave keep them too. -/
theorem other (h : s.Faithful) (hadd : a.isAdd = false) (hread : a.isCommitRead = false)
    (hnext : (s.world.operate a).nextId = s.world.nextId) :
  ({ s with world := s.world.operate a } : Roll ρ).Faithful
  := by
  refine ⟨h.orderly.step a, h.length.trans hnext.symm, ?_, h.bounded⟩
  intro c hc
  have hsub : (s.world.operate a).mpx.counters.Sublist s.world.mpx.counters :=
    World.map_operate (fun _ _ => rfl) hadd hread
  exact h.entries c (hsub.subset hc)

/-- A response is counted for the front of the queue, for which one remains. -/
theorem response (h : s.Faithful) {e : Elem ρ} {rest : List (Elem ρ)} {size : ℕ}
    (hreqs : s.world.mpx.reqs = e :: rest) (hpending : e.remainingResponses ≠ 0)
    (hcounters : s.world.mpx.commitRead.mpx.counters.Sublist
      ((e.commitResponse size).counter :: rest.map Elem.counter)) :
  ({ world := s.world.operate .commitRead
     counters := s.counters.modify e.id fun c => (c.1, predSize c.2) } : Roll ρ).Faithful
  := by
  have he : e ∈ s.world.mpx.reqs := by
    rw [hreqs]
    apply List.mem_cons_self
  have hsize := h.size_lt he
  have hle := h.orderly.bounded e he
  have hpred : predSize e.remainingResponses = e.remainingResponses - 1 := by
    apply subSize_eq
    · omega
    · omega
  have hget : (s.counters.modify e.id fun c => (c.1, predSize c.2))[e.id]?
      = some (e.req.expectedResponses, e.remainingResponses - 1) := by
    rw [List.getElem?_modify_eq, h.entry he, ← hpred]
    rfl
  refine ⟨h.orderly.step .commitRead, ?_, ?_, ?_⟩
  · show (s.counters.modify _ _).length = s.world.nextId
    rw [List.length_modify, h.length]
  · intro c hc
    obtain rfl | hc := List.mem_cons.mp (hcounters.subset hc)
    · exact hget
    · obtain ⟨e', he', rfl⟩ := List.mem_map.mp hc
      have hne : e.id ≠ e'.id := by
        intro heq
        exact h.orderly.front_unique hreqs (heq ▸ List.mem_map_of_mem he')
      show (s.counters.modify _ _)[e'.id]? = _
      rw [List.getElem?_modify_ne _ _ hne]
      apply h.entry
      rw [hreqs]
      apply List.mem_cons_of_mem e he'
  · intro c hc
    obtain ⟨j, hj⟩ := List.mem_iff_getElem?.mp hc
    by_cases heq : e.id = j
    · obtain rfl := heq
      obtain rfl := Option.some.inj (hget.symm.trans hj)
      exact ⟨(Nat.sub_le _ _).trans hle, hsize⟩
    · rw [List.getElem?_modify_ne _ _ heq] at hj
      apply h.bounded c (List.mem_of_getElem? hj)

theorem commitRead (h : s.Faithful) :
  (s.next .commitRead).Faithful
  := by
  cases s.world.mpx.deducts with
  | nothing hvalue hcounters =>
      have hnext : s.next .commitRead = { s with world := s.world.operate .commitRead } := by
        simp only [next, Multiplexer.committed_eq_none hvalue]
      rw [hnext]
      refine ⟨h.orderly.step .commitRead, h.length, ?_, h.bounded⟩
      intro c hc
      apply h.entries c
      rw [← hcounters]
      apply hc
  | response hreqs hpending hvalue hcounters =>
      have hnext := h.response hreqs hpending hcounters
      simp only [next, Multiplexer.committed_eq_some hreqs hvalue]
      apply hnext

theorem step (h : s.Faithful) (ha : a.Countable) :
  (s.next a).Faithful
  := by
  cases a with
  | add req adapter response => apply h.add ha
  | commitRead => apply h.commitRead
  | remove _ | cancelWaiting | prepareWrite | commitWrite | receive _ | connLost | reset =>
      exact h.other rfl rfl rfl

theorem indicesInRange (h : s.Faithful) :
  IndicesInRange s
  := by
  refine ⟨fun e he => h.entry he, fun c hc => (h.bounded c hc).1, ?_, ?_⟩
  · intro e he
    apply Multiplexer.pos_of_committed he
  · intro a id i nd hfed
    obtain ⟨e, rest, hreqs, hpending, rfl, rfl⟩ := World.front_of_fed hfed
    have he : e ∈ s.world.mpx.reqs := by
      rw [hreqs]
      apply List.mem_cons_self
    use (e.req.expectedResponses, e.remainingResponses), h.entry he
    apply IsIndex.of_pos (h.size_lt he) (h.orderly.bounded e he) hpending

end Faithful

end Roll

/-- The indices of the responses are in range, in every run of operations. -/
theorem indicesInRange_of_run {receiveAdapter : Adapter ρ} {receiveResponse : ρ}
    {as : List (Action ρ)} {s : Roll ρ}
    (hrun : Run Roll.Step (.fresh receiveAdapter receiveResponse) as s) :
  IndicesInRange s
  := by
  apply Roll.Faithful.indicesInRange
  apply hrun.invariant _ (.fresh receiveAdapter receiveResponse)
  rintro s a _ h ⟨ha, rfl⟩
  apply h.step ha

/-- A request with two commands is answered in part, and sent again on another connection, where an
answer arrives. -/
def answeredInPart : List (Action Unit) :=
  let req : Request := { config := { cancelIfUnresponded := false } }
  let req := (req.push (ascii "PING") []).push (ascii "PING") []
  [.add req (fun _ => accepting) (), .prepareWrite, .commitWrite, .receive (ascii "+PONG\r\n"),
    .commitRead, .connLost, .reset, .prepareWrite, .commitWrite, .receive (ascii "+PONG\r\n")]

theorem indicesInRange_of_run_retried :
  .fed 0 1 ⟨.simpleString, 1, 0, ascii "PONG"⟩
      ∈ (answeredInPart.foldl Roll.next (.fresh accepting ())).world.calls .commitRead ∧
    (answeredInPart.foldl Roll.next (.fresh accepting ())).counters = [(2, 1)] ∧
    IndicesInRange (answeredInPart.foldl Roll.next (.fresh accepting ()))
  := by
  have hfollows : Run.Follows Roll.next (fun _ => Action.Countable) (.fresh accepting ())
      answeredInPart := by
    decide
  exact ⟨by decide, by decide, indicesInRange_of_run (Run.of_follows hfollows)⟩

end Redis
