import BoostRedis.Resp3.Framing

/-!
# Progress of the parse loop

Every call of `consume` that returns a node has consumed something, whatever lengths the headers
declare.  A bulk is read in two halves, and its span wraps around: after the header `$` with the
length `2 ^ 64 - 2` it is zero.  But such a bulk is never waited for, since no bytes are missing, so
that the span of a bulk that is expected is not zero.

So the loop of `parse` runs at most once for every byte of the message.  If more data is needed,
the last run is for a byte that has not arrived.
-/

namespace Resp3

/-! ### The bulk that is expected -/

namespace Parser

/-- A bulk that is expected takes some bytes, its separator included. -/
def Awaits (p : Parser) : Prop :=
  p.bulkExpected = true → 0 < (p.bulkLength + 2) % 2 ^ 64

theorem awaits_of_invalid {p : Parser} (h : p.bulk = .invalid) :
  p.Awaits
  := by
  intro hb
  simp [bulkExpected, h] at hb

/-- What a call of `consume` leaves: if it returns a node, something has been consumed, and
otherwise nothing has been given back. -/
inductive Advances (p q : Parser) : Outcome → Prop where
  | node (nd : Node) : p.consumed < q.consumed → Advances p q (.node nd)
  | needsMore : p.consumed ≤ q.consumed → Advances p q .needsMore
  | failed (ec : Error) : p.consumed ≤ q.consumed → Advances p q (.failed ec)

theorem Advances.le {p q : Parser} {o : Outcome} (h : Advances p q o) :
  p.consumed ≤ q.consumed
  := by
  cases h with
  | node nd h => apply h.le
  | needsMore h => exact h
  | failed ec h => exact h

/-- A call of `consume` makes progress, and keeps the bulk that is expected. -/
theorem Valid.advances {p q : Parser} {view : Bytes} {o : Outcome} (h : p.Valid view)
    (hawaits : p.Awaits) (hv : view.length < 2 ^ 64) (hc : p.consume view = .ok (q, o)) :
  Advances p q o ∧ q.Awaits
  := by
  cases hb : p.bulkExpected with
  | true =>
      obtain h1 | ⟨r, st, h2, -, hat, -⟩ := h.consumeBulk hb hv
      · rw [h1] at hc
        obtain ⟨rfl, rfl⟩ := Prod.mk.inj (Except.ok.inj hc)
        exact ⟨.needsMore le_rfl, hawaits⟩
      · rw [h2] at hc
        obtain ⟨rfl, rfl⟩ := Prod.mk.inj (Except.ok.inj hc)
        have hspan := hawaits hb
        refine ⟨.node _ ?_, awaits_of_invalid hat.bulk⟩
        rw [hat.consumed]
        omega
  | false =>
      cases hl : p.nextLine view with
      | none =>
          rw [consume_of_no_line hb hl] at hc
          obtain ⟨rfl, rfl⟩ := Prod.mk.inj (Except.ok.inj hc)
          exact ⟨.needsMore le_rfl, hawaits⟩
      | some l =>
          obtain ⟨hnext, hle⟩ := nextLine_next hl
          have hres := h.onLine_result hv hb hl
          rw [hc] at hres
          cases hres with
          | refused _ => exact ⟨.failed _ le_rfl, hawaits⟩
          | aggregateLimit _ _ => exact ⟨.failed _ le_rfl, hawaits⟩
          | node _ _ hat =>
              have hfinish := l.next_le_finish
              refine ⟨.node _ ?_, awaits_of_invalid hat.bulk⟩
              rw [hat.consumed]
              omega
          | short hn hshort =>
              refine ⟨.needsMore (by simp only; omega), ?_⟩
              intro _
              simp only [Line.finish, hn] at hshort ⊢
              omega

end Parser

theorem Reach.awaits {s view : Bytes} {p : Parser} (h : Reach s p view) (hs : s.length < 2 ^ 64) :
  p.Awaits
  := by
  induction h with
  | start => apply Parser.awaits_of_invalid rfl
  | append c _ _ ih => exact ih
  | consume hr _ hc ih => exact ((hr.valid hs).advances ih (hr.length_lt hs) hc).2

/-- A call of `consume` in a state that is reached makes progress. -/
theorem Reach.advances {s view : Bytes} {p q : Parser} {o : Parser.Outcome} (h : Reach s p view)
    (hs : s.length < 2 ^ 64) (hc : p.consume view = .ok (q, o)) :
  p.Advances q o
  := ((h.valid hs).advances (h.awaits hs) (h.length_lt hs) hc).1

/-! ### The runs of the loop -/

section Iterations

variable {σ : Type} {adapter : Adapter σ} {view : Bytes}

/-- How often the loop of `parse` runs, for a bounded number of iterations. -/
def loopIterations (adapter : Adapter σ) (view : Bytes) : ℕ → Parser → σ → ℕ
  | 0, _, _ => 0
  | n + 1, p, s =>
      if p.done then 0
      else
        match p.consume view with
        | .ok (q, .node nd) =>
            match adapter nd s with
            | (_, some _) => 1
            | (s', none) => 1 + loopIterations adapter view n q s'
        | _ => 1

/-- How often the loop of `parse` runs. -/
def parseIterations (p : Parser) (view : Bytes) (adapter : Adapter σ) (s : σ) : ℕ :=
  loopIterations adapter view (view.length + 2) p s

/-- Whether the last run of the loop gave no node to the adapter. -/
def Status.endsWithoutNode : Status → Bool
  | .done | .rejected _ | .exhausted => false
  | .needsMore | .failed _ | .faulted _ => true

/-- Every run of the loop gives a node to the adapter, except the last if the loop stops there. -/
theorem loopIterations_eq (n : ℕ) (p : Parser) (s : σ) :
  loopIterations adapter view n p s
    = (parseLoop adapter view n p s).nodes.length
      + if (parseLoop adapter view n p s).status.endsWithoutNode then 1 else 0
  := by
  induction n generalizing p s with
  | zero => rfl
  | succ n ih =>
      rw [loopIterations, parseLoop]
      cases p.done with
      | true => rfl
      | false =>
          simp only [Bool.false_eq_true, ↓reduceIte]
          rcases p.consume view with f | ⟨q, _ | nd | ec⟩
          · rfl
          · rfl
          · rcases hadapter : adapter nd s with ⟨s', _ | ec⟩
            · simp only [hadapter, ih, Parsed.prepend, List.length_append, List.length_singleton]
              omega
            · simp only [hadapter]
              rfl
          · rfl

theorem parseIterations_eq (p : Parser) (view : Bytes) (adapter : Adapter σ) (s : σ) :
  parseIterations p view adapter s
    = (parse p view adapter s).nodes.length
      + if (parse p view adapter s).status.endsWithoutNode then 1 else 0
  := loopIterations_eq (view.length + 2) p s

/-- The bytes of the message that a call of `parse` has come across: those that are consumed if the
message is done or the adapter has set an error, those that have arrived if the parser has, and one
more if that is what the call waits for. -/
def Parsed.messageBytes (view : Bytes) (r : Parsed σ) : ℕ :=
  match r.status with
  | .done | .rejected _ => r.parser.consumed
  | .needsMore => view.length + 1
  | _ => view.length

/-- Along the loop, every node is for at least one byte. -/
theorem Reach.run_advances {s : Bytes} {p q : Parser} {nds : List Node} (h : Reach s p view)
    (hs : s.length < 2 ^ 64) (hrun : Run (Parser.Consumes view) p nds q) :
  nds.length + p.consumed ≤ q.consumed
  := by
  induction hrun with
  | nil => exact (Nat.zero_add _).le
  | cons hc _ ih =>
      have hlt := h.advances hs hc.consume
      have hrest := ih (.consume h hc.not_done hc.consume)
      cases hlt with
      | node _ hlt =>
          rw [List.length_cons]
          omega

/-- A line that the parser stops at is not consumed. -/
theorem Parser.Valid.lt_of_stopped {p : Parser} (h : p.Valid view) (hv : view.length < 2 ^ 64)
    (hstopped : ∀ q, p.consume view ≠ .ok (q, .needsMore) ∧
      ∀ nd, p.consume view ≠ .ok (q, .node nd)) :
  p.consumed < view.length
  := by
  cases hb : p.bulkExpected with
  | true =>
      obtain h1 | ⟨q, _, h2, -⟩ := h.consumeBulk hb hv
      · exact absurd h1 (hstopped p).1
      · exact absurd h2 ((hstopped q).2 _)
  | false =>
      cases hl : p.nextLine view with
      | none => exact absurd (consume_of_no_line hb hl) (hstopped p).1
      | some l =>
          have := nextLine_next hl
          omega

/-- The loop runs at most once for every byte of the message. -/
theorem Reach.iterations_le {s : Bytes} {p : Parser} (h : Reach s p view) (hs : s.length < 2 ^ 64)
    (adapter : Adapter σ) (t : σ) :
  parseIterations p view adapter t + p.consumed ≤ (parse p view adapter t).messageBytes view
  := by
  obtain ⟨q, hrun, hends⟩ := parse_run p view adapter t
  have hbound := h.run_advances hs hrun
  have hq := (h.run hrun).valid hs
  have hle := hq.consumed_le
  have hv := h.length_lt hs
  rw [parseIterations_eq, Parsed.messageBytes]
  generalize (parse p view adapter t).parser = r at hends ⊢
  generalize (parse p view adapter t).status = status at hends ⊢
  cases hends with
  | done _ =>
      simp only [Status.endsWithoutNode, Bool.false_eq_true, ↓reduceIte]
      omega
  | rejected =>
      simp only [Status.endsWithoutNode, Bool.false_eq_true, ↓reduceIte]
      omega
  | needsMore _ _ =>
      simp only [Status.endsWithoutNode, ↓reduceIte]
      omega
  | failed _ hc =>
      have hlt := hq.lt_of_stopped hv (by simp [hc])
      simp only [Status.endsWithoutNode, ↓reduceIte]
      omega
  | faulted _ hc =>
      have hlt := hq.lt_of_stopped hv (by simp [hc])
      simp only [Status.endsWithoutNode, ↓reduceIte]
      omega

end Iterations

/-- The loop of `parse` makes progress while the stream `s` arrives: no more is consumed than has
arrived, a call of `consume` that returns a node has consumed something, one that returns none gives
nothing back, and a call of `parse` ends after at most one run of its loop for every byte of the
message. -/
structure MakesProgress (s : Bytes) : Prop where
  consumed_le : ∀ {p view}, Reach s p view → p.consumed ≤ view.length
  increases : ∀ {p q view nd}, Reach s p view → p.consume view = .ok (q, .node nd) →
    p.consumed < q.consumed
  keeps : ∀ {p q view o}, Reach s p view → p.consume view = .ok (q, o) → p.consumed ≤ q.consumed
  ends : ∀ {p view} {σ : Type} (adapter : Adapter σ) (t : σ), Reach s p view →
    (parse p view adapter t).status ≠ .exhausted
      ∧ parseIterations p view adapter t + p.consumed ≤ (parse p view adapter t).messageBytes view

/-- The loop makes progress on every stream, however large the lengths that its headers declare. -/
theorem makesProgress (s : Bytes) (hs : s.length < 2 ^ 64) :
  MakesProgress s
  := by
  refine ⟨fun h => (h.valid hs).consumed_le, ?_, fun h hc => (h.advances hs hc).le, ?_⟩
  · intro p q view nd h hc
    cases h.advances hs hc with
    | node _ hlt => exact hlt
  · intro p view σ adapter t h
    exact ⟨parse_not_exhausted p view adapter t, h.iterations_le hs adapter t⟩

/-- A bulk whose span wraps around to nothing. -/
theorem makesProgress_wrapped :
  MakesProgress (ascii "$18446744073709551614\r\n$5\r\nab")
  := by
  apply makesProgress _ (by decide)

end Resp3
