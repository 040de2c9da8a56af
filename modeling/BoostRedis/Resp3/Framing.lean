import BoostRedis.Resp3.Resumption
import BoostRedis.Resp3.Value

/-!
# Bulk framing

A bulk is announced by its header, which may have been read in an earlier call of `consume`
than the one that returns the bulk.  The framing of a bulk is exact if `consume` returns it
once its bytes and the separator after them have arrived, counted in natural numbers, and asks
for more data before that.

The parser adds two to the declared length in an `std::size_t`, and the framing is exact unless
this sum wraps around.
-/

namespace Resp3

namespace Parser

/-- The next call of `consume` reads a bulk of type `t` and declared length `n`, which starts
at `start`: its header has been read before, or is the next line. -/
inductive Announces (p : Parser) (view : Bytes) (t : DataType) (start n : ℕ) : Prop where
  | read : p.bulkExpected = true → p.bulk = t → p.consumed = start → p.bulkLength = n →
      Announces p view t start n
  | next {l : Line} : p.bulkExpected = false → p.nextLine view = some l → l.type = t →
      l.next = start → l.header = .bulk n → Announces p view t start n

/-- A bulk that is expected has the type and the length that a header before it declares. -/
def Declared (p : Parser) (view : Bytes) : Prop :=
  p.bulkExpected = true → ∃ c l, lineAt view c = some l ∧ l.type = p.bulk ∧
    l.next = p.consumed ∧ l.header = .bulk p.bulkLength

/-- What exact framing promises of a state: the length of a bulk that is expected is the one
its header declares, the nodes with the type of a bulk are announced or end a streamed string,
a bulk that is announced is returned with its bytes once they have arrived with a separator,
and more data is needed before that. -/
structure ExactFraming (p : Parser) (view : Bytes) : Prop where
  declared : p.Declared view
  announced : ∀ q nd, p.consume view = .ok (q, .node nd) →
    (isBulk nd.dataType = true ∨ nd.dataType = .streamedStringPart) →
    p.Requests view .terminator ∨ ∃ start n, p.Announces view nd.dataType start n
  framed : ∀ t start n q nd, p.Announces view t start n → p.consume view = .ok (q, .node nd) →
    start + n + 2 ≤ view.length ∧ nd = ⟨t, 1, p.depth, (view.drop start).take n⟩ ∧
      q.consumed = start + n + 2
  pending : ∀ t start n, p.Announces view t start n →
    (view.length < start + n + 2 ↔ ∃ q, p.consume view = .ok (q, .needsMore))

/-- A bulk is announced whose length plus two exceeds the range of `std::size_t`, and what is
left of the sum after wrapping around lies inside the view. -/
def WrapsAround (p : Parser) (view : Bytes) : Prop :=
  ∃ t start n, p.Announces view t start n ∧ 2 ^ 64 ≤ n + 2 ∧ start + (n + 2 - 2 ^ 64) ≤ view.length

section Announces

variable {p q : Parser} {view : Bytes} {t : DataType} {start n : ℕ} {nd : Node}

/-- A bulk that is announced starts inside the view. -/
theorem Announces.start_le (h : p.Announces view t start n) (hp : p.Valid view) :
  start ≤ view.length
  := by
  cases h with
  | read _ _ hc _ =>
      rw [← hc]
      apply hp.consumed_le
  | next _ hl _ hn _ =>
      rw [← hn]
      apply (nextLine_next hl).2

/-- The call that reads a bulk, whether its header has been read before or not. -/
theorem Announces.consume_eq (h : p.Announces view t start n) :
  p.consume view
    = consumeBulk { p with bulkLength := n, bulk := t, consumed := start } view
  := by
  cases h with
  | read hb ht hc hn =>
      subst ht hc hn
      apply consume_of_bulk hb
  | next hb hl ht hs hn =>
      subst ht hs
      rw [consume_of_line hb hl, onLine_bulk hn]

/-- A bulk that is announced needs more data as long as the sum the parser computes lies
outside the view. -/
theorem Announces.consume_short (h : p.Announces view t start n) (hp : p.Valid view)
    (hv : view.length < 2 ^ 64) (hs : view.length < start + (n + 2) % 2 ^ 64) :
  p.consume view = .ok ({ p with bulkLength := n, bulk := t, consumed := start }, .needsMore)
  := by
  have hle := h.start_le hp
  rw [h.consume_eq, consumeBulk_short]
  simp only
  rw [subSize_eq hv hle]
  omega

/-- A bulk that is announced is returned once the sum the parser computes lies inside the
view. -/
theorem Announces.consume_enough (h : p.Announces view t start n) (hp : p.Valid view)
    (hd : p.done = false) (hv : view.length < 2 ^ 64)
    (hs : start + (n + 2) % 2 ^ 64 ≤ view.length) :
  ∃ q, p.consume view = .ok (q, .node ⟨t, 1, p.depth, (view.drop start).take n⟩)
    ∧ q.consumed = start + (n + 2) % 2 ^ 64
  := by
  have hle := h.start_le hp
  have henough : ¬ subSize view.length start < (n + 2) % 2 ^ 64 := by
    rw [subSize_eq hv hle]
    omega
  obtain ⟨st, hst⟩ := Option.ne_none_iff_exists'.mp (hp.commit_ne_none hd)
  obtain ⟨q, hq, -⟩ := commitElem_of_commit
    (p := { p with bulkLength := n, bulk := .invalid, consumed := start }) hp.depth_lt hst
  refine ⟨{ q with consumed := start + (n + 2) % 2 ^ 64 }, ?_, rfl⟩
  rw [h.consume_eq, consumeBulk_enough henough hle]
  simp only [hq]
  rfl

end Announces

/-! ### The declared length -/

theorem toInt_lt {sv : Bytes} {n : ℕ} (h : toInt sv = some n) :
  n < 2 ^ 64
  := by
  simp only [toInt, Option.ite_none_left_eq_some, Option.ite_none_right_eq_some,
    Option.some.injEq] at h
  omega

theorem header_bulk_toInt {l : Line} {n : ℕ} (h : l.header = .bulk n) :
  toInt l.content = some n
  := by
  grind [Line.header, Header.ofCount]

theorem Declared.append {p : Parser} {view : Bytes} (h : p.Declared view) (c : Bytes)
    (hv : view.length < 2 ^ 64) :
  p.Declared (view ++ c)
  := by
  intro hb
  obtain ⟨pos, l, hl, ht, hn, hh⟩ := h hb
  obtain hl' | ⟨hinv, -⟩ := nextLine_append (p := { p with consumed := pos }) c hv hl
  · exact ⟨pos, l, hl', ht, hn, hh⟩
  · rw [Line.header, hinv] at hh
    cases hh

/-- A call of `consume` keeps the bulk it expects, or expects the one of the line it has read. -/
theorem Declared.consume {p q : Parser} {view : Bytes} {o : Outcome} (h : p.Declared view)
    (hp : p.Valid view) (hv : view.length < 2 ^ 64) (hc : p.consume view = .ok (q, o)) :
  q.Declared view
  := by
  cases hb : p.bulkExpected with
  | true =>
      obtain h1 | ⟨r, st, h2, -, hat, -⟩ := hp.consumeBulk hb hv
      · rw [h1] at hc
        obtain ⟨rfl, -⟩ := Prod.mk.inj (Except.ok.inj hc)
        apply h
      · rw [h2] at hc
        obtain ⟨rfl, -⟩ := Prod.mk.inj (Except.ok.inj hc)
        intro hq
        simp [bulkExpected, hat.bulk] at hq
  | false =>
      cases hl : p.nextLine view with
      | none =>
          rw [consume_of_no_line hb hl] at hc
          obtain ⟨rfl, -⟩ := Prod.mk.inj (Except.ok.inj hc)
          apply h
      | some l =>
          have hres := hp.onLine_result hv hb hl
          rw [hc] at hres
          cases hres with
          | refused _ => apply h
          | aggregateLimit _ _ => apply h
          | node _ _ hat =>
              intro hq
              simp [bulkExpected, hat.bulk] at hq
          | short hn _ =>
              intro _
              exact ⟨p.consumed, l, hl, rfl, rfl, hn⟩

end Parser

theorem Reach.declared {s view : Bytes} {p : Parser} (h : Reach s p view) (hs : s.length < 2 ^ 64) :
  p.Declared view
  := by
  induction h with
  | start =>
      intro hb
      simp [Parser.fresh, Parser.bulkExpected] at hb
  | append c hr _ ih => apply ih.append c (hr.length_lt hs)
  | consume hr _ hc ih => apply ih.consume (hr.valid hs) (hr.length_lt hs) hc

namespace Parser

/-! ### Exact framing -/

section Framing

variable {p q : Parser} {view : Bytes} {t : DataType} {start n : ℕ} {nd : Node}

theorem Announces.lt (h : p.Announces view t start n) (hp : p.Declared view) :
  n < 2 ^ 64
  := by
  cases h with
  | read hb _ _ hn =>
      obtain ⟨c, l, -, -, -, hh⟩ := hp hb
      rw [← hn]
      apply toInt_lt (header_bulk_toInt hh)
  | next _ _ _ _ hn => apply toInt_lt (header_bulk_toInt hn)

/-- A node with the type of a bulk is announced, or it is the end of a streamed string. -/
theorem Valid.announced (hp : p.Valid view) (hv : view.length < 2 ^ 64)
    (hc : p.consume view = .ok (q, .node nd))
    (ht : isBulk nd.dataType = true ∨ nd.dataType = .streamedStringPart) :
  p.Requests view .terminator ∨ ∃ start n, p.Announces view nd.dataType start n
  := by
  cases hb : p.bulkExpected with
  | true =>
      right
      obtain h1 | ⟨r, st, h2, -⟩ := hp.consumeBulk hb hv
      · rw [h1] at hc
        cases hc
      · rw [h2] at hc
        obtain ⟨-, hnd⟩ := Prod.mk.inj (Except.ok.inj hc)
        obtain rfl := Outcome.node.inj hnd
        exact ⟨p.consumed, p.bulkLength, .read hb rfl rfl rfl⟩
  | false =>
      cases hl : p.nextLine view with
      | none =>
          rw [consume_of_no_line hb hl] at hc
          cases hc
      | some l =>
          have hres := hp.onLine_result hv hb hl
          rw [hc] at hres
          cases hres with
          | node heff _ _ =>
              cases hh : l.header with
              | malformed ec =>
                  rw [Line.effect, hh] at heff
                  cases heff
              | lengthless =>
                  rw [Line.effect, hh] at heff
                  cases heff
              | bulk n =>
                  right
                  rw [Line.node, hh]
                  exact ⟨l.next, n, .next hb hl rfl rfl hh⟩
              | terminator => exact .inl ⟨hb, l, hl, hh⟩
              | stream =>
                  rw [Line.node, hh] at ht
                  simp [isBulk] at ht
              | simple =>
                  rw [Line.node, hh] at ht
                  grind [Line.header, Header.ofCount, isBulk]
              | aggregate n =>
                  rw [Line.node, hh] at ht
                  grind [Line.header, Header.ofCount, isBulk]

/-- In a valid state the framing is exact if no sum wraps around. -/
theorem exactFraming_of_not_wrapsAround (hp : p.Valid view) (hdecl : p.Declared view)
    (hd : p.done = false) (hv : view.length < 2 ^ 64) (hw : ¬ p.WrapsAround view) :
  p.ExactFraming view
  := by
  have hsum : ∀ {t start n}, p.Announces view t start n →
      start + (n + 2) % 2 ^ 64 = start + n + 2 ∨
        view.length < start + (n + 2) % 2 ^ 64 ∧ view.length < start + n + 2 := by
    intro t start n ha
    have hlt := ha.lt hdecl
    by_cases hbig : 2 ^ 64 ≤ n + 2
    · right
      have : ¬ start + (n + 2 - 2 ^ 64) ≤ view.length := fun hle => hw ⟨t, start, n, ha, hbig, hle⟩
      omega
    · left
      omega
  refine ⟨hdecl, fun q nd hc ht => hp.announced hv hc ht, ?_, ?_⟩
  · intro t start n q nd ha hc
    by_cases hs : start + (n + 2) % 2 ^ 64 ≤ view.length
    · obtain ⟨r, hr, hcons⟩ := ha.consume_enough hp hd hv hs
      rw [hr] at hc
      obtain ⟨rfl, hnd⟩ := Prod.mk.inj (Except.ok.inj hc)
      obtain rfl := Outcome.node.inj hnd
      have := hsum ha
      exact ⟨by omega, rfl, by omega⟩
    · rw [ha.consume_short hp hv (by omega)] at hc
      cases hc
  · intro t start n ha
    have := hsum ha
    constructor
    · intro hs
      exact ⟨_, ha.consume_short hp hv (by omega)⟩
    · rintro ⟨q, hc⟩
      by_contra hs
      obtain ⟨r, hr, -⟩ := ha.consume_enough hp hd hv (by omega)
      rw [hr] at hc
      cases hc

/-- In a valid state in which a sum wraps around, the framing is not exact. -/
theorem not_exactFraming_of_wrapsAround (hp : p.Valid view) (hdecl : p.Declared view)
    (hd : p.done = false) (hv : view.length < 2 ^ 64) (hw : p.WrapsAround view) :
  ¬ p.ExactFraming view
  := by
  intro h
  obtain ⟨t, start, n, ha, hbig, hle⟩ := hw
  have hlt := ha.lt hdecl
  obtain ⟨q, hc, -⟩ := ha.consume_enough hp hd hv (by omega)
  have := (h.framed t start n q _ ha hc).1
  omega

end Framing

end Parser

/-- While a stream arrives, in chunks of any sizes, the framing of its bulks is exact in every
state reached exactly when no state reached has the length of a bulk wrap around. -/
theorem exactFraming_iff (s : Bytes) (hs : s.length < 2 ^ 64) :
  (∀ p view, Reach s p view → p.done = false → p.ExactFraming view) ↔
    ∀ p view, Reach s p view → p.done = false → ¬ p.WrapsAround view
  := by
  constructor
  · intro h p view hr hd hw
    apply Parser.not_exactFraming_of_wrapsAround (hr.valid hs) (hr.declared hs) hd
      (hr.length_lt hs) hw (h p view hr hd)
  · intro h p view hr hd
    apply Parser.exactFraming_of_not_wrapsAround (hr.valid hs) (hr.declared hs) hd
      (hr.length_lt hs) (h p view hr hd)

theorem exactFraming_iff_bulk :
  (∀ p view, Reach (ascii "$2\r\nhh\r\n") p view → p.done = false → p.ExactFraming view) ↔
    ∀ p view, Reach (ascii "$2\r\nhh\r\n") p view → p.done = false → ¬ p.WrapsAround view
  := exactFraming_iff _ (by decide)

/-- A blob string of the largest lengths there are is returned before any of its bytes. -/
theorem exactFraming_fails :
  ¬ ∀ s : Bytes, s.length < 2 ^ 64 →
    ∀ p view, Reach s p view → p.done = false → p.ExactFraming view
  := by
  intro h
  have hex := h (ascii "$18446744073709551614\r\n") (by decide) .fresh _ (.whole _) rfl
  have hhuge : Parser.fresh.DeclaresHugeBulk (ascii "$18446744073709551614\r\n") := by decide
  have hc : Parser.fresh.consume (ascii "$18446744073709551614\r\n")
      = .ok (⟨0, #v[1, 0, 0, 0, 0, 0], 18446744073709551614, .invalid, 23⟩,
          .node ⟨.blobString, 1, 0, []⟩) := by decide
  obtain ⟨hb, l, n, hl, hn, hbig⟩ := hhuge
  have hle := (hex.framed _ _ _ _ _ (.next hb hl rfl rfl hn) hc).1
  have hlen : (ascii "$18446744073709551614\r\n").length = 23 := by decide
  omega

end Resp3
