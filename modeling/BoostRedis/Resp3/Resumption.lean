import BoostRedis.Resp3.Nesting

/-!
# Parsing bytes that arrive in pieces

A call of `consume` that has returned something other than a request for more data returns
the same on a longer view, and one that has asked for more data goes on, on a longer view, as
if it had not been interrupted.  Hence `parse` on a longer view is `parse` on the shorter one,
resumed, and feeding a stream to a parser chunk by chunk ends as a single call of `parse` on
the whole stream.

The exception are bulk headers whose length, with the separator after the bulk, does not fit
into an `std::size_t`: the parser wraps around and takes a bulk of whatever has arrived.
-/

namespace Resp3

theorem length_lt_of_append {view c : Bytes} (h : (view ++ c).length < 2 ^ 64) :
  view.length < 2 ^ 64
  := by
  rw [List.length_append] at h
  omega

namespace Parser

/-- The next line is the header of a bulk whose length plus two exceeds the range of
`std::size_t`. -/
def DeclaresHugeBulk (p : Parser) (view : Bytes) : Prop :=
  p.bulkExpected = false ∧
    ∃ l n, p.nextLine view = some l ∧ l.header = .bulk n ∧ 2 ^ 64 ≤ n + 2

instance (p : Parser) (view : Bytes) : Decidable (p.DeclaresHugeBulk view) :=
  match hb : p.bulkExpected, hl : p.nextLine view with
  | true, _ => .isFalse fun h => by simp [DeclaresHugeBulk, hb] at h
  | false, none => .isFalse fun h => by simp [DeclaresHugeBulk, hl] at h
  | false, some l =>
      match hn : l.header with
      | .bulk n =>
          decidable_of_iff (2 ^ 64 ≤ n + 2) (by simp [DeclaresHugeBulk, hb, hl, hn])
      | .malformed _ | .lengthless | .simple | .terminator | .stream | .aggregate _ =>
          .isFalse fun h => by simp [DeclaresHugeBulk, hl, hn] at h

/-- A valid state in which a bulk that is expected has a length that does not wrap around. -/
structure Resumable (p : Parser) (view : Bytes) : Prop extends p.Valid view where
  bulk_fits : p.bulkExpected = true → p.bulkLength + 2 < 2 ^ 64

theorem fresh_resumable (view : Bytes) :
  fresh.Resumable view
  := ⟨fresh_valid view, by simp [fresh, bulkExpected]⟩

theorem Resumable.append {p : Parser} {view : Bytes} (h : p.Resumable view) (c : Bytes) :
  p.Resumable (view ++ c)
  := ⟨h.toValid.append c, h.bulk_fits⟩

/-- A bulk header on a view is one on every longer view. -/
theorem DeclaresHugeBulk.append {p : Parser} {view : Bytes} (c : Bytes) (hv : view.length < 2 ^ 64)
    (h : p.DeclaresHugeBulk view) :
  p.DeclaresHugeBulk (view ++ c)
  := by
  obtain ⟨hb, l, n, hl, hn, hhuge⟩ := h
  obtain hl' | ⟨ht, -⟩ := nextLine_append c hv hl
  · exact ⟨hb, l, n, hl', hn, hhuge⟩
  · rw [Line.header, ht] at hn
    cases hn

/-- A bulk that has arrived is the same on a longer view. -/
theorem consumeBulk_append {p : Parser} {view : Bytes} (c : Bytes)
    (hv : (view ++ c).length < 2 ^ 64) (hc : p.consumed ≤ view.length)
    (hfit : p.bulkLength + 2 < 2 ^ 64)
    (henough : ¬ subSize view.length p.consumed < (p.bulkLength + 2) % 2 ^ 64) :
  p.consumeBulk (view ++ c) = p.consumeBulk view
  := by
  have hlen : (view ++ c).length = view.length + c.length := List.length_append
  have henough' : ¬ subSize (view ++ c).length p.consumed < (p.bulkLength + 2) % 2 ^ 64 := by
    rw [subSize_eq (by omega) hc] at henough
    rw [subSize_eq hv (by omega)]
    omega
  rw [subSize_eq (by omega) hc] at henough
  have hvalue : ((view ++ c).drop p.consumed).take p.bulkLength
      = (view.drop p.consumed).take p.bulkLength := by
    rw [List.drop_append_of_le_length hc, List.take_append_of_le_length]
    rw [List.length_drop]
    omega
  rw [consumeBulk_enough henough' (by omega), hvalue, ← consumeBulk_enough _ hc]
  rw [subSize_eq (by omega) hc]
  omega

theorem map_node_ne_needsMore {r : Except Fault Parser} {f : Parser → Parser × Outcome} {q : Parser}
    (hf : ∀ q, ∃ nd, (f q).2 = .node nd) :
  r.map f ≠ .ok (q, .needsMore)
  := by
  intro h
  cases r with
  | error _ => cases h
  | ok q₀ =>
      obtain ⟨nd, hnd⟩ := hf q₀
      have := Except.ok.inj h
      rw [this] at hnd
      cases hnd

/-- Only the header of a bulk looks at what follows its line, or asks for more data. -/
theorem onLine_of_not_bulk (p : Parser) {l : Line} (hl : ∀ n, l.header ≠ .bulk n)
    (view view' : Bytes) :
  p.onLine view l = p.onLine view' l ∧ ∀ q, p.onLine view l ≠ .ok (q, .needsMore)
  := by
  cases h : l.header with
  | malformed ec =>
      rw [onLine_malformed h, onLine_malformed h]
      simp
  | lengthless =>
      rw [onLine_lengthless h, onLine_lengthless h]
      simp
  | simple =>
      rw [onLine_simple h, onLine_simple h]
      exact ⟨rfl, fun q => map_node_ne_needsMore fun _ => ⟨_, rfl⟩⟩
  | bulk n => exact absurd h (hl n)
  | terminator =>
      rw [onLine_terminator h, onLine_terminator h]
      exact ⟨rfl, fun q => map_node_ne_needsMore fun _ => ⟨_, rfl⟩⟩
  | stream =>
      rw [onLine_stream h, onLine_stream h]
      exact ⟨rfl, fun q => map_node_ne_needsMore fun _ => ⟨_, rfl⟩⟩
  | aggregate n =>
      cases n with
      | zero =>
          rw [onLine_aggregate_zero h, onLine_aggregate_zero h]
          exact ⟨rfl, fun q => map_node_ne_needsMore fun _ => ⟨_, rfl⟩⟩
      | succ n =>
          by_cases hlim : p.depth = maxEmbeddedDepth
          · rw [onLine_aggregate_limit h hlim, onLine_aggregate_limit h hlim]
            simp
          · rw [onLine_aggregate_succ h hlim, onLine_aggregate_succ h hlim]
            exact ⟨rfl, fun q => map_node_ne_needsMore fun _ => ⟨_, rfl⟩⟩

theorem type_ne_invalid_of_bulk {l : Line} {n : ℕ} (h : l.header = .bulk n) :
  l.type ≠ .invalid
  := by
  intro ht
  rw [Line.header, ht] at h
  cases h

/-- A bulk whose length fits is missing, or it is the same on every longer view. -/
theorem consumeBulk_resumes {p : Parser} {view : Bytes} (c : Bytes)
    (hv : (view ++ c).length < 2 ^ 64) (hc : p.consumed ≤ view.length)
    (hfit : p.bulkLength + 2 < 2 ^ 64) :
  p.consumeBulk view = .ok (p, .needsMore) ∨
    p.consumeBulk (view ++ c) = p.consumeBulk view ∧
      ∀ q, p.consumeBulk view ≠ .ok (q, .needsMore)
  := by
  by_cases hs : subSize view.length p.consumed < (p.bulkLength + 2) % 2 ^ 64
  · left
    apply consumeBulk_short hs
  · right
    refine ⟨consumeBulk_append c hv hc hfit hs, fun q => ?_⟩
    rw [consumeBulk_enough hs hc]
    apply map_node_ne_needsMore fun _ => ⟨_, rfl⟩

/-- The parser `q` goes on, on a longer view, where `p` would have gone on. -/
structure Continues (p q : Parser) (view c : Bytes) : Prop where
  consume : p.consume view = .ok (q, .needsMore)
  same : p.consume (view ++ c) = q.consume (view ++ c)
  returns : q = p ∨ ∃ r, q.consume (view ++ c) = .ok r
  not_done : q.done = false
  resumable : q.Resumable view

theorem Continues.refl {p : Parser} {view : Bytes} (c : Bytes) (hd : p.done = false)
    (hp : p.Resumable view) (h : p.consume view = .ok (p, .needsMore)) :
  p.Continues p view c
  := ⟨h, rfl, .inl rfl, hd, hp⟩

/-- Either `consume` on `view` asks for more data, leaving a parser that goes on, or it returns
the same on every longer view. -/
def Resumes (p : Parser) (view c : Bytes) : Prop :=
  (∃ q, p.Continues q view c) ∨
    (p.consume (view ++ c) = p.consume view ∧ ∀ q, p.consume view ≠ .ok (q, .needsMore))

/-- A header whose bulk has a length that fits resumes at the bulk. -/
theorem resumes_of_bulk_header {p : Parser} {view : Bytes} {l : Line} {n : ℕ} (c : Bytes)
    (hv : (view ++ c).length < 2 ^ 64) (hp : p.Resumable view) (hd : p.done = false)
    (hb : p.bulkExpected = false) (hl : p.nextLine view = some l)
    (hl' : p.nextLine (view ++ c) = some l) (hn : l.header = .bulk n) (hfit : n + 2 < 2 ^ 64) :
  p.Resumes view c
  := by
  have hvl := length_lt_of_append hv
  have hc : p.consume view = consumeBulk { p with bulkLength := n, bulk := l.type, consumed := l.next } view := by
    rw [consume_of_line hb hl, onLine_bulk hn]
  have hc' : p.consume (view ++ c)
      = consumeBulk { p with bulkLength := n, bulk := l.type, consumed := l.next } (view ++ c) := by
    rw [consume_of_line hb hl', onLine_bulk hn]
  generalize hq : ({ p with bulkLength := n, bulk := l.type, consumed := l.next } : Parser) = q at hc hc'
  have hbq : q.bulkExpected = true := by
    rw [← hq]
    simp [bulkExpected, type_ne_invalid_of_bulk hn]
  have hlen : q.bulkLength + 2 < 2 ^ 64 := by
    rw [← hq]
    apply hfit
  have hcons : q.consumed ≤ view.length := by
    rw [← hq]
    apply (nextLine_next hl).2
  obtain hshort | ⟨heq, hne⟩ := consumeBulk_resumes c hv hcons hlen
  · left
    rw [hshort] at hc
    have hvalid := hp.toValid.consume hvl hd hc
    refine ⟨q, hc, ?_, .inr ?_, ?_, hvalid, fun _ => hlen⟩
    · rw [hc', consume_of_bulk hbq]
    · obtain h1 | ⟨r, st, h2, -⟩ := (hvalid.append c).consumeBulk hbq hv
      · exact ⟨_, h1⟩
      · exact ⟨_, h2⟩
    · rw [← hq]
      simp [done, type_ne_invalid_of_bulk hn]
  · right
    rw [hc, hc']
    exact ⟨heq, hne⟩

theorem consume_resumes {p : Parser} {view : Bytes} (c : Bytes)
    (hv : (view ++ c).length < 2 ^ 64) (hp : p.Resumable view) (hd : p.done = false)
    (hh : ¬ p.DeclaresHugeBulk (view ++ c)) :
  p.Resumes view c
  := by
  have hvl := length_lt_of_append hv
  cases hb : p.bulkExpected with
  | true =>
      rw [Resumes, consume_of_bulk hb, consume_of_bulk hb]
      obtain h | h := consumeBulk_resumes c hv hp.consumed_le (hp.bulk_fits hb)
      · left
        exact ⟨p, .refl c hd hp (by rw [consume_of_bulk hb, h])⟩
      · right
        apply h
  | false =>
      cases hl : p.nextLine view with
      | none =>
          left
          exact ⟨p, .refl c hd hp (consume_of_no_line hb hl)⟩
      | some l =>
          obtain hl' | ⟨ht, l', hl', ht'⟩ := nextLine_append c hvl hl
          · by_cases hbulk : ∃ n, l.header = .bulk n
            · obtain ⟨n, hn⟩ := hbulk
              have hfit : n + 2 < 2 ^ 64 := by
                by_contra hge
                exact hh ⟨hb, l, n, hl', hn, by omega⟩
              apply resumes_of_bulk_header c hv hp hd hb hl hl' hn hfit
            · right
              rw [consume_of_line hb hl, consume_of_line hb hl']
              have hnb : ∀ n, l.header ≠ .bulk n := fun n hn => hbulk ⟨n, hn⟩
              obtain ⟨heq, hne⟩ := p.onLine_of_not_bulk hnb view (view ++ c)
              exact ⟨heq.symm, hne⟩
          · right
            have hinv : l.header = .malformed .invalidDataType := by rw [Line.header, ht]
            have hinv' : l'.header = .malformed .invalidDataType := by rw [Line.header, ht']
            rw [consume_of_line hb hl, consume_of_line hb hl', onLine_malformed hinv,
              onLine_malformed hinv']
            simp

end Parser

/-! ### Calls of `parse` -/

section Parse

variable {σ : Type}

@[simp] theorem Parsed.prepend_nil (r : Parsed σ) :
  r.prepend [] = r
  := rfl

/-- The result of going on after a call of `parse` that may have asked for more data, on a
longer view. -/
def Parsed.resume (r : Parsed σ) (view : Bytes) (adapter : Adapter σ) : Parsed σ :=
  match r.status with
  | .needsMore => (parse r.parser view adapter r.state).prepend r.nodes
  | _ => r

theorem Parsed.prepend_resume (r : Parsed σ) (nds : List Node) (view : Bytes) (adapter : Adapter σ) :
  (r.prepend nds).resume view adapter = (r.resume view adapter).prepend nds
  := by
  cases hs : r.status <;> simp [Parsed.resume, Parsed.prepend, hs]

/-- No header read from the state `p` on declares a bulk whose length plus two exceeds the
range of `std::size_t`. -/
def BulksFit (p : Parser) (view : Bytes) : Prop :=
  ∀ nds q, Run (Parser.Consumes view) p nds q → q.done = false → ¬ q.DeclaresHugeBulk view

theorem BulksFit.head {p : Parser} {view : Bytes} (h : BulksFit p view) (hd : p.done = false) :
  ¬ p.DeclaresHugeBulk view
  := h [] p (.nil p) hd

theorem BulksFit.tail {p q : Parser} {view : Bytes} {nd : Node} (h : BulksFit p view)
    (hc : p.Consumes view nd q) :
  BulksFit q view
  := fun nds r hr => h (nd :: nds) r (.cons hc hr)

/-- A parser that has returned a node can be resumed. -/
theorem Parser.Consumes.resumable {p q : Parser} {view : Bytes} {nd : Node}
    (hc : p.Consumes view nd q) (hv : view.length < 2 ^ 64) (hp : p.Resumable view) :
  q.Resumable view
  := by
  refine ⟨hp.toValid.consume hv hc.not_done hc.consume, ?_⟩
  intro hb
  have hq := (Parser.consume_budget hc.consume).1
  simp [Parser.bulkExpected, hq] at hb

/-- An iteration of the loop is the same on a longer view. -/
theorem Parser.Consumes.append {p q : Parser} {view : Bytes} {nd : Node} (c : Bytes)
    (hc : p.Consumes view nd q) (hv : (view ++ c).length < 2 ^ 64) (hp : p.Resumable view)
    (hh : ¬ p.DeclaresHugeBulk (view ++ c)) :
  p.Consumes (view ++ c) nd q
  := by
  refine ⟨hc.not_done, ?_⟩
  obtain ⟨r, hr⟩ | ⟨heq, -⟩ := Parser.consume_resumes c hv hp hc.not_done hh
  · have := hr.consume
    rw [hc.consume] at this
    cases this
  · rw [heq, hc.consume]

/-- `parse` on a longer view is `parse` on the shorter one, resumed. -/
theorem parse_append {p : Parser} {view : Bytes} (c : Bytes) (adapter : Adapter σ) (s : σ)
    (hv : (view ++ c).length < 2 ^ 64) (hp : p.Resumable view) (hfit : BulksFit p (view ++ c)) :
  parse p (view ++ c) adapter s = (parse p view adapter s).resume (view ++ c) adapter
  := by
  have hvl := length_lt_of_append hv
  induction p using consumes_induction view generalizing s with
  | step p ih =>
      cases hd : p.done with
      | true =>
          rw [parse_of_done hd, parse_of_done hd]
          rfl
      | false =>
          obtain ⟨q, hq⟩ | ⟨heq, hne⟩ := Parser.consume_resumes c hv hp hd (hfit.head hd)
          · rw [parse_of_needsMore hd hq.consume, Parsed.resume, Parsed.prepend_nil]
            obtain rfl | ⟨⟨r, o⟩, hr⟩ := hq.returns
            · rfl
            · rw [parse_eq p, parse_eq q, hd, hq.not_done, hq.same, hr]
              cases o <;> rfl
          · rcases hc : p.consume view with f | ⟨q, _ | nd | ec⟩ <;> rw [hc] at heq
            · rw [parse_of_fault hd hc, parse_of_fault hd heq]
              rfl
            · exact absurd hc (hne q)
            · have hcons : p.Consumes view nd q := ⟨hd, hc⟩
              have hcons' : p.Consumes (view ++ c) nd q := ⟨hd, heq⟩
              rcases ha : adapter nd s with ⟨s', _ | ec⟩
              · rw [parse_of_node hcons ha, parse_of_node hcons' ha, Parsed.prepend_resume,
                  ih nd q hcons s' (hcons.resumable hvl hp) (hfit.tail hcons')]
              · rw [parse_of_rejected hcons ha, parse_of_rejected hcons' ha]
                rfl
            · rw [parse_of_failed hd hc, parse_of_failed hd heq]
              rfl

/-! ### Feeding a stream chunk by chunk -/

/-- A run on a view is one on a longer view. -/
theorem run_append {p q : Parser} {view : Bytes} {nds : List Node} (c : Bytes)
    (hr : Run (Parser.Consumes view) p nds q) (hv : (view ++ c).length < 2 ^ 64)
    (hp : p.Resumable view) (hfit : BulksFit p (view ++ c)) :
  Run (Parser.Consumes (view ++ c)) p nds q ∧ q.Resumable view ∧ BulksFit q (view ++ c)
  := by
  have hvl := length_lt_of_append hv
  induction hr with
  | nil p => exact ⟨.nil p, hp, hfit⟩
  | cons hc _ ih =>
      have hc' := hc.append c hv hp (hfit.head hc.not_done)
      obtain ⟨hrun, hq, hqfit⟩ := ih (hc.resumable hvl hp) (hfit.tail hc')
      exact ⟨.cons hc' hrun, hq, hqfit⟩

/-- The bulks of a view fit if those of a longer view do. -/
theorem BulksFit.of_append {p : Parser} {view : Bytes} (c : Bytes)
    (hv : (view ++ c).length < 2 ^ 64) (hp : p.Resumable view) (hfit : BulksFit p (view ++ c)) :
  BulksFit p view
  := by
  intro nds q hr hd hhuge
  have hvl := length_lt_of_append hv
  obtain ⟨hrun, -, -⟩ := run_append c hr hv hp hfit
  apply hfit nds q hrun hd (hhuge.append c hvl)

/-- One more call of `parse` on the same parser, after the buffer has grown.  The caller makes
none after the adapter has set an error, and there is none after a fault. -/
def Parsed.again (r : Parsed σ) (buffer : Bytes) (adapter : Adapter σ) : Parsed σ :=
  match r.status with
  | .needsMore | .done | .failed _ => (parse r.parser buffer adapter r.state).prepend r.nodes
  | .rejected _ | .faulted _ | .exhausted => r

/-- The chunks are appended to the buffer one by one, with a call of `parse` after each. -/
def feedFrom (adapter : Adapter σ) : Bytes → Parsed σ → List Bytes → Parsed σ
  | _, r, [] => r
  | buffer, r, c :: chunks => feedFrom adapter (buffer ++ c) (r.again (buffer ++ c) adapter) chunks

/-- Feeding a stream that arrives in chunks to a fresh parser. -/
def feed (adapter : Adapter σ) (s : σ) (chunks : List Bytes) : Parsed σ :=
  feedFrom adapter [] ⟨.fresh, s, [], .needsMore⟩ chunks

/-- An error of the parser leaves the parser as it was. -/
theorem consume_failed_eq {p q : Parser} {view : Bytes} {ec : Error} (hp : p.Valid view)
    (hv : view.length < 2 ^ 64) (hc : p.consume view = .ok (q, .failed ec)) :
  q = p
  := by
  cases hb : p.bulkExpected with
  | true =>
      obtain h1 | ⟨r, st, h2, -⟩ := hp.consumeBulk hb hv
      · rw [h1] at hc
        cases hc
      · rw [h2] at hc
        cases hc
  | false =>
      cases hl : p.nextLine view with
      | none =>
          rw [Parser.consume_of_no_line hb hl] at hc
          cases hc
      | some l =>
          have hres := hp.onLine_result hv hb hl
          rw [hc] at hres
          cases hres <;> rfl

/-- After a call of `parse` that has not asked for more data, another one changes nothing. -/
theorem again_eq_resume {view : Bytes} (c : Bytes) (adapter : Adapter σ) (s : σ)
    (hv : (view ++ c).length < 2 ^ 64) (hfit : BulksFit .fresh (view ++ c)) :
  (parse .fresh view adapter s).again (view ++ c) adapter
    = (parse .fresh view adapter s).resume (view ++ c) adapter
  := by
  have hvl := length_lt_of_append hv
  obtain ⟨q, hrun, hend⟩ := parse_run .fresh view adapter s
  obtain ⟨-, hq, hqfit⟩ := run_append c hrun hv (Parser.fresh_resumable view) hfit
  generalize parse .fresh view adapter s = r at hrun hend ⊢
  obtain ⟨rp, rs, rn, st⟩ := r
  cases hend with
  | done hd => simp [Parsed.again, Parsed.resume, parse_of_done hd, Parsed.prepend]
  | needsMore _ _ => rfl
  | failed hd hc =>
      obtain rfl := consume_failed_eq hq.toValid hvl hc
      obtain ⟨r, hr⟩ | ⟨heq, -⟩ := Parser.consume_resumes c hv hq hd (hqfit.head hd)
      · have := hr.consume
        rw [hc] at this
        cases this
      · rw [hc] at heq
        simp [Parsed.again, Parsed.resume, parse_of_failed hd heq, Parsed.prepend]
  | faulted _ _ => rfl
  | rejected => rfl

theorem feedFrom_eq_parse (adapter : Adapter σ) (s : σ) :
  ∀ (chunks : List Bytes) (buffer : Bytes), (buffer ++ chunks.flatten).length < 2 ^ 64 →
    BulksFit .fresh (buffer ++ chunks.flatten) →
    feedFrom adapter buffer (parse .fresh buffer adapter s) chunks
      = parse .fresh (buffer ++ chunks.flatten) adapter s
  | [], buffer, _, _ => by
      rw [feedFrom, List.flatten_nil, List.append_nil]
  | c :: chunks, buffer, hv, hfit => by
      rw [List.flatten_cons, ← List.append_assoc] at hv hfit ⊢
      have hvc := length_lt_of_append hv
      have hfit' := hfit.of_append _ hv (Parser.fresh_resumable _)
      rw [feedFrom, again_eq_resume c adapter s hvc hfit',
        ← parse_append c adapter s hvc (Parser.fresh_resumable _) hfit',
        feedFrom_eq_parse adapter s chunks (buffer ++ c) hv hfit]

/-- Parsing does not depend on how the bytes arrive: feeding a stream to a parser in any chunks
gives the adapter the same nodes, and ends with the same status and the same parser, as a
single call of `parse` on the whole stream. -/
theorem feed_eq_parse (adapter : Adapter σ) (s : σ) (chunks : List Bytes)
    (hlen : chunks.flatten.length < 2 ^ 64) (hfit : BulksFit .fresh chunks.flatten) :
  feed adapter s chunks = parse .fresh chunks.flatten adapter s
  := by
  have hstart : parse .fresh [] adapter s = ⟨.fresh, s, [], .needsMore⟩ :=
    parse_of_needsMore rfl rfl s
  have h := feedFrom_eq_parse adapter s chunks [] hlen hfit
  rw [hstart] at h
  apply h

theorem bulksFit_of_done {p : Parser} {view : Bytes} (hd : p.done = true) :
  BulksFit p view
  := by
  intro nds q hr hq
  cases hr with
  | nil =>
      rw [hd] at hq
      cases hq
  | cons hc _ =>
      have := hc.not_done
      rw [hd] at this
      cases this

theorem bulksFit_of_consumes {p q : Parser} {view : Bytes} {nd : Node}
    (hh : ¬ p.DeclaresHugeBulk view) (hc : p.Consumes view nd q) (hq : BulksFit q view) :
  BulksFit p view
  := by
  intro nds r hr hd
  cases hr with
  | nil => apply hh
  | cons hc' hr' =>
      have := hc'.consume
      rw [hc.consume] at this
      cases this
      apply hq _ _ hr' hd

/-- An iteration of the loop of `parse` whose header, if it has one, does not declare a bulk that
is too long. -/
structure Parser.ConsumesFit (view : Bytes) (p : Parser) (nd : Node) (q : Parser) : Prop
    extends p.Consumes view nd q where
  fits : ¬ p.DeclaresHugeBulk view

/-- If the iterations up to the end of the message fit, then so do all headers of the message. -/
theorem bulksFit_of_run {p q : Parser} {view : Bytes} {nds : List Node}
    (hr : Run (Parser.ConsumesFit view) p nds q) (hd : q.done = true) :
  BulksFit p view
  := by
  induction hr with
  | nil => apply bulksFit_of_done hd
  | cons hc _ ih => apply bulksFit_of_consumes hc.fits hc.toConsumes (ih hd)

/-- A blob string that arrives in three chunks, cut in its content and in its separator. -/
theorem feed_eq_parse_bulk :
  feed accepting () [ascii "$2\r\nh", ascii "h\r", ascii "\n"]
    = parse .fresh (ascii "$2\r\nhh\r\n") accepting ()
  := by
  apply feed_eq_parse accepting () [ascii "$2\r\nh", ascii "h\r", ascii "\n"] (by decide)
  have hc : Parser.fresh.Consumes (ascii "$2\r\nhh\r\n") ⟨.blobString, 1, 0, ascii "hh"⟩
      ⟨0, #v[1, 0, 0, 0, 0, 0], 2, .invalid, 8⟩ := ⟨rfl, by decide⟩
  apply bulksFit_of_consumes (by decide) hc (bulksFit_of_done rfl)

end Parse

end Resp3
