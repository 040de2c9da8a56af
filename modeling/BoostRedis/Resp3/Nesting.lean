import BoostRedis.Resp3.Loop

/-!
# The depth stack

The states a parser reaches while a stream arrives, in chunks of any sizes, keep the depth
within the array of counters, and keep the sentinel at the bottom of the stack until the
message is done.  From such a state a call of `consume` faults in three cases only: at a bulk
header without content, at the start of a streamed string at the largest depth, and at the
end of a streamed string at depth zero.
-/

namespace Resp3

/-- Counting an element never pops the sentinel: it is decremented when the message is done,
and untouched before. -/
theorem commit_sentinel (st : List ℕ) :
  commit (st ++ [2]) = some [1] ∨
    ∃ st', st' ≠ [] ∧ commit (st ++ [2]) = some (st' ++ [2])
  := by
  induction st with
  | nil =>
      left
      rw [List.nil_append, commit, predSize_succ (by omega)]
      rfl
  | cons n st ih =>
      rw [List.cons_append, commit]
      split
      · apply ih
      · right
        use predSize n :: st
        simp

namespace Parser

/-- What holds of every state reached: the depth is within the array, only bytes of the view
have been consumed, the sentinel is at the bottom of the stack unless the message is done, and
a bulk is expected only after its header. -/
structure Valid (p : Parser) (view : Bytes) : Prop where
  depth_lt : p.depth < 6
  consumed_le : p.consumed ≤ view.length
  sentinel : p.done = false → ∃ st, p.stack = st ++ [2]
  bottom : p.done = true → p.stack = [1]
  pending : p.bulkExpected = true → p.consumed ≠ 0

theorem fresh_valid (view : Bytes) :
  fresh.Valid view
  := by
  refine ⟨by simp [fresh], Nat.zero_le _, ?_, ?_, ?_⟩
  · intro _
    use []
    rfl
  · intro h
    simp [fresh, done] at h
  · intro h
    simp [fresh, bulkExpected] at h

theorem Valid.append {p : Parser} {view : Bytes} (h : p.Valid view) (c : Bytes) :
  p.Valid (view ++ c)
  := by
  refine ⟨h.depth_lt, ?_, h.sentinel, h.bottom, h.pending⟩
  have := h.consumed_le
  rw [List.length_append]
  omega

/-- A parser between two elements whose stack ends in the sentinel, or is the decremented
sentinel, is in a valid state. -/
theorem At.valid {q : Parser} {view : Bytes} {st : List ℕ} {c : ℕ} (h : q.At st c)
    (hst : st = [1] ∨ ∃ st', st' ≠ [] ∧ st = st' ++ [2]) (hlen : st.length ≤ 6)
    (hc : c ≤ view.length) (hpos : c ≠ 0) :
  q.Valid view
  := by
  have hlength := q.length_stack
  rw [h.stack] at hlength
  have hbulk : q.bulkExpected = false := by simp [bulkExpected, h.bulk]
  refine ⟨by omega, by rw [h.consumed]; apply hc, ?_, ?_, by simp [hbulk]⟩
  · intro hd
    obtain rfl | ⟨st', -, rfl⟩ := hst
    · have : q.depth = 0 := by simpa using hlength.symm
      simp [done, this, h.bulk, h.consumed, hpos] at hd
    · exact ⟨st', h.stack⟩
  · intro hd
    obtain rfl | ⟨st', hne, rfl⟩ := hst
    · apply h.stack
    · have hdepth : q.depth = 0 := by
        simp only [done, decide_eq_true_eq] at hd
        apply hd.1
      rw [List.length_append, List.length_singleton, hdepth] at hlength
      have : st'.length = 0 := by omega
      exact absurd (List.length_eq_zero_iff.mp this) hne

theorem commit_valid_stack {st st' : List ℕ} (h : commit (st ++ [2]) = some st') :
  st' = [1] ∨ ∃ st'', st'' ≠ [] ∧ st' = st'' ++ [2]
  := by
  obtain h1 | ⟨st'', hne, h2⟩ := commit_sentinel st
  · left
    rw [h1] at h
    apply (Option.some.inj h).symm
  · right
    rw [h2] at h
    exact ⟨st'', hne, (Option.some.inj h).symm⟩

/-- The stack after a line that yields a node ends in the sentinel, or is the decremented
sentinel. -/
theorem effect_valid_stack {l : Line} {st st' : List ℕ} (h : l.effect (st ++ [2]) = some st')
    (hlen : (st ++ [2]).length ≤ 6) :
  (st' = [1] ∨ ∃ st'', st'' ≠ [] ∧ st' = st'' ++ [2]) ∧ st'.length ≤ 6
  := by
  have hcommit : commit (st ++ [2]) = some st' →
      (st' = [1] ∨ ∃ st'', st'' ≠ [] ∧ st' = st'' ++ [2]) ∧ st'.length ≤ 6 := by
    intro hc
    exact ⟨commit_valid_stack hc, (commit_length_le hc).trans hlen⟩
  have hpush : ∀ n, (if (st ++ [2]).length < 6 then some (n :: (st ++ [2])) else none) = some st' →
      (st' = [1] ∨ ∃ st'', st'' ≠ [] ∧ st' = st'' ++ [2]) ∧ st'.length ≤ 6 := by
    intro n hn
    rw [Option.ite_none_right_eq_some] at hn
    obtain ⟨hlt, heq⟩ := hn
    obtain rfl := Option.some.inj heq
    refine ⟨.inr ⟨n :: st, by simp, rfl⟩, ?_⟩
    rw [List.length_cons]
    omega
  rw [Line.effect] at h
  split at h
  · cases h
  · cases h
  · apply hcommit h
  · apply hcommit h
  · apply hcommit h
  · cases st with
    | nil => simp [commit] at h
    | cons n st =>
        rw [List.cons_append, List.tail_cons] at h
        refine ⟨commit_valid_stack h, (commit_length_le h).trans ?_⟩
        rw [List.cons_append, List.length_cons] at hlen
        omega
  · apply hpush _ h
  · apply hpush _ h

/-- From a valid state, the results of a line. -/
theorem Valid.onLine_result {p : Parser} {view : Bytes} {l : Line} (h : p.Valid view)
    (hv : view.length < 2 ^ 64) (hb : p.bulkExpected = false) (hl : p.nextLine view = some l) :
  Result p view l (p.consume view)
  := by
  rw [consume_of_line hb hl]
  apply Parser.onLine_result h.depth_lt (bulk_of_not_expected hb) hv (nextLine_next hl).2

/-- From a valid state that expects a bulk, the bulk is missing or it is counted. -/
theorem Valid.consumeBulk {p : Parser} {view : Bytes} (h : p.Valid view)
    (hb : p.bulkExpected = true) (hv : view.length < 2 ^ 64) :
  p.consume view = .ok (p, .needsMore) ∨
    ∃ q st, p.consume view
        = .ok (q, .node ⟨p.bulk, 1, p.depth, (view.drop p.consumed).take p.bulkLength⟩)
      ∧ commit p.stack = some st ∧ At q st (p.consumed + (p.bulkLength + 2) % 2 ^ 64)
      ∧ p.consumed + (p.bulkLength + 2) % 2 ^ 64 ≤ view.length
  := by
  rw [consume_of_bulk hb]
  by_cases hs : subSize view.length p.consumed < (p.bulkLength + 2) % 2 ^ 64
  · left
    apply consumeBulk_short hs
  · right
    have hd : p.done = false := by
      simp only [bulkExpected, ne_eq, decide_eq_true_eq] at hb
      simp [done, hb]
    obtain ⟨st, hst⟩ := h.sentinel hd
    have hsome : ∃ st', commit p.stack = some st' := by
      rw [hst]
      obtain h1 | ⟨st', -, h2⟩ := commit_sentinel st
      · exact ⟨_, h1⟩
      · exact ⟨_, h2⟩
    obtain ⟨st', hst'⟩ := hsome
    obtain ⟨q, hq, hstacked⟩ := commitElem_of_commit
      (p := { p with bulk := .invalid }) h.depth_lt hst'
    rw [consumeBulk_enough hs h.consumed_le, hq]
    refine ⟨_, st', rfl, hst', hstacked.at_consumed rfl, ?_⟩
    rw [subSize_eq hv h.consumed_le] at hs
    have := h.consumed_le
    omega

/-- A valid state whose message is not done can count an element. -/
theorem Valid.commit_ne_none {p : Parser} {view : Bytes} (h : p.Valid view) (hd : p.done = false) :
  commit p.stack ≠ none
  := by
  obtain ⟨st, hst⟩ := h.sentinel hd
  rw [hst]
  obtain h1 | ⟨st', -, h2⟩ := commit_sentinel st
  · simp [h1]
  · simp [h2]

/-- The stack without its top can count an element, unless its top is the sentinel. -/
theorem Valid.commit_tail_eq_none {p : Parser} {view : Bytes} (h : p.Valid view)
    (hd : p.done = false) :
  commit p.stack.tail = none ↔ p.depth = 0
  := by
  obtain ⟨st, hst⟩ := h.sentinel hd
  have hlen := p.length_stack
  rw [hst] at hlen ⊢
  cases st with
  | nil =>
      have : p.depth = 0 := by simpa using hlen.symm
      simp [this, commit]
  | cons n st =>
      rw [List.cons_append, List.length_cons, List.length_append, List.length_singleton] at hlen
      rw [List.cons_append, List.tail_cons]
      have hdepth : p.depth ≠ 0 := by omega
      obtain h1 | ⟨st', -, h2⟩ := commit_sentinel st
      · simp [h1, hdepth]
      · simp [h2, hdepth]

/-- Whatever a call of `consume` returns, it leaves a valid state. -/
theorem Valid.consume {p q : Parser} {view : Bytes} {o : Outcome} (h : p.Valid view)
    (hv : view.length < 2 ^ 64) (hd : p.done = false) (hc : p.consume view = .ok (q, o)) :
  q.Valid view
  := by
  obtain ⟨st, hst⟩ := h.sentinel hd
  have hlen : (st ++ [2]).length ≤ 6 := by
    rw [← hst, length_stack]
    have := h.depth_lt
    omega
  cases hb : p.bulkExpected with
  | true =>
      obtain h1 | ⟨q', st', h2, hst', hat, hle⟩ := h.consumeBulk hb hv
      · rw [h1] at hc
        obtain ⟨rfl, -⟩ := Prod.mk.inj (Except.ok.inj hc)
        apply h
      · rw [h2] at hc
        obtain ⟨rfl, -⟩ := Prod.mk.inj (Except.ok.inj hc)
        rw [hst] at hst'
        have hpos := h.pending hb
        apply hat.valid (commit_valid_stack hst') ((commit_length_le hst').trans hlen) hle (by omega)
  | false =>
      cases hl : p.nextLine view with
      | none =>
          rw [consume_of_no_line hb hl] at hc
          obtain ⟨rfl, -⟩ := Prod.mk.inj (Except.ok.inj hc)
          apply h
      | some l =>
          obtain ⟨hnext, hnext'⟩ := nextLine_next hl
          have hres := h.onLine_result hv hb hl
          rw [hc] at hres
          cases hres with
          | refused _ => apply h
          | aggregateLimit _ _ => apply h
          | node heff hfit hat =>
              rw [hst] at heff
              obtain ⟨hshape, hlen'⟩ := effect_valid_stack heff hlen
              have hfin := l.next_le_finish
              apply hat.valid hshape hlen' hfit (by omega)
          | short hn _ =>
              have htype : l.type ≠ .invalid := by
                intro ht
                rw [Line.header, ht] at hn
                cases hn
              refine ⟨h.depth_lt, hnext', fun _ => h.sentinel hd, ?_, ?_⟩
              · intro hdone
                simp [done, htype] at hdone
              · intro _
                simp only
                omega

/-- From a valid state in which no bulk is expected, an iteration of the loop of `parse` reads
one line. -/
theorem Valid.line_of_consumes {p q : Parser} {view : Bytes} {nd : Node} (h : p.Valid view)
    (hv : view.length < 2 ^ 64) (hb : p.bulk = .invalid) (hc : p.Consumes view nd q) :
  ∃ l st, p.nextLine view = some l ∧ nd = l.node view p.depth ∧ l.effect p.stack = some st
    ∧ l.finish ≤ view.length ∧ q.At st l.finish
  := by
  have hbe : p.bulkExpected = false := by simp [bulkExpected, hb]
  have hcons := hc.consume
  cases hl : p.nextLine view with
  | none =>
      rw [consume_of_no_line hbe hl] at hcons
      cases hcons
  | some l =>
      have hres := h.onLine_result hv hbe hl
      rw [hcons] at hres
      cases hres with
      | node heff hfit hat => exact ⟨l, _, rfl, rfl, heff, hfit, hat⟩

end Parser

/-! ### The states reached while a stream arrives -/

/-- The states of the parser and of its view that are reached while the stream `s` arrives in
chunks of any sizes, with calls of `consume` at any time until the message is done. -/
inductive Reach (s : Bytes) : Parser → Bytes → Prop where
  | start : Reach s .fresh []
  | append {p : Parser} {view : Bytes} (c : Bytes) :
      Reach s p view → view ++ c <+: s → Reach s p (view ++ c)
  | consume {p q : Parser} {view : Bytes} {o : Parser.Outcome} :
      Reach s p view → p.done = false → p.consume view = .ok (q, o) → Reach s q view

namespace Reach

variable {s view : Bytes} {p : Parser}

theorem isPrefix (h : Reach s p view) :
  view <+: s
  := by
  induction h with
  | start => apply List.nil_prefix
  | append c _ hc _ => apply hc
  | consume _ _ _ ih => apply ih

theorem length_lt (h : Reach s p view) (hs : s.length < 2 ^ 64) :
  view.length < 2 ^ 64
  := lt_of_le_of_lt h.isPrefix.length_le hs

theorem valid (h : Reach s p view) (hs : s.length < 2 ^ 64) :
  p.Valid view
  := by
  induction h with
  | start => apply Parser.fresh_valid
  | append c _ _ ih => apply ih.append
  | consume hr hd hc ih => apply ih.consume (hr.length_lt hs) hd hc

/-- The fresh parser with the whole stream. -/
theorem whole (s : Bytes) :
  Reach s .fresh s
  := .append s .start (List.prefix_refl _)

/-- What the loop of `parse` goes through is reached. -/
theorem run {q : Parser} {nds : List Node} (h : Reach s p view)
    (hr : Run (Parser.Consumes view) p nds q) :
  Reach s q view
  := by
  induction hr with
  | nil => apply h
  | cons hc _ ih => apply ih (.consume h hc.not_done hc.consume)

/-- A call of `parse` that faults has reached a call of `consume` that faults. -/
theorem of_faulted {σ : Type} {adapter : Adapter σ} {t : σ} {f : Fault}
    (h : (parse .fresh s adapter t).status = .faulted f) :
  ∃ q, Reach s q s ∧ q.done = false ∧ q.consume s = .error f
  := by
  obtain ⟨q, hrun, hend⟩ := parse_run .fresh s adapter t
  rw [h] at hend
  cases hend with
  | faulted hd hc => exact ⟨_, (whole s).run hrun, hd, hc⟩

end Reach

/-! ### The calls that fault -/

namespace Parser

/-- The next line makes the request `hd`. -/
def Requests (p : Parser) (view : Bytes) (hd : Header) : Prop :=
  p.bulkExpected = false ∧ ∃ l, p.nextLine view = some l ∧ l.header = hd

/-- From a valid state, `consume` faults exactly at a bulk header without content, at the
start of a streamed string at the largest depth, and at the end of a streamed string at depth
zero. -/
theorem Valid.consume_error_iff {p : Parser} {view : Bytes} {f : Fault} (h : p.Valid view)
    (hv : view.length < 2 ^ 64) (hd : p.done = false) :
  p.consume view = .error f ↔
    (f = .outOfRange ∧ p.Requests view .lengthless) ∨
    (f = .sizesIndex 6 ∧ p.Requests view .stream ∧ p.depth = maxEmbeddedDepth) ∨
    (f = .depthWrap ∧ p.Requests view .terminator ∧ p.depth = 0)
  := by
  constructor
  · intro hc
    cases hb : p.bulkExpected with
    | true =>
        obtain h1 | ⟨q, st, h2, -⟩ := h.consumeBulk hb hv
        · rw [h1] at hc
          cases hc
        · rw [h2] at hc
          cases hc
    | false =>
        cases hl : p.nextLine view with
        | none =>
            rw [consume_of_no_line hb hl] at hc
            cases hc
        | some l =>
            have hres := h.onLine_result hv hb hl
            rw [hc] at hres
            cases hres with
            | lengthless hh => exact .inl ⟨rfl, hb, l, hl, hh⟩
            | streamLimit hh hlim => exact .inr (.inl ⟨rfl, ⟨hb, l, hl, hh⟩, hlim⟩)
            | bottom _ _ hnone =>
                obtain hnone | ⟨hh, hnone⟩ := hnone
                · exact absurd hnone (h.commit_ne_none hd)
                · exact .inr (.inr ⟨rfl, ⟨hb, l, hl, hh⟩, (h.commit_tail_eq_none hd).mp hnone⟩)
  · rintro (⟨rfl, hb, l, hl, hh⟩ | ⟨rfl, ⟨hb, l, hl, hh⟩, hlim⟩ | ⟨rfl, ⟨hb, l, hl, hh⟩, hzero⟩)
    · rw [consume_of_line hb hl, onLine_lengthless hh]
    · rw [consume_of_line hb hl, onLine_stream hh, hlim]
      rfl
    · rw [consume_of_line hb hl, onLine_terminator hh,
        (setSize_one_commitElem h.depth_lt).1 ((h.commit_tail_eq_none hd).mpr hzero)]
      rfl

end Parser

/-! ### The nesting limit -/

/-- What the nesting limit promises of a state: the depth is at most the largest one, no
counter outside the array is accessed, and what would be nested deeper is reported. -/
structure NestingLimit (p : Parser) (view : Bytes) : Prop where
  depth_le : p.depth ≤ maxEmbeddedDepth
  in_range : p.done = false → ∀ i, p.consume view ≠ .error (.sizesIndex i)
  no_wrap : p.done = false → p.consume view ≠ .error .depthWrap
  reported : p.done = false → p.depth = maxEmbeddedDepth →
    (p.Requests view .stream ∨ ∃ n, p.Requests view (.aggregate (n + 1))) →
    p.consume view = .ok (p, .failed .exceeedsMaxNestedDepth)

/-- The nesting limit holds in every state reached on a stream exactly when no state reached
has a streamed string start at the largest depth, or end at depth zero. -/
theorem nestingLimit_iff (s : Bytes) (hs : s.length < 2 ^ 64) :
  (∀ p view, Reach s p view → NestingLimit p view) ↔
    ∀ p view, Reach s p view → p.done = false →
      ¬ (p.Requests view .stream ∧ p.depth = maxEmbeddedDepth) ∧
      ¬ (p.Requests view .terminator ∧ p.depth = 0)
  := by
  constructor
  · intro h p view hr hd
    have hlim := h p view hr
    have herr : ∀ f, p.consume view = .error f ↔ _ :=
      fun f => (hr.valid hs).consume_error_iff (hr.length_lt hs) hd
    constructor
    · rintro ⟨hreq, hdepth⟩
      apply hlim.in_range hd 6
      apply (herr _).mpr (.inr (.inl ⟨rfl, hreq, hdepth⟩))
    · rintro ⟨hreq, hdepth⟩
      apply hlim.no_wrap hd
      apply (herr _).mpr (.inr (.inr ⟨rfl, hreq, hdepth⟩))
  · intro h p view hr
    have hvalid := hr.valid hs
    have herr : p.done = false → ∀ f, p.consume view = .error f ↔ _ :=
      fun hd f => hvalid.consume_error_iff (hr.length_lt hs) hd
    refine ⟨Nat.lt_succ_iff.mp hvalid.depth_lt, ?_, ?_, ?_⟩
    · intro hd i hc
      obtain ⟨hf, -⟩ | ⟨-, hbad⟩ | ⟨hf, -⟩ := (herr hd _).mp hc
      · cases hf
      · apply (h p view hr hd).1 hbad
      · cases hf
    · intro hd hc
      obtain ⟨hf, -⟩ | ⟨hf, -⟩ | ⟨-, hbad⟩ := (herr hd _).mp hc
      · cases hf
      · cases hf
      · apply (h p view hr hd).2 hbad
    · intro hd hdepth hreq
      obtain hreq | ⟨n, hb, l, hl, hh⟩ := hreq
      · exact absurd ⟨hreq, hdepth⟩ (h p view hr hd).1
      · rw [Parser.consume_of_line hb hl, Parser.onLine_aggregate_limit hh hdepth]

theorem nestingLimit_iff_array :
  (∀ p view, Reach (ascii "*1\r\n:1\r\n") p view → NestingLimit p view) ↔
    ∀ p view, Reach (ascii "*1\r\n:1\r\n") p view → p.done = false →
      ¬ (p.Requests view .stream ∧ p.depth = maxEmbeddedDepth) ∧
      ¬ (p.Requests view .terminator ∧ p.depth = 0)
  := nestingLimit_iff _ (by decide)

/-- A streamed string in five nested arrays is written past the end of the counters. -/
theorem nestingLimit_fails :
  ¬ ∀ s : Bytes, s.length < 2 ^ 64 → ∀ p view, Reach s p view → NestingLimit p view
  := by
  intro h
  have hfault : (parse .fresh (ascii "*1\r\n*1\r\n*1\r\n*1\r\n*1\r\n$?\r\n") accepting ()).status
      = .faulted (.sizesIndex 6) := by decide
  obtain ⟨q, hr, hd, hc⟩ := Reach.of_faulted hfault
  apply (h _ (by decide) q _ hr).in_range hd 6 hc

/-! ### The sentinel -/

theorem getLast_counters (sizes : Vector ℕ 6) :
  ∀ d, (counters sizes d).getLast? = some (sentinelSize sizes)
  | 0 => rfl
  | d + 1 => by
      rw [counters, List.getLast?_cons, getLast_counters sizes d]
      rfl

/-- The sentinel is not zero in a valid state. -/
theorem Parser.Valid.sentinel_ne_zero {p : Parser} {view : Bytes} (h : p.Valid view) :
  sentinelSize p.sizes ≠ 0
  := by
  have hlast : p.stack.getLast? = some (sentinelSize p.sizes) := getLast_counters p.sizes p.depth
  cases hd : p.done with
  | true =>
      rw [h.bottom hd, List.getLast?_singleton] at hlast
      obtain hlast := Option.some.inj hlast
      omega
  | false =>
      obtain ⟨st, hst⟩ := h.sentinel hd
      rw [hst, List.getLast?_append, List.getLast?_singleton] at hlast
      obtain hlast := Option.some.inj hlast
      omega

/-- A message that is not done at depth zero, and of which no bulk is expected, has not
begun. -/
theorem Parser.consumed_eq_zero {p : Parser} (hd : p.done = false) (hdepth : p.depth = 0)
    (hb : p.bulkExpected = false) :
  p.consumed = 0
  := by
  simpa [Parser.done, hdepth, Parser.bulk_of_not_expected hb] using hd

/-- The sentinel protects the bottom of the stack, whatever the chunks a stream arrives in,
exactly when the stream does not begin with the end of a streamed string. -/
theorem sentinel_iff (s : Bytes) (hs : s.length < 2 ^ 64) :
  (∀ p view, Reach s p view →
      sentinelSize p.sizes ≠ 0 ∧ (p.done = false → p.consume view ≠ .error .depthWrap)) ↔
    ¬ Parser.fresh.Requests s .terminator
  := by
  constructor
  · intro h hreq
    apply (h .fresh s (.whole s)).2 rfl
    apply ((Parser.fresh_valid s).consume_error_iff hs rfl).mpr
    exact .inr (.inr ⟨rfl, hreq, rfl⟩)
  · intro h p view hr
    refine ⟨(hr.valid hs).sentinel_ne_zero, ?_⟩
    intro hd hc
    obtain ⟨hf, -⟩ | ⟨hf, -⟩ | ⟨-, ⟨hb, l, hl, hh⟩, hdepth⟩ :=
      ((hr.valid hs).consume_error_iff (hr.length_lt hs) hd).mp hc
    · cases hf
    · cases hf
    · have hfresh : Parser.fresh.nextLine view = some l := by
        rw [← hl, Parser.nextLine, Parser.nextLine, Parser.consumed_eq_zero hd hdepth hb]
        rfl
      obtain ⟨c, rfl⟩ := hr.isPrefix
      obtain hl' | ⟨ht, -⟩ := Parser.nextLine_append c (hr.length_lt hs) hfresh
      · apply h ⟨rfl, l, hl', hh⟩
      · rw [Line.header, ht] at hh
        cases hh

theorem sentinel_iff_streamed :
  (∀ p view, Reach (ascii "$?\r\n;0\r\n") p view →
      sentinelSize p.sizes ≠ 0 ∧ (p.done = false → p.consume view ≠ .error .depthWrap)) ↔
    ¬ Parser.fresh.Requests (ascii "$?\r\n;0\r\n") .terminator
  := sentinel_iff _ (by decide)

/-- The end of a streamed string that was never started takes the sentinel off the stack. -/
theorem sentinel_fails :
  ¬ ∀ s : Bytes, s.length < 2 ^ 64 → ∀ p view, Reach s p view →
    sentinelSize p.sizes ≠ 0 ∧ (p.done = false → p.consume view ≠ .error .depthWrap)
  := by
  intro h
  have hfault : (parse .fresh (ascii ";0\r\n") accepting ()).status = .faulted .depthWrap := by
    decide
  obtain ⟨q, hr, hd, hc⟩ := Reach.of_faulted hfault
  apply (h _ (by decide) q _ hr).2 hd hc

/-! ### Malformed input -/

/-- While a stream arrives, every call of `consume` returns exactly when no call meets a bulk
header without content, the start of a streamed string at the largest depth, or the end of one
at depth zero.  Of these only the first has a position of the view out of range. -/
theorem consume_returns_iff (s : Bytes) (hs : s.length < 2 ^ 64) :
  ((∀ p view, Reach s p view → p.done = false → ∃ q o, p.consume view = .ok (q, o)) ↔
    ∀ p view, Reach s p view → p.done = false →
      ¬ p.Requests view .lengthless ∧
      ¬ (p.Requests view .stream ∧ p.depth = maxEmbeddedDepth) ∧
      ¬ (p.Requests view .terminator ∧ p.depth = 0)) ∧
  (∀ p view, Reach s p view → p.done = false →
    (p.consume view = .error .outOfRange ↔ p.Requests view .lengthless))
  := by
  have herr : ∀ p view, Reach s p view → p.done = false → ∀ f, p.consume view = .error f ↔ _ :=
    fun p view hr hd f => (hr.valid hs).consume_error_iff (hr.length_lt hs) hd
  refine ⟨⟨?_, ?_⟩, ?_⟩
  · intro h p view hr hd
    obtain ⟨q, o, hok⟩ := h p view hr hd
    refine ⟨?_, ?_, ?_⟩
    · intro hreq
      have := (herr p view hr hd .outOfRange).mpr (.inl ⟨rfl, hreq⟩)
      rw [hok] at this
      cases this
    · intro hreq
      have := (herr p view hr hd (.sizesIndex 6)).mpr (.inr (.inl ⟨rfl, hreq⟩))
      rw [hok] at this
      cases this
    · intro hreq
      have := (herr p view hr hd .depthWrap).mpr (.inr (.inr ⟨rfl, hreq⟩))
      rw [hok] at this
      cases this
  · intro h p view hr hd
    obtain ⟨hlen, hstream, hend⟩ := h p view hr hd
    cases hc : p.consume view with
    | ok r => exact ⟨r.1, r.2, rfl⟩
    | error f =>
        obtain ⟨-, hreq⟩ | ⟨-, hreq⟩ | ⟨-, hreq⟩ := (herr p view hr hd f).mp hc
        · exact absurd hreq hlen
        · exact absurd hreq hstream
        · exact absurd hreq hend
  · intro p view hr hd
    constructor
    · intro hc
      obtain ⟨-, hreq⟩ | ⟨hf, -⟩ | ⟨hf, -⟩ := (herr p view hr hd _).mp hc
      · apply hreq
      · cases hf
      · cases hf
    · intro hreq
      apply (herr p view hr hd _).mpr (.inl ⟨rfl, hreq⟩)

theorem consume_returns_iff_bulk :
  ((∀ p view, Reach (ascii "$2\r\nhh\r\n") p view → p.done = false →
      ∃ q o, p.consume view = .ok (q, o)) ↔
    ∀ p view, Reach (ascii "$2\r\nhh\r\n") p view → p.done = false →
      ¬ p.Requests view .lengthless ∧
      ¬ (p.Requests view .stream ∧ p.depth = maxEmbeddedDepth) ∧
      ¬ (p.Requests view .terminator ∧ p.depth = 0)) ∧
  (∀ p view, Reach (ascii "$2\r\nhh\r\n") p view → p.done = false →
    (p.consume view = .error .outOfRange ↔ p.Requests view .lengthless))
  := consume_returns_iff _ (by decide)

/-- A blob string header without a length ends the program. -/
theorem consume_returns_fails :
  ¬ ∀ s : Bytes, s.length < 2 ^ 64 → ∀ p view, Reach s p view → p.done = false →
    ∃ q o, p.consume view = .ok (q, o)
  := by
  intro h
  have hfault : (parse .fresh (ascii "$\r\n") accepting ()).status = .faulted .outOfRange := by
    decide
  obtain ⟨q, hr, hd, hc⟩ := Reach.of_faulted hfault
  obtain ⟨r, o, hok⟩ := h _ (by decide) q _ hr hd
  rw [hc] at hok
  cases hok

end Resp3
