import BoostRedis.Resp3.Consume

/-!
# The parse loop

Every call of `consume` that returns a node uses up part of the budget of the parser: the
bytes of the view it has not consumed, and the bulk it expects.  The bound of `parseLoop` is
therefore never reached, and `parse_eq` unfolds `parse` as the loop of the source.

`Consumes view p nd q` is one iteration of that loop, and the runs of `Consumes view` are what
`parse` goes through.
-/

namespace Resp3

namespace Parser

/-- What is left to use up: the unread bytes, and the bulk that is expected. -/
def budget (p : Parser) (view : Bytes) : ℕ :=
  view.length - p.consumed + (if p.bulkExpected then 1 else 0)

theorem budget_of_invalid {p : Parser} (h : p.bulk = .invalid) (view : Bytes) :
  p.budget view = view.length - p.consumed
  := by
  simp [budget, bulkExpected, h]

/-- A node returned by way of a parser keeps that parser's bulk. -/
theorem map_node_inv {r : Except Fault Parser} {c : ℕ} {nd nd' : Node} {q : Parser}
    (h : (r.map fun q => ({ q with consumed := c }, Outcome.node nd)) = .ok (q, .node nd')) :
  q.consumed = c ∧ ∃ q₀, r = .ok q₀ ∧ q.bulk = q₀.bulk
  := by
  cases r with
  | error f => cases h
  | ok q₀ =>
      obtain ⟨rfl, -⟩ := Prod.mk.inj (Except.ok.inj h)
      exact ⟨rfl, q₀, rfl, rfl⟩

/-- A bulk that is returned is no longer expected, and has been skipped. -/
theorem consumeBulk_node {p q : Parser} {view : Bytes} {nd : Node}
    (h : p.consumeBulk view = .ok (q, .node nd)) :
  p.consumed ≤ q.consumed ∧ q.bulk = .invalid
  := by
  simp only [consumeBulk] at h
  split at h
  · cases h
  · cases hsub : substr view p.consumed p.bulkLength with
    | error f =>
        rw [hsub] at h
        cases h
    | ok bulkView =>
        rw [hsub] at h
        obtain ⟨hc, q₀, hq₀, hbulk⟩ := map_node_inv h
        rw [commitElem_bulk hq₀] at hbulk
        exact ⟨by omega, hbulk⟩

/-- A line that yields a node is skipped, and no bulk is expected after it. -/
theorem onLine_node_next {p q : Parser} {view : Bytes} {l : Line} {nd : Node}
    (hb : p.bulk = .invalid) (h : p.onLine view l = .ok (q, .node nd)) :
  l.next ≤ q.consumed ∧ q.bulk = .invalid
  := by
  cases hl : l.header with
  | malformed ec =>
      rw [onLine_malformed hl] at h
      cases h
  | lengthless =>
      rw [onLine_lengthless hl] at h
      cases h
  | simple =>
      rw [onLine_simple hl] at h
      obtain ⟨hc, q₀, hq₀, hbulk⟩ := map_node_inv h
      exact ⟨hc.ge, by rw [hbulk, commitElem_bulk hq₀, hb]⟩
  | bulk n =>
      rw [onLine_bulk hl] at h
      apply consumeBulk_node h
  | terminator =>
      rw [onLine_terminator hl] at h
      obtain ⟨hc, q₀, hq₀, hbulk⟩ := map_node_inv h
      refine ⟨hc.ge, ?_⟩
      cases hset : setSize { p with bulkLength := 0 } p.depth 1 with
      | error f =>
          rw [hset] at hq₀
          cases hq₀
      | ok q₁ =>
          rw [hset] at hq₀
          rw [hbulk, commitElem_bulk hq₀, (setSize_ok hset).2.1, hb]
  | stream =>
      rw [onLine_stream hl] at h
      obtain ⟨hc, q₀, hq₀, hbulk⟩ := map_node_inv h
      exact ⟨hc.ge, by rw [hbulk, (setSize_ok hq₀).2.1, hb]⟩
  | aggregate n =>
      cases n with
      | zero =>
          rw [onLine_aggregate_zero hl] at h
          obtain ⟨hc, q₀, hq₀, hbulk⟩ := map_node_inv h
          exact ⟨hc.ge, by rw [hbulk, commitElem_bulk hq₀, hb]⟩
      | succ n =>
          by_cases hlim : p.depth = maxEmbeddedDepth
          · rw [onLine_aggregate_limit hl hlim] at h
            cases h
          · rw [onLine_aggregate_succ hl hlim] at h
            obtain ⟨hc, q₀, hq₀, hbulk⟩ := map_node_inv h
            exact ⟨hc.ge, by rw [hbulk, (setSize_ok hq₀).2.1, hb]⟩

theorem nextLine_next {p : Parser} {view : Bytes} {l : Line} (h : p.nextLine view = some l) :
  p.consumed + 2 ≤ l.next ∧ l.next ≤ view.length
  := by
  obtain ⟨pos, hf, rfl⟩ := Option.map_eq_some_iff.mp h
  obtain ⟨hc, hpos, -⟩ := findSep_spec hf
  simp only
  omega

/-- A line that has arrived is the same on a longer view.  Only a line whose type byte is the
separator itself, which no type has, has another content. -/
theorem nextLine_append {p : Parser} {view : Bytes} {l : Line} (c : Bytes)
    (hv : view.length < 2 ^ 64) (h : p.nextLine view = some l) :
  p.nextLine (view ++ c) = some l ∨
    l.type = .invalid ∧ ∃ l', p.nextLine (view ++ c) = some l' ∧ l'.type = .invalid
  := by
  obtain ⟨pos, hf, rfl⟩ := Option.map_eq_some_iff.mp h
  obtain ⟨hle, hpos, hfind⟩ := findSep_spec hf
  have hdrop : (view ++ c).drop p.consumed = view.drop p.consumed ++ c :=
    List.drop_append_of_le_length (by omega)
  have hf' : findSep (view ++ c) p.consumed = some pos := by
    rw [findSep, hdrop, Separator.find_append c hfind, Option.map_some]
    congr 1
    omega
  have hget : (view ++ c).getD p.consumed 0 = view.getD p.consumed 0 := by
    rw [List.getD_eq_getElem?_getD, List.getD_eq_getElem?_getD,
      List.getElem?_append_left (by omega)]
  rw [nextLine, lineAt, hf', Option.map_some, hget]
  by_cases heq : pos = p.consumed
  · have htype : toType (view.getD p.consumed 0) = .invalid := by
      obtain ⟨rest, hrest⟩ := Separator.find_split hfind
      have hhead : view.getD p.consumed 0 = (view.drop p.consumed).getD 0 0 := by
        simp [List.getD_eq_getElem?_getD]
      rw [heq, Nat.sub_self, List.take_zero, List.nil_append] at hrest
      rw [hhead, hrest]
      rfl
    right
    exact ⟨htype, _, rfl, htype⟩
  · left
    have hcount : subSize (subSize pos 1) p.consumed = pos - 1 - p.consumed := by
      rw [subSize_eq (by rw [subSize_eq (by omega) (by omega)]; omega)
          (by rw [subSize_eq (by omega) (by omega)]; omega), subSize_eq (by omega) (by omega)]
    have hcontent : ((view ++ c).drop (p.consumed + 1)).take (pos - 1 - p.consumed)
        = (view.drop (p.consumed + 1)).take (pos - 1 - p.consumed) := by
      rw [List.drop_append_of_le_length (by omega), List.take_append_of_le_length]
      rw [List.length_drop]
      omega
    rw [hcount, hcontent]

/-- A call that returns a node uses up budget, and expects no bulk afterwards. -/
theorem consume_budget {p q : Parser} {view : Bytes} {nd : Node}
    (h : p.consume view = .ok (q, .node nd)) :
  q.bulk = .invalid ∧ q.budget view < p.budget view
  := by
  cases hb : p.bulkExpected with
  | true =>
      rw [consume_of_bulk hb] at h
      obtain ⟨hle, hq⟩ := consumeBulk_node h
      rw [budget_of_invalid hq, budget, hb, if_pos rfl]
      exact ⟨hq, by omega⟩
  | false =>
      cases hl : p.nextLine view with
      | none =>
          rw [consume_of_no_line hb hl] at h
          cases h
      | some l =>
          rw [consume_of_line hb hl] at h
          have hp := bulk_of_not_expected hb
          obtain ⟨hle, hq⟩ := onLine_node_next hp h
          obtain ⟨hlt, hlen⟩ := nextLine_next hl
          rw [budget_of_invalid hq, budget_of_invalid hp]
          exact ⟨hq, by omega⟩

theorem budget_lt (p : Parser) (view : Bytes) :
  p.budget view < view.length + 2
  := by
  rw [budget]
  split <;> omega

/-- One iteration of the loop of `parse` that gives the node `nd` to the adapter. -/
structure Consumes (view : Bytes) (p : Parser) (nd : Node) (q : Parser) : Prop where
  not_done : p.done = false
  consume : p.consume view = .ok (q, .node nd)

end Parser

section Loop

variable {σ : Type} {adapter : Adapter σ} {view : Bytes}

/-- The bound of the loop does not matter as long as it exceeds the budget. -/
theorem parseLoop_bound (m : ℕ) :
  ∀ {n : ℕ} {p : Parser} (s : σ), p.budget view < n → p.budget view < m →
    parseLoop adapter view n p s = parseLoop adapter view m p s
  := by
  induction m with
  | zero =>
      intro n p s _ hm
      cases hm
  | succ m ih =>
      intro n p s hn hm
      cases n with
      | zero => cases hn
      | succ n =>
          rw [parseLoop, parseLoop]
          cases p.done with
          | true => rfl
          | false =>
              cases hc : p.consume view with
              | error f => rfl
              | ok r =>
                  obtain ⟨q, o⟩ := r
                  cases o with
                  | failed ec => rfl
                  | needsMore => rfl
                  | node nd =>
                      have hlt := (Parser.consume_budget hc).2
                      simp only [Bool.false_eq_true, ↓reduceIte]
                      rcases adapter nd s with ⟨s', _ | ec⟩
                      · simp only [ih s' (show q.budget view < n by omega) (by omega)]
                      · rfl

/-- The loop of `parse`, as in the source. -/
theorem parse_eq (p : Parser) (view : Bytes) (adapter : Adapter σ) (s : σ) :
  parse p view adapter s =
    if p.done then ⟨p, s, [], .done⟩
    else
      match p.consume view with
      | .error f => ⟨p, s, [], .faulted f⟩
      | .ok (q, .failed ec) => ⟨q, s, [], .failed ec⟩
      | .ok (q, .needsMore) => ⟨q, s, [], .needsMore⟩
      | .ok (q, .node nd) =>
          match adapter nd s with
          | (s', some ec) => ⟨q, s', [nd], .rejected ec⟩
          | (s', none) => (parse q view adapter s').prepend [nd]
  := by
  rw [parse, parseLoop]
  cases p.done with
  | true => rfl
  | false =>
      cases hc : p.consume view with
      | error f => rfl
      | ok r =>
          obtain ⟨q, o⟩ := r
          cases o with
          | failed ec => rfl
          | needsMore => rfl
          | node nd =>
              have hlt := (Parser.consume_budget hc).2
              have hp := Parser.budget_lt p view
              simp only [Bool.false_eq_true, ↓reduceIte]
              rcases adapter nd s with ⟨s', _ | ec⟩
              · simp only [parse, parseLoop_bound (view.length + 2) s'
                  (show q.budget view < view.length + 1 by omega) (by omega)]
              · rfl

theorem parse_of_done {p : Parser} (h : p.done = true) (s : σ) :
  parse p view adapter s = ⟨p, s, [], .done⟩
  := by
  rw [parse_eq, h]
  rfl

theorem parse_of_fault {p : Parser} {f : Fault} (h : p.done = false)
    (hc : p.consume view = .error f) (s : σ) :
  parse p view adapter s = ⟨p, s, [], .faulted f⟩
  := by
  rw [parse_eq, h, hc]
  rfl

theorem parse_of_failed {p q : Parser} {ec : Error} (h : p.done = false)
    (hc : p.consume view = .ok (q, .failed ec)) (s : σ) :
  parse p view adapter s = ⟨q, s, [], .failed ec⟩
  := by
  rw [parse_eq, h, hc]
  rfl

theorem parse_of_needsMore {p q : Parser} (h : p.done = false)
    (hc : p.consume view = .ok (q, .needsMore)) (s : σ) :
  parse p view adapter s = ⟨q, s, [], .needsMore⟩
  := by
  rw [parse_eq, h, hc]
  rfl

theorem parse_of_rejected {p q : Parser} {nd : Node} {s s' : σ} {ec : ErrorCode}
    (hc : p.Consumes view nd q) (ha : adapter nd s = (s', some ec)) :
  parse p view adapter s = ⟨q, s', [nd], .rejected ec⟩
  := by
  rw [parse_eq, hc.not_done, hc.consume]
  simp [ha]

theorem parse_of_node {p q : Parser} {nd : Node} {s s' : σ}
    (hc : p.Consumes view nd q) (ha : adapter nd s = (s', none)) :
  parse p view adapter s = (parse q view adapter s').prepend [nd]
  := by
  rw [parse_eq, hc.not_done, hc.consume]
  simp [ha]

/-- The state of the adapter after the nodes, if it sets no error at any of them. -/
def Adapter.takes (adapter : Adapter σ) : List Node → σ → Option σ
  | [], s => some s
  | nd :: nds, s =>
      match adapter nd s with
      | (s', none) => adapter.takes nds s'
      | (_, some _) => none

@[simp]
theorem takes_accepting :
  ∀ nds : List Node, Adapter.takes accepting nds () = some ()
  | [] => rfl
  | _ :: nds => takes_accepting nds

/-- The state of the adapter is what it makes of the nodes it was given. -/
theorem parse_state (p : Parser) (view : Bytes) (adapter : Adapter σ) (s : σ) :
  (parse p view adapter s).state
    = (parse p view adapter s).nodes.foldl (fun s nd => (adapter nd s).1) s
  := by
  rw [parse]
  generalize view.length + 2 = n
  induction n generalizing p s with
  | zero => rfl
  | succ n ih =>
      rw [parseLoop]
      split
      · rfl
      · split
        · rfl
        · rfl
        · rfl
        · split
          · rename_i hs
            rw [List.foldl_cons, hs, List.foldl_nil]
          · rename_i hs
            simp only [Parsed.prepend, List.cons_append, List.nil_append, List.foldl_cons, hs]
            apply ih

/-- The iterations of the loop that a run of `Consumes` describes, when the adapter sets no
error. -/
theorem parse_of_run {p q : Parser} {nds : List Node} {s s' : σ}
    (h : Run (Parser.Consumes view) p nds q) (ha : adapter.takes nds s = some s') :
  parse p view adapter s = (parse q view adapter s').prepend nds
  := by
  induction h generalizing s with
  | nil =>
      obtain rfl := Option.some.inj ha
      rfl
  | cons hc _ ih =>
      rw [Adapter.takes] at ha
      split at ha
      · rename_i s₁ hs₁
        rw [parse_of_node hc hs₁, ih ha]
        simp [Parsed.prepend]
      · cases ha

/-- Induction along the loop of `parse`: a property of parsers holds if it holds of every
parser all of whose next parsers have it. -/
theorem consumes_induction (view : Bytes) {motive : Parser → Prop}
    (step : ∀ p, (∀ nd q, p.Consumes view nd q → motive q) → motive p) (p : Parser) :
  motive p
  := by
  induction hn : p.budget view using Nat.strong_induction_on generalizing p with
  | _ n ih =>
      apply step
      intro nd q hq
      have hlt := (Parser.consume_budget hq.consume).2
      apply ih (q.budget view) (by omega) q rfl

/-- The loop of the model is never cut short. -/
theorem parse_not_exhausted (p : Parser) (view : Bytes) (adapter : Adapter σ) (s : σ) :
  (parse p view adapter s).status ≠ .exhausted
  := by
  induction p using consumes_induction view generalizing s with
  | step p ih =>
      cases hd : p.done with
      | true =>
          rw [parse_of_done hd]
          simp
      | false =>
          rcases hc : p.consume view with f | ⟨q, _ | nd | ec⟩
          · rw [parse_of_fault hd hc]
            simp
          · rw [parse_of_needsMore hd hc]
            simp
          · rcases ha : adapter nd s with ⟨s', _ | ec⟩
            · rw [parse_of_node ⟨hd, hc⟩ ha]
              apply ih nd q ⟨hd, hc⟩
            · rw [parse_of_rejected ⟨hd, hc⟩ ha]
              simp
          · rw [parse_of_failed hd hc]
            simp

/-- How a call of `parse` ends, once the loop has come to the parser `q`: with which parser,
and with which status. -/
inductive Ends (view : Bytes) (q : Parser) : Parser → Status → Prop where
  | done : q.done = true → Ends view q q .done
  | needsMore {r : Parser} :
      q.done = false → q.consume view = .ok (r, .needsMore) → Ends view q r .needsMore
  | failed {r : Parser} {ec : Error} :
      q.done = false → q.consume view = .ok (r, .failed ec) → Ends view q r (.failed ec)
  | faulted {f : Fault} :
      q.done = false → q.consume view = .error f → Ends view q q (.faulted f)
  | rejected {ec : ErrorCode} : Ends view q q (.rejected ec)

/-- A call of `parse` goes through a run of `Consumes`, whose nodes the adapter gets. -/
theorem parse_run (p : Parser) (view : Bytes) (adapter : Adapter σ) (s : σ) :
  ∃ q, Run (Parser.Consumes view) p (parse p view adapter s).nodes q ∧
    Ends view q (parse p view adapter s).parser (parse p view adapter s).status
  := by
  induction p using consumes_induction view generalizing s with
  | step p ih =>
      cases hd : p.done with
      | true =>
          rw [parse_of_done hd]
          exact ⟨p, .nil p, .done hd⟩
      | false =>
          rcases hc : p.consume view with f | ⟨q, _ | nd | ec⟩
          · rw [parse_of_fault hd hc]
            exact ⟨p, .nil p, .faulted hd hc⟩
          · rw [parse_of_needsMore hd hc]
            exact ⟨p, .nil p, .needsMore hd hc⟩
          · have hcons : p.Consumes view nd q := ⟨hd, hc⟩
            rcases ha : adapter nd s with ⟨s', _ | ec⟩
            · rw [parse_of_node hcons ha]
              obtain ⟨r, hr, hend⟩ := ih nd q hcons s'
              exact ⟨r, .cons hcons hr, hend⟩
            · rw [parse_of_rejected hcons ha]
              exact ⟨q, .single hcons, .rejected⟩
          · rw [parse_of_failed hd hc]
            exact ⟨p, .nil p, .failed hd hc⟩

/-- When a call of `parse` is done, the run has come to a parser that is done. -/
theorem parse_run_of_done {p : Parser} {view : Bytes} {adapter : Adapter σ} {s : σ}
    (h : (parse p view adapter s).status = .done) :
  Run (Parser.Consumes view) p (parse p view adapter s).nodes (parse p view adapter s).parser ∧
    (parse p view adapter s).parser.done = true
  := by
  obtain ⟨q, hr, hend⟩ := parse_run p view adapter s
  rw [h] at hend
  generalize (parse p view adapter s).parser = r at hend ⊢
  cases hend with
  | done hq => exact ⟨hr, hq⟩

end Loop

/-! ### The header lines of a message -/

/-- One iteration of the loop of `parse` that reads the header line `l`. -/
structure Parser.ReadsLine (view : Bytes) (p : Parser) (l : Line) (q : Parser) : Prop where
  line : p.nextLine view = some l
  consumes : ∃ nd, p.Consumes view nd q

/-- Every header line of the rest of the message has a property, which may depend on the lines
before it. -/
def Headers (view : Bytes) (p : Parser) (P : List Line → Line → Prop) : Prop :=
  ∀ ls q l, Run (Parser.ReadsLine view) p ls q → q.done = false → q.nextLine view = some l → P ls l

namespace Headers

variable {view : Bytes} {p q : Parser} {P : List Line → Line → Prop} {l : Line} {nd : Node}

theorem head (h : Headers view p P) (hd : p.done = false) (hl : p.nextLine view = some l) :
  P [] l
  := h [] p l (.nil p) hd hl

theorem tail (h : Headers view p P) (hl : p.nextLine view = some l) (hc : p.Consumes view nd q) :
  Headers view q fun ls => P (l :: ls)
  := fun ls r l' hr => h (l :: ls) r l' (.cons ⟨hl, nd, hc⟩ hr)

theorem of_done (hd : p.done = true) :
  Headers view p P
  := by
  intro ls q l hr hq
  cases hr with
  | nil =>
      rw [hd] at hq
      cases hq
  | cons hs _ =>
      obtain ⟨nd, hc⟩ := hs.consumes
      have := hc.not_done
      rw [hd] at this
      cases this

theorem of_consumes (hl : p.nextLine view = some l) (hP : P [] l) (hc : p.Consumes view nd q)
    (h : Headers view q fun ls => P (l :: ls)) :
  Headers view p P
  := by
  intro ls r l' hr hd hl'
  cases hr with
  | nil =>
      rw [hl] at hl'
      obtain rfl := Option.some.inj hl'
      apply hP
  | cons hs hr =>
      have hline := hs.line
      rw [hl] at hline
      obtain rfl := Option.some.inj hline
      obtain ⟨nd', hc'⟩ := hs.consumes
      have hcons := hc'.consume
      rw [hc.consume] at hcons
      obtain ⟨rfl, -⟩ := Prod.mk.inj (Except.ok.inj hcons)
      apply h _ _ _ hr hd hl'

end Headers

end Resp3
