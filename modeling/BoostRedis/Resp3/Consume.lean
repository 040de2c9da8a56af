import BoostRedis.General.Run
import BoostRedis.Resp3.Parser

/-!
# What one call of `consume` does

The counters of the parser up to its depth form a stack, `Parser.stack`, and `commitElem`
acts on it as `commit`: the counter on top is decremented and, where it becomes zero, popped,
which counts one element of the counter below.

A call of `consume` that returns a node uses up input, so `parse` is not cut short by the
bound of its loop: `parse_eq` is the loop of the source.
-/

namespace Resp3

/-! ### Arithmetic of sizes -/

theorem subSize_eq {m n : ℕ} (hm : m < 2 ^ 64) (h : n ≤ m) :
  subSize m n = m - n
  := by
  rw [subSize]
  omega

theorem predSize_succ {n : ℕ} (h : n + 1 < 2 ^ 64) :
  predSize (n + 1) = n
  := by
  rw [predSize, subSize_eq h (by omega)]
  omega

/-! ### The stack of counters -/

/-- The counters at the depths from `d` down to zero. -/
def counters (sizes : Vector ℕ 6) : ℕ → List ℕ
  | 0 => [sentinelSize sizes]
  | d + 1 => (if h : d + 1 < 6 then sizes[d + 1] else 0) :: counters sizes d

/-- Counts one element of the top of a stack of counters, and pops what becomes zero.  There
is no result when every counter is popped. -/
def commit : List ℕ → Option (List ℕ)
  | [] => none
  | n :: st => if predSize n = 0 then commit st else some (predSize n :: st)

theorem length_counters (sizes : Vector ℕ 6) :
  ∀ d, (counters sizes d).length = d + 1
  | 0 => rfl
  | d + 1 => by rw [counters, List.length_cons, length_counters sizes d]

/-- A change above depth `d` is not seen by the counters up to `d`. -/
theorem counters_set {sizes : Vector ℕ 6} {i n : ℕ} (hi : i < 6) :
  ∀ {d : ℕ}, d < i → counters (sizes.set i n) d = counters sizes d
  | 0, h => by
      rw [counters, counters, sentinelSize, sentinelSize, Vector.getElem_set_ne]
      omega
  | d + 1, h => by
      have hd : d + 1 < 6 := by omega
      rw [counters, counters, counters_set hi (by omega), dif_pos hd, dif_pos hd,
        Vector.getElem_set_ne]
      omega

/-- Setting the counter at depth `d` replaces the top. -/
theorem counters_set_self {sizes : Vector ℕ 6} {d n : ℕ} (h : d < 6) :
  counters (sizes.set d n) d = n :: (counters sizes d).tail
  := by
  cases d with
  | zero => rw [counters, counters, sentinelSize, Vector.getElem_set_self, List.tail_cons]
  | succ d =>
      rw [counters, counters, counters_set h (by omega), dif_pos h, Vector.getElem_set_self,
        List.tail_cons]

theorem commit_length_le {st st' : List ℕ} (h : commit st = some st') :
  st'.length ≤ st.length
  := by
  induction st with
  | nil => cases h
  | cons n st ih =>
      rw [commit] at h
      split at h
      · have := ih h
        rw [List.length_cons]
        omega
      · obtain rfl := Option.some.inj h
        rw [List.length_cons, List.length_cons]

/-- The loop of `commit_elem`, entered with the counter at the top decremented, is `commit`
on the stack. -/
theorem unwind_spec :
  ∀ {d : ℕ} (sizes : Vector ℕ 6) (h : d < 6),
    (commit (counters sizes d) = none →
      Parser.unwind d (sizes.set d (predSize sizes[d])) = .error .depthWrap) ∧
    (∀ st, commit (counters sizes d) = some st →
      ∃ d' sizes', Parser.unwind d (sizes.set d (predSize sizes[d])) = .ok (d', sizes')
        ∧ d' ≤ d ∧ counters sizes' d' = st)
  | 0, sizes, h => by
      rw [counters, commit, Parser.unwind, sentinelSize, sentinelSize, Vector.getElem_set_self]
      split
      · simp [commit]
      · refine ⟨by simp, ?_⟩
        intro st hst
        refine ⟨0, _, rfl, le_rfl, ?_⟩
        rw [counters_set_self h]
        apply Option.some.inj hst
  | d + 1, sizes, h => by
      have hd : d < 6 := by omega
      rw [counters, commit, Parser.unwind, dif_pos h, dif_pos h, Vector.getElem_set_self]
      split
      · have hget : (sizes.set (d + 1) (predSize sizes[d + 1]))[d] = sizes[d] := by
          rw [Vector.getElem_set_ne]
          omega
        obtain ⟨hnone, hsome⟩ := unwind_spec (sizes.set (d + 1) (predSize sizes[d + 1])) hd
        rw [counters_set h (by omega)] at hnone hsome
        refine ⟨hnone, ?_⟩
        intro st hst
        obtain ⟨d', sizes', hu, hle, hc⟩ := hsome st hst
        exact ⟨d', sizes', hu, by omega, hc⟩
      · refine ⟨by simp, ?_⟩
        intro st hst
        refine ⟨d + 1, _, rfl, le_rfl, ?_⟩
        rw [counters_set_self h, counters, List.tail_cons]
        apply Option.some.inj hst

namespace Parser

/-- The counters from the top of the stack down to the sentinel. -/
def stack (p : Parser) : List ℕ :=
  counters p.sizes p.depth

@[simp]
theorem length_stack (p : Parser) :
  p.stack.length = p.depth + 1
  := length_counters p.sizes p.depth

/-- `q` differs from `p` in its stack at most, which is `st`. -/
structure Stacked (p q : Parser) (st : List ℕ) : Prop where
  stack : q.stack = st
  bulk : q.bulk = p.bulk
  bulkLength : q.bulkLength = p.bulkLength
  consumed : q.consumed = p.consumed

/-- `commit_elem` is `commit` on the stack, and wraps the depth when there is no counter left
to stop at. -/
theorem commitElem_spec {p : Parser} (h : p.depth < 6) :
  (commit p.stack = none → p.commitElem = .error .depthWrap) ∧
  (∀ st, commit p.stack = some st →
    ∃ q, p.commitElem = .ok q ∧ Stacked p q st)
  := by
  obtain ⟨hnone, hsome⟩ := unwind_spec p.sizes h
  rw [commitElem, dif_pos h]
  constructor
  · intro hc
    rw [hnone hc]
    rfl
  · intro st hst
    obtain ⟨d', sizes', hu, -, hc⟩ := hsome st hst
    refine ⟨{ p with depth := d', sizes := sizes' }, ?_, ?_⟩
    · rw [hu]
      rfl
    · exact ⟨hc, rfl, rfl, rfl⟩

theorem commitElem_of_commit {p : Parser} {st : List ℕ} (h : p.depth < 6)
    (hst : commit p.stack = some st) :
  ∃ q, p.commitElem = .ok q ∧ Stacked p q st
  := (commitElem_spec h).2 st hst

/-- A successful `commit_elem` is a successful `commit` on the stack. -/
theorem commitElem_ok {p q : Parser} (h : p.commitElem = .ok q) :
  p.depth < 6 ∧ ∃ st, commit p.stack = some st ∧ Stacked p q st
  := by
  have hd : p.depth < 6 := by
    by_contra hd
    rw [commitElem, dif_neg hd] at h
    cases h
  obtain ⟨hnone, hsome⟩ := commitElem_spec hd
  cases hc : commit p.stack with
  | none =>
      rw [hnone hc] at h
      cases h
  | some st =>
      obtain ⟨q', hq, hs⟩ := hsome st hc
      rw [h] at hq
      obtain rfl := Except.ok.inj hq
      exact ⟨hd, st, rfl, hs⟩

end Parser

/-! ### Header lines -/

/-- What a header line asks for, as far as it does not depend on the state of the parser: it
is refused, it is a bulk header without content, a value on the line itself, the header of a
bulk, the part that ends a streamed string, the start of a streamed string, or the header of
an aggregate. -/
inductive Header where
  | malformed (ec : Error)
  | lengthless
  | simple
  | bulk (n : ℕ)
  | terminator
  | stream
  | aggregate (n : ℕ)
deriving DecidableEq

/-- A header line: the type given by its first byte, the content up to the separator, and the
position after the separator. -/
structure Line where
  type : DataType
  content : Bytes
  next : ℕ

/-- A header that declares a length or a count. -/
def Header.ofCount (sv : Bytes) (f : ℕ → Header) : Header :=
  match toInt sv with
  | none => .malformed .notANumber
  | some n => f n

/-- The request a header line makes. -/
def Line.header (l : Line) : Header :=
  match l.type with
  | .streamedStringPart => .ofCount l.content fun n => if n = 0 then .terminator else .bulk n
  | .blobError | .verbatimString | .blobString =>
      match l.content with
      | [] => .lengthless
      | c :: _ => if c = 63 then .stream else .ofCount l.content .bulk
  | .boolean =>
      match l.content with
      | [] => .malformed .emptyField
      | c :: _ => if c ≠ 102 ∧ c ≠ 116 then .malformed .unexpectedBoolValue else .simple
  | .doublean | .bigNumber | .number =>
      match l.content with
      | [] => .malformed .emptyField
      | _ :: _ => .simple
  | .simpleError | .simpleString | .null => .simple
  | .push | .set | .array | .attribute | .map => .ofCount l.content .aggregate
  | .streamedString | .invalid => .malformed .invalidDataType

/-- The header line at a position of a view, if its separator has arrived. -/
def lineAt (view : Bytes) (start : ℕ) : Option Line :=
  (findSep view start).map fun pos =>
    ⟨toType (view.getD start 0),
      (view.drop (start + 1)).take (subSize (subSize pos 1) start), pos + 2⟩

namespace Parser

/-- The header line at the current position. -/
def nextLine (p : Parser) (view : Bytes) : Option Line :=
  lineAt view p.consumed

/-- What `consume` does with a header line when no bulk is expected. -/
def onLine (p : Parser) (view : Bytes) (l : Line) : Except Fault (Parser × Outcome) :=
  match l.header with
  | .malformed ec => .ok (p, .failed ec)
  | .lengthless => .error .outOfRange
  | .simple =>
      p.commitElem.map fun q =>
        ({ q with consumed := l.next }, .node ⟨l.type, 1, p.depth, l.content⟩)
  | .bulk n => consumeBulk { p with bulkLength := n, bulk := l.type, consumed := l.next } view
  | .terminator =>
      ((setSize { p with bulkLength := 0 } p.depth 1).bind commitElem).map fun q =>
        ({ q with consumed := l.next }, .node ⟨.streamedStringPart, 1, p.depth, []⟩)
  | .stream =>
      (setSize { p with depth := p.depth + 1 } (p.depth + 1) (2 ^ 64 - 1)).map fun q =>
        ({ q with consumed := l.next }, .node ⟨.streamedString, 0, p.depth + 1, []⟩)
  | .aggregate 0 =>
      p.commitElem.map fun q =>
        ({ q with consumed := l.next }, .node ⟨l.type, 0, p.depth, []⟩)
  | .aggregate (n + 1) =>
      if p.depth = maxEmbeddedDepth then .ok (p, .failed .exceeedsMaxNestedDepth)
      else
        (setSize { p with depth := p.depth + 1 } (p.depth + 1)
            ((n + 1) * elementMultiplicity l.type % 2 ^ 64)).map fun q =>
          ({ q with consumed := l.next }, .node ⟨l.type, n + 1, p.depth, []⟩)

section OnLine

variable {p : Parser} {view : Bytes} {l : Line} {n : ℕ}

theorem onLine_malformed {ec : Error} (h : l.header = .malformed ec) :
  p.onLine view l = .ok (p, .failed ec)
  := by rw [onLine, h]

theorem onLine_lengthless (h : l.header = .lengthless) :
  p.onLine view l = .error .outOfRange
  := by rw [onLine, h]

theorem onLine_simple (h : l.header = .simple) :
  p.onLine view l
    = p.commitElem.map fun q =>
        ({ q with consumed := l.next }, .node ⟨l.type, 1, p.depth, l.content⟩)
  := by rw [onLine, h]

theorem onLine_bulk (h : l.header = .bulk n) :
  p.onLine view l
    = consumeBulk { p with bulkLength := n, bulk := l.type, consumed := l.next } view
  := by rw [onLine, h]

theorem onLine_terminator (h : l.header = .terminator) :
  p.onLine view l
    = ((setSize { p with bulkLength := 0 } p.depth 1).bind commitElem).map fun q =>
        ({ q with consumed := l.next }, .node ⟨.streamedStringPart, 1, p.depth, []⟩)
  := by rw [onLine, h]

theorem onLine_stream (h : l.header = .stream) :
  p.onLine view l
    = (setSize { p with depth := p.depth + 1 } (p.depth + 1) (2 ^ 64 - 1)).map fun q =>
        ({ q with consumed := l.next }, .node ⟨.streamedString, 0, p.depth + 1, []⟩)
  := by rw [onLine, h]

theorem onLine_aggregate_zero (h : l.header = .aggregate 0) :
  p.onLine view l
    = p.commitElem.map fun q =>
        ({ q with consumed := l.next }, .node ⟨l.type, 0, p.depth, []⟩)
  := by rw [onLine, h]

theorem onLine_aggregate_limit (h : l.header = .aggregate (n + 1))
    (hd : p.depth = maxEmbeddedDepth) :
  p.onLine view l = .ok (p, .failed .exceeedsMaxNestedDepth)
  := by
  rw [onLine, h]
  apply if_pos hd

theorem onLine_aggregate_succ (h : l.header = .aggregate (n + 1))
    (hd : p.depth ≠ maxEmbeddedDepth) :
  p.onLine view l
    = (setSize { p with depth := p.depth + 1 } (p.depth + 1)
          ((n + 1) * elementMultiplicity l.type % 2 ^ 64)).map fun q =>
        ({ q with consumed := l.next }, .node ⟨l.type, n + 1, p.depth, []⟩)
  := by
  rw [onLine, h]
  apply if_neg hd

end OnLine

theorem bulk_of_not_expected {p : Parser} (h : p.bulkExpected = false) :
  p.bulk = .invalid
  := by
  simpa [bulkExpected] using h

/-- What `consume` makes of the result of `consume_impl` on a line. -/
def afterImpl (view : Bytes) (l : Line) :
    Except Fault (Parser × Except Error Node) → Except Fault (Parser × Outcome)
  | .error f => .error f
  | .ok (q, .error ec) => .ok (q, .failed ec)
  | .ok (q, .ok ret) =>
      if q.bulkExpected then consumeBulk { q with consumed := l.next } view
      else .ok ({ q with consumed := l.next }, .node ret)

/-- A result in which the parser expects no bulk is returned as it is. -/
theorem afterImpl_map {view : Bytes} {l : Line} {nd : Node} :
  ∀ {r : Except Fault Parser}, (∀ q, r = .ok q → q.bulk = .invalid) →
    afterImpl view l (r.map fun q => (q, .ok nd))
      = r.map fun q => ({ q with consumed := l.next }, .node nd)
  | .error _, _ => rfl
  | .ok q, h => by
      have hq : q.bulkExpected = false := by
        simp [bulkExpected, h q rfl]
      rw [Except.map, Except.map, afterImpl, hq]
      rfl

theorem commitElem_bulk {p q : Parser} (h : p.commitElem = .ok q) :
  q.bulk = p.bulk
  := by
  obtain ⟨-, st, -, hs⟩ := commitElem_ok h
  apply hs.bulk

theorem setSize_ok {p q : Parser} {i n : ℕ} (h : p.setSize i n = .ok q) :
  i < 6 ∧ q.bulk = p.bulk ∧ q.bulkLength = p.bulkLength ∧ q.consumed = p.consumed
    ∧ q.depth = p.depth ∧ counters q.sizes i = n :: (counters p.sizes i).tail
  := by
  rw [setSize] at h
  split at h
  · rename_i hi
    obtain rfl := Except.ok.inj h
    exact ⟨hi, rfl, rfl, rfl, rfl, counters_set_self hi⟩
  · cases h

/-- A header that announces a bulk goes on to the bulk. -/
theorem afterImpl_bulk {p : Parser} {view : Bytes} {l : Line} {n : ℕ} (h : l.type ≠ .invalid) :
  afterImpl view l (.ok ({ p with bulkLength := n, bulk := l.type }, .ok {}))
    = consumeBulk { p with bulkLength := n, bulk := l.type, consumed := l.next } view
  := by
  simp [afterImpl, bulkExpected, h]

theorem afterImpl_consumeSimple {p : Parser} (hb : p.bulk = .invalid) (view : Bytes) (l : Line)
    (h : l.header = .simple) :
  afterImpl view l (p.consumeSimple l.type l.content) = p.onLine view l
  := by
  rw [onLine_simple h]
  apply afterImpl_map
  intro q hq
  rw [commitElem_bulk hq, hb]

theorem afterImpl_consumePart {p : Parser} (hb : p.bulk = .invalid) (view : Bytes) (l : Line)
    (ht : l.type = .streamedStringPart) :
  afterImpl view l (p.consumePart l.content) = p.onLine view l
  := by
  have hheader : l.header
      = .ofCount l.content fun n => if n = 0 then .terminator else .bulk n := by
    rw [Line.header, ht]
  rw [Header.ofCount] at hheader
  rw [consumePart]
  rcases hn : toInt l.content with _ | _ | n <;> rw [hn] at hheader
  · rw [onLine_malformed hheader]
    rfl
  · rw [onLine_terminator hheader]
    simp only
    cases hq : setSize { p with bulkLength := 0 } p.depth 1 with
    | error f => rfl
    | ok q =>
        have hqb : q.bulk = .invalid := (setSize_ok hq).2.1.trans hb
        have hq' : { q with bulk := .invalid } = q := by rw [← hqb]
        simp only [hq', Except.bind]
        apply afterImpl_map
        intro r hr
        rw [commitElem_bulk hr, hqb]
  · rw [onLine_bulk hheader, ← ht]
    apply afterImpl_bulk
    rw [ht]
    simp

theorem afterImpl_consumeBulkHeader {p : Parser} (hb : p.bulk = .invalid) (view : Bytes) (l : Line)
    (ht : l.type = .blobError ∨ l.type = .verbatimString ∨ l.type = .blobString) :
  afterImpl view l (p.consumeBulkHeader l.type l.content) = p.onLine view l
  := by
  have hheader : l.header = match l.content with
      | [] => .lengthless
      | c :: _ => if c = 63 then .stream else .ofCount l.content .bulk := by
    rw [Line.header]
    rcases ht with ht | ht | ht <;> rw [ht]
  rw [consumeBulkHeader]
  cases hc : l.content with
  | nil =>
      rw [hc] at hheader
      rw [onLine_lengthless hheader]
      rfl
  | cons c cs =>
      rw [hc] at hheader
      simp only [charAt, List.length_cons, Nat.zero_lt_succ, List.getElem?_eq_getElem,
        List.getElem_cons_zero]
      by_cases h63 : c = 63
      · simp only [if_pos h63] at hheader ⊢
        rw [onLine_stream hheader]
        apply afterImpl_map
        intro q hq
        rw [(setSize_ok hq).2.1, hb]
      · simp only [if_neg h63, Header.ofCount] at hheader ⊢
        cases hn : toInt (c :: cs) with
        | none =>
            rw [hn] at hheader
            rw [onLine_malformed hheader]
            rfl
        | some n =>
            rw [hn] at hheader
            rw [onLine_bulk hheader]
            apply afterImpl_bulk
            rcases ht with ht | ht | ht <;> simp [ht]

theorem afterImpl_consumeAggregate {p : Parser} (hb : p.bulk = .invalid) (view : Bytes) (l : Line)
    (ht : isAggregate l.type = true) :
  afterImpl view l (p.consumeAggregate l.type l.content) = p.onLine view l
  := by
  have hheader : l.header = .ofCount l.content .aggregate := by
    rw [Line.header]
    cases htype : l.type <;> simp [htype, isAggregate] at ht <;> rfl
  rw [Header.ofCount] at hheader
  rw [consumeAggregate]
  rcases hn : toInt l.content with _ | _ | n <;> rw [hn] at hheader
  · rw [onLine_malformed hheader]
    rfl
  · rw [onLine_aggregate_zero hheader]
    apply afterImpl_map
    intro q hq
    rw [commitElem_bulk hq, hb]
  · by_cases hd : p.depth = maxEmbeddedDepth
    · rw [onLine_aggregate_limit hheader hd]
      simp only [if_pos hd]
      rfl
    · rw [onLine_aggregate_succ hheader hd]
      simp only [if_neg hd]
      apply afterImpl_map
      intro q hq
      rw [(setSize_ok hq).2.1, hb]

/-- `consume_impl` on a line, with what `consume` makes of its result, is `onLine`. -/
theorem afterImpl_consumeImpl {p : Parser} (hb : p.bulk = .invalid) (view : Bytes) (l : Line) :
  afterImpl view l (p.consumeImpl l.type l.content) = p.onLine view l
  := by
  have hsimple := afterImpl_consumeSimple hb view l
  rw [Line.header] at hsimple
  cases ht : l.type with
  | streamedStringPart => apply afterImpl_consumePart hb view l ht
  | blobError | verbatimString | blobString =>
      have h := afterImpl_consumeBulkHeader hb view l (by simp [ht])
      rw [ht] at h
      apply h
  | push | set | array | «attribute» | map =>
      have h := afterImpl_consumeAggregate hb view l (by simp [ht, isAggregate])
      rw [ht] at h
      apply h
  | simpleError | simpleString | null =>
      rw [ht] at hsimple
      apply hsimple rfl
  | streamedString | invalid =>
      have h : l.header = .malformed .invalidDataType := by rw [Line.header, ht]
      rw [onLine_malformed h]
      rfl
  | boolean =>
      rw [ht] at hsimple
      simp only [consumeImpl]
      cases hc : l.content with
      | nil =>
          have h : l.header = .malformed .emptyField := by rw [Line.header, ht, hc]
          rw [onLine_malformed h]
          rfl
      | cons c cs =>
          rw [hc] at hsimple
          simp only at hsimple ⊢
          by_cases hbool : c ≠ 102 ∧ c ≠ 116
          · have h : l.header = .malformed .unexpectedBoolValue := by
              rw [Line.header, ht, hc]
              apply if_pos hbool
            rw [if_pos hbool, onLine_malformed h]
            rfl
          · rw [if_neg hbool] at hsimple ⊢
            apply hsimple rfl
  | doublean | bigNumber | number =>
      rw [ht] at hsimple
      simp only [consumeImpl]
      cases hc : l.content with
      | nil =>
          have h : l.header = .malformed .emptyField := by rw [Line.header, ht, hc]
          rw [onLine_malformed h]
          rfl
      | cons c cs =>
          rw [hc] at hsimple
          apply hsimple rfl

/-! ### A call of `consume` -/

theorem findSep_spec {view : Bytes} {c pos : ℕ} (h : findSep view c = some pos) :
  c ≤ pos ∧ pos + 2 ≤ view.length ∧ Separator.find 13 10 (view.drop c) = some (pos - c)
  := by
  obtain ⟨i, hi, rfl⟩ := Option.map_eq_some_iff.mp h
  have hle := Separator.find_add_two_le hi
  rw [List.length_drop] at hle
  refine ⟨by omega, by omega, ?_⟩
  rw [hi]
  congr 1
  omega

/-- Without a separator in sight, a call that expects no bulk needs more data. -/
theorem consume_of_no_line {p : Parser} {view : Bytes} (hb : p.bulkExpected = false)
    (hl : p.nextLine view = none) :
  p.consume view = .ok (p, .needsMore)
  := by
  have hf : findSep view p.consumed = none := Option.map_eq_none_iff.mp hl
  rw [consume, hb, hf]
  rfl

/-- A call that expects no bulk acts on the next line.  Neither the byte at its start nor its
content is looked up outside the view. -/
theorem consume_of_line {p : Parser} {view : Bytes} {l : Line} (hb : p.bulkExpected = false)
    (hl : p.nextLine view = some l) :
  p.consume view = p.onLine view l
  := by
  obtain ⟨pos, hf, rfl⟩ := Option.map_eq_some_iff.mp hl
  obtain ⟨hc, hpos, -⟩ := findSep_spec hf
  have hlt : p.consumed < view.length := by omega
  have hchar : charAt view p.consumed = .ok (view.getD p.consumed 0) := by
    rw [charAt, List.getD_eq_getElem?_getD, List.getElem?_eq_getElem hlt]
    rfl
  have hsub : substr view (p.consumed + 1) (subSize (subSize pos 1) p.consumed)
      = .ok ((view.drop (p.consumed + 1)).take (subSize (subSize pos 1) p.consumed)) := by
    rw [substr, if_pos (by omega)]
  rw [← afterImpl_consumeImpl (bulk_of_not_expected hb), consume, hb, hf]
  simp only [Bool.false_eq_true, ↓reduceIte, consumeLine, hchar, hsub]
  rfl

/-- A call that expects a bulk goes to the bulk. -/
theorem consume_of_bulk {p : Parser} {view : Bytes} (hb : p.bulkExpected = true) :
  p.consume view = p.consumeBulk view
  := by
  rw [consume, hb]
  rfl

/-- A bulk that has not arrived as a whole needs more data. -/
theorem consumeBulk_short {p : Parser} {view : Bytes}
    (h : subSize view.length p.consumed < (p.bulkLength + 2) % 2 ^ 64) :
  p.consumeBulk view = .ok (p, .needsMore)
  := by
  simp only [consumeBulk, if_pos h]

/-- A bulk that has arrived is returned as a node and counted. -/
theorem consumeBulk_enough {p : Parser} {view : Bytes}
    (h : ¬ subSize view.length p.consumed < (p.bulkLength + 2) % 2 ^ 64)
    (hc : p.consumed ≤ view.length) :
  p.consumeBulk view
    = (commitElem { p with bulk := .invalid }).map fun q =>
        ({ q with consumed := p.consumed + (p.bulkLength + 2) % 2 ^ 64 },
          .node ⟨p.bulk, 1, p.depth, (view.drop p.consumed).take p.bulkLength⟩)
  := by
  simp only [consumeBulk, if_neg h, substr, if_pos hc]

end Parser

/-! ### The effect of a line on the stack -/

/-- The stack after a line that yields a node.  There is none if the line is refused, if it
would nest too deep, or if every counter is popped. -/
def Line.effect (l : Line) (st : List ℕ) : Option (List ℕ) :=
  match l.header with
  | .malformed _ | .lengthless => none
  | .simple | .bulk _ | .aggregate 0 => commit st
  | .terminator => commit st.tail
  | .stream => if st.length < 6 then some ((2 ^ 64 - 1) :: st) else none
  | .aggregate (n + 1) =>
      if st.length < 6 then some ((n + 1) * elementMultiplicity l.type % 2 ^ 64 :: st) else none

/-- The node of a line read at a given depth. -/
def Line.node (l : Line) (view : Bytes) (depth : ℕ) : Node :=
  match l.header with
  | .malformed _ | .lengthless => {}
  | .simple => ⟨l.type, 1, depth, l.content⟩
  | .bulk n => ⟨l.type, 1, depth, (view.drop l.next).take n⟩
  | .terminator => ⟨.streamedStringPart, 1, depth, []⟩
  | .stream => ⟨.streamedString, 0, depth + 1, []⟩
  | .aggregate n => ⟨l.type, n, depth, []⟩

/-- The position after a line and the bulk it announces. -/
def Line.finish (l : Line) : ℕ :=
  match l.header with
  | .bulk n => l.next + (n + 2) % 2 ^ 64
  | _ => l.next

theorem Line.next_le_finish (l : Line) :
  l.next ≤ l.finish
  := by
  rw [Line.finish]
  split
  · apply Nat.le_add_right
  · apply le_rfl

namespace Parser

/-- The parser stands between two elements at position `c`, with the stack `st`. -/
structure At (q : Parser) (st : List ℕ) (c : ℕ) : Prop where
  stack : q.stack = st
  bulk : q.bulk = .invalid
  consumed : q.consumed = c

theorem Stacked.at_consumed {p q : Parser} {st : List ℕ} {c : ℕ} (h : Stacked p q st)
    (hb : p.bulk = .invalid) :
  At { q with consumed := c } st c
  := ⟨h.stack, h.bulk.trans hb, rfl⟩

/-- Pushing a counter. -/
theorem setSize_push {p : Parser} {n : ℕ} (h : p.depth + 1 < 6) :
  ∃ q, setSize { p with depth := p.depth + 1 } (p.depth + 1) n = .ok q
    ∧ Stacked p q (n :: p.stack)
  := by
  refine ⟨_, dif_pos h, ?_, rfl, rfl, rfl⟩
  show counters (p.sizes.set (p.depth + 1) n) (p.depth + 1) = _
  rw [counters_set_self h]
  rfl

/-- Setting the counter on top to one and counting it is counting the one below it. -/
theorem setSize_one_commitElem {p : Parser} (h : p.depth < 6) :
  (commit p.stack.tail = none →
    (setSize { p with bulkLength := 0 } p.depth 1).bind commitElem = .error .depthWrap) ∧
  (∀ st, commit p.stack.tail = some st →
    ∃ q, (setSize { p with bulkLength := 0 } p.depth 1).bind commitElem = .ok q
      ∧ q.stack = st ∧ q.bulk = p.bulk)
  := by
  have hset : setSize { p with bulkLength := 0 } p.depth 1
      = .ok { p with bulkLength := 0, sizes := p.sizes.set p.depth 1 } := dif_pos h
  have hstack : stack { p with bulkLength := 0, sizes := p.sizes.set p.depth 1 }
      = 1 :: p.stack.tail := counters_set_self h
  have hone : commit (1 :: p.stack.tail) = commit p.stack.tail := by
    rw [commit, predSize_succ (by omega), if_pos rfl]
  rw [hset]
  obtain ⟨hnone, hsome⟩ := commitElem_spec
    (p := { p with bulkLength := 0, sizes := p.sizes.set p.depth 1 }) h
  rw [hstack, hone] at hnone hsome
  refine ⟨hnone, ?_⟩
  intro st hst
  obtain ⟨q, hq, hs⟩ := hsome st hst
  exact ⟨q, hq, hs.stack, hs.bulk⟩

section Effect

variable {p : Parser} {view : Bytes} {l : Line} {st : List ℕ}

/-- A bulk that lies inside the view is counted. -/
theorem onLine_bulk_fits {n : ℕ} (hd : p.depth < 6) (hv : view.length < 2 ^ 64)
    (h : l.header = .bulk n) (hst : commit p.stack = some st) (hfit : l.finish ≤ view.length) :
  ∃ q, p.onLine view l = .ok (q, .node ⟨l.type, 1, p.depth, (view.drop l.next).take n⟩)
    ∧ At q st l.finish
  := by
  have hfin : l.finish = l.next + (n + 2) % 2 ^ 64 := by rw [Line.finish, h]
  rw [hfin] at hfit ⊢
  have henough : ¬ subSize view.length l.next < (n + 2) % 2 ^ 64 := by
    rw [subSize_eq hv (by omega)]
    omega
  obtain ⟨q, hq, hs⟩ := commitElem_of_commit
    (p := { p with bulkLength := n, bulk := .invalid, consumed := l.next }) hd hst
  refine ⟨{ q with consumed := l.next + (n + 2) % 2 ^ 64 }, ?_, hs.at_consumed rfl⟩
  rw [onLine_bulk h, consumeBulk_enough henough (by simp only; omega)]
  simp only [hq]
  rfl

/-- A bulk that does not lie inside the view needs more data. -/
theorem onLine_bulk_short {n : ℕ} (hv : view.length < 2 ^ 64) (hn : l.next ≤ view.length)
    (h : l.header = .bulk n) (hfit : ¬ l.finish ≤ view.length) :
  p.onLine view l
    = .ok ({ p with bulkLength := n, bulk := l.type, consumed := l.next }, .needsMore)
  := by
  have hfin : l.finish = l.next + (n + 2) % 2 ^ 64 := by rw [Line.finish, h]
  rw [hfin] at hfit
  rw [onLine_bulk h, consumeBulk_short]
  simp only
  rw [subSize_eq hv hn]
  omega

/-- A line with an effect on the stack, and its bulk inside the view, yields its node. -/
theorem onLine_node (hd : p.depth < 6) (hb : p.bulk = .invalid) (hv : view.length < 2 ^ 64)
    (heff : l.effect p.stack = some st) (hfit : l.finish ≤ view.length) :
  ∃ q, p.onLine view l = .ok (q, .node (l.node view p.depth)) ∧ At q st l.finish
  := by
  rw [Line.effect, length_stack] at heff
  rw [Line.node]
  cases h : l.header with
  | malformed ec =>
      rw [h] at heff
      cases heff
  | lengthless =>
      rw [h] at heff
      cases heff
  | simple =>
      rw [h] at heff
      obtain ⟨q, hq, hs⟩ := commitElem_of_commit hd heff
      rw [onLine_simple h, hq, Line.finish, h]
      exact ⟨_, rfl, hs.at_consumed hb⟩
  | bulk n =>
      rw [h] at heff
      apply onLine_bulk_fits hd hv h heff hfit
  | terminator =>
      rw [h] at heff
      obtain ⟨q, hq, hstack, hbulk⟩ := (setSize_one_commitElem hd).2 st heff
      rw [onLine_terminator h, hq, Line.finish, h]
      exact ⟨_, rfl, hstack, hbulk.trans hb, rfl⟩
  | stream =>
      simp only [h, Option.ite_none_right_eq_some] at heff
      obtain ⟨hlt, hst⟩ := heff
      obtain rfl := Option.some.inj hst
      obtain ⟨q, hq, hs⟩ := setSize_push (n := 2 ^ 64 - 1) hlt
      rw [onLine_stream h, hq, Line.finish, h]
      exact ⟨_, rfl, hs.at_consumed hb⟩
  | aggregate n =>
      cases n with
      | zero =>
          rw [h] at heff
          obtain ⟨q, hq, hs⟩ := commitElem_of_commit hd heff
          rw [onLine_aggregate_zero h, hq, Line.finish, h]
          exact ⟨_, rfl, hs.at_consumed hb⟩
      | succ n =>
          simp only [h, Option.ite_none_right_eq_some] at heff
          obtain ⟨hlt, hst⟩ := heff
          obtain rfl := Option.some.inj hst
          have hmax : p.depth ≠ maxEmbeddedDepth := by
            rw [maxEmbeddedDepth]
            omega
          obtain ⟨q, hq, hs⟩ := setSize_push
            (n := (n + 1) * elementMultiplicity l.type % 2 ^ 64) hlt
          rw [onLine_aggregate_succ h hmax, hq, Line.finish, h]
          exact ⟨_, rfl, hs.at_consumed hb⟩

/-- Everything a header line can lead to: it is refused; it is a bulk header without content;
it yields its node; its bulk has not arrived; every counter is popped; a streamed string or an
aggregate would be nested too deep. -/
inductive Result (p : Parser) (view : Bytes) (l : Line) : Except Fault (Parser × Outcome) → Prop where
  | refused {ec : Error} : l.header = .malformed ec → Result p view l (.ok (p, .failed ec))
  | lengthless : l.header = .lengthless → Result p view l (.error .outOfRange)
  | node {q : Parser} {st : List ℕ} : l.effect p.stack = some st → l.finish ≤ view.length →
      At q st l.finish → Result p view l (.ok (q, .node (l.node view p.depth)))
  | short {n : ℕ} : l.header = .bulk n → view.length < l.finish →
      Result p view l
        (.ok ({ p with bulkLength := n, bulk := l.type, consumed := l.next }, .needsMore))
  | bottom : l.effect p.stack = none → l.header ≠ .stream →
      (commit p.stack = none ∨ l.header = .terminator ∧ commit p.stack.tail = none) →
      Result p view l (.error .depthWrap)
  | streamLimit : l.header = .stream → p.depth = maxEmbeddedDepth →
      Result p view l (.error (.sizesIndex 6))
  | aggregateLimit {n : ℕ} : l.header = .aggregate (n + 1) → p.depth = maxEmbeddedDepth →
      Result p view l (.ok (p, .failed .exceeedsMaxNestedDepth))

/-- `commit_elem` without a counter to stop at. -/
theorem commitElem_of_commit_none (hd : p.depth < 6) (h : commit p.stack = none) :
  p.commitElem = .error .depthWrap
  := (commitElem_spec hd).1 h

/-- The results of a header line, when the parser stands between two elements. -/
theorem onLine_result (hd : p.depth < 6) (hb : p.bulk = .invalid) (hv : view.length < 2 ^ 64)
    (hn : l.next ≤ view.length) :
  Result p view l (p.onLine view l)
  := by
  by_cases hfit : l.finish ≤ view.length
  · cases heff : l.effect p.stack with
    | some st =>
        obtain ⟨q, hq, hat⟩ := onLine_node hd hb hv heff hfit
        rw [hq]
        apply Result.node heff hfit hat
    | none =>
        have heff' := heff
        rw [Line.effect, length_stack] at heff'
        cases h : l.header with
        | malformed ec =>
            rw [onLine_malformed h]
            apply Result.refused h
        | lengthless =>
            rw [onLine_lengthless h]
            apply Result.lengthless h
        | simple =>
            rw [h] at heff'
            rw [onLine_simple h, commitElem_of_commit_none hd heff']
            apply Result.bottom heff (by simp [h]) (.inl heff')
        | bulk n =>
            rw [h] at heff'
            have hfin : l.finish = l.next + (n + 2) % 2 ^ 64 := by rw [Line.finish, h]
            have henough : ¬ subSize view.length l.next < (n + 2) % 2 ^ 64 := by
              rw [subSize_eq hv hn]
              omega
            have hnone := commitElem_of_commit_none
              (p := { p with bulkLength := n, bulk := .invalid, consumed := l.next }) hd heff'
            rw [onLine_bulk h, consumeBulk_enough henough hn]
            simp only [hnone]
            apply Result.bottom heff (by simp [h]) (.inl heff')
        | terminator =>
            rw [h] at heff'
            rw [onLine_terminator h, (setSize_one_commitElem hd).1 heff']
            apply Result.bottom heff (by simp [h]) (.inr ⟨h, heff'⟩)
        | stream =>
            have hlim : p.depth = maxEmbeddedDepth := by
              simp only [h, ite_eq_right_iff, reduceCtorEq, imp_false] at heff'
              rw [maxEmbeddedDepth]
              omega
            rw [onLine_stream h, setSize, dif_neg (by rw [hlim, maxEmbeddedDepth]; omega)]
            simp only [hlim]
            apply Result.streamLimit h hlim
        | aggregate n =>
            cases n with
            | zero =>
                rw [h] at heff'
                rw [onLine_aggregate_zero h, commitElem_of_commit_none hd heff']
                apply Result.bottom heff (by simp [h]) (.inl heff')
            | succ n =>
                have hlim : p.depth = maxEmbeddedDepth := by
                  simp only [h, ite_eq_right_iff, reduceCtorEq, imp_false] at heff'
                  rw [maxEmbeddedDepth]
                  omega
                rw [onLine_aggregate_limit h hlim]
                apply Result.aggregateLimit h hlim
  · cases h : l.header with
    | bulk n =>
        rw [onLine_bulk_short hv hn h hfit]
        apply Result.short h (by omega)
    | malformed _ | lengthless | simple | terminator | stream | aggregate _ =>
        rw [Line.finish, h] at hfit
        exact absurd hn hfit

end Effect

end Parser

end Resp3
