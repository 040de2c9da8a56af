import BoostRedis.Resp3.Resumption
import BoostRedis.Resp3.Value

/-!
# Decoding undoes encoding

A parser that stands at the encoding of a value reads it, and gives the nodes of the value in
pre-order.  The element counted at the end of the value pops every aggregate that ends with it,
so the statement is about an arbitrary stack, and a value is a single element of it.
-/

namespace Resp3

/-! ### Header lines of an encoding -/

theorem toInt_numeral {n : ℕ} (h : n < 2 ^ 64) :
  toInt (Decimal.numeral n) = some n
  := by
  simp only [toInt, Decimal.digitRun_numeral, Decimal.numeral_ne_nil, Decimal.value_numeral, h, ↓reduceIte]

/-- A numeral does not start with a question mark. -/
theorem numeral_eq_cons (n : ℕ) :
  ∃ c l, Decimal.numeral n = c :: l ∧ c ≠ 63
  := by
  obtain ⟨c, l, h⟩ := List.exists_cons_of_ne_nil (Decimal.numeral_ne_nil n)
  refine ⟨c, l, h, ?_⟩
  rintro rfl
  have hmem : (63 : UInt8) ∈ Decimal.numeral n := by
    rw [h]
    apply List.mem_cons_self
  have := Decimal.isDigit_of_mem_numeral hmem
  revert this
  decide

theorem sep_not_infix_numeral (n : ℕ) :
  ¬ sep <:+: Decimal.numeral n
  := by
  intro h
  have hmem : (13 : UInt8) ∈ Decimal.numeral n := h.subset (by decide)
  have := Decimal.isDigit_of_mem_numeral hmem
  revert this
  decide

theorem toCode_ne_cr (t : DataType) :
  toCode t ≠ 13
  := by
  cases t <;> decide

/-- The wire code in front of a content does not make up a separator. -/
theorem find_sep_header {t : DataType} {content : Bytes} (h : ¬ sep <:+: content) (rest : Bytes) :
  Separator.find 13 10 (toCode t :: content ++ sep ++ rest) = some (content.length + 1)
  := by
  have hnone : Separator.find 13 10 (toCode t :: content) = none := by
    rw [Separator.find_eq_none_iff, List.infix_cons_iff]
    rintro (⟨l, hl⟩ | hinf)
    · apply toCode_ne_cr t (List.cons.inj hl).1.symm
    · exact h hinf
  have := Separator.find_of_none (by decide) rest hnone
  rw [List.append_assoc]
  apply this

/-- A content that a simple type can have is read as such. -/
theorem header_of_simpleContent {t : DataType} {content : Bytes}
    (h : simpleContent t content = true) :
  ¬ sep <:+: content ∧ t ≠ .streamedString ∧
    ∀ next, Line.header ⟨t, content, next⟩ = .simple
  := by
  simp only [simpleContent, Bool.and_eq_true, decide_eq_true_eq] at h
  obtain ⟨hsep, h⟩ := h
  have hts : t ≠ .streamedString := by
    rintro rfl
    cases h
  refine ⟨hsep, hts, fun next => ?_⟩
  cases t with
  | simpleString | simpleError | null => rfl
  | number | doublean | bigNumber =>
      cases content with
      | nil => simp at h
      | cons x content => rfl
  | boolean =>
      cases content with
      | nil => simp at h
      | cons x content =>
          simp only [List.head?_cons, Option.some.injEq, decide_eq_true_eq] at h
          obtain rfl | rfl := h <;> rfl
  | _ => cases h

/-- The length of a bulk, or of a part of a streamed string that is not empty, is read back. -/
theorem header_of_blob {t : DataType} {blob : Bytes}
    (ht : isBulk t = true ∨ t = .streamedStringPart ∧ blob ≠ []) (hlen : blob.length < 2 ^ 64)
    (next : ℕ) :
  Line.header ⟨t, Decimal.numeral blob.length, next⟩ = .bulk blob.length
  := by
  obtain ⟨x, l, hx, hne⟩ := numeral_eq_cons blob.length
  have hint := toInt_numeral hlen
  obtain ht | ⟨rfl, hblob⟩ := ht
  · cases t with
    | blobString | blobError | verbatimString =>
        simp only [Line.header, hx, hne, ↓reduceIte, Header.ofCount]
        rw [← hx, hint]
    | _ => cases ht
  · simp only [Line.header, Header.ofCount, hint]
    rw [if_neg (by simpa using hblob)]

section Lines

variable {p : Parser} {view content rest : Bytes} {t : DataType}

theorem drop_add_of_drop {l : Bytes} {c : ℕ} (h : view.drop c = l ++ rest) :
  view.drop (c + l.length) = rest
  := by
  rw [← List.drop_drop, h, List.drop_left]

theorem add_length_le_of_drop {l : Bytes} {c : ℕ} (h : view.drop c = l ++ rest) (hl : l ≠ []) :
  c + l.length ≤ view.length
  := by
  have hlen := congrArg List.length h
  rw [List.length_drop, List.length_append] at hlen
  have hpos := List.length_pos_iff.mpr hl
  omega

/-- The line of a header whose content has no separator. -/
theorem nextLine_of_drop (hv : view.length < 2 ^ 64) (ht : t ≠ .streamedString)
    (hc : ¬ sep <:+: content)
    (h : view.drop p.consumed = (toCode t :: content ++ sep) ++ rest) :
  p.nextLine view = some ⟨t, content, p.consumed + content.length + 3⟩
  := by
  have hlen := add_length_le_of_drop h (by simp)
  simp only [List.length_append, List.length_cons, sep, List.length_nil] at hlen
  have hfind : findSep view p.consumed = some (p.consumed + content.length + 1) := by
    rw [findSep, h, find_sep_header hc, Option.map_some]
    congr 1
  have hget : view.getD p.consumed 0 = toCode t := by
    have : view.getD p.consumed 0 = (view.drop p.consumed).getD 0 0 := by
      simp [List.getD_eq_getElem?_getD]
    rw [this, h]
    rfl
  have hcount : subSize (subSize (p.consumed + content.length + 1) 1) p.consumed = content.length := by
    have hpred : subSize (p.consumed + content.length + 1) 1 = p.consumed + content.length := by
      rw [subSize_eq (by omega) (by omega)]
      omega
    rw [hpred, subSize_eq (by omega) (by omega)]
    omega
  have hdrop : (view.drop (p.consumed + 1)).take content.length = content := by
    rw [← List.drop_drop, h]
    simp
  rw [Parser.nextLine, lineAt, hfind, Option.map_some, hget, toType_toCode ht, hcount, hdrop]

variable {st st' : List ℕ} {c : ℕ}

/-- A parser that stands at a header reads its line. -/
theorem consumes_line (hp : p.At st c) (hd : p.done = false) (hlen : st.length ≤ 6)
    (hv : view.length < 2 ^ 64) (ht : t ≠ .streamedString) (hc : ¬ sep <:+: content)
    (h : view.drop c = (toCode t :: content ++ sep) ++ rest) {l : Line}
    (hl : l = ⟨t, content, c + content.length + 3⟩) (heff : l.effect st = some st')
    (hfit : l.finish ≤ view.length) (hn : ∀ n, l.header = .bulk n → n + 2 < 2 ^ 64) :
  ∃ q, p.ConsumesFit view (l.node view (st.length - 1)) q ∧ Parser.At q st' l.finish
  := by
  have hdepth := p.length_stack
  rw [hp.stack] at hdepth
  have hb : p.bulkExpected = false := by simp [Parser.bulkExpected, hp.bulk]
  rw [← hp.consumed] at h hl
  rw [← hp.stack] at heff
  have hline := nextLine_of_drop hv ht hc h
  rw [← hl] at hline
  obtain ⟨q, hq, hat⟩ := Parser.onLine_node (by omega) hp.bulk hv heff hfit
  refine ⟨q, ⟨⟨hd, ?_⟩, ?_⟩, hat⟩
  · rw [Parser.consume_of_line hb hline, hq, hdepth]
    rfl
  · rintro ⟨-, l', n, hl', hbulk, hhuge⟩
    rw [hline] at hl'
    obtain rfl := Option.some.inj hl'
    have := hn n hbulk
    omega

/-- A header that is followed by no bulk of its own. -/
theorem consumes_header (st' : List ℕ) (hp : p.At st c) (hd : p.done = false) (hlen : st.length ≤ 6)
    (hv : view.length < 2 ^ 64) (ht : t ≠ .streamedString) (hc : ¬ sep <:+: content)
    (h : view.drop c = addSeparator (toCode t :: content) ++ rest)
    (hnb : ∀ next n, Line.header ⟨t, content, next⟩ ≠ .bulk n)
    (heff : ∀ next, Line.effect ⟨t, content, next⟩ st = some st') :
  ∃ q, p.ConsumesFit view (Line.node ⟨t, content, c + content.length + 3⟩ view (st.length - 1)) q
    ∧ Parser.At q st' (c + (addSeparator (toCode t :: content)).length)
  := by
  have hfit := add_length_le_of_drop h (by simp [addSeparator])
  have hend : c + (addSeparator (toCode t :: content)).length = c + content.length + 3 := by
    simp only [addSeparator, sep, List.length_append, List.length_cons, List.length_nil]
    omega
  have hfinish : Line.finish ⟨t, content, c + content.length + 3⟩ = c + content.length + 3 := by
    rw [Line.finish]
    split
    · rename_i n hn
      exact absurd hn (hnb _ n)
    · rfl
  rw [hend] at hfit ⊢
  obtain ⟨q, hq, hat⟩ := consumes_line hp hd hlen hv ht hc h rfl (heff _)
    (by rw [hfinish]; apply hfit) (fun n hn => absurd hn (hnb _ n))
  rw [hfinish] at hat
  exact ⟨q, hq, hat⟩

/-- A simple value is one element. -/
theorem consumes_simple (hp : p.At st c) (hd : p.done = false) (hlen : st.length ≤ 6)
    (hv : view.length < 2 ^ 64) (hc : simpleContent t content = true)
    (h : view.drop c = addSeparator (toCode t :: content) ++ rest) (hst : commit st = some st') :
  ∃ q, p.ConsumesFit view ⟨t, 1, st.length - 1, content⟩ q
    ∧ Parser.At q st' (c + (addSeparator (toCode t :: content)).length)
  := by
  obtain ⟨hsep, hts, hheader⟩ := header_of_simpleContent hc
  obtain ⟨q, hq, hat⟩ := consumes_header _ hp hd hlen hv hts hsep h
    (fun next n => by simp [hheader]) (fun next => by rw [Line.effect, hheader]; apply hst)
  rw [Line.node, hheader] at hq
  exact ⟨q, hq, hat⟩

/-- A bulk, or a part of a streamed string that is not empty, is one element. -/
theorem consumes_blob {blob : Bytes} (hp : p.At st c) (hd : p.done = false) (hlen : st.length ≤ 6)
    (hv : view.length < 2 ^ 64) (ht : isBulk t = true ∨ t = .streamedStringPart ∧ blob ≠ [])
    (h : view.drop c = addBlob (addHeader [] t blob.length) blob ++ rest)
    (hst : commit st = some st') :
  ∃ q, p.ConsumesFit view ⟨t, 1, st.length - 1, blob⟩ q
    ∧ Parser.At q st' (c + (addBlob (addHeader [] t blob.length) blob).length)
  := by
  have hfit := add_length_le_of_drop h (by simp [addBlob, sep])
  have hend : c + (addBlob (addHeader [] t blob.length) blob).length
      = c + (Decimal.numeral blob.length).length + 3 + (blob.length + 2) := by
    simp only [addBlob, addHeader, sep, List.length_append, List.length_cons, List.length_nil]
    omega
  rw [hend] at hfit ⊢
  have hmod : (blob.length + 2) % 2 ^ 64 = blob.length + 2 := Nat.mod_eq_of_lt (by omega)
  have hheader := header_of_blob ht (by omega) (c + (Decimal.numeral blob.length).length + 3)
  have hts : t ≠ .streamedString := by
    rintro rfl
    obtain ht | ⟨ht, -⟩ := ht <;> cases ht
  have hview : view.drop c
      = (toCode t :: Decimal.numeral blob.length ++ sep) ++ (blob ++ sep ++ rest) := by
    rw [h]
    simp [addBlob, addHeader]
  obtain ⟨q, hq, hat⟩ := consumes_line hp hd hlen hv hts (sep_not_infix_numeral _) hview rfl
    (by rw [Line.effect, hheader]; apply hst) (by rw [Line.finish, hheader]; simp only; omega)
    (fun n hn => by rw [hheader] at hn; obtain rfl := Header.bulk.inj hn; omega)
  have hvalue : (view.drop (c + (Decimal.numeral blob.length).length + 3)).take blob.length
      = blob := by
    have := drop_add_of_drop hview
    rw [show c + (toCode t :: Decimal.numeral blob.length ++ sep).length
      = c + (Decimal.numeral blob.length).length + 3 by simp [sep]; omega] at this
    rw [this, List.append_assoc, List.take_left]
  rw [Line.node, hheader] at hq
  rw [Line.finish, hheader] at hat
  simp only [hvalue] at hq
  simp only [hmod] at hat
  exact ⟨q, hq, hat⟩

/-- The header of an aggregate, and the end of a streamed string, are read back. -/
theorem header_of_count {t : DataType} {n : ℕ} (hn : n < 2 ^ 64) (next : ℕ) :
  (isAggregate t = true → Line.header ⟨t, Decimal.numeral n, next⟩ = .aggregate n) ∧
  Line.header ⟨.streamedStringPart, Decimal.numeral 0, next⟩ = .terminator
  := by
  constructor
  · intro ht
    have hint := toInt_numeral hn
    cases t with
    | array | push | set | map | «attribute» => simp only [Line.header, Header.ofCount, hint]
    | _ => cases ht
  · have hint := toInt_numeral (show 0 < 2 ^ 64 by omega)
    simp only [Line.header, Header.ofCount, hint, ↓reduceIte]

/-- The header of an aggregate is one element if the aggregate is empty, and otherwise puts the
number of its elements on the stack. -/
theorem consumes_aggregate {size : ℕ} (hp : p.At st c) (hd : p.done = false)
    (hlen : st.length ≤ 6) (hv : view.length < 2 ^ 64) (ht : isAggregate t = true)
    (hsize : size < 2 ^ 64) (h : view.drop c = addHeader [] t size ++ rest)
    (hst : size = 0 ∧ commit st = some st' ∨
      size ≠ 0 ∧ st.length < 6 ∧ st' = size * elementMultiplicity t % 2 ^ 64 :: st) :
  ∃ q, p.ConsumesFit view ⟨t, size, st.length - 1, []⟩ q
    ∧ Parser.At q st' (c + (addHeader [] t size).length)
  := by
  have hheader := fun next => (header_of_count hsize next).1 ht
  have hts : t ≠ .streamedString := by
    rintro rfl
    cases ht
  have heff : ∀ next, Line.effect ⟨t, Decimal.numeral size, next⟩ st = some st' := by
    intro next
    rw [Line.effect, hheader]
    cases size with
    | zero =>
        obtain ⟨-, hst⟩ | ⟨hne, -⟩ := hst
        · apply hst
        · exact absurd rfl hne
    | succ n =>
        obtain ⟨h0, -⟩ | ⟨-, hlt, rfl⟩ := hst
        · cases h0
        · apply if_pos hlt
  obtain ⟨q, hq, hat⟩ := consumes_header _ hp hd hlen hv hts (sep_not_infix_numeral size) h
    (fun next n => by simp [hheader]) heff
  rw [Line.node, hheader] at hq
  exact ⟨q, hq, hat⟩

end Lines

/-! ### Values -/

theorem commit_one (st : List ℕ) :
  commit (1 :: st) = commit st
  := by
  rw [commit, predSize_succ (by omega), if_pos rfl]

theorem commit_add_two {n : ℕ} (h : n + 2 < 2 ^ 64) (st : List ℕ) :
  commit ((n + 2) :: st) = some ((n + 1) :: st)
  := by
  rw [commit, predSize_succ h, if_neg (Nat.succ_ne_zero n)]

/-- Inside an aggregate the message is not done. -/
theorem Parser.At.not_done {q : Parser} {st : List ℕ} {c : ℕ} (h : q.At st c)
    (hst : 2 ≤ st.length) :
  q.done = false
  := by
  have hlen := q.length_stack
  rw [h.stack] at hlen
  have hdepth : q.depth ≠ 0 := by omega
  simp [Parser.done, hdepth]

section Values

variable {view rest : Bytes} {st : List ℕ}

/-- The parts of a streamed string, read while its counter is far from zero. -/
theorem run_parts (hv : view.length < 2 ^ 64) (hst : 1 ≤ st.length) (hlen : st.length < 6) :
  ∀ (parts : List Bytes) {p : Parser} {c k : ℕ}, (∀ part ∈ parts, part ≠ []) →
    p.At (k :: st) c → parts.length < k → k < 2 ^ 64 →
    view.drop c = parts.flatMap encodePart ++ rest →
    ∃ q, Run (Parser.ConsumesFit view) p
        (parts.map fun part => ⟨.streamedStringPart, 1, st.length, part⟩) q
      ∧ Parser.At q ((k - parts.length) :: st) (c + (parts.flatMap encodePart).length)
  | [], p, c, k, _, hp, _, _, _ => ⟨p, .nil p, hp⟩
  | part :: parts, p, c, k, hne, hp, hk, hk', h => by
      obtain ⟨k, rfl⟩ : ∃ k', k = k' + 2 := ⟨k - 2, by rw [List.length_cons] at hk; omega⟩
      rw [List.flatMap_cons, List.append_assoc] at h
      have hpart := hne part List.mem_cons_self
      obtain ⟨q, hq, hat⟩ := consumes_blob hp (hp.not_done (by rw [List.length_cons]; omega))
        (by rw [List.length_cons]; omega) hv (.inr ⟨rfl, hpart⟩) h (commit_add_two hk' st)
      obtain ⟨r, hr, hat'⟩ := run_parts hv hst hlen parts
        (fun x hx => hne x (List.mem_cons_of_mem part hx)) hat
        (by rw [List.length_cons] at hk; omega) (by omega) (drop_add_of_drop h)
      refine ⟨r, .cons hq hr, ?_⟩
      rw [List.flatMap_cons, List.length_append, ← Nat.add_assoc, List.length_cons]
      rw [show k + 2 - (parts.length + 1) = k + 1 - parts.length by omega]
      apply hat'

theorem length_le_flatMap_encodePart :
  ∀ parts : List Bytes, parts.length ≤ (parts.flatMap encodePart).length
  | [] => le_rfl
  | part :: parts => by
      have := length_le_flatMap_encodePart parts
      rw [List.length_cons, List.flatMap_cons, List.length_append, encodePart, addBlob,
        List.length_append, sep, List.length_cons]
      omega

/-- A streamed string is one element. -/
theorem run_streamed {parts : List Bytes} {p : Parser} {st' : List ℕ} {c : ℕ}
    (hv : view.length < 2 ^ 64) (hne : ∀ part ∈ parts, part ≠ []) (hp : p.At st c)
    (hd : p.done = false) (hst : 1 ≤ st.length) (hlen : st.length < 6)
    (h : view.drop c = (Value.streamed parts).encode ++ rest) (hc : commit st = some st') :
  ∃ q, Run (Parser.ConsumesFit view) p ((Value.streamed parts).nodes (st.length - 1)) q
    ∧ Parser.At q st' (c + (Value.streamed parts).encode.length)
  := by
  rw [Value.encode, List.append_assoc, List.append_assoc] at h
  -- The counter of a streamed string starts at the largest number there is.
  obtain ⟨q₁, h₁, hat₁⟩ := consumes_header ((2 ^ 64 - 1) :: st) hp hd (by omega) hv
    (by decide) (by decide) h (fun _ _ => by simp [Line.header])
    (fun _ => by simp only [Line.effect, Line.header, ↓reduceIte, if_pos hlen])
  have h' := drop_add_of_drop h
  have hbound : parts.length < 2 ^ 64 - 1 := by
    have hle := add_length_le_of_drop h (by simp [addSeparator])
    have hle' := congrArg List.length h'
    have hparts := length_le_flatMap_encodePart parts
    simp only [List.length_drop, List.length_append, addSeparator, List.length_cons] at hle hle'
    omega
  obtain ⟨q₂, h₂, hat₂⟩ := run_parts hv hst hlen parts hne hat₁ hbound (by omega) h'
  have hheader := fun next => (header_of_count (t := .array) (show 0 < 2 ^ 64 by omega) next).2
  obtain ⟨q₃, h₃, hat₃⟩ := consumes_header st' hat₂
    (hat₂.not_done (by rw [List.length_cons]; omega)) (by rw [List.length_cons]; omega) hv
    (by decide) (sep_not_infix_numeral 0) (drop_add_of_drop h') (fun _ _ => by simp [hheader])
    (fun next => by simp only [Line.effect, hheader]; apply hc)
  have hstart : p.ConsumesFit view ⟨.streamedString, 0, st.length - 1 + 1, []⟩ q₁ := h₁
  rw [Line.node, hheader, List.length_cons, Nat.add_sub_cancel] at h₃
  rw [Value.nodes, Value.encode, List.map_append, List.map_singleton]
  rw [Nat.sub_add_cancel hst] at hstart ⊢
  refine ⟨q₃, .cons hstart (h₂.snoc h₃), ?_⟩
  rw [List.length_append, List.length_append, ← Nat.add_assoc, ← Nat.add_assoc]
  apply hat₃

theorem encode_ne_nil (v : Value) :
  v.encode ≠ []
  := by
  cases v <;> simp [Value.encode, addSeparator, addBlob, addHeader, sep]

/-- Every value takes at least a byte. -/
theorem length_le_encodeAll :
  ∀ vs : List Value, vs.length ≤ (Value.encodeAll vs).length
  | [] => le_rfl
  | v :: vs => by
      have := length_le_encodeAll vs
      have hpos := List.length_pos_iff.mpr (encode_ne_nil v)
      rw [Value.encodeAll, List.length_append, List.length_cons]
      omega

mutual

/-- A value is one element: reading it gives its nodes, and counts one on the stack. -/
theorem run_value (hv : view.length < 2 ^ 64) :
  ∀ (v : Value) {p : Parser} {st st' : List ℕ} {c : ℕ} {rest : Bytes}, v.wellFormed = true →
    p.At st c → p.done = false → 1 ≤ st.length → st.length + v.height ≤ 6 →
    view.drop c = v.encode ++ rest → commit st = some st' →
    ∃ q, Run (Parser.ConsumesFit view) p (v.nodes (st.length - 1)) q
      ∧ Parser.At q st' (c + v.encode.length)
  | .simple t content, p, st, st', c, rest, hw, hp, hd, _, hh, h, hc => by
      obtain ⟨q, hq, hat⟩ := consumes_simple hp hd (by rw [Value.height] at hh; omega) hv hw h hc
      exact ⟨q, .single hq, hat⟩
  | .bulk t blob, p, st, st', c, rest, hw, hp, hd, _, hh, h, hc => by
      obtain ⟨q, hq, hat⟩ :=
        consumes_blob hp hd (by rw [Value.height] at hh; omega) hv (.inl hw) h hc
      exact ⟨q, .single hq, hat⟩
  | .streamed parts, p, st, st', c, rest, hw, hp, hd, hst, hh, h, hc => by
      have hne : ∀ part ∈ parts, part ≠ [] := by simpa [Value.wellFormed] using hw
      apply run_streamed hv hne hp hd hst (by rw [Value.height] at hh; omega) h hc
  | .aggregate t size elements, p, st, st', c, rest, hw, hp, hd, hst, hh, h, hc => by
      simp only [Value.wellFormed, Bool.and_eq_true, decide_eq_true_eq] at hw
      obtain ⟨⟨ht, hsize⟩, hall⟩ := hw
      rw [Value.encode, List.append_assoc] at h
      rw [Value.height] at hh
      have hmult := elementMultiplicity_pos t
      cases elements with
      | nil =>
          have hzero : size = 0 := by
            have := Nat.mul_eq_zero.mp hsize.symm
            omega
          obtain ⟨q, hq, hat⟩ := consumes_aggregate hp hd (by omega) hv ht (by omega) h
            (.inl ⟨hzero, hc⟩)
          rw [Value.nodes, Value.encode, Value.encodeAll, List.append_nil]
          exact ⟨q, .single hq, hat⟩
      | cons v vs =>
          have hlt : st.length < 6 := by
            rw [Value.heightAll] at hh
            omega
          have hne : size ≠ 0 := by
            rintro rfl
            rw [Nat.zero_mul] at hsize
            cases hsize
          have hbound : (v :: vs).length < 2 ^ 64 := by
            have hle := length_le_encodeAll (v :: vs)
            have hlen := add_length_le_of_drop (drop_add_of_drop h)
              (by simp [Value.encodeAll, encode_ne_nil])
            omega
          have hle : size ≤ (v :: vs).length := by
            rw [hsize]
            apply Nat.le_mul_of_pos_right size hmult
          obtain ⟨q, hq, hat⟩ := consumes_aggregate hp hd (by omega) hv ht (by omega) h
            (.inr ⟨hne, hlt, rfl⟩)
          rw [← hsize, Nat.mod_eq_of_lt hbound] at hat
          obtain ⟨r, hr, hat'⟩ := run_elements hv (v :: vs) hall (List.cons_ne_nil v vs) hat hst
            hh (drop_add_of_drop h) hc
          rw [Value.nodes, Value.encode, List.length_append, ← Nat.add_assoc,
            Nat.sub_add_cancel hst]
          exact ⟨r, .cons hq hr, hat'⟩

/-- The elements of an aggregate, read with their number on top of the stack. -/
theorem run_elements (hv : view.length < 2 ^ 64) :
  ∀ (vs : List Value) {p : Parser} {st st' : List ℕ} {c : ℕ} {rest : Bytes},
    Value.wellFormedAll vs = true → vs ≠ [] → p.At (vs.length :: st) c → 1 ≤ st.length →
    st.length + Value.heightAll vs ≤ 6 → view.drop c = Value.encodeAll vs ++ rest →
    commit st = some st' →
    ∃ q, Run (Parser.ConsumesFit view) p (Value.nodesAll st.length vs) q
      ∧ Parser.At q st' (c + (Value.encodeAll vs).length)
  | [], p, st, st', c, rest, _, hne, _, _, _, _, _ => absurd rfl hne
  | [v], p, st, st', c, rest, hw, _, hp, hst, hh, h, hc => by
      simp only [Value.wellFormedAll, Bool.and_true] at hw
      simp only [Value.heightAll] at hh
      simp only [Value.encodeAll, List.append_nil] at h ⊢
      obtain ⟨q, hq, hat⟩ := run_value hv v hw hp (hp.not_done (by rw [List.length_cons]; omega))
        (by rw [List.length_cons]; omega) (by rw [List.length_cons]; omega) h
        (by rw [List.length_singleton, commit_one]; apply hc)
      refine ⟨q, ?_, hat⟩
      rw [Value.nodesAll, Value.nodesAll, List.append_nil]
      apply hq
  | v :: w :: vs, p, st, st', c, rest, hw, _, hp, hst, hh, h, hc => by
      rw [Value.wellFormedAll, Bool.and_eq_true] at hw
      rw [Value.heightAll] at hh
      have hcount : vs.length + 2 < 2 ^ 64 := by
        have hle := length_le_encodeAll (v :: w :: vs)
        have hlen := add_length_le_of_drop h (by simp [Value.encodeAll, encode_ne_nil])
        rw [List.length_cons, List.length_cons] at hle
        omega
      rw [Value.encodeAll, List.append_assoc] at h
      obtain ⟨q, hq, hat⟩ := run_value hv v hw.1 hp (hp.not_done (by rw [List.length_cons]; omega))
        (by rw [List.length_cons]; omega) (by rw [List.length_cons]; omega) h
        (commit_add_two hcount st)
      obtain ⟨r, hr, hat'⟩ := run_elements hv (w :: vs) hw.2 (List.cons_ne_nil w vs) hat hst
        (by omega) (drop_add_of_drop h) hc
      refine ⟨r, ?_, ?_⟩
      · rw [Value.nodesAll]
        apply hq.trans hr
      · rw [Value.encodeAll, List.length_append, ← Nat.add_assoc]
        apply hat'

end

end Values

/-! ### Messages -/

theorem fresh_at :
  Parser.fresh.At [2] 0
  := ⟨rfl, rfl, rfl⟩

/-- A message at the start of a view is read by a fresh parser, which is then done. -/
theorem run_message (m : Message) (s : Bytes) (h : (m.encode ++ s).length < 2 ^ 64) :
  ∃ q, Run (Parser.ConsumesFit (m.encode ++ s)) .fresh m.nodes q ∧ q.done = true
    ∧ q.consumed = m.encode.length
  := by
  have hheight := m.height_le
  rw [maxEmbeddedDepth] at hheight
  obtain ⟨q, hq, hat⟩ := run_value h m.value m.wellFormed fresh_at rfl le_rfl
    (by rw [List.length_singleton]; omega) rfl (by rw [commit_add_two (by omega)])
  simp only [Nat.zero_add] at hat
  have hdepth := q.length_stack
  rw [hat.stack, List.length_singleton] at hdepth
  have hpos := List.length_pos_iff.mpr (encode_ne_nil m.value)
  refine ⟨q, hq, ?_, hat.consumed⟩
  simp only [Parser.done, hat.bulk, hat.consumed, decide_eq_true_eq]
  exact ⟨by omega, trivial, by omega⟩

/-- Decoding undoes encoding: a fresh parser that is given a message, and whatever bytes after
it, is done without an error, has consumed the message, and has given the adapter the nodes of
the message in pre-order. -/
theorem parse_encode {σ : Type} (m : Message) (s : Bytes) (adapter : Adapter σ) (t t' : σ)
    (hlen : (m.encode ++ s).length < 2 ^ 64) (ha : adapter.takes m.nodes t = some t') :
  (parse .fresh (m.encode ++ s) adapter t).status = .done ∧
  (parse .fresh (m.encode ++ s) adapter t).parser.consumed = m.encode.length ∧
  (parse .fresh (m.encode ++ s) adapter t).nodes = m.nodes ∧
  (parse .fresh (m.encode ++ s) adapter t).state = t'
  := by
  obtain ⟨q, hq, hd, hc⟩ := run_message m s hlen
  rw [parse_of_run (hq.mono Parser.ConsumesFit.toConsumes) ha, parse_of_done hd]
  exact ⟨rfl, hc, List.append_nil _, rfl⟩

/-- A map from a number to a streamed string, with bytes after it. -/
theorem parse_encode_map :
  let m : Message := ⟨.aggregate .map 1 [.simple .number (ascii "1"), .streamed [ascii "he", ascii "llo"]],
    by decide, by decide, by decide⟩
  (parse .fresh (m.encode ++ ascii "+OK") accepting ()).status = .done ∧
  (parse .fresh (m.encode ++ ascii "+OK") accepting ()).parser.consumed = m.encode.length ∧
  (parse .fresh (m.encode ++ ascii "+OK") accepting ()).nodes = m.nodes ∧
  (parse .fresh (m.encode ++ ascii "+OK") accepting ()).state = ()
  := parse_encode _ _ accepting () () (by decide) (by decide)

end Resp3
