import BoostRedis.Resp3.Framing
import BoostRedis.Resp3.RoundTrip
import BoostRedis.Resp3.Shape

/-!
# Accepted bytes and the encoding of their nodes

The bytes of an accepted message should be the encodings of its nodes, one after the other, up
to leading zeros in the lengths and counts.

The parser is more lenient.  It reads the digits at the start of a length or a count and
ignores what follows them, takes every bulk header that starts with a question mark for the
start of a streamed string, and skips the two bytes after a bulk without looking at them.  The
bytes are the encodings of the nodes exactly if no header line of the message makes use of it.
-/

namespace Resp3

/-! ### The encoding of a node -/

/-- The header of a type with a length or a count, after some zeros. -/
def paddedHeader (zeros : ℕ) (t : DataType) (size : ℕ) : Bytes :=
  toCode t :: (List.replicate zeros 48 ++ Decimal.numeral size) ++ sep

/-- The bytes of a node, with some zeros before its length or its count: its type and its
content, its length or its count, and the bulk if it has one. -/
def Node.encode (zeros : ℕ) (nd : Node) : Bytes :=
  if isAggregate nd.dataType then paddedHeader zeros nd.dataType nd.aggregateSize
  else if nd.dataType = .streamedString then addSeparator [toCode .blobString, 63]
  else if nd.dataType = .streamedStringPart ∧ nd.value = [] then
    paddedHeader zeros .streamedStringPart 0
  else if isBulk nd.dataType ∨ nd.dataType = .streamedStringPart then
    addBlob (paddedHeader zeros nd.dataType nd.value.length) nd.value
  else addSeparator (toCode nd.dataType :: nd.value)

/-- The bytes are the encodings of the nodes, up to leading zeros in lengths and counts. -/
def Canonical (nds : List Node) (bytes : Bytes) : Prop :=
  ∃ zeros : List ℕ, zeros.length = nds.length ∧
    bytes = (List.zipWith Node.encode zeros nds).flatten

/-- A header line as an encoder writes it: a length or a count has digits only, a streamed
string starts with `$?`, and a bulk is followed by a separator. -/
def Line.Canonical (l : Line) (view : Bytes) : Prop :=
  match l.header with
  | .malformed _ | .lengthless | .simple => True
  | .bulk n =>
      (∀ c ∈ l.content, Decimal.isDigit c = true) ∧ (view.drop (l.next + n)).take 2 = sep
  | .terminator | .aggregate _ => ∀ c ∈ l.content, Decimal.isDigit c = true
  | .stream => l.type = .blobString ∧ l.content = [63]

/-! ### The bytes of a line -/

/-- A byte that is the code of a type is read back from the type. -/
theorem toCode_toType {c : UInt8} (h : toType c ≠ .invalid) :
  toCode (toType c) = c
  := by
  have hall : ∀ n < 256, toType (UInt8.ofNat n) = .invalid ∨
      toCode (toType (UInt8.ofNat n)) = UInt8.ofNat n := by decide +kernel
  obtain hc | hc := hall c.toNat c.toNat_lt
  · rw [UInt8.ofNat_toNat] at hc
    exact absurd hc h
  · rw [UInt8.ofNat_toNat] at hc
    apply hc

/-- A line with a type is made of the code of the type, the content and a separator. -/
theorem lineAt_bytes {view : Bytes} {c : ℕ} {l : Line} (hv : view.length < 2 ^ 64)
    (hl : lineAt view c = some l) (ht : l.type ≠ .invalid) :
  ¬ sep <:+: l.content ∧ view.drop c = (toCode l.type :: l.content ++ sep) ++ view.drop l.next
  := by
  obtain ⟨pos, hf, rfl⟩ := Option.map_eq_some_iff.mp hl
  obtain ⟨hle, hpos, hfind⟩ := Parser.findSep_spec hf
  simp only at ht ⊢
  have hcode : view.drop c = toCode (toType (view.getD c 0)) :: view.drop (c + 1) := by
    rw [toCode_toType ht, List.drop_eq_getElem_cons (show c < view.length by omega)]
    congr 1
    rw [List.getD_eq_getElem?_getD, List.getElem?_eq_getElem (by omega)]
    rfl
  obtain ⟨rest, hrest⟩ := Separator.find_split hfind
  have hne : pos ≠ c := by
    rintro rfl
    rw [Nat.sub_self, List.take_zero, List.nil_append, hcode] at hrest
    apply toCode_ne_cr _ (List.cons.inj hrest).1
  have hcount : subSize (subSize pos 1) c = pos - c - 1 := by
    have h1 : subSize pos 1 = pos - 1 := subSize_eq (by omega) (by omega)
    rw [h1, subSize_eq (by omega) (by omega)]
    omega
  have htake : (view.drop c).take (pos - c)
      = toCode (toType (view.getD c 0)) :: (view.drop (c + 1)).take (pos - c - 1) := by
    obtain ⟨k, hk⟩ : ∃ k, pos - c = k + 1 := ⟨pos - c - 1, by omega⟩
    rw [hk, hcode, List.take_succ_cons, Nat.add_sub_cancel]
  have hdrop : view.drop (pos + 2) = rest := by
    have h := congrArg (List.drop (pos - c + 2)) hrest
    rw [List.drop_drop, List.drop_append, List.length_take, List.length_drop] at h
    rw [show c + (pos - c + 2) = pos + 2 by omega] at h
    rw [h, List.drop_eq_nil_of_le (by rw [List.length_take, List.length_drop]; omega),
      show pos - c + 2 - min (pos - c) (view.length - c) = 2 by omega]
    rfl
  rw [hcount, hdrop]
  constructor
  · have hnone := Separator.find_take hfind
    rw [htake, Separator.find_eq_none_iff, List.infix_cons_iff, not_or] at hnone
    apply hnone.2
  · rw [hrest, htake, sep, List.append_assoc]
    rfl

/-! ### Lengths and counts -/

/-- A field of digits only is the numeral of its value, after some zeros. -/
theorem zeros_of_toInt {sv : Bytes} {n : ℕ} (h : toInt sv = some n)
    (hd : ∀ c ∈ sv, Decimal.isDigit c = true) :
  ∃ k, sv = List.replicate k 48 ++ Decimal.numeral n
  := by
  have hrun : Decimal.digitRun sv = sv := List.takeWhile_eq_self_iff.mpr hd
  simp only [toInt, hrun, Option.ite_none_left_eq_some, Option.ite_none_right_eq_some,
    Option.some.injEq] at h
  obtain ⟨hne, -, rfl⟩ := h
  apply Decimal.exists_zeros hne hd

theorem toInt_zeros {k n : ℕ} (h : n < 2 ^ 64) :
  toInt (List.replicate k 48 ++ Decimal.numeral n) = some n
  := by
  have hrun : Decimal.digitRun (List.replicate k 48 ++ Decimal.numeral n)
      = List.replicate k 48 ++ Decimal.numeral n := by
    apply List.takeWhile_eq_self_iff.mpr
    intro c hc
    apply Decimal.isDigit_of_mem_zeros_append hc
  have hne : List.replicate k 48 ++ Decimal.numeral n ≠ [] := by
    simp [Decimal.numeral_ne_nil]
  simp only [toInt, hrun, hne, Decimal.value_zeros_append, Decimal.value_numeral, h, ↓reduceIte]

theorem sep_not_infix_zeros (k n : ℕ) :
  ¬ sep <:+: List.replicate k 48 ++ Decimal.numeral n
  := by
  intro h
  have hmem : (13 : UInt8) ∈ List.replicate k 48 ++ Decimal.numeral n := h.subset (by decide)
  have := Decimal.isDigit_of_mem_zeros_append hmem
  revert this
  decide

theorem header_terminator_toInt {l : Line} (h : l.header = .terminator) :
  l.type = .streamedStringPart ∧ toInt l.content = some 0
  := by
  grind [Line.header, Header.ofCount]

theorem header_aggregate_toInt {l : Line} {n : ℕ} (h : l.header = .aggregate n) :
  toInt l.content = some n
  := by
  grind [Line.header, Header.ofCount]

theorem header_bulk_isBulk {l : Line} {n : ℕ} (h : l.header = .bulk n) :
  isBulk l.type = true ∨ l.type = .streamedStringPart
  := by
  grind [Line.header, Header.ofCount, isBulk]

theorem header_simple_isBulk {l : Line} (h : l.header = .simple) :
  isBulk l.type = false
  := by
  grind [Line.header, Header.ofCount, isBulk]

theorem header_type_ne_invalid {l : Line} (h : ∀ ec, l.header ≠ .malformed ec) :
  l.type ≠ .invalid
  := by
  intro ht
  apply h .invalidDataType
  rw [Line.header, ht]

/-! ### The encoding of the node of a line -/

section Encode

variable {l : Line} (view : Bytes) (d zeros : ℕ)

theorem encode_simple (h : l.header = .simple) :
  (l.node view d).encode zeros = toCode l.type :: l.content ++ sep
  := by
  obtain ⟨hagg, hstr, hpart⟩ := header_simple_type h
  have hbulk := header_simple_isBulk h
  simp [Line.node, h, Node.encode, hagg, hstr, hpart, hbulk, addSeparator]

theorem encode_terminator (h : l.header = .terminator) :
  (l.node view d).encode zeros = paddedHeader zeros .streamedStringPart 0
  := by
  simp [Line.node, h, Node.encode, isAggregate]

theorem encode_stream (h : l.header = .stream) :
  (l.node view d).encode zeros = toCode .blobString :: [63] ++ sep
  := by
  simp [Line.node, h, Node.encode, isAggregate, addSeparator]

theorem encode_aggregate {n : ℕ} (h : l.header = .aggregate n) :
  (l.node view d).encode zeros = paddedHeader zeros l.type n
  := by
  have hagg := header_aggregate_type h
  simp [Line.node, h, Node.encode, hagg]

/-- The encoding of a bulk, unless it is a part with the value of the end of a streamed
string. -/
theorem encode_bulk {n : ℕ} (h : l.header = .bulk n)
    (hne : l.type = .streamedStringPart → (view.drop l.next).take n ≠ []) :
  (l.node view d).encode zeros
    = paddedHeader zeros l.type ((view.drop l.next).take n).length
        ++ ((view.drop l.next).take n ++ sep)
  := by
  obtain ⟨hagg, hstr, -⟩ := header_bulk_type h
  have hbulk := header_bulk_isBulk h
  have hghost : ¬ (l.type = .streamedStringPart ∧ (view.drop l.next).take n = []) :=
    fun hg => hne hg.1 hg.2
  simp only [Line.node, h, Node.encode, hagg, hstr, hghost, hbulk, addBlob, Bool.false_eq_true,
    ↓reduceIte, List.append_assoc]

theorem encode_ghost {n : ℕ} (h : l.header = .bulk n) (ht : l.type = .streamedStringPart)
    (hv : (view.drop l.next).take n = []) :
  (l.node view d).encode zeros = paddedHeader zeros .streamedStringPart 0
  := by
  simp [Line.node, h, Node.encode, ht, hv, isAggregate]

end Encode

/-! ### One line -/

/-- The code, the content and the rest are read off the bytes of a header in one way only. -/
theorem header_unique {t t' : DataType} {x y r r' : Bytes} (hx : ¬ sep <:+: x) (hy : ¬ sep <:+: y)
    (h : (toCode t :: x ++ sep) ++ r = (toCode t' :: y ++ sep) ++ r') :
  toCode t = toCode t' ∧ x = y ∧ r = r'
  := by
  have hlen : x.length = y.length := by
    have hfind := find_sep_header (t := t) hx r
    rw [h, find_sep_header hy] at hfind
    have := Option.some.inj hfind
    omega
  obtain ⟨hheader, hr⟩ := List.append_inj h (by simp [hlen])
  obtain ⟨hcons, -⟩ := List.append_inj hheader (by simp [hlen])
  obtain ⟨hcode, hcontent⟩ := List.cons.inj hcons
  exact ⟨hcode, hcontent, hr⟩

section Line

variable {l : Line} {view rest : Bytes} {c d k : ℕ} {st st' : List ℕ}

/-- The bytes from a line on, when the line has a length or a count of digits only. -/
theorem drop_of_digits {n : ℕ} (hv : view.length < 2 ^ 64) (hl : lineAt view c = some l)
    (ht : l.type ≠ .invalid) (hn : toInt l.content = some n)
    (hd : ∀ c ∈ l.content, Decimal.isDigit c = true) :
  ∃ k, view.drop c = paddedHeader k l.type n ++ view.drop l.next
  := by
  obtain ⟨-, hbytes⟩ := lineAt_bytes hv hl ht
  obtain ⟨k, hk⟩ := zeros_of_toInt hn hd
  use k
  rw [hbytes, paddedHeader, hk]

/-- A line whose bytes start with a padded header has a length or a count of digits only, which
is read back. -/
theorem digits_of_drop {t : DataType} {n : ℕ} (hv : view.length < 2 ^ 64)
    (hl : lineAt view c = some l) (ht : l.type ≠ .invalid) (hn : n < 2 ^ 64)
    (h : view.drop c = paddedHeader k t n ++ rest) :
  (∀ c ∈ l.content, Decimal.isDigit c = true) ∧ toInt l.content = some n ∧
    rest = view.drop l.next
  := by
  obtain ⟨hsep, hbytes⟩ := lineAt_bytes hv hl ht
  rw [hbytes, paddedHeader] at h
  obtain ⟨-, hcontent, hrest⟩ := header_unique hsep (sep_not_infix_zeros k n) h
  rw [hcontent]
  exact ⟨fun c hc => Decimal.isDigit_of_mem_zeros_append hc, toInt_zeros hn, hrest.symm⟩

/-- A bulk with a separator after it lies inside the view. -/
theorem bulk_inside {n : ℕ} (hv : view.length < 2 ^ 64) (h : (view.drop (l.next + n)).take 2 = sep) :
  ((view.drop l.next).take n).length = n ∧ n + 2 < 2 ^ 64 ∧
    view.drop l.next = (view.drop l.next).take n ++ sep ++ view.drop (l.next + (n + 2))
  := by
  have hlen := congrArg List.length h
  rw [List.length_take, List.length_drop, sep, List.length_cons, List.length_cons,
    List.length_nil] at hlen
  refine ⟨?_, by omega, ?_⟩
  · rw [List.length_take, List.length_drop]
    omega
  · have hskip : view.drop (l.next + (n + 2)) = (view.drop (l.next + n)).drop 2 := by
      rw [List.drop_drop, Nat.add_assoc]
    rw [← h, hskip, List.append_assoc, List.take_append_drop, ← List.drop_drop,
      List.take_append_drop]

theorem finish_of_bulk {n : ℕ} (h : l.header = .bulk n) (hfit : n + 2 < 2 ^ 64) :
  l.finish = l.next + (n + 2)
  := by
  rw [Line.finish, h]
  simp only
  omega

/-- A canonical line and its bulk are the encoding of its node. -/
theorem Line.Canonical.drop_eq (hcan : l.Canonical view) (hv : view.length < 2 ^ 64)
    (hl : lineAt view c = some l) (heff : l.effect st = some st') (d : ℕ) :
  ∃ k, view.drop c = (l.node view d).encode k ++ view.drop l.finish
  := by
  rw [Line.effect] at heff
  rw [Line.Canonical] at hcan
  cases h : l.header with
  | malformed ec =>
      rw [h] at heff
      cases heff
  | lengthless =>
      rw [h] at heff
      cases heff
  | simple =>
      obtain ⟨-, hbytes⟩ := lineAt_bytes hv hl (header_type_ne_invalid (by simp [h]))
      use 0
      rw [encode_simple view d 0 h, Line.finish, h]
      apply hbytes
  | bulk n =>
      rw [h] at hcan
      obtain ⟨hdigits, hsep⟩ := hcan
      obtain ⟨hlen, hfit, hbody⟩ := bulk_inside hv hsep
      obtain ⟨k, hk⟩ := drop_of_digits hv hl (header_type_ne_invalid (by simp [h]))
        (Parser.header_bulk_toInt h) hdigits
      have hne : l.type = .streamedStringPart → (view.drop l.next).take n ≠ [] := by
        intro ht hnil
        rw [hnil] at hlen
        apply (header_bulk_type h).2.2 ht hlen.symm
      use k
      rw [encode_bulk view d k h hne, hlen, finish_of_bulk h hfit, List.append_assoc, ← hbody]
      apply hk
  | terminator =>
      rw [h] at hcan
      obtain ⟨ht, hn⟩ := header_terminator_toInt h
      obtain ⟨k, hk⟩ := drop_of_digits hv hl (by simp [ht]) hn hcan
      use k
      rw [encode_terminator view d k h, Line.finish, h, ← ht]
      apply hk
  | stream =>
      rw [h] at hcan
      obtain ⟨ht, hcontent⟩ := hcan
      obtain ⟨-, hbytes⟩ := lineAt_bytes hv hl (by simp [ht])
      use 0
      rw [encode_stream view d 0 h, Line.finish, h]
      rw [ht, hcontent] at hbytes
      apply hbytes
  | aggregate n =>
      rw [h] at hcan
      obtain ⟨k, hk⟩ := drop_of_digits hv hl (header_type_ne_invalid (by simp [h]))
        (header_aggregate_toInt h) hcan
      use k
      rw [encode_aggregate view d k h, Line.finish, h]
      apply hk

/-- A line with a bulk that starts with the encoding of its node. -/
theorem Line.canonical_bulk {n : ℕ} (hv : view.length < 2 ^ 64) (hl : lineAt view c = some l)
    (hh : l.header = .bulk n) (h : view.drop c = (l.node view d).encode k ++ rest) :
  ((∀ c ∈ l.content, Decimal.isDigit c = true) ∧ (view.drop (l.next + n)).take 2 = sep)
    ∧ rest = view.drop l.finish
  := by
  have htype : l.type ≠ .invalid := header_type_ne_invalid (by simp [hh])
  have hn := Parser.header_bulk_toInt hh
  by_cases hghost : l.type = .streamedStringPart ∧ (view.drop l.next).take n = []
  · rw [encode_ghost view d k hh hghost.1 hghost.2] at h
    obtain ⟨-, hzero, -⟩ := digits_of_drop hv hl htype (by omega) h
    rw [hn] at hzero
    exact absurd (Option.some.inj hzero) ((header_bulk_type hh).2.2 hghost.1)
  · rw [encode_bulk view d k hh (fun ht hnil => hghost ⟨ht, hnil⟩), List.append_assoc] at h
    have hlt : ((view.drop l.next).take n).length < 2 ^ 64 := by
      rw [List.length_take, List.length_drop]
      omega
    obtain ⟨hdigits, hint, hbody⟩ := digits_of_drop hv hl htype hlt h
    rw [hn] at hint
    have hlen := Option.some.inj hint
    have hdrop : view.drop (l.next + n) = sep ++ rest := by
      rw [← List.drop_drop, ← hbody, List.append_assoc, List.drop_append_of_le_length hlen.le,
        List.drop_eq_nil_of_le hlen.ge, List.nil_append]
    have hsep : (view.drop (l.next + n)).take 2 = sep := by
      rw [hdrop]
      rfl
    refine ⟨⟨hdigits, hsep⟩, ?_⟩
    rw [finish_of_bulk hh (bulk_inside hv hsep).2.1, ← Nat.add_assoc, ← List.drop_drop, hdrop]
    rfl

/-- A line that starts with the encoding of its node is canonical, and the encoding is the line
with its bulk. -/
theorem Line.canonical_of_drop (hv : view.length < 2 ^ 64) (hl : lineAt view c = some l)
    (heff : l.effect st = some st') (h : view.drop c = (l.node view d).encode k ++ rest) :
  l.Canonical view ∧ rest = view.drop l.finish
  := by
  rw [Line.effect] at heff
  rw [Line.Canonical]
  cases hh : l.header with
  | malformed ec =>
      rw [hh] at heff
      cases heff
  | lengthless =>
      rw [hh] at heff
      cases heff
  | simple =>
      obtain ⟨hsep, hbytes⟩ := lineAt_bytes hv hl (header_type_ne_invalid (by simp [hh]))
      rw [encode_simple view d k hh, hbytes] at h
      rw [Line.finish, hh]
      exact ⟨trivial, (header_unique hsep hsep h).2.2.symm⟩
  | bulk n => apply canonical_bulk hv hl hh h
  | terminator =>
      obtain ⟨ht, -⟩ := header_terminator_toInt hh
      rw [encode_terminator view d k hh] at h
      obtain ⟨hdigits, -, hrest⟩ := digits_of_drop hv hl (by simp [ht]) (by omega) h
      rw [Line.finish, hh]
      exact ⟨hdigits, hrest⟩
  | stream =>
      have htype : l.type ≠ .invalid := header_type_ne_invalid (by simp [hh])
      obtain ⟨hsep, hbytes⟩ := lineAt_bytes hv hl htype
      rw [encode_stream view d k hh, hbytes] at h
      obtain ⟨hcode, hcontent, hrest⟩ := header_unique hsep (by decide) h
      have hblob : l.type = .blobString := by
        rw [← toType_toCode (t := l.type) (by grind [Line.header, Header.ofCount]), hcode]
        rfl
      rw [Line.finish, hh]
      exact ⟨⟨hblob, hcontent⟩, hrest.symm⟩
  | aggregate n =>
      have hn := header_aggregate_toInt hh
      rw [encode_aggregate view d k hh] at h
      obtain ⟨hdigits, -, hrest⟩ := digits_of_drop hv hl (header_type_ne_invalid (by simp [hh]))
        (Parser.toInt_lt hn) h
      rw [Line.finish, hh]
      exact ⟨hdigits, hrest⟩

end Line

/-! ### Whole messages -/

/-- Every header line of the rest of a message is canonical. -/
def CanonicalHeaders (view : Bytes) (p : Parser) : Prop :=
  Headers view p fun _ l => l.Canonical view

section Message

variable {view : Bytes} {p q : Parser} {nds : List Node}

/-- If all header lines are canonical, then the bytes that are read are the encodings of the
nodes. -/
theorem drop_eq_of_canonicalHeaders (hr : Run (Parser.Consumes view) p nds q)
    (hv : view.length < 2 ^ 64) (hp : p.Valid view) (hb : p.bulk = .invalid)
    (h : CanonicalHeaders view p) :
  ∃ zeros : List ℕ, zeros.length = nds.length ∧
    view.drop p.consumed = (List.zipWith Node.encode zeros nds).flatten ++ view.drop q.consumed
  := by
  induction hr with
  | nil => exact ⟨[], rfl, rfl⟩
  | @cons p r q nd nds hc _ ih =>
      obtain ⟨l, st, hl, rfl, heff, -, hat⟩ := hp.line_of_consumes hv hb hc
      have hcan : l.Canonical view := h.head hc.not_done hl
      obtain ⟨k, hk⟩ := hcan.drop_eq hv hl heff p.depth
      obtain ⟨zeros, hlen, hzeros⟩ := ih (hp.consume hv hc.not_done hc.consume) hat.bulk
        (h.tail hl hc)
      refine ⟨k :: zeros, by simp [hlen], ?_⟩
      rw [List.zipWith_cons_cons, List.flatten_cons, List.append_assoc, ← hzeros, hat.consumed]
      apply hk

/-- If the bytes that are read are the encodings of the nodes, then all header lines are
canonical. -/
theorem canonicalHeaders_of_drop_eq (hr : Run (Parser.Consumes view) p nds q)
    (hv : view.length < 2 ^ 64) (hp : p.Valid view) (hb : p.bulk = .invalid) (hq : q.done = true)
    {zeros : List ℕ} (hlen : zeros.length = nds.length)
    (h : view.drop p.consumed
      = (List.zipWith Node.encode zeros nds).flatten ++ view.drop q.consumed) :
  CanonicalHeaders view p
  := by
  induction hr generalizing zeros with
  | nil => exact Headers.of_done hq
  | @cons p r q nd nds hc _ ih =>
      obtain ⟨l, st, hl, rfl, heff, -, hat⟩ := hp.line_of_consumes hv hb hc
      obtain _ | ⟨k, zeros⟩ := zeros
      · cases hlen
      · rw [List.zipWith_cons_cons, List.flatten_cons, List.append_assoc] at h
        obtain ⟨hcan, hrest⟩ := Line.canonical_of_drop hv hl heff h
        rw [← hat.consumed] at hrest
        have htail := ih (hp.consume hv hc.not_done hc.consume) hat.bulk hq (by simpa using hlen)
          hrest.symm
        exact Headers.of_consumes hl hcan hc htail

end Message

/-- The bytes of a message that is accepted are the encodings of its nodes, up to leading zeros
in lengths and counts, exactly when every header line of the message is canonical. -/
theorem canonical_iff {σ : Type} (s : Bytes) (hs : s.length < 2 ^ 64) (adapter : Adapter σ) (t : σ)
    (hdone : (parse .fresh s adapter t).status = .done) :
  Canonical (parse .fresh s adapter t).nodes
      (s.take (parse .fresh s adapter t).parser.consumed) ↔
    CanonicalHeaders s .fresh
  := by
  obtain ⟨hr, hq⟩ := parse_run_of_done hdone
  generalize parse .fresh s adapter t = r at hr hq ⊢
  have hvalid := Parser.fresh_valid s
  constructor
  · rintro ⟨zeros, hlen, hzeros⟩
    apply canonicalHeaders_of_drop_eq hr hs hvalid rfl hq hlen
    rw [← hzeros, List.take_append_drop]
    rfl
  · intro h
    obtain ⟨zeros, hlen, hzeros⟩ := drop_eq_of_canonicalHeaders hr hs hvalid rfl h
    refine ⟨zeros, hlen, ?_⟩
    have hsplit : s.take r.parser.consumed ++ s.drop r.parser.consumed
        = (List.zipWith Node.encode zeros r.nodes).flatten ++ s.drop r.parser.consumed := by
      rw [List.take_append_drop, ← hzeros]
      rfl
    apply List.append_cancel_right hsplit

theorem canonical_iff_array :
  Canonical (parse .fresh (ascii "*2\r\n$02\r\nhh\r\n:1\r\n") accepting ()).nodes
      ((ascii "*2\r\n$02\r\nhh\r\n:1\r\n").take
        (parse .fresh (ascii "*2\r\n$02\r\nhh\r\n:1\r\n") accepting ()).parser.consumed) ↔
    CanonicalHeaders (ascii "*2\r\n$02\r\nhh\r\n:1\r\n") .fresh
  := canonical_iff _ (by decide) accepting () (by decide)

/-- Bytes that encode a node neither without leading zeros nor with them. -/
theorem not_canonical_singleton {nd : Node} {bytes : Bytes} (hzero : bytes ≠ nd.encode 0)
    (hsucc : ∀ k, bytes ≠ nd.encode (k + 1)) :
  ¬ Canonical [nd] bytes
  := by
  rintro ⟨zeros, hlen, h⟩
  obtain ⟨k, rfl⟩ := List.length_eq_one_iff.mp hlen
  rw [List.zipWith_cons_cons, List.zipWith_nil_left, List.flatten_singleton] at h
  cases k with
  | zero => exact hzero h
  | succ k => exact hsucc k h

/-- A blob string is accepted with a letter after its length, and with other bytes in place of
the separator after it. -/
theorem canonical_fails :
  ((parse .fresh (ascii "$2x\r\nhh\r\n") accepting ()).status = .done ∧
    ¬ Canonical (parse .fresh (ascii "$2x\r\nhh\r\n") accepting ()).nodes
      ((ascii "$2x\r\nhh\r\n").take
        (parse .fresh (ascii "$2x\r\nhh\r\n") accepting ()).parser.consumed)) ∧
  ((parse .fresh (ascii "$2\r\nhhxx") accepting ()).status = .done ∧
    ¬ Canonical (parse .fresh (ascii "$2\r\nhhxx") accepting ()).nodes
      ((ascii "$2\r\nhhxx").take
        (parse .fresh (ascii "$2\r\nhhxx") accepting ()).parser.consumed))
  := by
  refine ⟨⟨by decide, ?_⟩, by decide, ?_⟩
  · have hnodes : (parse .fresh (ascii "$2x\r\nhh\r\n") accepting ()).nodes
        = [⟨.blobString, 1, 0, [104, 104]⟩] := by decide
    have hbytes : (ascii "$2x\r\nhh\r\n").take
        (parse .fresh (ascii "$2x\r\nhh\r\n") accepting ()).parser.consumed
        = [36, 50, 120, 13, 10, 104, 104, 13, 10] := by decide
    rw [hnodes, hbytes]
    apply not_canonical_singleton (by decide)
    rintro k ⟨⟩
  · have hnodes : (parse .fresh (ascii "$2\r\nhhxx") accepting ()).nodes
        = [⟨.blobString, 1, 0, [104, 104]⟩] := by decide
    have hbytes : (ascii "$2\r\nhhxx").take
        (parse .fresh (ascii "$2\r\nhhxx") accepting ()).parser.consumed
        = [36, 50, 13, 10, 104, 104, 120, 120] := by decide
    rw [hnodes, hbytes]
    apply not_canonical_singleton (by decide)
    rintro k ⟨⟩

end Resp3
