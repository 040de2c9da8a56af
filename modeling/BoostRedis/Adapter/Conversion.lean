import BoostRedis.Adapter.Impl
import BoostRedis.Request.Wire

/-!
# Conversions

A value is written into a request by `boost_redis_to_bulk`, and read from a node by
`boost_redis_from_bulk`.

A number is read with `std::from_chars`, which stops at the first character that is no digit.  The
conversion does not look where it stopped, so that a text that merely starts with a number is taken
for it.  A Boolean is written as the number one or zero, and is read as true if its text starts
with `t`.
-/

namespace Redis

open Resp3

/-! ### Decimal integers -/

/-- A text is a decimal integer.  For a type with a sign a minus may come before the digits. -/
def IsDecimal (signed : Bool) (text : Bytes) (z : ℤ) : Prop :=
  ∃ digits, digits ≠ [] ∧ (∀ c ∈ digits, Decimal.isDigit c = true) ∧
    ((text = digits ∧ z = Decimal.value digits) ∨
      (signed = true ∧ text = 45 :: digits ∧ z = -Decimal.value digits))

/-- A number is a value of an integer type. -/
def Fits (signed : Bool) (width : ℕ) (z : ℤ) : Prop :=
  minValue signed width ≤ z ∧ z ≤ maxValue signed width

/-- A text starts with a decimal integer that fits, and something that is no digit follows. -/
def Overrun (signed : Bool) (width : ℕ) (text : Bytes) : Prop :=
  ∃ number c rest z, text = number ++ c :: rest ∧ Decimal.isDigit c = false ∧
    IsDecimal signed number z ∧ Fits signed width z

section Decimal

variable {signed : Bool} {text number : Bytes} {z : ℤ}

theorem isDigit_minus : Decimal.isDigit 45 = false := by decide

/-- Digits are read up to what is none. -/
theorem digitRun_append {digits : Bytes} (hdigits : ∀ c ∈ digits, Decimal.isDigit c = true)
    {rest : Bytes} (hrest : ∀ c ∈ rest.head?, Decimal.isDigit c = false) :
  Decimal.digitRun (digits ++ rest) = digits
  := by
  rw [Decimal.digitRun, List.takeWhile_append_of_pos hdigits]
  cases rest with
  | nil => simp
  | cons c rest =>
      have hc := hrest c rfl
      rw [List.takeWhile_cons, if_neg (by simp [hc]), List.append_nil]

/-- A number is read up to what is no digit. -/
theorem fromChars_append (hnumber : IsDecimal signed number z) (rest : Bytes)
    (hrest : ∀ c ∈ rest.head?, Decimal.isDigit c = false) :
  fromChars signed (number ++ rest) = some z
  := by
  obtain ⟨digits, hne, hdigits, ⟨rfl, rfl⟩ | ⟨rfl, rfl, rfl⟩⟩ := hnumber
  · -- The first character is a digit, so it is no minus.
    obtain ⟨c, digits, rfl⟩ := List.exists_cons_of_ne_nil hne
    have hc : c ≠ 45 := by
      rintro rfl
      have := hdigits 45 List.mem_cons_self
      rw [isDigit_minus] at this
      cases this
    have hrun := digitRun_append hdigits hrest
    simp [fromChars, hc] at hrun ⊢
    simp [hrun]
  · have hrun := digitRun_append hdigits hrest
    simp [fromChars, hrun, hne]

theorem fromChars_of_isDecimal (h : IsDecimal signed text z) :
  fromChars signed text = some z
  := by
  have hread := fromChars_append h [] (by simp)
  rwa [List.append_nil] at hread

/-- What comes after a run of digits does not start with one. -/
theorem head_dropWhile (l : Bytes) :
  ∀ c ∈ (l.dropWhile Decimal.isDigit).head?, Decimal.isDigit c = false
  := by
  intro c hc
  have hnot := List.head?_dropWhile_not Decimal.isDigit l
  rw [hc] at hnot
  exact hnot

/-- A number that is read starts the text, and no digit follows. -/
theorem exists_of_fromChars (h : fromChars signed text = some z) :
  ∃ number rest, text = number ++ rest ∧ IsDecimal signed number z ∧
    ∀ c ∈ rest.head?, Decimal.isDigit c = false
  := by
  have hdigits : ∀ l : Bytes, ∀ c ∈ Decimal.digitRun l, Decimal.isDigit c = true :=
    fun _ _ hc => List.mem_takeWhile_imp hc
  have hsplit : ∀ l : Bytes, l = Decimal.digitRun l ++ l.dropWhile Decimal.isDigit :=
    fun _ => (List.takeWhile_append_dropWhile).symm
  simp only [fromChars] at h
  cases hnegative : signed && decide (text.head? = some 45) with
  | true =>
      simp only [hnegative, if_true] at h
      rw [Bool.and_eq_true, decide_eq_true_eq] at hnegative
      obtain ⟨hsigned, hhead⟩ := hnegative
      obtain ⟨text, rfl⟩ := List.head?_eq_some_iff.mp hhead
      rw [List.drop_succ_cons, List.drop_zero] at h
      split at h
      · cases h
      · rename_i hrun
        refine ⟨45 :: Decimal.digitRun text, _, ?_,
          ⟨_, hrun, hdigits text, Or.inr ⟨hsigned, rfl, ?_⟩⟩, head_dropWhile text⟩
        · rw [List.cons_append, ← hsplit]
        · exact (Option.some.inj h).symm
  | false =>
      simp only [hnegative, Bool.false_eq_true, if_false] at h
      split at h
      · cases h
      · rename_i hrun
        refine ⟨Decimal.digitRun text, _, hsplit text, ⟨_, hrun, hdigits text, Or.inl ⟨rfl, ?_⟩⟩,
          head_dropWhile text⟩
        exact (Option.some.inj h).symm

/-- All of a decimal integer, from its second character on, is digits. -/
theorem isDigit_of_isDecimal {c : UInt8} {rest : Bytes} {z' : ℤ}
    (hnumber : IsDecimal signed number z) (h : IsDecimal signed (number ++ c :: rest) z') :
  Decimal.isDigit c = true
  := by
  have hne : number ≠ [] := by
    obtain ⟨digits, hne, _, ⟨rfl, _⟩ | ⟨_, rfl, _⟩⟩ := hnumber
    · exact hne
    · apply List.cons_ne_nil
  obtain ⟨d, number, rfl⟩ := List.exists_cons_of_ne_nil hne
  obtain ⟨digits, _, hdigits, ⟨rfl, _⟩ | ⟨_, hcons, _⟩⟩ := h
  · apply hdigits
    simp
  · rw [List.cons_append, List.cons.injEq] at hcons
    apply hdigits
    rw [← hcons.2]
    simp

end Decimal

/-! ### Integers -/

/-- What should hold of an integer that is read: the text is accepted exactly if all of it is a
decimal integer that fits, and then that is the integer; otherwise nothing changes. -/
structure ExactOrRefused {signed : Bool} {width : ℕ} (nd : Node) (i : Integral signed width) :
    Prop where
  accepted_iff : (FromBulk.fromBulk nd i).2 = none ↔
    ∃ z, IsDecimal signed nd.value z ∧ Fits signed width z
  exact : ∀ z, IsDecimal signed nd.value z → Fits signed width z →
    (FromBulk.fromBulk nd i).1.value = z
  refused : (FromBulk.fromBulk nd i).2 ≠ none →
    FromBulk.fromBulk nd i = (i, some (.redis .notANumber))

section Integral

variable {signed : Bool} {width : ℕ} {nd : Node} {i : Integral signed width} {z : ℤ}

theorem fromBulk_of_fits (h : fromChars signed nd.value = some z) (hfits : Fits signed width z) :
  FromBulk.fromBulk nd i = (⟨z, hfits.1, hfits.2⟩, none)
  := by
  simp only [FromBulk.fromBulk, h]
  exact dif_pos hfits

theorem fromBulk_of_not_fits
    (h : ∀ z, fromChars signed nd.value = some z → ¬ Fits signed width z) :
  FromBulk.fromBulk nd i = (i, some (.redis .notANumber))
  := by
  simp only [FromBulk.fromBulk]
  cases hread : fromChars signed nd.value with
  | none => rfl
  | some z => exact dif_neg (h z hread)

/-- If nothing follows a number that is read, all of the text is that number. -/
theorem fromBulk_of_not_decimal (hnot : ¬ ∃ z, IsDecimal signed nd.value z ∧ Fits signed width z)
    (h : ¬ Overrun signed width nd.value) :
  FromBulk.fromBulk nd i = (i, some (.redis .notANumber))
  := by
  apply fromBulk_of_not_fits
  intro z hz hfits
  obtain ⟨number, rest, htext, hnumber, hrest⟩ := exists_of_fromChars hz
  cases rest with
  | nil =>
      rw [List.append_nil] at htext
      exact hnot ⟨z, htext ▸ hnumber, hfits⟩
  | cons c rest => exact h ⟨number, c, rest, z, htext, hrest c rfl, hnumber, hfits⟩

/-- An integer is read exactly, or the text is refused, exactly if no number that fits is followed
by something that is no digit. -/
theorem exactOrRefused_iff (nd : Node) (i : Integral signed width) :
  ExactOrRefused nd i ↔ ¬ Overrun signed width nd.value
  := by
  constructor
  · rintro h ⟨number, c, rest, z, htext, hc, hnumber, hfits⟩
    have hread := fromChars_append hnumber (c :: rest) (by simpa using hc)
    rw [← htext] at hread
    obtain ⟨z', hz', _⟩ := h.accepted_iff.mp (by rw [fromBulk_of_fits hread hfits])
    rw [htext] at hz'
    rw [isDigit_of_isDecimal hnumber hz'] at hc
    cases hc
  · intro h
    by_cases hdecimal : ∃ z, IsDecimal signed nd.value z ∧ Fits signed width z
    · obtain ⟨z, hz, hfits⟩ := hdecimal
      have hread := fromBulk_of_fits (i := i) (fromChars_of_isDecimal hz) hfits
      refine ⟨?_, ?_, ?_⟩
      · rw [hread]
        exact iff_of_true rfl ⟨z, hz, hfits⟩
      · intro z' hz' _
        rw [hread]
        exact Option.some.inj ((fromChars_of_isDecimal hz).symm.trans (fromChars_of_isDecimal hz'))
      · rw [hread]
        intro hne
        cases hne rfl
    · have hread := fromBulk_of_not_decimal (i := i) hdecimal h
      refine ⟨?_, ?_, fun _ => hread⟩
      · rw [hread]
        apply iff_of_false _ hdecimal
        rintro ⟨⟩
      · intro z hz hfits
        cases hdecimal ⟨z, hz, hfits⟩

end Integral

/-- A number with something after it is taken for the number. -/
theorem exactOrRefused_fails :
  let nd : Node := ⟨.blobString, 1, 0, ascii "12abc"⟩
  let i : Integral true 32 := .zero true 32
  ((FromBulk.fromBulk nd i).1.value, (FromBulk.fromBulk nd i).2) = (12, none)
    ∧ ¬ ExactOrRefused nd i
  := by
  intro nd i
  have hread : ((FromBulk.fromBulk nd i).1.value, (FromBulk.fromBulk nd i).2) = (12, none) := by
    decide
  refine ⟨hread, ?_⟩
  intro h
  obtain ⟨z, hz, _⟩ := h.accepted_iff.mp (congrArg Prod.snd hread)
  have htext : IsDecimal true (ascii "12" ++ 97 :: ascii "bc") z := hz
  have hnumber : IsDecimal true (ascii "12") 12 :=
    ⟨ascii "12", by decide, List.all_eq_true.mp (by decide), Or.inl ⟨rfl, rfl⟩⟩
  cases isDigit_of_isDecimal hnumber htext

/-! ### Values that are written and read -/

/-- The types that are converted in both directions. -/
inductive BulkType where
  | string
  | integral (signed : Bool) (width : ℕ)
  | bool

namespace BulkType

/-- The values of a type. -/
def Value : BulkType → Type
  | string => Bytes
  | integral signed width => Integral signed width
  | bool => Bool

/-- `boost_redis_from_bulk`. -/
instance instFromBulk : (t : BulkType) → FromBulk t.Value
  | string => inferInstanceAs (FromBulk Bytes)
  | integral signed width => inferInstanceAs (FromBulk (Integral signed width))
  | bool => inferInstanceAs (FromBulk Bool)

/-- What `boost_redis_to_bulk` writes: a string as it is, and anything else as the integer that
`std::to_string` is called with. -/
def toArg : (t : BulkType) → t.Value → Arg
  | string, s => .bytes s
  | integral _ _, i => .int i.value
  | bool, b => .int (Bool.toInt b)

/-- `boost_redis_to_bulk`. -/
def toBulk (t : BulkType) (payload : Bytes) (x : t.Value) : Bytes :=
  (t.toArg x).toBulk payload

/-- Whether a value is the Boolean true. -/
def isTrue : (t : BulkType) → t.Value → Bool
  | bool, b => b
  | _, _ => false

end BulkType

/-- What should hold of a value that is written: the bulk that is added is one blob string, which is
read back as the value. -/
def ReadsBack (t : BulkType) (x : t.Value) (payload : Bytes) : Prop :=
  ∃ bulk nd, t.toBulk payload x = payload ++ bulk
    ∧ (parse .fresh bulk accepting ()).status = .done
    ∧ (parse .fresh bulk accepting ()).nodes = [nd]
    ∧ (parse .fresh bulk accepting ()).parser.consumed = bulk.length
    ∧ nd.dataType = .blobString
    ∧ FromBulk.fromBulk nd (FromBulk.initial : t.Value) = (x, none)

section ReadsBack

variable {t : BulkType} {x : t.Value}

/-- The bulk of a value is a message. -/
theorem parse_bulk (text : Bytes) (h : (Value.bulk .blobString text).encode.length < 2 ^ 64) :
  (parse .fresh (Value.bulk .blobString text).encode accepting ()).status = .done
    ∧ (parse .fresh (Value.bulk .blobString text).encode accepting ()).nodes
      = [⟨.blobString, 1, 0, text⟩]
    ∧ (parse .fresh (Value.bulk .blobString text).encode accepting ()).parser.consumed
      = (Value.bulk .blobString text).encode.length
  := by
  let m : Message := ⟨.bulk .blobString text, rfl, Nat.zero_le _, h⟩
  obtain ⟨q, hrun, hdone, hconsumed⟩ := run_message m [] (by rwa [List.append_nil])
  rw [List.append_nil] at hrun
  have hparse := parse_of_run (hrun.mono Parser.ConsumesFit.toConsumes) (takes_accepting m.nodes)
  rw [parse_of_done hdone] at hparse
  have hnodes : (parse .fresh (Value.bulk .blobString text).encode accepting ())
      = Parsed.prepend ⟨q, (), [], .done⟩ m.nodes := hparse
  rw [hnodes]
  exact ⟨rfl, rfl, hconsumed⟩

/-- What is written is read back if the conversion of its text gives it. -/
theorem readsBack_iff_fromBulk (payload : Bytes) (h : (t.toBulk [] x).length < 2 ^ 64) :
  ReadsBack t x payload
    ↔ FromBulk.fromBulk ⟨.blobString, 1, 0, (t.toArg x).text⟩ (FromBulk.initial : t.Value)
      = (x, none)
  := by
  have hwrite : ∀ payload, t.toBulk payload x
      = payload ++ (Value.bulk .blobString (t.toArg x).text).encode := by
    intro payload
    rw [BulkType.toBulk, Arg.toBulk_eq, bulks, List.map_singleton, Value.encodeAll,
      Value.encodeAll, List.append_nil]
  rw [hwrite, List.nil_append] at h
  obtain ⟨hstatus, hnodes, hconsumed⟩ := parse_bulk _ h
  constructor
  · rintro ⟨bulk, nd, hbulk, _, hnd, _, _, hread⟩
    rw [hwrite, List.append_cancel_left_eq] at hbulk
    rw [← hbulk, hnodes, List.singleton_inj] at hnd
    rwa [hnd]
  · intro hread
    exact ⟨_, _, hwrite payload, hstatus, hnodes, hconsumed, rfl, hread⟩

/-- The text of an integer is a decimal integer, with a minus only for a type with a sign. -/
theorem isDecimal_toText {signed : Bool} {width : ℕ} (i : Integral signed width) :
  IsDecimal signed (toText i.value) i.value
  := by
  refine ⟨Decimal.numeral i.value.natAbs, Decimal.numeral_ne_nil _,
    fun _ => Decimal.isDigit_of_mem_numeral, ?_⟩
  rw [toText, Decimal.value_numeral]
  by_cases hneg : i.value < 0
  · right
    have hsigned : signed = true := by
      by_contra hsigned
      have hmin := i.min_le
      rw [minValue, if_neg hsigned] at hmin
      omega
    exact ⟨hsigned, if_pos hneg, by omega⟩
  · left
    exact ⟨if_neg hneg, by omega⟩

/-- An integer is read back from its text. -/
theorem fromBulk_toText {signed : Bool} {width : ℕ} {nd : Node} (i i₀ : Integral signed width)
    (h : nd.value = toText i.value) :
  FromBulk.fromBulk nd i₀ = (i, none)
  := by
  have hread := fromChars_append (isDecimal_toText i) [] (by simp)
  rw [List.append_nil, ← h] at hread
  apply fromBulk_of_fits hread ⟨i.min_le, i.le_max⟩

/-- The number of a Boolean does not start with `t`. -/
theorem fromBulk_bool (b : Bool) :
  FromBulk.fromBulk ⟨.blobString, 1, 0, (BulkType.bool.toArg b).text⟩ false = (false, none)
  := by
  cases b <;> rfl

end ReadsBack

/-- Everything that can be written and read is read back as what was written, exactly if it is not
the Boolean true. -/
theorem readsBack_iff (t : BulkType) (x : t.Value) (payload : Bytes)
    (h : (t.toBulk [] x).length < 2 ^ 64) :
  ReadsBack t x payload ↔ t.isTrue x = false
  := by
  rw [readsBack_iff_fromBulk payload h]
  cases t with
  | string => exact iff_of_true rfl rfl
  | integral signed width => exact iff_of_true (fromBulk_toText x _ rfl) rfl
  | bool =>
      have hread : FromBulk.fromBulk ⟨.blobString, 1, 0, (BulkType.bool.toArg x).text⟩
          (FromBulk.initial : BulkType.bool.Value) = (false, none) := fromBulk_bool x
      rw [hread]
      cases x with
      | true => apply iff_of_false <;> rintro ⟨⟩
      | false => exact iff_of_true rfl rfl

/-- The least integer of 64 bits is read back. -/
theorem readsBack_int64 :
  ReadsBack (.integral true 64) (⟨-2 ^ 63, by decide, by decide⟩ : Integral true 64) (ascii "x")
  := by
  apply (readsBack_iff (.integral true 64) _ (ascii "x") (by decide)).mpr rfl

/-- The Boolean true is written as one, and is read as false. -/
theorem readsBack_fails :
  FromBulk.fromBulk ⟨.blobString, 1, 0, (BulkType.bool.toArg true).text⟩ false = (false, none)
    ∧ ¬ ReadsBack .bool true []
  := by
  refine ⟨fromBulk_bool true, ?_⟩
  intro h
  have hread := (readsBack_iff_fromBulk [] (by decide)).mp h
  cases (fromBulk_bool true).symm.trans hread

end Redis
