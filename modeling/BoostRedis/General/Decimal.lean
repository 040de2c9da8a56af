import Mathlib.Data.List.Induction
import Mathlib.Data.List.TakeWhile
import Mathlib.Data.Nat.Digits.Defs

/-!
# Decimal numerals in ASCII

`Decimal.numeral n` is the decimal numeral of `n`, most significant digit first and without
leading zeros, and `Decimal.value l` the number a string of digits stands for, leading zeros
allowed.  `Decimal.digitRun l` is the longest initial part of `l` made of digits.
-/

namespace Decimal

/-- The characters `0` to `9`. -/
def isDigit (c : UInt8) : Bool :=
  48 ≤ c.toNat && c.toNat ≤ 57

/-- The character of the digit `d`. -/
def digitChar (d : ℕ) : UInt8 :=
  UInt8.ofNat (48 + d)

/-- The decimal numeral of `n`. -/
def numeral (n : ℕ) : List UInt8 :=
  if n = 0 then [48] else (Nat.digits 10 n).reverse.map digitChar

/-- The number denoted by a string of digits. -/
def value (l : List UInt8) : ℕ :=
  l.foldl (fun n c => 10 * n + (c.toNat - 48)) 0

/-- The longest initial part made of digits. -/
def digitRun (l : List UInt8) : List UInt8 :=
  l.takeWhile isDigit

theorem toNat_digitChar {d : ℕ} (h : d < 10) :
  (digitChar d).toNat = 48 + d
  := by
  simp only [digitChar, UInt8.toNat_ofNat']
  omega

theorem isDigit_digitChar {d : ℕ} (h : d < 10) :
  isDigit (digitChar d) = true
  := by
  simp only [isDigit, toNat_digitChar h, Bool.and_eq_true, decide_eq_true_eq]
  omega

/-- Every character of a numeral is a digit. -/
theorem isDigit_of_mem_numeral {n : ℕ} {c : UInt8} (h : c ∈ numeral n) :
  isDigit c = true
  := by
  rw [numeral] at h
  split at h
  · obtain rfl := List.mem_singleton.mp h
    decide
  · obtain ⟨d, hd, rfl⟩ := List.mem_map.mp h
    apply isDigit_digitChar
    apply Nat.digits_lt_base (by omega) (List.mem_reverse.mp hd)

theorem numeral_ne_nil (n : ℕ) :
  numeral n ≠ []
  := by
  rw [numeral]
  split
  · simp
  · rename_i h
    rw [ne_eq, List.map_eq_nil_iff, List.reverse_eq_nil_iff]
    apply Nat.digits_ne_nil_iff_ne_zero.mpr h

/-- Reading digits from the most significant one on gives `Nat.ofDigits` of the reversed
list. -/
theorem foldl_digitChar (ds : List ℕ) (h : ∀ d ∈ ds, d < 10) :
  value (ds.reverse.map digitChar) = Nat.ofDigits 10 ds
  := by
  rw [value, Nat.ofDigits_eq_foldr, List.foldl_map, List.foldl_reverse]
  induction ds with
  | nil => rfl
  | cons d ds ih =>
      have hd : (digitChar d).toNat - 48 = d := by
        rw [toNat_digitChar (h d List.mem_cons_self)]
        omega
      have hds := ih (fun e he => h e (List.mem_cons_of_mem d he))
      rw [List.foldr_cons, List.foldr_cons, ← hds, hd]
      simp only [Nat.cast_id]
      omega

/-- A numeral denotes its number. -/
@[simp]
theorem value_numeral (n : ℕ) :
  value (numeral n) = n
  := by
  rw [numeral]
  split
  · rename_i h
    rw [h]
    rfl
  · rw [foldl_digitChar _ (fun d hd => Nat.digits_lt_base (by omega) hd), Nat.ofDigits_digits]

/-- The digits read off a numeral followed by nothing are the numeral. -/
@[simp]
theorem digitRun_numeral (n : ℕ) :
  digitRun (numeral n) = numeral n
  := by
  apply List.takeWhile_eq_self_iff.mpr
  intro c hc
  apply isDigit_of_mem_numeral hc

/-! ### Leading zeros -/

theorem value_append_digit (l : List UInt8) (c : UInt8) :
  value (l ++ [c]) = 10 * value l + (c.toNat - 48)
  := by
  rw [value, List.foldl_append]
  rfl

theorem digitChar_sub {c : UInt8} (h : isDigit c = true) :
  digitChar (c.toNat - 48) = c ∧ c.toNat - 48 < 10
  := by
  simp only [isDigit, Bool.and_eq_true, decide_eq_true_eq] at h
  refine ⟨?_, by omega⟩
  apply UInt8.toNat_inj.mp
  rw [toNat_digitChar (by omega)]
  omega

/-- The numeral of a number below ten is its digit. -/
theorem numeral_of_lt {d : ℕ} (h : d < 10) :
  numeral d = [digitChar d]
  := by
  rw [numeral]
  split
  · rename_i h0
    rw [h0]
    rfl
  · rename_i h0
    rw [Nat.digits_of_lt 10 d h0 h]
    rfl

/-- The numeral of a number from ten on ends in its last digit. -/
theorem numeral_append_digit {n d : ℕ} (hn : n ≠ 0) (hd : d < 10) :
  numeral (10 * n + d) = numeral n ++ [digitChar d]
  := by
  rw [numeral, numeral, if_neg (by omega), if_neg hn, Nat.add_comm,
    Nat.digits_add 10 (by omega) d n hd (.inr hn), List.reverse_cons, List.map_append]
  rfl

/-- A string of digits is the numeral of its value, after some zeros. -/
theorem exists_zeros {l : List UInt8} (hne : l ≠ []) (h : ∀ c ∈ l, isDigit c = true) :
  ∃ k, l = List.replicate k 48 ++ numeral (value l)
  := by
  induction l using List.reverseRecOn with
  | nil => exact absurd rfl hne
  | append_singleton l c ih =>
      obtain ⟨hc, hlt⟩ := digitChar_sub (h c (by simp))
      rw [value_append_digit]
      by_cases hl : l = []
      · use 0
        rw [hl, value, List.foldl_nil, Nat.mul_zero, Nat.zero_add, numeral_of_lt hlt, hc]
        rfl
      · obtain ⟨k, hk⟩ := ih hl (fun d hd => h d (by simp [hd]))
        by_cases h0 : value l = 0
        · use k + 1
          have hzero : numeral 0 = [48] := rfl
          rw [h0, hzero] at hk
          rw [h0, Nat.mul_zero, Nat.zero_add, numeral_of_lt hlt, hc, hk, List.replicate_succ']
        · use k
          rw [numeral_append_digit h0 hlt, hc, ← List.append_assoc, ← hk]

/-- Leading zeros do not change the value. -/
theorem value_zeros_append (k : ℕ) (l : List UInt8) :
  value (List.replicate k 48 ++ l) = value l
  := by
  rw [value, List.foldl_append]
  induction k with
  | zero => rfl
  | succ k ih => apply ih

/-- A numeral after some zeros is a string of digits. -/
theorem isDigit_of_mem_zeros_append {k n : ℕ} {c : UInt8}
    (h : c ∈ List.replicate k 48 ++ numeral n) :
  isDigit c = true
  := by
  obtain h | h := List.mem_append.mp h
  · rw [List.eq_of_mem_replicate h]
    decide
  · apply isDigit_of_mem_numeral h

end Decimal
