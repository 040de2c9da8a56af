import Mathlib.Algebra.BigOperators.Group.List.Basic
import Mathlib.Algebra.Ring.Nat
import Mathlib.Data.Nat.ModEq

/-!
# Counters that wrap around

A counter modulo `N` that is increased by some amounts holds their sum modulo `N`.  It stays the
same just if the amount by which it is increased is a multiple of `N`.
-/

namespace Counter

universe u

variable {α : Type u} {N : ℕ}

theorem foldl_add_mod (f : α → ℕ) :
  ∀ (l : List α) (n : ℕ), l.foldl (fun n x => (n + f x) % N) (n % N) = (n + (l.map f).sum) % N
  | [], _ => rfl
  | x :: l, n => by
      rw [List.foldl_cons, Nat.mod_add_mod, foldl_add_mod f l, List.map_cons, List.sum_cons,
        Nat.add_assoc]

theorem add_mod_eq_mod_iff (n : ℕ) {k : ℕ} :
  (n + k) % N = n % N ↔ k % N = 0
  := by
  constructor
  · intro h
    have hmod : n + k ≡ n + 0 [MOD N] := h
    have hzero : k % N = 0 % N := Nat.ModEq.add_left_cancel' n hmod
    rw [hzero, Nat.zero_mod]
  · intro h
    rw [Nat.add_mod, h, Nat.add_zero, Nat.mod_mod]

theorem add_mod_eq_self_iff {n k : ℕ} (h : n < N) :
  (n + k) % N = n ↔ k % N = 0
  := by
  rw [← add_mod_eq_mod_iff n, Nat.mod_eq_of_lt h]

end Counter
