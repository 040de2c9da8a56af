import Mathlib.Algebra.BigOperators.Group.List.Basic
import Mathlib.Algebra.Ring.Nat
import Mathlib.Data.List.Nodup
import Mathlib.Data.List.Perm.Basic

/-!
# Amounts posted to accounts

A list of amounts, each of which is posted to an account.  `posted P l` is the sum of the amounts
that are posted to accounts that satisfy `P`.  The amounts posted to accounts without repetition
add up to what is posted to all of them.
-/

namespace Posting

universe u v

variable {κ : Type u} {α : Type v}

/-- What is posted to the accounts that satisfy `P`. -/
def posted (P : κ → Bool) (l : List (κ × ℕ)) : ℕ :=
  ((l.filter fun p => P p.1).map Prod.snd).sum

theorem posted_cons (P : κ → Bool) (p : κ × ℕ) (l : List (κ × ℕ)) :
  posted P (p :: l) = (if P p.1 then p.2 else 0) + posted P l
  := by
  rw [posted, List.filter_cons]
  split
  · rw [List.map_cons, List.sum_cons]
    rfl
  · rw [zero_add]
    rfl

theorem posted_append (P : κ → Bool) (l l' : List (κ × ℕ)) :
  posted P (l ++ l') = posted P l + posted P l'
  := by
  rw [posted, List.filter_append, List.map_append, List.sum_append]
  rfl

theorem posted_congr {P Q : κ → Bool} {l : List (κ × ℕ)} (h : ∀ p ∈ l, P p.1 = Q p.1) :
  posted P l = posted Q l
  := by
  rw [posted, posted, List.filter_congr h]

theorem posted_eq_zero {P : κ → Bool} {l : List (κ × ℕ)} (h : ∀ p ∈ l, P p.1 = false) :
  posted P l = 0
  := by
  have hnone : l.filter (fun p => P p.1) = [] := by
    apply List.filter_eq_nil_iff.mpr
    intro p hp
    simp [h p hp]
  rw [posted, hnone]
  rfl

/-- What is posted to some accounts and what is posted to the others is everything. -/
theorem posted_add_posted_not (P : κ → Bool) :
  ∀ l : List (κ × ℕ), posted P l + posted (fun k => !P k) l = (l.map Prod.snd).sum
  | [] => rfl
  | p :: l => by
      have ih := posted_add_posted_not P l
      rw [posted_cons, posted_cons, List.map_cons, List.sum_cons, ← ih]
      cases P p.1 with
      | false => simp [Nat.add_left_comm]
      | true => simp [Nat.add_assoc]

theorem posted_le (P : κ → Bool) (l : List (κ × ℕ)) :
  posted P l ≤ (l.map Prod.snd).sum
  := by
  rw [← posted_add_posted_not P l]
  apply Nat.le_add_right

variable [DecidableEq κ]

theorem sum_ite_eq_of_nodup {keys : List κ} (h : keys.Nodup) (k : κ) (n : ℕ) :
  (keys.map fun k' => if k = k' then n else 0).sum = if k ∈ keys then n else 0
  := by
  induction keys with
  | nil => rfl
  | cons k' keys ih =>
      obtain ⟨hnot, hnodup⟩ := List.nodup_cons.mp h
      rw [List.map_cons, List.sum_cons, ih hnodup]
      by_cases hk : k = k'
      · subst hk
        simp [hnot]
      · simp [hk]

/-- What is posted to accounts without repetition adds up to what is posted to all of them. -/
theorem sum_posted {keys : List κ} (h : keys.Nodup) :
  ∀ l : List (κ × ℕ), (keys.map fun k => posted (· = k) l).sum = posted (· ∈ keys) l
  | [] => by simp [posted]
  | p :: l => by
      simp only [posted_cons, List.sum_map_add, decide_eq_true_eq]
      rw [sum_ite_eq_of_nodup h, sum_posted h l]

/-! ### Lists with keys -/

/-- Some elements of a list whose keys do not repeat are those with their keys. -/
theorem filter_keys {f : α → κ} {l l' : List α} (h : l'.Sublist l)
    (hnodup : (l.map f).Nodup) :
  l.filter (fun x => f x ∈ l'.map f) = l'
  := by
  induction h with
  | slnil => rfl
  | @cons l' l x h ih =>
      obtain ⟨hnot, hnodup⟩ := List.nodup_cons.mp hnodup
      have hx : f x ∉ l'.map f := fun hx => hnot ((h.map f).subset hx)
      rw [List.filter_cons_of_neg (by simpa using hx), ih hnodup]
  | @cons_cons l' l x h ih =>
      obtain ⟨hnot, hnodup⟩ := List.nodup_cons.mp hnodup
      rw [List.filter_cons_of_pos (by simp)]
      congr 1
      apply (List.filter_congr _).trans (ih hnodup)
      intro y hy
      have hne : f y ≠ f x := fun heq => hnot (heq ▸ List.mem_map_of_mem hy)
      simp [hne]

/-- The elements with other keys, together with these, are all. -/
theorem filter_keys_perm {f : α → κ} {l l' : List α} (h : l'.Sublist l)
    (hnodup : (l.map f).Nodup) :
  (l.filter (fun x => f x ∉ l'.map f) ++ l').Perm l
  := by
  have hperm := List.filter_append_perm (fun x => decide (f x ∉ l'.map f)) l
  have hkept : l.filter (fun x => !decide (f x ∉ l'.map f)) = l' := by
    apply (List.filter_congr _).trans (filter_keys h hnodup)
    intro x _
    rw [decide_not, Bool.not_not]
  rw [hkept] at hperm
  exact hperm

end Posting
