import Mathlib.Data.List.Infix

/-!
# Lists with a two-element separator

`Separator.find a b l` is the position of the first occurrence in `l` of the element `a`
followed by the element `b`.  Such an occurrence is not moved by appending to the list,
and a list without an occurrence, followed by `a` and `b`, has its first occurrence right
at its end when `a` and `b` differ.
-/

universe u

namespace Separator

variable {α : Type u} [DecidableEq α]

/-- The position of the first occurrence of `a` followed by `b`. -/
def find (a b : α) : List α → Option ℕ
  | [] => none
  | [_] => none
  | x :: y :: l => if x = a ∧ y = b then some 0 else (find a b (y :: l)).map (· + 1)

@[simp]
theorem find_nil (a b : α) :
  find a b [] = none
  := rfl

/-- The separator is found at the head of a list that starts with it. -/
@[simp]
theorem find_head (a b : α) (l : List α) :
  find a b (a :: b :: l) = some 0
  := by
  simp [find]

/-- An occurrence that is not at the head is an occurrence in the tail. -/
theorem find_cons {a b x y : α} (l : List α) (h : ¬ (x = a ∧ y = b)) :
  find a b (x :: y :: l) = (find a b (y :: l)).map (· + 1)
  := by
  rw [find, if_neg h]

/-- The list falls into the part before the first occurrence, the separator, and the
rest. -/
theorem find_split {a b : α} :
  ∀ {l : List α} {i : ℕ}, find a b l = some i → ∃ rest, l = l.take i ++ a :: b :: rest
  | [], _, h => by simp at h
  | [_], _, h => by simp [find] at h
  | x :: y :: l, i, h => by
      by_cases hxy : x = a ∧ y = b
      · obtain ⟨rfl, rfl⟩ := hxy
        obtain rfl : 0 = i := by simpa using h
        use l
        rfl
      · rw [find_cons l hxy] at h
        obtain ⟨j, hj, rfl⟩ := Option.map_eq_some_iff.mp h
        obtain ⟨rest, hrest⟩ := find_split hj
        use rest
        rw [List.take_succ_cons, List.cons_append, ← hrest]

/-- The first occurrence lies inside the list. -/
theorem find_add_two_le {a b : α} {l : List α} {i : ℕ} (h : find a b l = some i) :
  i + 2 ≤ l.length
  := by
  obtain ⟨rest, hrest⟩ := find_split h
  have hlen := congrArg List.length hrest
  simp only [List.length_append, List.length_take, List.length_cons] at hlen
  omega

/-- Appending to a list does not move its first occurrence. -/
theorem find_append {a b : α} :
  ∀ {l : List α} {i : ℕ} (l' : List α), find a b l = some i → find a b (l ++ l') = some i
  | [], _, _, h => by simp at h
  | [_], _, _, h => by simp [find] at h
  | x :: y :: l, i, l', h => by
      by_cases hxy : x = a ∧ y = b
      · obtain ⟨rfl, rfl⟩ := hxy
        simpa using h
      · rw [find_cons l hxy] at h
        obtain ⟨j, hj, rfl⟩ := Option.map_eq_some_iff.mp h
        rw [List.cons_append, List.cons_append, find_cons _ hxy, ← List.cons_append,
          find_append l' hj, Option.map_some]

/-- There is no occurrence in the part before the first one. -/
theorem find_take {a b : α} :
  ∀ {l : List α} {i : ℕ}, find a b l = some i → find a b (l.take i) = none
  | [], _, h => by simp at h
  | [_], _, h => by simp [find] at h
  | x :: y :: l, i, h => by
      by_cases hxy : x = a ∧ y = b
      · obtain ⟨rfl, rfl⟩ := hxy
        obtain rfl : 0 = i := by simpa using h
        rfl
      · rw [find_cons l hxy] at h
        obtain ⟨j, hj, rfl⟩ := Option.map_eq_some_iff.mp h
        have ih := find_take hj
        cases j with
        | zero => rfl
        | succ j =>
            rw [List.take_succ_cons] at ih
            rw [List.take_succ_cons, List.take_succ_cons, find_cons _ hxy, ih, Option.map_none]

/-- A list without an occurrence, followed by the separator, has its first occurrence at
its own end. -/
theorem find_of_none {a b : α} (hab : a ≠ b) :
  ∀ {c : List α} (l : List α), find a b c = none → find a b (c ++ a :: b :: l) = some c.length
  | [], l, _ => find_head a b l
  | [x], l, _ => by
      have hx : ¬ (x = a ∧ a = b) := fun h => hab h.2
      rw [List.singleton_append, find_cons _ hx, find_head, Option.map_some, List.length_singleton]
  | x :: y :: c, l, h => by
      have hxy : ¬ (x = a ∧ y = b) := by
        rintro ⟨rfl, rfl⟩
        simp at h
      rw [find_cons c hxy, Option.map_eq_none_iff] at h
      rw [List.cons_append, List.cons_append, find_cons _ hxy, ← List.cons_append,
        find_of_none hab l h, Option.map_some]
      rfl

/-- Nothing is found exactly when the separator is not a factor of the list. -/
theorem find_eq_none_iff {a b : α} :
  ∀ {l : List α}, find a b l = none ↔ ¬ [a, b] <:+: l
  | [] => by simp
  | [x] => by
      constructor
      · intro _ h
        have := h.length_le
        simp at this
      · intro _
        rfl
  | x :: y :: l => by
      rw [List.infix_cons_iff, not_or, ← find_eq_none_iff (l := y :: l)]
      by_cases hxy : x = a ∧ y = b
      · obtain ⟨rfl, rfl⟩ := hxy
        simp
      · rw [find_cons l hxy, Option.map_eq_none_iff]
        constructor
        · intro h
          refine ⟨?_, h⟩
          intro hp
          simp only [List.cons_prefix_cons] at hp
          apply hxy ⟨hp.1.symm, hp.2.1.symm⟩
        · intro h
          apply h.2

end Separator
