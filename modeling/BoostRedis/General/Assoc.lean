import Mathlib.Data.List.Basic
import Mathlib.Data.List.Nodup

/-!
# Association lists

A finite map as the list of its pairs, and a finite set as the list of its elements, both in the
order in which the keys came first.  `Assoc.insertNew` adds a key that is not there yet, and
`Assoc.assign` binds a key to a value, in the place where the key already is.
-/

namespace Assoc

universe u v

variable {κ : Type u} {α : Type v} [DecidableEq κ]

/-- A key is added at the end, if it is not there yet. -/
def insertNew (k : κ) (ks : List κ) : List κ :=
  if k ∈ ks then ks else ks ++ [k]

/-- A key is bound to a value, in its pair or in a new one at the end. -/
def assign (k : κ) (a : α) : List (κ × α) → List (κ × α)
  | [] => [(k, a)]
  | p :: l => if p.1 = k then (p.1, a) :: l else p :: assign k a l

variable {k k' : κ} {a : α} {ks : List κ} {l : List (κ × α)}

/-! ### Keys -/

theorem mem_insertNew :
  k' ∈ insertNew k ks ↔ k' ∈ ks ∨ k' = k
  := by
  rw [insertNew]
  split
  · constructor
    · apply Or.inl
    · rintro (h | rfl) <;> assumption
  · rw [List.mem_append, List.mem_singleton]

theorem nodup_insertNew (h : ks.Nodup) :
  (insertNew k ks).Nodup
  := by
  rw [insertNew]
  split
  · exact h
  · rename_i hk
    apply List.Nodup.append h (List.nodup_singleton k)
    simpa using hk

/-- Keys that are added one after the other. -/
theorem mem_foldl_insertNew (items : List κ) :
  k ∈ items.foldl (fun ks k => insertNew k ks) ks ↔ k ∈ ks ∨ k ∈ items
  := by
  induction items generalizing ks with
  | nil => simp
  | cons item items ih =>
      rw [List.foldl_cons, ih, mem_insertNew, List.mem_cons, or_assoc]

theorem nodup_foldl_insertNew (h : ks.Nodup) (items : List κ) :
  (items.foldl (fun ks k => insertNew k ks) ks).Nodup
  := by
  induction items generalizing ks with
  | nil => exact h
  | cons item items ih => apply ih (nodup_insertNew h)

/-! ### Pairs -/

/-- The keys that are bound after an assignment. -/
theorem keys_assign (k : κ) (a : α) :
  ∀ l : List (κ × α), (assign k a l).map Prod.fst = insertNew k (l.map Prod.fst)
  | [] => rfl
  | p :: l => by
      rw [assign, insertNew]
      by_cases h : p.1 = k
      · simp [h]
      · have hk : ¬ k = p.1 := fun hk => h hk.symm
        simp only [h, hk, if_false, List.map_cons, keys_assign k a l, insertNew, List.mem_cons,
          false_or]
        split <;> rfl

/-- What the first pair binds. -/
theorem lookup_cons_eq (k : κ) (p : κ × α) (l : List (κ × α)) :
  (p :: l).lookup k = if k = p.1 then some p.2 else l.lookup k
  := by
  obtain ⟨k', a⟩ := p
  rw [List.lookup_cons]
  by_cases h : k = k'
  · simp [h]
  · rw [beq_false_of_ne h, if_neg h]

/-- What a key is bound to after an assignment. -/
theorem lookup_assign (k k' : κ) (a : α) :
  ∀ l : List (κ × α), (assign k a l).lookup k' = if k' = k then some a else l.lookup k'
  | [] => by
      rw [assign, lookup_cons_eq]
  | p :: l => by
      rw [assign]
      by_cases h : p.1 = k
      · rw [if_pos h, lookup_cons_eq, lookup_cons_eq, h]
        split <;> rfl
      · rw [if_neg h, lookup_cons_eq, lookup_cons_eq, lookup_assign k k' a l]
        by_cases h' : k' = p.1
        · rw [if_pos h', if_neg (h' ▸ h), if_pos h']
        · rw [if_neg h', if_neg h']

/-- Pairs that are assigned one after the other: every key is bound by the last pair with it. -/
theorem lookup_foldl_assign (items : List (κ × α)) :
  (items.foldl (fun l p => assign p.1 p.2 l) l).lookup k
    = (items.reverse.lookup k).or (l.lookup k)
  := by
  induction items generalizing l with
  | nil => rfl
  | cons item items ih =>
      rw [List.foldl_cons, ih, lookup_assign, List.reverse_cons, List.lookup_append,
        lookup_cons_eq]
      by_cases h : k = item.1 <;> cases items.reverse.lookup k <;> simp [h]

theorem nodup_keys_foldl_assign (h : (l.map Prod.fst).Nodup) (items : List (κ × α)) :
  ((items.foldl (fun l p => assign p.1 p.2 l) l).map Prod.fst).Nodup
  := by
  induction items generalizing l with
  | nil => exact h
  | cons item items ih =>
      apply ih
      rw [keys_assign]
      apply nodup_insertNew h

/-! ### Lists that repeat their keys -/

omit [DecidableEq κ] in
/-- Elements that are added at the end one after the other. -/
theorem foldl_append_singleton (l l' : List κ) :
  l.foldl (fun ks k => ks ++ [k]) l' = l' ++ l
  := by
  induction l generalizing l' with
  | nil => simp
  | cons k l ih => rw [List.foldl_cons, ih, List.append_assoc, List.singleton_append]

omit [DecidableEq κ] in
/-- An element that has been added at the end is changed. -/
theorem modify_append_length (k : κ) (f : κ → κ) (l : List κ) :
  (l ++ [k]).modify l.length f = l ++ [f k]
  := by
  induction l with
  | nil => rfl
  | cons k' l ih =>
      rw [List.cons_append, List.length_cons, List.modify_succ_cons, ih, List.cons_append]

/-! ### The place of a key -/

/-- A key that is bound gets its value where it is. -/
theorem modify_eq_assign {i : ℕ} (h : l.findIdx? (fun p => p.1 = k) = some i) (a : α) :
  l.modify i (fun p => (p.1, a)) = assign k a l
  := by
  induction l generalizing i with
  | nil => cases h
  | cons p l ih =>
      rw [List.findIdx?_cons] at h
      rw [assign]
      by_cases hk : p.1 = k
      · obtain rfl : 0 = i := by simpa [hk] using h
        simp [hk]
      · simp only [hk, decide_false, Bool.false_eq_true, if_false] at h ⊢
        obtain ⟨j, hj, rfl⟩ := Option.map_eq_some_iff.mp h
        rw [List.modify_succ_cons, ih hj]

/-- A key that is not bound gets a pair at the end. -/
theorem append_eq_assign (h : l.findIdx? (fun p => p.1 = k) = none) (a : α) :
  l ++ [(k, a)] = assign k a l
  := by
  induction l with
  | nil => rfl
  | cons p l ih =>
      rw [List.findIdx?_cons] at h
      by_cases hk : p.1 = k
      · simp [hk] at h
      · simp only [hk, decide_false, Bool.false_eq_true, if_false, Option.map_eq_none_iff] at h
        rw [assign, if_neg hk, List.cons_append, ih h]

end Assoc
