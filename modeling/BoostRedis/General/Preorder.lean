import Mathlib.Data.Nat.Notation
import Mathlib.Data.List.Basic

/-!
# Words that are the pre-order of a tree

The labels of a word have a role: a vertex with a number of children, or the beginning or the
end of a bracket, which is a vertex without a label of its own and with any number of children.
A label also has a depth, so that the children of a vertex are one level deeper than the vertex
itself.  A stack of frames, each with the number of children that are missing, recognises the
words that are the pre-order of a tree.
-/

namespace Preorder

universe u

/-- What a label stands for.  The end of a bracket outside of brackets is a leaf. -/
inductive Role where
  | vertex (rank : ℕ)
  | opens
  | closes
deriving DecidableEq

/-- Ordered trees with two kinds of vertices: labelled ones, and brackets. -/
inductive Tree (α : Type u) where
  | vertex (a : α) (children : List (Tree α))
  | bracket (a : α) (children : List (Tree α)) (z : α)

/-- A frame of an open vertex: how many children are missing after the next one, or `none` for
an open bracket. -/
abbrev Frame := Option ℕ

section Words

variable {α : Type u} (role : α → Role) (depth : α → ℕ)

mutual

/-- The labels of a tree in pre-order. -/
def preorder : Tree α → List α
  | .vertex a ts => a :: preorderAll ts
  | .bracket a ts z => a :: (preorderAll ts ++ [z])

/-- The labels of several trees. -/
def preorderAll : List (Tree α) → List α
  | [] => []
  | t :: ts => preorder t ++ preorderAll ts

end

/-- A leaf whose label would end a bracket. -/
def Closing : Tree α → Prop
  | .vertex a _ => role a = .closes
  | .bracket _ _ _ => False

mutual

/-- The tree has its root at depth `d`, every vertex has as many children as its rank says, and
children are one level deeper than their parent. -/
def Ranked (d : ℕ) : Tree α → Prop
  | .vertex a ts =>
      (role a = .vertex ts.length ∨ role a = .closes ∧ ts = []) ∧ depth a = d ∧ RankedAll (d + 1) ts
  | .bracket a ts z =>
      role a = .opens ∧ role z = .closes ∧ depth a = d + 1 ∧ depth z = d + 1 ∧
        RankedAll (d + 1) ts ∧ ∀ t ∈ ts, ¬ Closing role t

/-- Every tree of a list has its root at depth `d`, and is ranked. -/
def RankedAll (d : ℕ) : List (Tree α) → Prop
  | [] => True
  | t :: ts => Ranked d t ∧ RankedAll d ts

end

/-- A child is complete: it is counted, and with the last one its parent is complete too. -/
def complete : List Frame → List Frame
  | [] => []
  | none :: st => none :: st
  | some 0 :: st => complete st
  | some (k + 1) :: st => some k :: st

/-- What the next label does to the open frames, if it stands at the right depth. -/
def step (st : List Frame) (a : α) : Option (List Frame) :=
  match role a, st with
  | _, [] => none
  | .vertex 0, st => if depth a + 1 = st.length then some (complete st) else none
  | .vertex (n + 1), st => if depth a + 1 = st.length then some (some n :: st) else none
  | .opens, st => if depth a = st.length then some (none :: st) else none
  | .closes, none :: st => if depth a = st.length then some (complete st) else none
  | .closes, some k :: st => if depth a = st.length then some (complete (some k :: st)) else none

/-- The open frames after a word. -/
def run (st : List Frame) : List α → Option (List Frame)
  | [] => some st
  | a :: w => (step role depth st a).bind fun st' => run st' w

variable {role : α → Role} {depth : α → ℕ} {st : List Frame} {a : α} {w : List α}

theorem run_cons {st' : List Frame} (h : step role depth st a = some st') :
  run role depth st (a :: w) = run role depth st' w
  := by
  rw [run, h, Option.bind_some]

/-- A leaf completes itself. -/
theorem step_leaf (hr : role a = .vertex 0) (hd : depth a + 1 = st.length) :
  step role depth st a = some (complete st)
  := by
  cases st with
  | nil => cases hd
  | cons f st => simp only [step, hr, hd, ↓reduceIte]

/-- A vertex with children opens a frame. -/
theorem step_vertex {n : ℕ} (hr : role a = .vertex (n + 1)) (hd : depth a + 1 = st.length) :
  step role depth st a = some (some n :: st)
  := by
  cases st with
  | nil => cases hd
  | cons f st => simp only [step, hr, hd, ↓reduceIte]

/-- The beginning of a bracket opens a frame. -/
theorem step_opens (hr : role a = .opens) (hst : st ≠ []) (hd : depth a = st.length) :
  step role depth st a = some (none :: st)
  := by
  cases st with
  | nil => exact absurd rfl hst
  | cons f st => simp only [step, hr, hd, ↓reduceIte]

/-- The end of a bracket completes the bracket. -/
theorem step_closes (hr : role a = .closes) (hd : depth a = st.length) :
  step role depth (none :: st) a = some (complete st)
  := by
  simp only [step, hr, hd, ↓reduceIte]

/-- The end of a bracket outside of brackets is a leaf. -/
theorem step_closes_leaf {k : ℕ} (hr : role a = .closes) (hd : depth a = st.length) :
  step role depth (some k :: st) a = some (complete (some k :: st))
  := by
  simp only [step, hr, hd, ↓reduceIte]

/-- A label that is read stands at the depth of the open frame, or one level deeper if it
begins a bracket. -/
theorem step_depth {st' : List Frame} (h : step role depth st a = some st') :
  st ≠ [] ∧ if role a = .opens then depth a = st.length else depth a + 1 = st.length
  := by
  obtain _ | ⟨f, st⟩ := st
  · simp [step] at h
  · refine ⟨List.cons_ne_nil f st, ?_⟩
    rcases hr : role a with (_ | n) | _ | _ <;> rcases f with _ | k <;>
      simp only [step, hr, Option.ite_none_right_eq_some] at h <;>
      simpa using h.1

/-! ### From trees to words -/

mutual

/-- Reading the pre-order of a tree completes one child. -/
theorem run_preorder :
  ∀ (t : Tree α) {d : ℕ} {st : List Frame}, Ranked role depth d t → st.length = d + 1 →
    (Closing role t → ∃ k st', st = some k :: st') → ∀ w,
    run role depth st (preorder t ++ w) = run role depth (complete st) w
  | .vertex a ts, d, st, h, hst, hc, w => by
      obtain ⟨hr | ⟨hr, rfl⟩, hd, hts⟩ := h
      · cases ts with
        | nil => rw [preorder, preorderAll, List.singleton_append, run_cons (step_leaf hr (by omega))]
        | cons t ts =>
            rw [preorder, List.cons_append, run_cons (step_vertex hr (by omega))]
            apply run_preorderAll (t :: ts) hts rfl hst
      · obtain ⟨k, st', rfl⟩ := hc hr
        rw [List.length_cons] at hst
        rw [preorder, preorderAll, List.singleton_append, run_cons (step_closes_leaf hr (by omega))]
  | .bracket a ts z, d, st, h, hst, _, w => by
      obtain ⟨hra, hrz, hda, hdz, hts, hnc⟩ := h
      have hne : st ≠ [] := by
        rintro rfl
        cases hst
      rw [preorder, List.cons_append, run_cons (step_opens hra hne (by omega)), List.append_assoc,
        run_bracketed ts hts hst hnc, List.singleton_append, run_cons (step_closes hrz (by omega))]

/-- Reading the children of a vertex completes the vertex. -/
theorem run_preorderAll :
  ∀ (ts : List (Tree α)) {d n : ℕ} {st : List Frame}, RankedAll role depth d ts →
    ts.length = n + 1 → st.length = d → ∀ w,
    run role depth (some n :: st) (preorderAll ts ++ w) = run role depth (complete st) w
  | [], _, _, _, _, hn, _, _ => by cases hn
  | t :: ts, d, n, st, h, hn, hst, w => by
      have ht : run role depth (some n :: st) _ = _ :=
        run_preorder t h.1 (by rw [List.length_cons, hst]) (fun _ => ⟨n, st, rfl⟩)
          (preorderAll ts ++ w)
      rw [preorderAll, List.append_assoc, ht]
      rw [List.length_cons] at hn
      cases n with
      | zero =>
          obtain rfl := List.length_eq_zero_iff.mp (Nat.succ.inj hn)
          rfl
      | succ n => apply run_preorderAll ts h.2 (Nat.succ.inj hn) hst

/-- Reading the children of a bracket leaves it open. -/
theorem run_bracketed :
  ∀ (ts : List (Tree α)) {d : ℕ} {st : List Frame}, RankedAll role depth (d + 1) ts →
    st.length = d + 1 → (∀ t ∈ ts, ¬ Closing role t) → ∀ w,
    run role depth (none :: st) (preorderAll ts ++ w) = run role depth (none :: st) w
  | [], _, _, _, _, _, _ => rfl
  | t :: ts, d, st, h, hst, hnc, w => by
      have ht : run role depth (none :: st) _ = _ :=
        run_preorder t h.1 (by rw [List.length_cons, hst])
          (fun hc => absurd hc (hnc t List.mem_cons_self)) (preorderAll ts ++ w)
      rw [preorderAll, List.append_assoc, ht]
      apply run_bracketed ts h.2 hst fun t' ht' => hnc t' (List.mem_cons_of_mem t ht')

end

/-! ### From words to trees -/

theorem length_le_preorderAll :
  ∀ ts : List (Tree α), ts.length ≤ (preorderAll ts).length
  | [] => Nat.le_refl 0
  | t :: ts => by
      have := length_le_preorderAll ts
      have hpos : 0 < (preorder t).length := by
        cases t <;> rw [preorder, List.length_cons] <;> omega
      rw [preorderAll, List.length_append, List.length_cons]
      omega

/-- The word begins with the pre-order of a tree, after which one child is complete. -/
def Splits (role : α → Role) (depth : α → ℕ) (st : List Frame) (w : List α) : Prop :=
  ∃ t w', Ranked role depth (st.length - 1) t ∧ preorder t ++ w' = w ∧
    run role depth (complete st) w' = some [] ∧ (Closing role t → ∃ k st', st = some k :: st')

/-- The next label does not end the bracket that is open. -/
def Proceeds (role : α → Role) (st : List Frame) (w : List α) : Prop :=
  ∀ a w' st', w = a :: w' → st = none :: st' → role a ≠ .closes

/-- All words shorter than `n` that lead to the end begin with a tree. -/
def SplitsBelow (role : α → Role) (depth : α → ℕ) (n : ℕ) : Prop :=
  ∀ w st, w.length < n → run role depth st w = some [] → st ≠ [] → Proceeds role st w →
    Splits role depth st w

/-- A word that leads to the end fills the frame of a vertex. -/
theorem exists_children {n : ℕ} (ih : SplitsBelow role depth n) :
  ∀ (k : ℕ) {w : List α} {st : List Frame}, w.length < n →
    run role depth (some k :: st) w = some [] →
    ∃ ts w', ts.length = k + 1 ∧ RankedAll role depth st.length ts ∧ preorderAll ts ++ w' = w ∧
      run role depth (complete st) w' = some []
  := by
  intro k
  induction k with
  | zero =>
      intro w st hw h
      obtain ⟨t, w', ht, rfl, hrun, -⟩ := ih w (some 0 :: st) hw h (by simp) (by simp [Proceeds])
      exact ⟨[t], w', rfl, ⟨ht, trivial⟩, by simp [preorderAll], hrun⟩
  | succ k ihk =>
      intro w st hw h
      obtain ⟨t, w', ht, rfl, hrun, -⟩ :=
        ih w (some (k + 1) :: st) hw h (by simp) (by simp [Proceeds])
      have hw' : w'.length < n := by
        rw [List.length_append] at hw
        omega
      obtain ⟨ts, w'', hlen, hts, rfl, hrun'⟩ := ihk hw' hrun
      refine ⟨t :: ts, w'', by rw [List.length_cons, hlen], ⟨ht, hts⟩, ?_, hrun'⟩
      rw [preorderAll, List.append_assoc]

/-- A word that leads to the end closes a bracket that is open. -/
theorem exists_bracketed {n : ℕ} (ih : SplitsBelow role depth n) (m : ℕ) :
  ∀ {w : List α} {st : List Frame}, w.length ≤ m → w.length < n →
    run role depth (none :: st) w = some [] →
    ∃ ts z w', role z = .closes ∧ depth z = st.length ∧ RankedAll role depth st.length ts ∧
      (∀ t ∈ ts, ¬ Closing role t) ∧ preorderAll ts ++ z :: w' = w ∧
      run role depth (complete st) w' = some []
  := by
  induction m with
  | zero =>
      intro w st hm _ h
      obtain rfl := List.length_eq_zero_iff.mp (Nat.le_zero.mp hm)
      cases h
  | succ m ihm =>
      intro w st hm hw h
      obtain _ | ⟨a, w⟩ := w
      · cases h
      by_cases hr : role a = .closes
      · obtain ⟨st', hstep, hrun⟩ := Option.bind_eq_some_iff.mp h
        obtain ⟨-, hd⟩ := step_depth hstep
        rw [hr, if_neg (by simp), List.length_cons, Nat.add_right_cancel_iff] at hd
        rw [step_closes hr hd] at hstep
        obtain rfl := Option.some.inj hstep
        exact ⟨[], a, w, hr, hd, trivial, by simp, rfl, hrun⟩
      · have hproceeds : Proceeds role (none :: st) (a :: w) := by
          rintro a' w' st' heq -
          obtain ⟨rfl, -⟩ := List.cons.inj heq
          exact hr
        obtain ⟨t, w', ht, heq, hrun, hc⟩ := ih (a :: w) (none :: st) hw h (by simp) hproceeds
        have hnc : ¬ Closing role t := by
          intro htc
          obtain ⟨k, st', hst⟩ := hc htc
          cases hst
        have hshort : w'.length < (a :: w).length := by
          have hpos := length_le_preorderAll [t]
          rw [← heq, List.length_append]
          rw [preorderAll, preorderAll, List.append_nil, List.length_singleton] at hpos
          omega
        obtain ⟨ts, z, w'', hz, hdz, hts, hncs, heq', hrun'⟩ :=
          ihm (w := w') (by omega) (by omega) hrun
        refine ⟨t :: ts, z, w'', hz, hdz, ⟨ht, hts⟩, ?_, ?_, hrun'⟩
        · intro t' ht'
          obtain rfl | ht' := List.mem_cons.mp ht'
          · exact hnc
          · exact hncs t' ht'
        · rw [preorderAll, List.append_assoc, heq', heq]

/-- Every word that leads to the end begins with a tree. -/
theorem splitsBelow (n : ℕ) :
  SplitsBelow role depth n
  := by
  induction n with
  | zero =>
      intro w st hw
      cases hw
  | succ n ih =>
      intro w st hw h hst hp
      obtain _ | ⟨a, w⟩ := w
      · obtain rfl := Option.some.inj h
        exact absurd rfl hst
      obtain ⟨st', hstep, hrun⟩ := Option.bind_eq_some_iff.mp h
      obtain ⟨-, hd⟩ := step_depth hstep
      have hw' : w.length < n := by
        rw [List.length_cons] at hw
        omega
      have hpos := List.length_pos_iff.mpr hst
      cases hr : role a with
      | vertex k =>
          rw [hr, if_neg (by simp)] at hd
          cases k with
          | zero =>
              rw [step_leaf hr hd] at hstep
              obtain rfl := Option.some.inj hstep
              exact ⟨.vertex a [], w, ⟨.inl hr, by omega, trivial⟩, rfl, hrun, by simp [Closing, hr]⟩
          | succ k =>
              rw [step_vertex hr hd] at hstep
              obtain rfl := Option.some.inj hstep
              obtain ⟨ts, w', hlen, hts, rfl, hrun'⟩ := exists_children ih k hw' hrun
              rw [← Nat.sub_add_cancel hpos] at hts
              exact ⟨.vertex a ts, w', ⟨.inl (by rw [hr, hlen]), by omega, hts⟩, rfl, hrun',
                by simp [Closing, hr]⟩
      | opens =>
          rw [hr, if_pos rfl] at hd
          rw [step_opens hr hst hd] at hstep
          obtain rfl := Option.some.inj hstep
          obtain ⟨ts, z, w', hz, hdz, hts, hnc, rfl, hrun'⟩ := exists_bracketed ih n (by omega) hw' hrun
          rw [← Nat.sub_add_cancel hpos] at hts
          refine ⟨.bracket a ts z, w', ⟨hr, hz, by omega, by omega, hts, hnc⟩, ?_, hrun', ?_⟩
          · simp [preorder]
          · simp [Closing]
      | closes =>
          rw [hr, if_neg (by simp)] at hd
          obtain _ | ⟨_ | k, st⟩ := st
          · exact absurd rfl hst
          · exact absurd hr (hp a w st rfl rfl)
          · rw [List.length_cons, Nat.add_right_cancel_iff] at hd
            rw [step_closes_leaf hr hd] at hstep
            obtain rfl := Option.some.inj hstep
            refine ⟨.vertex a [], w, ⟨.inr ⟨hr, rfl⟩, ?_, trivial⟩, rfl, hrun, fun _ => ⟨k, st, rfl⟩⟩
            rw [List.length_cons]
            omega

/-- A word is the pre-order of a ranked tree exactly when the machine completes the single child
it starts with. -/
theorem exists_tree_iff (w : List α) :
  (∃ t, Ranked role depth 0 t ∧ preorder t = w) ↔ run role depth [some 0] w = some []
  := by
  constructor
  · rintro ⟨t, ht, rfl⟩
    have h : run role depth [some 0] _ = _ := run_preorder t ht rfl (fun _ => ⟨0, [], rfl⟩) []
    rw [List.append_nil] at h
    rw [h]
    rfl
  · intro h
    obtain ⟨t, w', ht, rfl, hrun, -⟩ :=
      splitsBelow (w.length + 1) w [some 0] (by omega) h (by simp) (by simp [Proceeds])
    cases w' with
    | nil => exact ⟨t, ht, by simp⟩
    | cons a w' => simp [complete, run, step] at hrun

/-- A word that leads to the end is long enough for the children that are missing. -/
theorem lt_length_of_run {k : ℕ} (h : run role depth (some k :: st) w = some []) :
  k < w.length
  := by
  obtain ⟨ts, w', hlen, -, rfl, -⟩ := exists_children (splitsBelow (w.length + 1)) k (by omega) h
  have := length_le_preorderAll ts
  rw [List.length_append]
  omega

end Words

end Preorder
