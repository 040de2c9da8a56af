import Mathlib.Logic.Basic

/-!
# Runs of labelled transition relations

`Run step s ls t` says that a labelled transition relation `step` leads from `s` to `t`
through the labels `ls`.  Runs compose, and what every step preserves holds at the end of
every run.
-/

universe u v

/-- A run of the transition relation `step` from one state to another, with the labels of
its steps. -/
inductive Run {S : Type u} {L : Type v} (step : S → L → S → Prop) : S → List L → S → Prop where
  | nil (s : S) : Run step s [] s
  | cons {s t r : S} {l : L} {ls : List L} :
      step s l t → Run step t ls r → Run step s (l :: ls) r

namespace Run

variable {S : Type u} {L : Type v} {step : S → L → S → Prop}

/-- A single step is a run. -/
theorem single {s t : S} {l : L} (h : step s l t) :
  Run step s [l] t
  := .cons h (.nil t)

/-- Runs compose. -/
theorem trans {s t r : S} {ls ls' : List L} (h : Run step s ls t) (h' : Run step t ls' r) :
  Run step s (ls ++ ls') r
  := by
  induction h with
  | nil => apply h'
  | cons hs _ ih => apply Run.cons hs (ih h')

/-- A run is extended by a step at its end. -/
theorem snoc {s t r : S} {l : L} {ls : List L} (h : Run step s ls t) (hl : step t l r) :
  Run step s (ls ++ [l]) r
  := h.trans (single hl)

/-- A property that every step preserves is preserved by runs. -/
theorem invariant {I : S → Prop} (hI : ∀ {s l t}, I s → step s l t → I t) {s t : S} {ls : List L}
    (h : Run step s ls t) (hs : I s) :
  I t
  := by
  induction h with
  | nil => apply hs
  | cons hl _ ih => apply ih (hI hs hl)

/-- A larger transition relation has more runs. -/
theorem mono {step' : S → L → S → Prop} (hsub : ∀ {s l t}, step s l t → step' s l t) {s t : S}
    {ls : List L} (h : Run step s ls t) :
  Run step' s ls t
  := by
  induction h with
  | nil => apply Run.nil
  | cons hl _ ih => apply Run.cons (hsub hl) ih

/-- If every step is a run of another transition relation, then so is every run. -/
theorem refine {L' : Type v} {step' : S → L' → S → Prop}
    (hstep : ∀ {s l t}, step s l t → ∃ ls, Run step' s ls t) {s t : S} {ls : List L}
    (h : Run step s ls t) :
  ∃ ls', Run step' s ls' t
  := by
  induction h with
  | nil s => exact ⟨[], .nil s⟩
  | cons hl _ ih =>
      obtain ⟨first, hfirst⟩ := hstep hl
      obtain ⟨rest, hrest⟩ := ih
      exact ⟨first ++ rest, hfirst.trans hrest⟩

/-! ### Runs of functions -/

/-- Each label meets a condition in the state in which it is taken, where a function gives the
state after it. -/
def Follows (next : S → L → S) (P : S → L → Prop) (s : S) : List L → Prop
  | [] => True
  | l :: ls => P s l ∧ Follows next P (next s l) ls

instance decidableFollows {next : S → L → S} {P : S → L → Prop} [∀ s l, Decidable (P s l)] :
    ∀ (s : S) (ls : List L), Decidable (Follows next P s ls)
  | _, [] => inferInstanceAs (Decidable True)
  | s, l :: ls =>
      have : Decidable (Follows next P (next s l) ls) := decidableFollows (next s l) ls
      inferInstanceAs (Decidable (P s l ∧ Follows next P (next s l) ls))

theorem of_follows {next : S → L → S} {P : S → L → Prop} :
  ∀ {ls : List L} {s : S}, Follows next P s ls →
    Run (fun s l t => P s l ∧ t = next s l) s ls (ls.foldl next s)
  | [], s, _ => .nil s
  | _ :: _, _, h => .cons ⟨h.1, rfl⟩ (of_follows h.2)

end Run
