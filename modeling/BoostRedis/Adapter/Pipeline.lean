import BoostRedis.Adapter.Reuse
import Mathlib.Data.List.FinRange

/-!
# Responses to a pipeline

A response to a pipeline of commands has a result for each of them.  The adapter is given the
nodes of all replies one after the other, and has to keep them apart: what is read into a result
is what would be read if the reply to its command was the only one (`pipeline_read_iff`).
-/

namespace Redis

open Resp3

section Elements

variable {n : ℕ} {elements : Fin n → ResultAdapter}

/-- Nodes that are given to one element leave the others as they are. -/
theorem feedUntil_visit (k : Fin n) (nds : List Node) (s : ∀ k, (elements k).State) :
  feedUntil (visit elements k) nds s
    = mapState (Function.update s k) (feedUntil (elements k).feed nds (s k))
  := by
  have hvisit : ∀ nd t, visit elements k nd (Function.update s k t)
      = mapState (Function.update s k) ((elements k).feed nd t) := by
    intro nd t
    rw [visit, mapState, Function.update_self]
    simp only [Function.update_idem]
  have hfeed := feedUntil_mapState (elements k).feed hvisit nds (s k)
  rw [Function.update_eq_self] at hfeed
  apply hfeed

/-- Each of some elements is given the nodes of a reply. -/
theorem feedUntil_groups (replies : Fin n → List Node) {ks : List (Fin n)} (hks : ks.Nodup)
    {s s' : ∀ k, (elements k).State} :
  feedUntil (fun c : Fin n × Node => visit elements c.1 c.2)
      (ks.flatMap fun k => (replies k).map (k, ·)) s = .ok (s', none) ↔
    (∀ k ∈ ks, feedUntil (elements k).feed (replies k) (s k) = .ok (s' k, none)) ∧
      ∀ k ∉ ks, s' k = s k
  := by
  induction ks generalizing s with
  | nil =>
      rw [List.flatMap_nil, feedUntil, Except.ok.injEq, Prod.mk.injEq]
      simp [funext_iff, eq_comm]
  | cons k ks ih =>
      obtain ⟨hk, hks⟩ := List.nodup_cons.mp hks
      rw [List.flatMap_cons, feedUntil_append, feedUntil_map]
      simp only [feedUntil_visit]
      rcases hfed : feedUntil (elements k).feed (replies k) (s k) with t | ⟨t, _ | ec⟩
      · constructor
        · rintro ⟨⟩
        · rintro ⟨h, -⟩
          cases hfed.symm.trans (h k List.mem_cons_self)
      · -- The element is done, and the remaining ones find their adapters as they were.
        have hother : ∀ j, j ≠ k → Function.update s k t j = s j :=
          fun j hj => Function.update_of_ne hj _ _
        refine (ih hks (s := Function.update s k t)).trans ?_
        constructor
        · rintro ⟨hread, hkept⟩
          have hself : s' k = t := (hkept k hk).trans (Function.update_self _ _ _)
          refine ⟨?_, ?_⟩
          · intro j hj
            obtain rfl | hj := List.mem_cons.mp hj
            · rw [hfed, hself]
            · rw [← hread j hj, hother j (ne_of_mem_of_not_mem hj hk)]
          · intro j hj
            have hjk : j ≠ k := List.ne_of_not_mem_cons hj
            rw [hkept j (List.not_mem_of_not_mem_cons hj), hother j hjk]
        · rintro ⟨hread, hkept⟩
          have hself : t = s' k := by
            cases hfed.symm.trans (hread k List.mem_cons_self)
            rfl
          refine ⟨?_, ?_⟩
          · intro j hj
            rw [hother j (ne_of_mem_of_not_mem hj hk), hread j (List.mem_cons_of_mem _ hj)]
          · intro j hj
            by_cases hjk : j = k
            · subst hjk
              rw [Function.update_self, hself]
            · rw [hother j hjk, hkept j (List.not_mem_cons_of_ne_of_not_mem hjk hj)]
      · constructor
        · rintro ⟨⟩
        · rintro ⟨h, -⟩
          cases hfed.symm.trans (h k List.mem_cons_self)

/-- The calls for the replies to a pipeline, by the elements. -/
theorem replyCalls_ofFn (replies : Fin n → List Node) :
  replyCalls (List.ofFn replies)
    = ((List.finRange n).flatMap fun k => (replies k).map (k, ·)).map fun c => (c.1.val, c.2)
  := by
  have hindexed : (List.ofFn replies).zipIdx
      = (List.finRange n).map fun k => (replies k, k.val) := by
    apply List.ext_getElem
    · simp
    · intro i h h'
      simp
  rw [replyCalls, hindexed, List.flatMap_map, List.map_flatMap]
  simp only [List.map_map]
  rfl

end Elements

/-! ### Reading -/

theorem mapState_eq_ok_iff {σ τ : Type} {f : σ → τ} {fed : Fed σ} {t : τ} :
  mapState f fed = .ok (t, none) ↔ ∃ s, fed = .ok (s, none) ∧ f s = t
  := by
  rcases fed with e | ⟨s, ec⟩
  · simp [mapState, Except.map]
  · simp [mapState, Except.map, and_comm]

theorem ResultAdapter.read_eq_ok_iff {A : ResultAdapter} {r r' : A.Response} {nds : List Node} :
  A.read r nds = .ok (r', none) ↔
    ∃ s, A.adapt r = .ok s ∧ ∃ s', feedUntil A.feed nds s = .ok (s', none) ∧ A.response s' = r'
  := by
  rw [ResultAdapter.read]
  split
  · simp [*]
  · simp [*, mapState_eq_ok_iff]

theorem ResponseAdapter.read_eq_ok_iff {A : ResponseAdapter} {r r' : A.Response}
    {replies : List (List Node)} :
  A.read r replies = .ok (r', none) ↔
    ∃ s, A.adapt r = .ok s ∧
      ∃ s', feedUntil (fun (i, nd) => A.feed i nd) (replyCalls replies) s = .ok (s', none) ∧
        A.response s' = r'
  := by
  rw [ResponseAdapter.read]
  split
  · simp [*]
  · simp [*, mapState_eq_ok_iff]

/-- Replies to a pipeline are read into a response exactly if each of them alone is read into the
result for its command. -/
theorem pipeline_read_iff {n : ℕ} {elements : Fin n → ResultAdapter}
    (r r' : (staticAdapter elements).Response) (replies : Fin n → List Node) :
  (staticAdapter elements).read r (List.ofFn replies) = .ok (r', none) ↔
    ∀ k, (elements k).read (r k) (replies k) = .ok (r' k, none)
  := by
  have hfeed : (fun c : Fin n × Node => (staticAdapter elements).feed c.1.val c.2)
      = fun c => visit elements c.1 c.2 := by
    funext c s
    exact dif_pos c.1.isLt
  have hgroups : ∀ s s' : (∀ k, (elements k).State),
      feedUntil (fun (i, nd) => (staticAdapter elements).feed i nd)
        (replyCalls (List.ofFn replies)) s = .ok (s', none) ↔
      ∀ k, feedUntil (elements k).feed (replies k) (s k) = .ok (s' k, none) := by
    intro s s'
    rw [replyCalls_ofFn, feedUntil_map]
    refine (hfeed ▸ feedUntil_groups replies (List.nodup_finRange n)).trans ?_
    simp
  rw [ResponseAdapter.read_eq_ok_iff]
  simp only [ResultAdapter.read_eq_ok_iff]
  constructor
  · rintro ⟨s, hadapt, s', hfed, rfl⟩ k
    exact ⟨s k, assign_eq_ok_iff.mp hadapt k, s' k, (hgroups s s').mp hfed k, rfl⟩
  · intro h
    choose s hadapt s' hfed hresponse using h
    exact ⟨s, assign_eq_ok_iff.mpr hadapt, s', (hgroups s s').mpr hfed, funext hresponse⟩

end Redis
