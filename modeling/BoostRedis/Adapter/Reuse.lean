import BoostRedis.Adapter.Types

/-!
# Responses that are used again

A response can be given to a second request.  Each adapter has its own place in which it resets
what the response holds: the adapter of an element when it is constructed, if the result holds a
value, the one of an optional nowhere.

A second use ends as the first use of a new response for all replies exactly if what the response
holds is clean: an element holds a value, an optional or a node is as it was constructed, and a
tuple holds elements that are clean.
-/

namespace Redis

open Resp3

/-! ### Tuples -/

/-- The adapters of the elements of a tuple are the adapters of each. -/
theorem assign_eq_ok_iff :
  ∀ {n : ℕ} {elements : Fin n → ResultAdapter} {r : ∀ k, (elements k).Response}
    {s : ∀ k, (elements k).State},
    assign elements r = .ok s ↔ ∀ k, (elements k).adapt (r k) = .ok (s k)
  | 0, elements, r, s => by
      constructor
      · intro _ k
        apply k.elim0
      · intro _
        rw [assign]
        congr
        funext k
        apply k.elim0
  | n + 1, elements, r, s => by
      have ih : ∀ {rest : ∀ k : Fin n, (elements k.succ).State},
          assign (fun k => elements k.succ) (fun k => r k.succ) = .ok rest
            ↔ ∀ k : Fin n, (elements k.succ).adapt (r k.succ) = .ok (rest k) :=
        assign_eq_ok_iff
      rw [assign, Fin.forall_fin_succ, ← ih]
      constructor
      · intro h
        split at h
        · cases h
        · rename_i rest hrest
          cases hfirst : (elements 0).adapt (r 0) with
          | error t =>
              rw [hfirst] at h
              cases h
          | ok first =>
              rw [hfirst] at h
              obtain rfl : Fin.cons first rest = s := by
                injection h
              exact ⟨rfl, hrest⟩
      · rintro ⟨hfirst, hrest⟩
        rw [hrest, hfirst]
        apply congrArg Except.ok
        apply Fin.cons_self_tail

/-! ### Clean results -/

namespace ResultType

/-- A new result can be adapted, and is not changed by that. -/
theorem adapt_fresh :
  ∀ t : ResultType,
    ∃ s, t.adapter.adapt t.adapter.fresh = .ok s ∧ t.adapter.response s = t.adapter.fresh
  | value _ | optional _ | node | nodes | ignore => ⟨_, rfl, rfl⟩
  | tuple elements => by
      choose s hs hresponse using fun k => adapt_fresh (elements k)
      use { adapters := s }
      constructor
      · simp only [adapter, staticAggregateAdapter, assign_eq_ok_iff.mpr hs]
        rfl
      · apply congrArg Except.ok
        funext k
        apply hresponse k

/-- Whether a result shows nothing of what it holds when it is adapted again. -/
def Clean : (t : ResultType) → t.adapter.Response → Prop
  | value t, r => ∃ v : t.Value, r = Except.ok v
  | optional t, r => r = (optional t).adapter.fresh
  | node, r => r = node.adapter.fresh
  | nodes, r => r = nodes.adapter.fresh
  | ignore, r => r = ignore.adapter.fresh
  | tuple elements, r =>
      ∃ rs : ∀ k, (elements k).adapter.Response, r = Except.ok rs ∧ ∀ k, (elements k).Clean (rs k)

/-- The adapter of a clean result is the one of a new result. -/
theorem Clean.adapt :
  ∀ {t : ResultType} {r : t.adapter.Response}, t.Clean r →
    t.adapter.adapt r = t.adapter.adapt t.adapter.fresh
  | value _, _, ⟨_, rfl⟩ => rfl
  | optional _, _, rfl | node, _, rfl | nodes, _, rfl | ignore, _, rfl => rfl
  | tuple elements, _, ⟨rs, rfl, hclean⟩ => by
      choose s hs _ using fun k => adapt_fresh (elements k)
      have hrs : assign (fun k => (elements k).adapter) rs = .ok s :=
        assign_eq_ok_iff.mpr fun k => (hclean k).adapt.trans (hs k)
      simp only [adapter, staticAggregateAdapter, hrs, assign_eq_ok_iff.mpr hs]

/-- A result that can be adapted, and is then as a new one, is clean. -/
theorem clean_of_adapt :
  ∀ {t : ResultType} {r : t.adapter.Response} {s : t.adapter.State},
    t.adapter.adapt r = .ok s → t.adapter.response s = t.adapter.fresh → t.Clean r
  | value _, .ok v, _, _, _ => ⟨v, rfl⟩
  | value _, .error _, _, h, _ => nomatch h
  | optional _, _, _, rfl, h | node, _, _, rfl, h | nodes, _, _, rfl, h | ignore, _, _, rfl, h => h
  | tuple _, .error _, _, h, _ => nomatch h
  | tuple elements, .ok rs, s, h, hresponse => by
      simp only [adapter, staticAggregateAdapter] at h
      cases hassign : assign (fun k => (elements k).adapter) rs with
      | error t =>
          rw [hassign] at h
          cases h
      | ok adapters =>
          rw [hassign] at h
          cases h
          have hfresh : (fun k => (elements k).adapter.response (adapters k))
              = fun k => (elements k).adapter.fresh := by
            injection hresponse
          exact ⟨rs, rfl, fun k =>
            clean_of_adapt (assign_eq_ok_iff.mp hassign k) (congrFun hfresh k)⟩

end ResultType

/-! ### Responses -/

section Response

variable {n : ℕ} (types : Fin n → ResultType)

/-- A response that has been used ends, for all replies that a new response can take in without
an exception, as the new one does, exactly if all its results are clean. -/
theorem response_reuse_iff (old : (responseAdapter types).Response) :
  (∀ replies out, (responseAdapter types).read (responseAdapter types).fresh replies = .ok out →
      (responseAdapter types).read old replies = .ok out)
    ↔ ∀ k, (types k).Clean (old k)
  := by
  choose s hs hfresh using fun k => (types k).adapt_fresh
  have hnew : (responseAdapter types).adapt (responseAdapter types).fresh = .ok s :=
    assign_eq_ok_iff.mpr hs
  constructor
  · -- No reply at all tells a result that is not clean from a new one.
    intro h k
    have hnone := h [] (fun k => (types k).adapter.fresh, none) (by
      rw [ResponseAdapter.read, hnew]
      apply congrArg fun r => Except.ok (r, none)
      funext k
      apply hfresh k)
    rw [ResponseAdapter.read] at hnone
    cases hold : (responseAdapter types).adapt old with
    | error t =>
        rw [hold] at hnone
        cases hnone
    | ok s' =>
        rw [hold] at hnone
        have hresponse : (responseAdapter types).response s' = fun k => (types k).adapter.fresh := by
          injection hnone with hnone
          injection hnone
        apply ResultType.clean_of_adapt (assign_eq_ok_iff.mp hold k) (congrFun hresponse k)
  · intro hclean replies out h
    have hold : (responseAdapter types).adapt old = .ok s :=
      assign_eq_ok_iff.mpr fun k => (hclean k).adapt.trans (hs k)
    rw [ResponseAdapter.read, hold]
    rw [ResponseAdapter.read, hnew] at h
    apply h

/-- A string that is read into an optional is appended to the one that is there, and a result
that holds an error cannot be adapted. -/
theorem response_reuse_leaks :
  let string : ElementType := .simple Bytes
  let replies : List (List Node) := [[⟨.simpleString, 1, 0, ascii "b"⟩]]
  let optional := responseAdapter fun _ : Fin 1 => .optional string
  let required := responseAdapter fun _ : Fin 1 => .value string
  (optional.read optional.fresh replies).map (fun out => out.1 0) = .ok (Except.ok (some (ascii "b")))
    ∧ (optional.read (fun _ => Except.ok (some (ascii "a"))) replies).map (fun out => out.1 0)
      = .ok (Except.ok (some (ascii "ab")))
    ∧ (required.read required.fresh replies).map (fun out => out.1 0) = .ok (Except.ok (ascii "b"))
    ∧ required.read (fun _ => Except.error ⟨.simpleError, ascii "ERR"⟩) replies
      = .error .systemError
  := by
  exact ⟨rfl, rfl, rfl, rfl⟩

end Response

end Redis
