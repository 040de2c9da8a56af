import BoostRedis.Adapter.Types

/-!
# The generic response

A generic response takes in the nodes of all the replies to a request.  An error replaces what it
holds, and a node that comes after an error has no vector to be appended to: `value` throws.  So
the nodes of a pipeline are taken in exactly if no other node comes after an error.
-/

namespace Redis

open Resp3

/-! ### Errors that come last -/

/-- Whether no other node comes after an error. -/
def ErrorsLast (nds : List Node) : Prop :=
  nds.Pairwise fun a b => isErrorType a.dataType = true → isErrorType b.dataType = true

instance (nds : List Node) : Decidable (ErrorsLast nds) :=
  inferInstanceAs (Decidable (List.Pairwise _ _))

/-- Whether one of the nodes is an error. -/
def hasErrorNode (nds : List Node) : Bool := nds.any fun nd => isErrorType nd.dataType

theorem hasErrorNode_iff {nds : List Node} :
  hasErrorNode nds = true ↔ ∃ nd ∈ nds, isErrorType nd.dataType = true
  := by
  rw [hasErrorNode, List.any_eq_true]

/-- Errors come last in two parts together exactly if they do in each, and the second has nothing
else if the first has an error. -/
theorem errorsLast_append {nds nds' : List Node} :
  ErrorsLast (nds ++ nds') ↔ ErrorsLast nds ∧ ErrorsLast nds'
    ∧ (hasErrorNode nds = true → ∀ nd ∈ nds', isErrorType nd.dataType = true)
  := by
  rw [ErrorsLast, List.pairwise_append, hasErrorNode_iff]
  apply and_congr_right
  intro _
  apply and_congr_right
  intro _
  constructor
  · rintro h ⟨a, ha, herror⟩ b hb
    apply h a ha b hb herror
  · intro h a ha b hb herror
    apply h ⟨a, ha, herror⟩ b hb

theorem errorsLast_of_forall {nds : List Node} (h : ∀ nd ∈ nds, isErrorType nd.dataType = true) :
  ErrorsLast nds
  := by
  apply List.pairwise_of_forall_mem_list
  intro a _ b hb _
  apply h b hb

/-! ### One node -/

section OneNode

variable {nd : Node} {r : Result (List Node)}

/-- What `general_aggregate` does with a node. -/
def collect (nd : Node) (r : Result (List Node)) : Fed (Result (List Node)) :=
  generalAggregate.feed nd r

theorem collect_error (h : isErrorType nd.dataType = true) :
  collect nd r = .ok (.error (.ofNode nd), none)
  := by
  simp only [collect, generalAggregate, h, ↓reduceIte]

theorem collect_value {nds : List Node} (h : isErrorType nd.dataType = false) :
  collect nd (.ok nds) = .ok (.ok (nds ++ [nd]), none)
  := by
  simp only [collect, generalAggregate, h, Bool.false_eq_true, ↓reduceIte]

theorem collect_throws {e : RespError} (h : isErrorType nd.dataType = false) :
  collect nd (.error e) = .error .systemError
  := by
  simp only [collect, generalAggregate, h, Bool.false_eq_true, ↓reduceIte]

end OneNode

/-! ### Nodes after an error -/

/-- Errors that come after an error replace it. -/
theorem collect_errors :
  ∀ {nds : List Node} (e : RespError), (∀ nd ∈ nds, isErrorType nd.dataType = true) →
    ∃ e', (e' = e ∨ ∃ nd ∈ nds, isErrorType nd.dataType = true ∧ e' = .ofNode nd)
      ∧ feedUntil collect nds (.error e) = .ok (.error e', none)
  | [], e, _ => ⟨e, .inl rfl, rfl⟩
  | nd :: nds, e, h => by
      obtain ⟨hnd, hrest⟩ := List.forall_mem_cons.mp h
      obtain ⟨e', he', hfed⟩ := collect_errors (.ofNode nd) hrest
      use e'
      rw [feedUntil_cons, collect_error hnd]
      refine ⟨.inr ?_, hfed⟩
      rcases he' with rfl | ⟨nd', hmem, herror, rfl⟩
      · exact ⟨nd, List.mem_cons_self, hnd, rfl⟩
      · exact ⟨nd', List.mem_cons_of_mem nd hmem, herror, rfl⟩

/-- Any other node that comes after an error throws. -/
theorem collect_throws_of_exists :
  ∀ {nds : List Node} (e : RespError), (∃ nd ∈ nds, isErrorType nd.dataType = false) →
    feedUntil collect nds (.error e) = .error .systemError
  | [], _, ⟨_, hmem, _⟩ => (List.not_mem_nil hmem).elim
  | nd :: nds, e, ⟨nd', hmem, hnd'⟩ => by
      rw [feedUntil_cons]
      cases hnd : isErrorType nd.dataType with
      | false =>
          rw [collect_throws hnd]
          rfl
      | true =>
          rw [collect_error hnd]
          apply collect_throws_of_exists
          rcases List.mem_cons.mp hmem with rfl | hmem
          · rw [hnd] at hnd'
            cases hnd'
          · exact ⟨nd', hmem, hnd'⟩

/-! ### Nodes after a value -/

/-- Nodes without an error are appended. -/
theorem collect_values :
  ∀ {nds : List Node} (old : List Node), hasErrorNode nds = false →
    feedUntil collect nds (.ok old) = .ok (.ok (old ++ nds), none)
  | [], old, _ => by
      rw [List.append_nil]
      rfl
  | nd :: nds, old, h => by
      obtain ⟨hnd, hrest⟩ := Bool.or_eq_false_iff.mp h
      rw [feedUntil_cons, collect_value hnd, feedUntil.resume, collect_values _ hrest,
        List.append_assoc, List.singleton_append]

/-- Nodes among which errors come last leave one of the errors. -/
theorem collect_errorsLast :
  ∀ {nds : List Node} (old : List Node), ErrorsLast nds → hasErrorNode nds = true →
    ∃ nd ∈ nds, isErrorType nd.dataType = true
      ∧ feedUntil collect nds (.ok old) = .ok (.error (.ofNode nd), none)
  | nd :: nds, old, hlast, h => by
      obtain ⟨hall, hlast⟩ := List.pairwise_cons.mp hlast
      rw [feedUntil_cons]
      cases hnd : isErrorType nd.dataType with
      | true =>
          rw [collect_error hnd]
          obtain ⟨e, he, hfed⟩ := collect_errors (.ofNode nd) fun nd' hmem => hall nd' hmem hnd
          rcases he with rfl | ⟨nd', hmem, herror, rfl⟩
          · exact ⟨nd, List.mem_cons_self, hnd, hfed⟩
          · exact ⟨nd', List.mem_cons_of_mem nd hmem, herror, hfed⟩
      | false =>
          rw [collect_value hnd]
          have hrest : hasErrorNode nds = true := by
            rw [hasErrorNode, List.any_cons, hnd, Bool.false_or] at h
            apply h
          obtain ⟨nd', hmem, herror, hfed⟩ := collect_errorsLast (old ++ [nd]) hlast hrest
          exact ⟨nd', List.mem_cons_of_mem nd hmem, herror, hfed⟩

/-- If another node comes after an error, an exception is thrown. -/
theorem collect_not_errorsLast :
  ∀ {nds : List Node} (old : List Node), ¬ ErrorsLast nds →
    feedUntil collect nds (.ok old) = .error .systemError
  | [], _, h => (h List.Pairwise.nil).elim
  | nd :: nds, old, h => by
      rw [feedUntil_cons]
      cases hnd : isErrorType nd.dataType with
      | true =>
          rw [collect_error hnd]
          apply collect_throws_of_exists
          by_contra hall
          push Not at hall
          apply h
          apply errorsLast_of_forall
          rw [List.forall_mem_cons]
          exact ⟨hnd, fun nd' hmem => Bool.eq_true_of_not_eq_false (hall nd' hmem)⟩
      | false =>
          rw [collect_value hnd]
          apply collect_not_errorsLast
          intro hlast
          apply h
          apply List.Pairwise.cons _ hlast
          intro _ _ herror
          rw [hnd] at herror
          cases herror

/-! ### Pipelines -/

/-- What a generic response with a value should make of the nodes of a pipeline: it takes all of
them in, and holds them, or one of the errors. -/
def Absorbs (old nds : List Node) : Prop :=
  ∃ r : Result (List Node), generalAggregate.read (Except.ok old) nds = .ok (r, none)
    ∧ (hasErrorNode nds = false → r = .ok (old ++ nds))
    ∧ (hasErrorNode nds = true →
      ∃ nd ∈ nds, isErrorType nd.dataType = true ∧ r = .error (.ofNode nd))

/-- To read a reply into a generic response is to collect its nodes. -/
theorem generalAggregate_read (r : Result (List Node)) (nds : List Node) :
  generalAggregate.read r nds = feedUntil collect nds r
  := by
  have hread : generalAggregate.read r nds = (feedUntil collect nds r).map id := rfl
  rw [hread]
  cases feedUntil collect nds r <;> rfl

/-- The index of a reply does not matter to a generic response. -/
theorem vectorAdapter_read (r : Result (List Node)) (replies : List (List Node)) :
  vectorAdapter.read r replies = feedUntil collect replies.flatten r
  := by
  have hflatten : (replyCalls replies).map Prod.snd = replies.flatten := by
    have hfst : (replyCalls replies).map Prod.snd = replies.zipIdx.flatMap Prod.fst := by
      simp only [replyCalls, List.map_flatMap, List.map_map, Function.comp_def, List.map_id']
    rw [hfst, List.flatMap_def, List.zipIdx_map_fst]
  have hread : vectorAdapter.read r replies
      = (feedUntil (fun c : ℕ × Node => collect c.2) (replyCalls replies) r).map id := rfl
  rw [hread, ← hflatten, feedUntil_map]
  cases feedUntil (fun c : ℕ × Node => collect c.2) (replyCalls replies) r <;> rfl

/-- A generic response absorbs the nodes of a pipeline exactly if no other node comes after an
error. -/
theorem absorbs_iff (old nds : List Node) :
  Absorbs old nds ↔ ErrorsLast nds
  := by
  constructor
  · rintro ⟨r, hread, _⟩
    by_contra hlast
    rw [generalAggregate_read, collect_not_errorsLast old hlast] at hread
    cases hread
  · intro hlast
    cases herror : hasErrorNode nds with
    | false =>
        use .ok (old ++ nds)
        rw [generalAggregate_read, collect_values old herror, herror]
        exact ⟨rfl, fun _ => rfl, by simp⟩
    | true =>
        obtain ⟨nd, hmem, hnd, hfed⟩ := collect_errorsLast old hlast herror
        use .error (.ofNode nd)
        rw [generalAggregate_read, hfed, herror]
        exact ⟨rfl, by simp, fun _ => ⟨nd, hmem, hnd, rfl⟩⟩

/-- A reply after an error. -/
theorem not_absorbs_value_after_error :
  let nds : List Node := [⟨.simpleError, 1, 0, ascii "ERR"⟩, ⟨.simpleString, 1, 0, ascii "OK"⟩]
  generalAggregate.read (Except.ok []) nds = .error .systemError ∧ ¬ Absorbs [] nds
  := by
  intro nds
  refine ⟨rfl, ?_⟩
  rintro ⟨r, hread, _⟩
  cases hread

end Redis
