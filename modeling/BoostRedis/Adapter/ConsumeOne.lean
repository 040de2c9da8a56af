import BoostRedis.Adapter.Tuple

/-!
# Replies consumed one by one

A generic response holds the nodes of several replies, one after the other.  `consume_one` removes
the first of them.  It looks for the next node on the level of replies, which a reply starts with
unless it is a streamed string: that starts one level deeper, and goes with the reply before it.
-/

namespace Redis

open Resp3

/-- `consume_one`: what is left of a response, and the error that is set, if any. -/
def consumeOne : Result (List Node) → Result (List Node) × Option ErrorCode
  | .error e => (.error e, none)
  | .ok [] => (.ok [], none)
  | .ok (nd :: nds) =>
      if nd.depth ≠ 0 then (.ok (nd :: nds), some (.redis .incompatibleNodeDepth))
      else (.ok (nds.dropWhile fun e => !decide (e.depth = nd.depth)), none)

/-- The nodes of several replies. -/
def replyNodes (vs : List Value) : List Node := vs.flatMap (Value.nodes 0)

/-- Whether the first node of a reply is on the level of replies. -/
def startsAtRoot (v : Value) : Bool := (v.nodes 0).head?.map Node.depth = some 0

/-- What should hold of a response that holds replies: the first is removed, and all of them are by
as many calls, if they start on the level of replies. -/
structure ConsumesOne (v : Value) (vs : List Value) : Prop where
  first : consumeOne (.ok (replyNodes (v :: vs))) = (.ok (replyNodes vs), none)
  all : (v :: vs).all startsAtRoot = true →
    (fun r => (consumeOne r).1)^[(v :: vs).length] (.ok (replyNodes (v :: vs))) = .ok []

/-- A reply has one node on the level of replies, or none. -/
theorem exists_nodes_of_startsAtRoot {v : Value} (h : startsAtRoot v = true) :
  ∃ nd nds, v.nodes 0 = nd :: nds ∧ nd.depth = 0 ∧ ∀ e ∈ nds, e.depth ≠ 0
  := by
  cases v with
  | simple | bulk => exact ⟨_, [], rfl, rfl, by simp⟩
  | streamed => cases h
  | aggregate t size elements =>
      refine ⟨_, _, rfl, rfl, ?_⟩
      intro e he
      have := Value.le_depth_of_mem_nodesAll he
      omega

theorem exists_nodes_of_not_startsAtRoot {v : Value} (h : startsAtRoot v = false) :
  ∃ nd nds, v.nodes 0 = nd :: nds ∧ nd.depth ≠ 0
  := by
  cases v with
  | simple | bulk | aggregate => cases h
  | streamed parts => exact ⟨_, _, rfl, by simp⟩

/-- Everything up to the next node on the level of replies is removed. -/
theorem consumeOne_append {v : Value} (h : startsAtRoot v = true) (nds : List Node) :
  consumeOne (.ok (v.nodes 0 ++ nds)) = (.ok (nds.dropWhile fun e => !decide (e.depth = 0)), none)
  := by
  obtain ⟨nd, below, hnodes, hroot, hbelow⟩ := exists_nodes_of_startsAtRoot h
  rw [hnodes, List.cons_append, consumeOne, if_neg (not_not.mpr hroot), hroot,
    List.dropWhile_append_of_pos]
  intro e he
  simpa using hbelow e he

/-- The next reply is not touched if it starts on the level of replies. -/
theorem dropWhile_replyNodes {vs : List Value} (h : ∀ w ∈ vs.head?, startsAtRoot w = true) :
  (replyNodes vs).dropWhile (fun e => !decide (e.depth = 0)) = replyNodes vs
  := by
  cases vs with
  | nil => rfl
  | cons w vs =>
      obtain ⟨nd, nds, hnodes, hroot, _⟩ := exists_nodes_of_startsAtRoot (h w rfl)
      rw [replyNodes, List.flatMap_cons, hnodes, List.cons_append, List.dropWhile_cons_of_neg]
      simpa using hroot

/-- A streamed string goes with the reply before it. -/
theorem dropWhile_replyNodes_ne {w : Value} (h : startsAtRoot w = false) (vs : List Value) :
  (replyNodes (w :: vs)).dropWhile (fun e => !decide (e.depth = 0)) ≠ replyNodes (w :: vs)
  := by
  obtain ⟨nd, nds, hnodes, hdeeper⟩ := exists_nodes_of_not_startsAtRoot h
  rw [replyNodes, List.flatMap_cons, hnodes, List.cons_append, List.dropWhile_cons_of_pos]
  · intro heq
    have hlength := congrArg List.length heq
    have hle := (List.dropWhile_sublist (l := nds ++ vs.flatMap (Value.nodes 0))
      (fun e : Node => !decide (e.depth = 0))).length_le
    rw [List.length_cons] at hlength
    omega
  · simpa using hdeeper

/-- Replies that start on the level of replies are consumed one by one. -/
theorem iterate_consumeOne :
  ∀ {vs : List Value}, vs.all startsAtRoot = true →
    (fun r => (consumeOne r).1)^[vs.length] (.ok (replyNodes vs)) = .ok []
  | [], _ => rfl
  | v :: vs, h => by
      rw [List.all_cons, Bool.and_eq_true] at h
      have hnext : ∀ w ∈ vs.head?, startsAtRoot w = true := by
        intro w hw
        apply List.all_eq_true.mp h.2 w (List.mem_of_mem_head? hw)
      rw [List.length_cons, Function.iterate_succ_apply, replyNodes, List.flatMap_cons,
        consumeOne_append h.1]
      have hrest := dropWhile_replyNodes hnext
      rw [replyNodes] at hrest
      rw [hrest]
      apply iterate_consumeOne h.2

/-- The first reply, and nothing else, is consumed exactly if the second is not a streamed
string. -/
theorem consumesOne_iff (v : Value) (vs : List Value) (hv : startsAtRoot v = true) :
  ConsumesOne v vs ↔ ∀ w ∈ vs.head?, startsAtRoot w = true
  := by
  have hfirst : consumeOne (.ok (replyNodes (v :: vs)))
      = (.ok ((replyNodes vs).dropWhile fun e => !decide (e.depth = 0)), none) :=
    consumeOne_append hv (replyNodes vs)
  constructor
  · intro h w hw
    by_contra hstreamed
    obtain ⟨rest, rfl⟩ := List.head?_eq_some_iff.mp hw
    have heq := hfirst.symm.trans h.first
    apply dropWhile_replyNodes_ne (Bool.eq_false_iff.mpr hstreamed) rest
    simpa using heq
  · intro h
    refine ⟨?_, iterate_consumeOne⟩
    rw [hfirst, dropWhile_replyNodes h]

/-- A string, and an array with a streamed string in it. -/
theorem consumesOne_array :
  ConsumesOne (.simple .simpleString (ascii "OK")) [.aggregate .array 1 [.streamed [ascii "a"]]]
  := by
  apply (consumesOne_iff _ _ rfl).mpr
  decide

/-- A streamed string is removed together with the reply before it. -/
theorem consumesOne_streamed :
  let v : Value := .simple .simpleString (ascii "OK")
  let w : Value := .streamed [ascii "a"]
  consumeOne (.ok (replyNodes [v, w])) = (.ok [], none) ∧ ¬ ConsumesOne v [w]
  := by
  intro v w
  have hread : consumeOne (.ok (replyNodes [v, w])) = (.ok [], none) := rfl
  refine ⟨hread, ?_⟩
  intro h
  cases hread.symm.trans h.first

end Redis
