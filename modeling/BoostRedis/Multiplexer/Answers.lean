import BoostRedis.Multiplexer.Destination
import BoostRedis.Multiplexer.Notification
import BoostRedis.Multiplexer.Writing

/-!
# Replies to a request

Of the nodes that are delivered, and of the commands and the replies on a connection, only those
of one request are looked at here.  What its adapter is given are the nodes of the replies to its
commands (`givenTo_attribution`), its commands are staged all at once (`indicesOf_staged`), and
only `commit_read` gives it anything (`readsFor`).
-/

namespace Redis

open Resp3

variable {ρ : Type}

/-! ### Nodes given to a request -/

/-- What a delivery gives to a request: the index of the response, and a node. -/
def givenTo (id : ℕ) : Target × Node → Option (ℕ × Node)
  | (.request id' i, nd) => if id' = id then some (i, nd) else none
  | (.receiver, _) => none

/-- The nodes given to the adapter of a request. -/
def fedTo (id : ℕ) (log : List Event) : List (ℕ × Node) :=
  (deliveries log).filterMap (givenTo id)

/-- What an adapter makes of some nodes. -/
def feedAll (adapter : ℕ → Adapter ρ) (r : ρ) (nds : List (ℕ × Node)) : ρ :=
  nds.foldl (fun r p => (adapter p.1 p.2 r).1) r

/-- The replies to the commands of a request, with the indices of the commands. -/
def answers (id : ℕ) : List (ℕ × ℕ) → List Message → List (ℕ × Message)
  | _, [] => []
  | cmds, m :: ms =>
      if m.isPush then answers id cmds ms
      else
        match cmds with
        | [] => []
        | (id', i) :: cmds =>
            if id' = id then (i, m) :: answers id cmds ms else answers id cmds ms

/-- The nodes of some replies. -/
def nodesOf (replies : List (ℕ × Message)) : List (ℕ × Node) :=
  replies.flatMap fun p => p.2.nodes.map (p.1, ·)

/-- The indices of the commands of a request. -/
def indicesOf (id : ℕ) (cmds : List (ℕ × ℕ)) : List ℕ :=
  cmds.filterMap fun c => if c.1 = id then some c.2 else none

/-- The response of the request at the front, after `commit_read` has read for it. -/
def Multiplexer.frontResponse (m : Multiplexer ρ) : Option ρ :=
  m.reqs.head?.map fun e => (parse m.parser m.readBuffer e.getAdapter e.response).state

section Answers

variable {id : ℕ} {cmds : List (ℕ × ℕ)} {ms : List Message}

theorem fedTo_append (l l' : List Event) :
  fedTo id (l ++ l') = fedTo id l ++ fedTo id l'
  := by
  rw [fedTo, deliveries_append, List.filterMap_append]
  rfl

theorem feedAll_append (adapter : ℕ → Adapter ρ) (r : ρ) (nds nds' : List (ℕ × Node)) :
  feedAll adapter r (nds ++ nds') = feedAll adapter (feedAll adapter r nds) nds'
  := List.foldl_append

theorem indicesOf_append (cmds cmds' : List (ℕ × ℕ)) :
  indicesOf id (cmds ++ cmds') = indicesOf id cmds ++ indicesOf id cmds'
  := List.filterMap_append

theorem indicesOf_eq_nil (h : ∀ c ∈ cmds, c.1 ≠ id) :
  indicesOf id cmds = []
  := by
  apply List.filterMap_eq_nil_iff.mpr
  intro c hc
  rw [if_neg (h c hc)]

theorem indicesOf_map (id' : ℕ) (is : List ℕ) :
  indicesOf id (is.map (id', ·)) = if id' = id then is else []
  := by
  rw [indicesOf, List.filterMap_map]
  split <;> simp [*]

theorem givenTo_request (id' i : ℕ) (nds : List Node) :
  (nds.map (Target.request id' i, ·)).filterMap (givenTo id)
    = if id' = id then nds.map (i, ·) else []
  := by
  rw [List.filterMap_map]
  by_cases hid : id' = id <;> simp [Function.comp_def, givenTo, hid]

theorem givenTo_receiver (nds : List Node) :
  (nds.map (Target.receiver, ·)).filterMap (givenTo id) = []
  := by
  rw [List.filterMap_map]
  simp [Function.comp_def, givenTo]

theorem answers_push {m : Message} (h : m.isPush = true) :
  answers id cmds (m :: ms) = answers id cmds ms
  := by
  simp [answers, h]

theorem answers_reply {m : Message} {c : ℕ × ℕ} (h : m.isPush = false) :
  answers id (c :: cmds) (m :: ms)
    = if c.1 = id then (c.2, m) :: answers id cmds ms else answers id cmds ms
  := by
  simp [answers, h]

/-- What is attributed to a request are the nodes of the replies to its commands. -/
theorem givenTo_attribution :
  ∀ {ms : List Message} {cmds : List (ℕ × ℕ)},
    (attribution cmds ms).filterMap (givenTo id) = nodesOf (answers id cmds ms)
  | [], _ => by
      rw [attribution_nil]
      simp [answers, nodesOf]
  | m :: ms, cmds => by
      cases hm : m.isPush with
      | true =>
          rw [attribution_push hm, answers_push hm, List.filterMap_append, givenTo_receiver,
            givenTo_attribution, List.nil_append]
      | false =>
          cases cmds with
          | nil => simp [attribution, answers, hm, nodesOf]
          | cons c cmds =>
              rw [attribution_reply hm, answers_reply hm, List.filterMap_append, givenTo_request,
                givenTo_attribution]
              split
              · rw [nodesOf, nodesOf, List.flatMap_cons]
              · rw [List.nil_append]

/-- The replies to the commands of a request are in the order of these. -/
theorem map_fst_answers :
  ∀ {ms : List Message} {cmds : List (ℕ × ℕ)},
    (answers id cmds ms).map Prod.fst = indicesOf id (cmds.take (replies ms))
  | [], cmds => by simp [answers, replies, indicesOf]
  | m :: ms, cmds => by
      cases hm : m.isPush with
      | true => rw [answers_push hm, replies_cons_push hm, map_fst_answers]
      | false =>
          rw [replies_cons_reply hm]
          cases cmds with
          | nil => simp [answers, hm, indicesOf]
          | cons c cmds =>
              rw [answers_reply hm, List.take_succ_cons, indicesOf, List.filterMap_cons]
              by_cases hid : c.1 = id
              · rw [if_pos hid, if_pos hid, List.map_cons, map_fst_answers, indicesOf]
              · rw [if_neg hid, if_neg hid, map_fst_answers, indicesOf]

/-- A request without commands gets no replies. -/
theorem answers_eq_nil :
  ∀ {ms : List Message} {cmds : List (ℕ × ℕ)}, indicesOf id cmds = [] → answers id cmds ms = []
  | [], _, _ => by simp [answers]
  | m :: ms, cmds, h => by
      cases hm : m.isPush with
      | true => rw [answers_push hm, answers_eq_nil h]
      | false =>
          cases cmds with
          | nil => simp [answers, hm]
          | cons c cmds =>
              rw [indicesOf, List.filterMap_cons] at h
              by_cases hid : c.1 = id
              · rw [if_pos hid] at h
                cases h
              · rw [if_neg hid] at h
                rw [answers_reply hm, if_neg hid, answers_eq_nil h]

theorem answers_append {ms' : List Message} :
  ∀ {ms : List Message} {cmds : List (ℕ × ℕ)}, replies ms ≤ cmds.length →
    answers id cmds (ms ++ ms') = answers id cmds ms ++ answers id (cmds.drop (replies ms)) ms'
  | [], _, _ => by
      rw [List.nil_append]
      simp [answers, replies]
  | m :: ms, cmds, h => by
      cases hm : m.isPush with
      | true =>
          rw [replies_cons_push hm] at h ⊢
          rw [List.cons_append, answers_push hm, answers_push hm, answers_append h]
      | false =>
          rw [replies_cons_reply hm] at h ⊢
          cases cmds with
          | nil => simp at h
          | cons c cmds =>
              rw [List.length_cons, Nat.add_le_add_iff_right] at h
              rw [List.cons_append, answers_reply hm, answers_reply hm, answers_append h,
                List.drop_succ_cons]
              split
              · rw [List.cons_append]
              · rfl

end Answers

/-! ### What an operation does to a request -/

/-- An entry has been given some nodes. -/
structure Feeds (e : Elem ρ) (nds : List Node) (e' : Elem ρ) : Prop where
  id : e'.id = e.id
  req : e'.req = e.req
  adapter : e'.adapter = e.adapter
  response : e'.response = feedAll e.adapter e.response (nds.map (e.index, ·))
  isWaiting : e'.isWaiting = e.isWaiting

/-- What `commit_read` does to the request at the front, if it reads for it. -/
structure ReadsFor (m : Multiplexer ρ) (e : Elem ρ) (rest : List (Elem ρ)) : Prop where
  reqs : m.reqs = e :: rest
  isWaiting : e.isWaiting = false
  pending : e.remainingResponses ≠ 0
  fed : ∃ nds : List Node,
    (∀ id, fedTo id m.commitRead.events = if e.id = id then nds.map (e.index, ·) else []) ∧
    m.frontResponse = some (feedAll e.adapter e.response (nds.map (e.index, ·))) ∧
    ∀ e' ∈ m.commitRead.mpx.reqs, e' ∈ rest ∨ Feeds e nds e'

section Operations

variable {w : World ρ} {a : Action ρ} {id : ℕ} {es : List Event}

theorem fedTo_eq_nil (h : deliveries es = []) :
  fedTo id es = []
  := by
  rw [fedTo, h]
  rfl

/-- The response after `parse` is what the adapter makes of the nodes. -/
theorem state_getAdapter (m : Multiplexer ρ) (e : Elem ρ) :
  (parse m.parser m.readBuffer e.getAdapter e.response).state
    = feedAll e.adapter e.response
        ((parse m.parser m.readBuffer e.getAdapter e.response).nodes.map (e.index, ·))
  := by
  rw [parse_state, feedAll, List.foldl_map]
  rfl

theorem fedTo_commitResponse (m : Multiplexer ρ) (e : Elem ρ) (rest : List (Elem ρ)) :
  fedTo id (m.commitResponse e rest).events
    = if e.id = id then
        (parse m.parser m.readBuffer e.getAdapter e.response).nodes.map (e.index, ·)
      else []
  := by
  obtain ⟨es, hevents, hreports⟩ := m.commitResponse_events e rest
  rw [hevents, fedTo_append, fedTo_eq_nil (deliveries_of_reports hreports), List.append_nil, fedTo,
    (commands_fed _ _ _).2.2, givenTo_request]

theorem mem_commitResponse {m : Multiplexer ρ} {e e' : Elem ρ} {rest : List (Elem ρ)}
    (he' : e' ∈ (m.commitResponse e rest).mpx.reqs) :
  e' ∈ rest ∨ Feeds e (parse m.parser m.readBuffer e.getAdapter e.response).nodes e'
  := by
  have hstate := state_getAdapter m e
  rw [Multiplexer.commitResponse] at he'
  generalize parse m.parser m.readBuffer e.getAdapter e.response = r at hstate he' ⊢
  have hfront : ∀ {x : Elem ρ}, e' ∈ x :: rest → Feeds e r.nodes x →
      e' ∈ rest ∨ Feeds e r.nodes e' := by
    intro x hx hfeeds
    obtain rfl | hx := List.mem_cons.mp hx
    · exact .inr hfeeds
    · exact .inl hx
  dsimp only at he'
  split at he'
  · exact hfront he' ⟨rfl, rfl, rfl, hstate, rfl⟩
  · exact hfront he' ⟨rfl, rfl, rfl, hstate, rfl⟩
  · exact hfront he' ⟨rfl, rfl, rfl, hstate, rfl⟩
  · split at he'
    · exact .inl he'
    · exact hfront he' ⟨rfl, rfl, rfl, hstate, rfl⟩
  · exact hfront he' ⟨rfl, rfl, rfl, hstate, rfl⟩
  · exact hfront he' ⟨rfl, rfl, rfl, hstate, rfl⟩

/-- The nodes that are read are given to the request at the front. -/
theorem readsFor {m : Multiplexer ρ} (h : (m.onPush || m.isNextPush) = false) :
  ∃ e rest, ReadsFor m e rest
  := by
  obtain ⟨e, rest, hreqs, hwait, hpending, hread⟩ := Multiplexer.commitRead_response h
  refine ⟨e, rest, hreqs, hwait, hpending,
    (parse m.parser m.readBuffer e.getAdapter e.response).nodes, ?_, ?_, ?_⟩
  · intro id
    rw [hread, fedTo_commitResponse]
  · rw [Multiplexer.frontResponse, hreqs, List.head?_cons, Option.map_some, state_getAdapter]
  · intro e' he'
    rw [hread] at he'
    apply mem_commitResponse he'

/-- A request that is done has read for the last time, and leaves the queue. -/
theorem readsFor_of_notified {m : Multiplexer ρ} (h : .notified id none ∈ m.commitRead.events) :
  ∃ e rest size, e.id = id ∧ ReadsFor m e rest ∧ m.commitRead.mpx.reqs = rest ∧
    m.commitRead.value = .message false size
  := by
  have hpush : (m.onPush || m.isNextPush) = false := by
    apply Bool.eq_false_of_not_eq_true
    intro hpush
    rw [Multiplexer.commitRead, if_pos hpush] at h
    exact m.commitPush_reqs.2 _ _ h
  obtain ⟨e, rest, hfor⟩ := readsFor hpush
  cases m.readCase with
  | kept _ hnone => exact absurd h (hnone id none)
  | front _ _ _ _ _ hnotify => exact absurd rfl (hnotify id none h).2
  | @left e₁ rest₁ size hreqs _ hreqs' hvalue _ _ _ hnotify =>
      obtain ⟨rfl, rfl⟩ := List.cons.inj (hfor.reqs.symm.trans hreqs)
      exact ⟨e, rest, size, (hnotify id none h).symm, hfor, hreqs', hvalue⟩

/-- A push is given to no request. -/
theorem fedTo_commitPush (m : Multiplexer ρ) :
  fedTo id m.commitPush.events = []
  := by
  obtain ⟨es, hevents, hreports⟩ := m.commitPush_events
  rw [hevents, fedTo_append, fedTo_eq_nil (deliveries_of_reports hreports), List.append_nil, fedTo,
    (commands_pushed _).2.2, givenTo_receiver]

theorem commands_of_stagings (h : stagings es = []) :
  commands es = []
  := by
  induction es with
  | nil => rfl
  | cons e es ih =>
      cases e with
      | staged id n => cases h
      | fed _ _ _ | pushed _ | rejected _ | finished _ | notified _ _ => apply ih h

/-- The operations after which an entry that stays may have another status, or have been fed. -/
def Action.marks : Action ρ → Bool
  | .prepareWrite | .commitRead | .connLost => true
  | _ => false

/-- The other operations leave alone the entries that stay. -/
theorem World.mem_operate {e' : Elem ρ} (ha : a.marks = false)
    (he' : e' ∈ (w.operate a).mpx.reqs) :
  (∃ e ∈ w.mpx.reqs, SameElem e e' ∧ e'.isWaiting = e.isWaiting) ∨ e'.id = w.nextId
  := by
  have hsame : e' ∈ w.mpx.reqs → ∃ e ∈ w.mpx.reqs, SameElem e e' ∧ e'.isWaiting = e.isWaiting :=
    fun he => ⟨e', he, .refl e', rfl⟩
  cases a with
  | add req adapter response =>
      obtain rfl | he := List.mem_cons.mp ((Multiplexer.add_perm _).mem_iff.mp he')
      · exact .inr rfl
      · exact .inl (hsame he)
  | remove id =>
      left
      apply hsame
      have hmem : e' ∈ (w.mpx.remove id).1.reqs := he'
      rw [Multiplexer.remove] at hmem
      split at hmem
      · exact hmem
      · split at hmem
        · apply List.mem_of_mem_eraseP hmem
        · exact hmem
  | cancelWaiting => exact .inl (hsame (List.mem_of_mem_filter he'))
  | commitWrite =>
      obtain ⟨e, he, rfl⟩ := List.mem_map.mp (List.mem_of_mem_filter he')
      exact .inl ⟨e, he, Split.sameElem_written e, Split.isWaiting_written e⟩
  | receive _ | reset => exact .inl (hsame he')
  | prepareWrite | commitRead | connLost => cases ha

theorem indicesOf_not_staged {reqs : List (Elem ρ)} (h : id ∉ reqs.map Elem.id) :
  indicesOf id (commands (reqs.map fun e => .staged e.id e.req.expectedResponses)) = []
  := by
  induction reqs with
  | nil => rfl
  | cons e reqs ih =>
      rw [List.map_cons, List.mem_cons, not_or] at h
      rw [List.map_cons, commands, indicesOf_append, indicesOf_map, if_neg (Ne.symm h.1), ih h.2,
        List.append_nil]

/-- Of requests that are staged, each has its own commands only. -/
theorem indicesOf_staged {reqs : List (Elem ρ)} {e : Elem ρ} (hnodup : (reqs.map Elem.id).Nodup)
    (he : e ∈ reqs) :
  indicesOf e.id (commands (reqs.map fun e => .staged e.id e.req.expectedResponses))
    = List.range e.req.expectedResponses
  := by
  obtain ⟨front, rest, rfl⟩ := List.append_of_mem he
  rw [List.map_append, List.map_cons, List.nodup_append] at hnodup
  obtain ⟨-, hrest, hfront⟩ := hnodup
  rw [List.map_append, List.map_cons, commands_append, commands, indicesOf_append,
    indicesOf_append, indicesOf_map, if_pos rfl, indicesOf_not_staged, indicesOf_not_staged,
    List.nil_append, List.append_nil]
  · exact (List.nodup_cons.mp hrest).1
  · intro hmem
    exact hfront e.id hmem e.id List.mem_cons_self rfl

theorem fedTo_of_unused (h : ∀ b ∈ es, b.uses ≠ some id) :
  fedTo id es = []
  := by
  induction es with
  | nil => rfl
  | cons b es ih =>
      have hrest := ih fun b' hb' => h b' (List.mem_cons_of_mem b hb')
      have hfirst := h b List.mem_cons_self
      rw [← List.singleton_append, fedTo_append, hrest, List.append_nil]
      cases b with
      | fed id' i nd =>
          have hne : id' ≠ id := fun heq => hfirst (congrArg some heq)
          simp [fedTo, deliveries, givenTo, hne]
      | staged _ _ | pushed _ | rejected _ | finished _ | notified _ _ => rfl

theorem indicesOf_of_unused (h : ∀ b ∈ es, b.uses ≠ some id) :
  indicesOf id (commands es) = []
  := by
  induction es with
  | nil => rfl
  | cons b es ih =>
      have hrest := ih fun b' hb' => h b' (List.mem_cons_of_mem b hb')
      have hfirst := h b List.mem_cons_self
      rw [← List.singleton_append, commands_append, indicesOf_append, hrest, List.append_nil]
      cases b with
      | staged id' n =>
          have hne : id' ≠ id := fun heq => hfirst (congrArg some heq)
          rw [commands, commands, List.append_nil, indicesOf_map, if_neg hne]
      | fed _ _ _ | pushed _ | rejected _ | finished _ | notified _ _ => rfl

end Operations

end Redis
