import BoostRedis.Adapter.Pipeline
import BoostRedis.System.Exchange

/-!
# The results of a request

A request for a `response<Ts...>` is executed on a server.  Each result is what is read, in a new
response object, from the reply to its command alone, where the server executes the commands one
after the other (`results_of_exchange`).

An adapter that sets an error ends the connection, so that as long as it is up all calls of
adapters have been taken.
-/

namespace Redis

open Resp3

/-! ### Calls that set no error -/

section Takes

variable {ρ : Type} {adapter : ℕ → Adapter ρ}

/-- Whether no call of the adapter sets an error. -/
def takesAll (adapter : ℕ → Adapter ρ) : List (ℕ × Node) → ρ → Bool
  | [], _ => true
  | (i, nd) :: calls, r => (adapter i nd r).2.isNone && takesAll adapter calls (adapter i nd r).1

theorem takesAll_append (calls calls' : List (ℕ × Node)) (r : ρ) :
  takesAll adapter (calls ++ calls') r
    = (takesAll adapter calls r && takesAll adapter calls' (feedAll adapter r calls))
  := by
  induction calls generalizing r with
  | nil => rfl
  | cons c calls ih =>
      rw [List.cons_append, takesAll, takesAll, ih, Bool.and_assoc]
      rfl

/-- `parse` stops at the first call that sets an error. -/
theorem takesAll_parse (p : Parser) (view : Bytes) (i : ℕ) (r : ρ)
    (h : ∀ ec, (parse p view (adapter i) r).status ≠ .rejected ec) :
  takesAll adapter ((parse p view (adapter i) r).nodes.map (i, ·)) r = true
  := by
  revert h
  rw [parse]
  generalize view.length + 2 = n
  induction n generalizing p r with
  | zero => exact fun _ => rfl
  | succ n ih =>
      rw [parseLoop]
      split
      · exact fun _ => rfl
      · split
        · exact fun _ => rfl
        · exact fun _ => rfl
        · exact fun _ => rfl
        · split
          · intro h
            exact absurd rfl (h _)
          · rename_i hs
            intro h
            simp only [Parsed.prepend, List.cons_append, List.nil_append, List.map_cons, takesAll,
              hs, Option.isNone_none, Bool.true_and]
            apply ih _ _ h

end Takes

section Serving

variable {ρ : Type} {ms : List Message} {id : ℕ} {req : Request} {adapter : ℕ → Adapter ρ}
  {response : ρ} {w w' : World ρ} {a : Action ρ} {sent queued : List (Elem ρ)}
  {cur : List (Target × Node)}

/-- The calls that `commit_read` makes for a request are taken, unless it returns an error. -/
theorem Serving.takes_commitRead (h : Serving id req adapter response w)
    (htakes : takesAll adapter (fedTo id w.log) response = true)
    (hvalue : ∀ isPush ec, w.mpx.commitRead.value ≠ .error isPush ec) :
  takesAll adapter (fedTo id (w.log ++ w.mpx.commitRead.events)) response = true
  := by
  rw [fedTo_append, takesAll_append, htakes, Bool.true_and]
  cases hpush : w.mpx.onPush || w.mpx.isNextPush with
  | true => rw [Multiplexer.commitRead, if_pos hpush, fedTo_commitPush, takesAll]
  | false =>
      obtain ⟨e, rest, hreqs, -, -, hread⟩ := Multiplexer.commitRead_response hpush
      rw [hread, fedTo_commitResponse]
      split
      · rename_i hid
        have hserved := h.served e (hreqs ▸ List.mem_cons_self) hid
        rw [← hid, ← hserved.response_eq, ← hserved.adapter_eq]
        apply takesAll_parse
        intro ec hs
        rw [hread, Multiplexer.commitResponse_of_rejected rfl hs rfl] at hvalue
        exact hvalue _ _ rfl
      · rfl

theorem Serving.takes (h : Serving id req adapter response w)
    (htakes : takesAll adapter (fedTo id w.log) response = true)
    (hstep : World.ClassifiedStep ms w a w') (hup : w'.up = true) :
  takesAll adapter (fedTo id w'.log) response = true
  := by
  obtain ⟨-, hoperate, hreset⟩ := hstep.of_up hup
  have hlog : w'.log = w.log ++ w.calls a := by
    rw [hoperate, World.operate_log hreset]
  cases hread : a.isCommitRead with
  | false =>
      rw [hlog, fedTo_append, fedTo_eq_nil (deliveries_calls hread), List.append_nil, htakes]
  | true =>
      cases a with
      | commitRead =>
          rw [hlog]
          apply h.takes_commitRead htakes
          intro isPush ec hvalue
          obtain ⟨⟨⟨-, rfl⟩, -⟩, -⟩ := hstep
          rw [World.apply, hvalue] at hup
          cases hup
      | _ => cases hread

/-- What a request that is done was given are the replies to its commands. -/
theorem Inv.fedTo_notified (h : Inv ms w sent queued cur) (horderly : Orderly w)
    (hb : w.mpx.readBuffer ≠ []) (hover : ¬ Overtaken w.mpx)
    (hdone : .notified id none ∈ w.mpx.commitRead.events) :
  fedTo id (w.log ++ w.mpx.commitRead.events) = nodesOf (answers id (commands w.log) ms)
  := by
  obtain ⟨e, rest, size, rfl, hfor, hreqs', hvalue⟩ := readsFor_of_notified hdone
  have hgone : e.id ∉ (w.after w.mpx.commitRead).mpx.ids := by
    rw [World.after, Multiplexer.ids, hreqs']
    apply horderly.front_unique hfor.reqs
  have hcommands : commands (w.log ++ w.mpx.commitRead.events) = commands w.log := by
    rw [commands_append, commands_of_stagings (stagings_eq_nil (not_staged_commitRead _)),
      List.append_nil]
  obtain ⟨x, -, hout⟩ := h.outcome hb hover
  cases hout with
  | proceeds hmore => cases hvalue.symm.trans hmore
  | rejected herror => cases hvalue.symm.trans herror
  | finishes _ hinv =>
      rw [← hcommands]
      apply (hinv.fedTo_done hgone).1

end Serving

/-! ### Responses -/

section Responses

variable {A : ResponseAdapter}

/-- After an exception nothing happens any more. -/
theorem feedAll_toAdapter_error (t : Thrown) :
  ∀ calls : List (ℕ × Node), feedAll A.toAdapter (.error t) calls = .error t
  | [] => rfl
  | _ :: calls => feedAll_toAdapter_error t calls

/-- Calls that are taken, and none of which throws. -/
theorem feedUntil_of_takesAll :
  ∀ {calls : List (ℕ × Node)} {s s' : A.State},
    takesAll A.toAdapter calls (.ok s) = true → feedAll A.toAdapter (.ok s) calls = .ok s' →
    feedUntil (fun (i, nd) => A.feed i nd) calls s = .ok (s', none)
  | [], _, _, _, hfed => by
      obtain rfl := Except.ok.inj hfed
      rfl
  | (i, nd) :: calls, s, s', htakes, hfed => by
      rw [feedAll, List.foldl_cons, ← feedAll] at hfed
      rw [takesAll] at htakes
      rw [feedUntil_cons]
      rcases hfeed : A.feed i nd s with t | ⟨s₁, _ | ec⟩
      · have hcall : A.toAdapter i nd (.ok s) = (.error t, none) := by
          simp [ResponseAdapter.toAdapter, hfeed]
        rw [hcall, feedAll_toAdapter_error] at hfed
        cases hfed
      · have hcall : A.toAdapter i nd (.ok s) = (.ok s₁, none) := by
          simp [ResponseAdapter.toAdapter, hfeed]
        rw [hcall] at htakes hfed
        simp only [hfeed]
        apply feedUntil_of_takesAll htakes hfed
      · simp [ResponseAdapter.toAdapter, hfeed] at htakes

/-- Replies that are taken are read. -/
theorem read_of_takesAll {replies : List (List Node)} {r : A.Response}
    (htakes : takesAll A.toAdapter (replyCalls replies) A.start = true)
    (hvalue : A.value (feedAll A.toAdapter A.start (replyCalls replies)) = .ok r) :
  A.read A.fresh replies = .ok (r, none)
  := by
  rw [ResponseAdapter.read_eq_ok_iff]
  rw [ResponseAdapter.start] at htakes hvalue
  cases hadapt : A.adapt A.fresh with
  | error t =>
      rw [hadapt, feedAll_toAdapter_error] at hvalue
      cases hvalue
  | ok s =>
      rw [hadapt] at htakes hvalue
      cases hfed : feedAll A.toAdapter (.ok s) (replyCalls replies) with
      | error t =>
          rw [hfed] at hvalue
          cases hvalue
      | ok s' =>
          rw [hfed] at hvalue
          exact ⟨s, rfl, s', feedUntil_of_takesAll htakes hfed, Except.ok.inj hvalue⟩

/-- A response may have more results than there are replies. -/
theorem replyCalls_pad {n : ℕ} {replies : List (List Node)} (h : replies.length ≤ n) :
  replyCalls (List.ofFn fun k : Fin n => replies.getD k []) = replyCalls replies
  := by
  have hpad : (List.ofFn fun k : Fin n => replies.getD k [])
      = replies ++ List.replicate (n - replies.length) [] := by
    apply List.ext_getElem
    · simp [Nat.add_sub_cancel' h]
    · intro i hi hi'
      rw [List.getElem_ofFn, List.getElem_append]
      split
      · simp [*]
      · simp [*]
  rw [hpad, replyCalls, replyCalls, List.zipIdx_append, List.flatMap_append]
  apply List.append_right_eq_self.mpr
  apply List.flatMap_eq_nil_iff.mpr
  intro p hp
  have hmem := List.mem_replicate.mp (List.fst_mem_of_mem_zipIdx hp)
  simp [hmem.2]

end Responses

/-! ### What the user sees of a response -/

section Exchanges

variable {σ ρ : Type} {server : Server σ} {init : σ} {s s' v v' : Exchange σ ρ}

/-- The calls for a request that is made are taken while the connection is up. -/
theorem Exchange.takes {receiveAdapter : Adapter ρ} {receiveResponse : ρ}
    {ts ts' : List (Turnaround ρ)} {calls : List Call} {config : Config}
    {adapter : ℕ → Adapter ρ} {response : ρ}
    (hrun : Run (Exchange.ClassifiedStep server) (.start receiveAdapter receiveResponse init) ts v)
    (hexec : v.Step server (.exec calls config adapter response) v')
    (hserve : Run (Exchange.ClassifiedStep server) v' ts' s) (hup : s.world.up = true) :
  takesAll adapter (fedTo v.book.length s.world.log) response = true
  := by
  have hcoupled := (Coupled.start.run hrun).1
  obtain ⟨as, has⟩ := ((hcoupled.step hexec).run hserve).2.2 s.outbox (List.prefix_refl _)
  refine (has.invariant (I := fun w => w.up = true →
    Serving v.book.length (.ofCalls config calls) adapter response w ∧
      takesAll adapter (fedTo v.book.length w.log) response = true) ?_ ?_ hup).2
  · intro w a w' h hstep hup
    obtain ⟨hserving, htakes⟩ := h (hstep.of_up hup).1
    exact ⟨hserving.step hstep hup, hserving.takes htakes hstep hup⟩
  · intro hup
    refine ⟨(serving hrun hexec (.nil _) hup).2, ?_⟩
    obtain ⟨⟨hupv, -⟩, rfl⟩ := hexec
    have hknown := (tracked hrun (List.prefix_refl _) hupv).known
    have hnone : fedTo v.book.length v.world.log = [] := by
      apply fedTo_of_unused
      intro b hb huse
      rw [← hcoupled.issued.numbered] at huse
      exact Nat.lt_irrefl _ (hknown b hb _ huse)
    show takesAll adapter (fedTo v.book.length v.world.log) response = true
    rw [hnone, takesAll]

/-- Unless a reply is taken for a push, when a request is done each of its results is what is read,
into a new response object, from one reply alone: the results belong, in order, to the commands of
the request that expect a response, and the server gives the replies after the commands of the
requests `before` it.  A result for which there is no reply is a new one. -/
theorem results_of_exchange {n : ℕ} {types : Fin n → ResultType}
    {s s' v v' : Exchange σ (Except Thrown (responseAdapter types).State)}
    {receiveAdapter : Adapter (Except Thrown (responseAdapter types).State)}
    {receiveResponse : Except Thrown (responseAdapter types).State}
    {ts ts' : List (Turnaround (Except Thrown (responseAdapter types).State))}
    {calls : List Call} {config : Config} {r : (responseAdapter types).Response}
    (hrun : Run (Exchange.ClassifiedStep server) (.start receiveAdapter receiveResponse init) ts v)
    (hsize : (Request.ofCalls config calls).expectedResponses ≤ n)
    (hexec : v.Step server (.exec calls config (responseAdapter types).toAdapter
      (responseAdapter types).start) v')
    (hserve : Run (Exchange.ClassifiedStep server) v' ts' s)
    (hread : s.ClassifiedStep server .commitRead s')
    (hdone : .notified v.book.length none ∈ s.world.mpx.commitRead.events)
    (hvalue : s.world.mpx.frontResponse.map (responseAdapter types).value = some (.ok r)) :
  ∃ before after, stagings s.world.log = before ++ v.book.length :: after ∧
    stagings v.world.log <+: before ∧
    ∀ k, (types k).adapter.read (types k).adapter.fresh
      (((server.respond (server.execute init (before.flatMap s.commandsOf))
        (calls.filterMap Call.fields)).map Message.nodes).getD k []) = .ok (r k, none)
  := by
  obtain ⟨⟨⟨hup, hb, -⟩, -⟩, hover⟩ := hread
  obtain ⟨⟨⟨sent, queued, cur, hinv⟩, -, -⟩, hserving⟩ := Exchange.serving hrun hexec hserve hup
  obtain ⟨hcomplete, hequal⟩ := hserving.responds hinv hb hover hdone
  obtain ⟨before, after, hsplit, hbefore, hnodes⟩ :=
    Exchange.placed hrun hexec hserve (hserving.expects hdone) hcomplete
  refine ⟨before, after, hsplit, hbefore, ?_⟩
  have hok : ∀ isPush ec, s.world.mpx.commitRead.value ≠ .error isPush ec := by
    obtain ⟨-, -, size, -, -, -, hmessage⟩ := readsFor_of_notified hdone
    intro isPush ec herror
    cases hmessage.symm.trans herror
  have htakes := hserving.takes_commitRead (Exchange.takes hrun hexec hserve hup) hok
  rw [hinv.fedTo_notified hserving.orderly hb hover hdone, hnodes] at htakes
  rw [hequal, hnodes] at hvalue
  set replies := (server.respond (server.execute init (before.flatMap s.commandsOf))
    (calls.filterMap Call.fields)).map Message.nodes with hreplies
  have hlength : replies.length ≤ n := by
    rw [hreplies, List.length_map, server.length_respond, ← (Request.ofCalls_eq config calls).2]
    apply hsize
  rw [← replyCalls_pad hlength] at htakes hvalue
  exact (pipeline_read_iff _ _ _).mp (read_of_takesAll htakes (Option.some.inj hvalue))

end Exchanges

/-- The types of `response<std::string>`. -/
def stringResult : Fin 1 → ResultType := fun _ => .value (.simple Bytes)

/-- A request that asks for the lock, with a string for the reply. -/
def lockStringAsked : Exchange Bool (Except Thrown (responseAdapter stringResult).State) :=
  lockAsked (responseAdapter stringResult).toAdapter (responseAdapter stringResult).start

def lockStringReplied : Exchange Bool (Except Thrown (responseAdapter stringResult).State) :=
  lockReplied (responseAdapter stringResult).toAdapter (responseAdapter stringResult).start

/-- The last request has the string of the reply that the lock was taken before. -/
theorem results_of_exchange_lock :
  ∃ r, lockStringReplied.world.mpx.frontResponse.map (responseAdapter stringResult).value
      = some (.ok r) ∧
    ∃ before after, stagings lockStringReplied.world.log = before ++ 2 :: after ∧
      stagings lockStringAsked.world.log <+: before ∧
      ∀ k, (stringResult k).adapter.read (stringResult k).adapter.fresh
        (((lockServer.respond (lockServer.execute false
            (before.flatMap lockStringReplied.commandsOf))
          ([setnx].filterMap Call.fields)).map Message.nodes).getD k []) = .ok (r k, none)
  := by
  have hasked : Run.Follows (Exchange.next lockServer) (fun s t => s.Possible t ∧ s.Classifies t)
      (.start (fun _ r => (r, none)) (responseAdapter stringResult).start false)
      (lockRequests (responseAdapter stringResult).toAdapter
        (responseAdapter stringResult).start) := by
    decide +kernel
  have hagain : lockStringAsked.Possible (askLock (responseAdapter stringResult).toAdapter
      (responseAdapter stringResult).start) := by
    decide +kernel
  have hfollows : Run.Follows (Exchange.next lockServer) (fun s t => s.Possible t ∧ s.Classifies t)
      (lockStringAsked.next lockServer (askLock (responseAdapter stringResult).toAdapter
        (responseAdapter stringResult).start)) lockTurns := by
    decide +kernel
  have hok : (lockStringReplied.world.mpx.frontResponse.map
      (responseAdapter stringResult).value).map Except.isOk = some true := by
    decide +kernel
  obtain ⟨e, he, hisOk⟩ := Option.map_eq_some_iff.mp hok
  cases e with
  | error t => cases hisOk
  | ok r =>
      refine ⟨r, he, ?_⟩
      apply results_of_exchange (Exchange.run_of_follows hasked) (by decide +kernel) ⟨hagain, rfl⟩
        (Exchange.run_of_follows hfollows) ⟨⟨by decide +kernel, rfl⟩, by decide +kernel⟩
        (by decide +kernel) he

end Redis
