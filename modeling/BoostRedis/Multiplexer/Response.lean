import BoostRedis.Adapter.Result
import BoostRedis.Multiplexer.Answers
import BoostRedis.Multiplexer.Execution
import BoostRedis.Multiplexer.Retry

/-!
# Responses of requests that are retried

The response of a request is what its adapter makes of the nodes that are given to it.  When the
connection is lost in the middle of a reply, the request that stays keeps what its adapter was
given of it, and the adapter goes on from there with the replies on the next connection.  Hence
the response is that of the replies alone only if nothing was given to the adapter on a
connection that was lost.
-/

namespace Redis

open Resp3

variable {ρ : Type}

/-! ### Requests that are served -/

/-- A request, if it stays when the connection is lost, was given nothing on it. -/
def KeepsUnfed (id : ℕ) (v : World ρ) : Prop :=
  ∀ e ∈ v.mpx.reqs, e.id = id → e.isWaiting = false → e.req.config.cancelIfUnresponded = false →
    fedTo id v.log = []

instance (id : ℕ) (v : World ρ) : Decidable (KeepsUnfed id v) :=
  inferInstanceAs (Decidable (∀ e ∈ v.mpx.reqs, _))

/-- The condition under which a request that is retried gets the response it should. -/
def World.Unfed (id : ℕ) (w : World ρ) (a : Action ρ) : Prop :=
  ∀ v, w.Loses a v → KeepsUnfed id v

instance (id : ℕ) (w : World ρ) (a : Action ρ) : Decidable (w.Unfed id a) :=
  inferInstanceAs (Decidable (∀ v, w.Loses a v → KeepsUnfed id v))

/-- A step with which requests are retried as they should be, and the request `id` stays only if
it was given nothing. -/
def World.ServedStep (server : ℕ → List Message) (id : ℕ) (w : World ρ) (a : Action ρ)
    (w' : World ρ) : Prop :=
  World.RetryStep server w a w' ∧ w.Unfed id a

/-- What holds of the entry of a request that was added with an adapter and a response. -/
structure Served (req : Request) (adapter : ℕ → Adapter ρ) (response : ρ) (w : World ρ)
    (e : Elem ρ) : Prop where
  req_eq : e.req = req
  adapter_eq : e.adapter = adapter
  response_eq : e.response = feedAll adapter response (fedTo e.id w.log)
  clean : e.isWaiting = true → fedTo e.id w.log = []
  staged : w.up = true → indicesOf e.id (commands w.log)
    = if e.isWaiting then [] else List.range req.expectedResponses

/-- What holds of a request from when it was added. -/
structure Serving (id : ℕ) (req : Request) (adapter : ℕ → Adapter ρ) (response : ρ)
    (w : World ρ) : Prop where
  orderly : Orderly w
  served : ∀ e ∈ w.mpx.reqs, e.id = id → Served req adapter response w e
  old : id < w.nextId

section Serving

variable {id : ℕ} {req : Request} {adapter : ℕ → Adapter ρ} {response : ρ} {w w' v : World ρ}
  {a : Action ρ} {e e' : Elem ρ} {es : List Event}

/-- Nothing happens to a request. -/
theorem Served.frame (h : Served req adapter response w e) (hsame : SameElem e e')
    (hwait : e'.isWaiting = e.isWaiting) (hlog : w'.log = w.log ++ es) (hup : w'.up = w.up)
    (hfed : fedTo e.id es = []) (hindices : indicesOf e.id (commands es) = []) :
  Served req adapter response w' e'
  := by
  have hfed' : fedTo e'.id w'.log = fedTo e.id w.log := by
    rw [hlog, fedTo_append, hsame.id, hfed, List.append_nil]
  refine ⟨hsame.req.trans h.req_eq, hsame.adapter.trans h.adapter_eq, ?_, ?_, ?_⟩
  · rw [hfed', hsame.response, h.response_eq]
  · rw [hfed', hwait]
    apply h.clean
  · rw [hup, hlog, commands_append, indicesOf_append, hsame.id, hindices, List.append_nil, hwait]
    apply h.staged

theorem Serving.operate (h : Serving id req adapter response w) (a : Action ρ)
    (ha : a.marks = false) (hreset : a.isReset = false) :
  Serving id req adapter response (w.operate a)
  := by
  refine ⟨h.orderly.step a, ?_, World.lt_nextId_operate h.old⟩
  rintro e' he' rfl
  have hold := h.old
  obtain ⟨e, he, hsame, hwait⟩ | hnew := World.mem_operate ha he'
  · have hup : (w.operate a).up = w.up := by
      cases a with
      | add _ _ _ | remove _ | receive _ | cancelWaiting | commitWrite => rfl
      | prepareWrite | commitRead | connLost => cases ha
      | reset => cases hreset
    have hstagings : stagings (w.calls a) = [] := by
      apply stagings_calls
      cases a <;> first | rfl | cases ha
    have hdeliveries : deliveries (w.calls a) = [] := by
      apply deliveries_calls
      cases a <;> first | rfl | cases ha
    apply (h.served e he hsame.id.symm).frame hsame hwait (World.operate_log hreset) hup
    · apply fedTo_eq_nil hdeliveries
    · rw [commands_of_stagings hstagings]
      rfl
  · rw [hnew] at hold
    exact absurd hold (Nat.lt_irrefl _)

theorem Serving.prepareWrite (h : Serving id req adapter response w) :
  Serving id req adapter response (w.operate .prepareWrite)
  := by
  refine ⟨h.orderly.step _, ?_, h.old⟩
  rintro e' he' rfl
  obtain ⟨sent, queued, hsplit⟩ := h.orderly.split
  obtain ⟨hsplit', hevents⟩ := hsplit.prepareWrite
  have hnodup := h.orderly.nodup
  rw [Multiplexer.ids, hsplit.eq, List.map_append, List.nodup_append] at hnodup
  have hlog := World.operate_log (w := w) (a := .prepareWrite) rfl
  have hfed : fedTo e'.id (w.calls .prepareWrite) = [] := fedTo_eq_nil (deliveries_calls rfl)
  have hmem : e' ∈ sent ++ queued.map Elem.markStaged := by
    rw [← List.append_nil (sent ++ _), ← hsplit'.eq]
    apply he'
  obtain hsent | hstaged := List.mem_append.mp hmem
  · have hserved := h.served e' (hsplit.eq ▸ List.mem_append_left queued hsent) rfl
    apply hserved.frame (.refl e') rfl hlog rfl hfed
    show indicesOf e'.id (commands w.mpx.prepareWrite.events) = []
    rw [hevents, indicesOf_not_staged]
    intro hid
    exact hnodup.2.2 _ (List.mem_map_of_mem hsent) _ hid rfl
  · obtain ⟨e, he, rfl⟩ := List.mem_map.mp hstaged
    have hserved := h.served e (hsplit.eq ▸ List.mem_append_right sent he) rfl
    have hwait := hsplit.queued_waiting e he
    refine ⟨hserved.req_eq, hserved.adapter_eq, ?_, ?_, ?_⟩
    · rw [hlog, fedTo_append, hfed, List.append_nil]
      apply hserved.response_eq
    · intro hwaits
      cases hwaits
    · intro hup
      have hnone := hserved.staged hup
      rw [hwait, if_pos rfl] at hnone
      rw [hlog, commands_append, indicesOf_append]
      show indicesOf e.id (commands w.log) ++ indicesOf e.id (commands w.mpx.prepareWrite.events) = _
      rw [hnone, hevents, indicesOf_staged hnodup.2.1 he, hserved.req_eq]
      rfl

theorem Serving.commitRead (h : Serving id req adapter response w) :
  Serving id req adapter response (w.operate .commitRead)
  := by
  refine ⟨h.orderly.step _, ?_, h.old⟩
  rintro e' he' rfl
  have hlog := World.operate_log (w := w) (a := .commitRead) rfl
  have hindices : indicesOf e'.id (commands (w.calls .commitRead)) = [] := by
    rw [commands_of_stagings (stagings_calls rfl)]
    rfl
  cases hpush : w.mpx.onPush || w.mpx.isNextPush with
  | true =>
      have hread : w.mpx.commitRead = w.mpx.commitPush := by
        rw [Multiplexer.commitRead, if_pos hpush]
      have hmem : e' ∈ w.mpx.commitRead.mpx.reqs := he'
      rw [hread, w.mpx.commitPush_reqs.1] at hmem
      apply (h.served e' hmem rfl).frame (.refl e') rfl hlog rfl _ hindices
      show fedTo e'.id w.mpx.commitRead.events = []
      rw [hread, fedTo_commitPush]
  | false =>
      obtain ⟨e, rest, hfor⟩ := readsFor hpush
      obtain ⟨nds, hfed, -, hmem⟩ := hfor.fed
      obtain hrest | hfeeds := hmem e' he'
      · have hserved := h.served e' (hfor.reqs ▸ List.mem_cons_of_mem e hrest) rfl
        apply hserved.frame (.refl e') rfl hlog rfl _ hindices
        show fedTo e'.id w.mpx.commitRead.events = []
        rw [hfed, if_neg]
        intro hid
        exact h.orderly.front_unique hfor.reqs (hid ▸ List.mem_map_of_mem hrest)
      · have hserved := h.served e (hfor.reqs ▸ List.mem_cons_self) hfeeds.id.symm
        have hfed' : fedTo e'.id (w.operate .commitRead).log
            = fedTo e.id w.log ++ nds.map (e.index, ·) := by
          rw [hlog, fedTo_append, hfeeds.id]
          show _ ++ fedTo e.id w.mpx.commitRead.events = _
          rw [hfed, if_pos rfl]
        refine ⟨hfeeds.req.trans hserved.req_eq, hfeeds.adapter.trans hserved.adapter_eq, ?_, ?_, ?_⟩
        · rw [hfed', feedAll_append, hfeeds.response, hserved.adapter_eq, hserved.response_eq]
        · intro hwait
          rw [hfeeds.isWaiting, hfor.isWaiting] at hwait
          cases hwait
        · rw [hlog, commands_append, indicesOf_append, hindices, List.append_nil, hfeeds.id,
            hfeeds.isWaiting]
          apply hserved.staged

/-- The connection is lost. -/
theorem Serving.connLost (h : Serving id req adapter response v) (hkeeps : KeepsUnfed id v) :
  Serving id req adapter response (v.operate .connLost)
  := by
  refine ⟨h.orderly.step _, ?_, h.old⟩
  have hfed : fedTo id (v.operate .connLost).log = fedTo id v.log := by
    rw [World.operate_log rfl, fedTo_append, fedTo_eq_nil (deliveries_calls rfl), List.append_nil]
  have hdown : ¬ (v.operate .connLost).up = true := Bool.false_ne_true
  rintro e' he' rfl
  have hmem : e' ∈ v.mpx.cancelOnConnLost.mpx.reqs := he'
  rw [Multiplexer.cancelOnConnLost] at hmem
  split at hmem
  · have hserved := h.served e' hmem rfl
    refine ⟨hserved.req_eq, hserved.adapter_eq, ?_, ?_, fun hup => absurd hup hdown⟩
    · rw [hfed]
      apply hserved.response_eq
    · rw [hfed]
      apply hserved.clean
  · obtain ⟨e, he, rfl⟩ := List.mem_map.mp hmem
    obtain ⟨he, hkept⟩ := List.mem_filter.mp he
    have hserved := h.served e he rfl
    have hclean : fedTo e.id v.log = [] := by
      cases hwait : e.isWaiting with
      | true => apply hserved.clean hwait
      | false =>
          apply hkeeps e he rfl hwait
          simpa [Multiplexer.keptOnConnLost, hwait] using hkept
    refine ⟨hserved.req_eq, hserved.adapter_eq, ?_, ?_, fun hup => absurd hup hdown⟩
    · rw [hfed]
      apply hserved.response_eq
    · intro _
      rw [hfed]
      apply hclean

/-- A new connection starts. -/
theorem Serving.reset (h : Serving id req adapter response w)
    (hwait : ∀ e ∈ w.mpx.reqs, e.isWaiting = true) :
  Serving id req adapter response (w.operate .reset)
  := by
  refine ⟨h.orderly.step _, ?_, h.old⟩
  rintro e he rfl
  have hserved := h.served e he rfl
  refine ⟨hserved.req_eq, hserved.adapter_eq, ?_, fun _ => rfl, ?_⟩
  · have hresponse := hserved.response_eq
    rw [hserved.clean (hwait e he)] at hresponse
    apply hresponse
  · intro _
    rw [hwait e he]
    rfl

/-- Every step. -/
theorem World.ServedStep.serving {server : ℕ → List Message}
    (hstep : World.ServedStep server id w a w') (hsettled : Settled server w)
    (h : Serving id req adapter response w) :
  Serving id req adapter response w'
  := by
  obtain ⟨⟨⟨hallowed, rfl⟩, -, -⟩, hunfed⟩ := hstep
  have hother := h.operate a
  cases a with
  | add _ _ _ | remove _ | receive _ | cancelWaiting | commitWrite => exact hother rfl rfl
  | prepareWrite => exact h.prepareWrite
  | commitRead =>
      rw [World.apply]
      split
      · rename_i hvalue
        exact h.commitRead.connLost (hunfed _ (.commitRead hvalue))
      · exact h.commitRead
  | connLost => exact h.connLost (hunfed w .connLost)
  | reset =>
      obtain ⟨sent, queued, cur, hinv⟩ | hdown := hsettled
      · have hup := hallowed.2
        rw [hinv.up] at hup
        cases hup
      · exact h.reset hdown.waiting

end Serving

/-! ### The beginning -/

/-- Only requests that were added are used. -/
def Known (w : World ρ) : Prop :=
  ∀ b ∈ w.log, ∀ id, b.uses = some id → id < w.nextId

section Known

variable {w v : World ρ}

theorem Known.operate (h : Known w) (horderly : Orderly w) (a : Action ρ) :
  Known (w.operate a)
  := by
  intro b hb id huse
  apply World.lt_nextId_operate
  cases hreset : a.isReset with
  | false =>
      rw [World.operate_log hreset] at hb
      obtain hb | hb := List.mem_append.mp hb
      · apply h b hb id huse
      · apply horderly.lt_nextId id ((tidy_calls w a).mem hb huse)
  | true =>
      cases a with
      | reset => cases hb
      | _ => cases hreset

/-- What holds after every run in which requests are retried as they should be. -/
theorem known_of_run {server : ℕ → List Message} {receiveAdapter : Adapter ρ}
    {receiveResponse : ρ} {as : List (Action ρ)}
    (hrun : Run (World.RetryStep server) (.fresh receiveAdapter receiveResponse) as v) :
  Orderly v ∧ Known v
  := by
  obtain ⟨as', hopen⟩ := (hrun.mono fun hstep => ⟨hstep.1.1.1, hstep.1.2⟩).refine
    World.FreeStep.openRun
  apply hopen.invariant (I := fun v => Orderly v ∧ Known v)
  · rintro w a _ ⟨horderly, hknown⟩ ⟨-, rfl⟩
    exact ⟨horderly.step a, hknown.operate horderly a⟩
  · exact ⟨.fresh receiveAdapter receiveResponse, by simp [Known, World.fresh]⟩

/-- A request is added. -/
theorem serving_add (horderly : Orderly v) (hknown : Known v) (req : Request)
    (adapter : ℕ → Adapter ρ) (response : ρ) :
  Serving v.nextId req adapter response (v.apply (.add req adapter response))
  := by
  have hunused : ∀ b ∈ v.log, b.uses ≠ some v.nextId :=
    fun b hb huse => Nat.lt_irrefl _ (hknown b hb _ huse)
  refine ⟨horderly.step (.add req adapter response), ?_, Nat.lt_succ_self _⟩
  intro e he hid
  obtain rfl | he := List.mem_cons.mp ((Multiplexer.add_perm _).mem_iff.mp he)
  · refine ⟨rfl, rfl, ?_, fun _ => fedTo_of_unused hunused, fun _ => indicesOf_of_unused hunused⟩
    show response = feedAll adapter response (fedTo v.nextId v.log)
    rw [fedTo_of_unused hunused]
    rfl
  · have hlt := horderly.lt_nextId e.id (List.mem_map_of_mem he)
    rw [hid] at hlt
    exact absurd hlt (Nat.lt_irrefl _)

end Known

/-! ### The end -/

/-- The request `id` is done in the world `w` when `commit_read` is called: all its commands were
answered, and its response is what the adapter makes of the answers. -/
structure Responds (ms : List Message) (id : ℕ) (req : Request) (adapter : ℕ → Adapter ρ)
    (response : ρ) (w : World ρ) : Prop where
  complete : (answers id (commands w.log) ms).map Prod.fst = List.range req.expectedResponses
  equal : w.mpx.frontResponse
    = some (feedAll adapter response (nodesOf (answers id (commands w.log) ms)))

section Responds

variable {ms : List Message} {id : ℕ} {req : Request} {adapter : ℕ → Adapter ρ} {response : ρ}
  {w w' v : World ρ} {sent queued : List (Elem ρ)} {cur : List (Target × Node)}

/-- When a request is done, no command of it is left to be answered. -/
theorem Inv.indicesOf_owed (h : Inv ms w sent queued cur) (hid : id ∉ w.mpx.ids) :
  indicesOf id ((commands w.log).drop (replies (ms.take (finished w.log)))) = []
  := by
  rw [h.owed]
  apply indicesOf_eq_nil
  rintro c hc rfl
  obtain ⟨e, he, hc⟩ := List.mem_flatMap.mp hc
  obtain ⟨i, -, rfl⟩ := List.mem_map.mp hc
  apply hid
  rw [Multiplexer.ids, h.split.eq]
  exact List.mem_map_of_mem (List.mem_append_left queued he)

/-- The nodes given to a request that is done are those of the answers to its commands. -/
theorem Inv.fedTo_done (h : Inv ms w sent queued []) (hid : id ∉ w.mpx.ids) :
  fedTo id w.log = nodesOf (answers id (commands w.log) ms) ∧
    (answers id (commands w.log) ms).map Prod.fst = indicesOf id (commands w.log)
  := by
  have howed := h.indicesOf_owed hid
  have hanswers : answers id (commands w.log) ms
      = answers id (commands w.log) (ms.take (finished w.log)) := by
    calc
      answers id (commands w.log) ms
          = answers id (commands w.log) (ms.take (finished w.log) ++ ms.drop (finished w.log)) := by
            rw [List.take_append_drop]
      _ = answers id (commands w.log) (ms.take (finished w.log)) := by
            rw [answers_append h.answered, answers_eq_nil howed, List.append_nil]
  rw [hanswers]
  constructor
  · rw [fedTo, h.delivered, List.append_nil, givenTo_attribution]
  · rw [map_fst_answers]
    conv => rhs; rw [← List.take_append_drop (replies (ms.take (finished w.log))) (commands w.log)]
    rw [indicesOf_append, howed, List.append_nil]

theorem Serving.responds (h : Serving id req adapter response w)
    (hinv : Inv ms w sent queued cur) (hb : w.mpx.readBuffer ≠ []) (hover : ¬ Overtaken w.mpx)
    (hdone : .notified id none ∈ w.mpx.commitRead.events) :
  Responds ms id req adapter response w
  := by
  obtain ⟨e, rest, size, rfl, hfor, hreqs', hvalue⟩ := readsFor_of_notified hdone
  obtain ⟨nds, hfed, hfront, -⟩ := hfor.fed
  have hserved := h.served e (hfor.reqs ▸ List.mem_cons_self) rfl
  -- The request is not in the queue any more, so that all answers to its commands were read.
  have hgone : e.id ∉ (w.after w.mpx.commitRead).mpx.ids := by
    rw [World.after, Multiplexer.ids, hreqs']
    apply h.orderly.front_unique hfor.reqs
  have hlog : (w.after w.mpx.commitRead).log = w.log ++ w.mpx.commitRead.events := rfl
  have hcommands : commands (w.after w.mpx.commitRead).log = commands w.log := by
    rw [hlog, commands_append, commands_of_stagings (stagings_eq_nil (not_staged_commitRead _)),
      List.append_nil]
  obtain ⟨x, -, hout⟩ := hinv.outcome hb hover
  cases hout with
  | proceeds hmore =>
      rw [hvalue] at hmore
      cases hmore
  | rejected herror =>
      rw [hvalue] at herror
      cases herror
  | finishes _ hinv' =>
      obtain ⟨hnodes, hindices⟩ := hinv'.fedTo_done hgone
      rw [hcommands] at hnodes hindices
      constructor
      · rw [hindices, hserved.staged hinv.up, hfor.isWaiting]
        rfl
      · rw [hfront, ← hnodes, hlog, fedTo_append, hfed, if_pos rfl, feedAll_append,
          ← hserved.response_eq, hserved.adapter_eq]

/-- The response of a request is what its adapter makes of the replies to its commands, also if
it was retried, in every run in which it was given nothing on a connection that was lost. -/
theorem response_of_retry {server : ℕ → List Message} {receiveAdapter : Adapter ρ}
    {receiveResponse : ρ} {as as' : List (Action ρ)}
    (hrun : Run (World.RetryStep server) (.fresh receiveAdapter receiveResponse) as v)
    (hserve : Run (World.ServedStep server v.nextId) (v.apply (.add req adapter response)) as' w)
    (hread : World.ServedStep server v.nextId w .commitRead w')
    (hdone : .notified v.nextId none ∈ w.mpx.commitRead.events) :
  Responds (server w.conn) v.nextId req adapter response w
  := by
  obtain ⟨horderly, hknown⟩ := known_of_run hrun
  have hadd : World.RetryStep server v (.add req adapter response)
      (v.apply (.add req adapter response)) :=
    ⟨⟨⟨trivial, trivial⟩, rfl⟩, trivial, by rintro _ ⟨⟩⟩
  obtain ⟨hsettled', hserving⟩ := hserve.invariant
    (I := fun w => Settled server w ∧ Serving v.nextId req adapter response w)
    (fun h hstep => ⟨hstep.1.settled h.1, hstep.serving h.1 h.2⟩)
    ⟨hadd.settled (settled_of_run hrun), serving_add horderly hknown req adapter response⟩
  obtain ⟨⟨⟨⟨⟨hb, -⟩, hup⟩, -⟩, hover, -⟩, -⟩ := hread
  obtain ⟨sent, queued, cur, hinv⟩ | hdown := hsettled'
  · apply hserving.responds hinv hb hover hdone
  · rw [hdown.up] at hup
    cases hup

end Responds

/-! ### A list of strings -/

/-- The adapter of `response<std::vector<std::string>>`. -/
def stringsResponse : ResponseAdapter :=
  staticAdapter fun _ : Fin 1 => wrapper (vectorImpl ((2 ^ 63 - 1) / 32) Bytes)

/-- The strings in the response. -/
def strings (r : Except Thrown stringsResponse.Response) : Option (List Bytes) :=
  match r with
  | .error _ => none
  | .ok result =>
      match (result 0 : Result (List Bytes)) with
      | .error _ => none
      | .ok l => some l

/-- A reply with two strings. -/
def twoStrings : Message where
  value := .aggregate .array 2 [.bulk .blobString (ascii "a"), .bulk .blobString (ascii "b")]
  wellFormed := by decide
  height_le := by decide
  length_lt := by decide

/-- A command that is answered with strings, in a request that stays when the connection is
lost. -/
def lrange : Request :=
  Request.push { config := { cancelIfUnresponded := false } } (ascii "LRANGE")
    [ascii "key", ascii "0", ascii "-1"]

/-- The request is sent, and the connection is lost when some bytes of the reply have arrived.
It is sent again on the next connection, on which the whole reply arrives. -/
def interrupted (part : Bytes) : List (Action (Except Thrown stringsResponse.State)) :=
  [.prepareWrite, .commitWrite, .receive part, .commitRead, .connLost, .reset, .prepareWrite,
    .commitWrite, .receive twoStrings.encode]

/-- Nothing has happened, but that a connection was established. -/
def listening : World (Except Thrown stringsResponse.State) :=
  (World.fresh (fun _ r => (r, none)) stringsResponse.start).apply .reset

/-- The reply is interrupted in the first line, so that nothing is given to the adapter. -/
theorem response_of_retry_early :
  Responds [twoStrings] 0 lrange stringsResponse.toAdapter stringsResponse.start
      ((interrupted (ascii "*2")).foldl World.apply
        (listening.apply (.add lrange stringsResponse.toAdapter stringsResponse.start))) ∧
    ((interrupted (ascii "*2")).foldl World.apply
      (listening.apply (.add lrange stringsResponse.toAdapter stringsResponse.start))).mpx.frontResponse.map
        (strings ∘ stringsResponse.value)
        = some (some [ascii "a", ascii "b"])
  := by
  have hstart : World.RetryStep (fun _ => [twoStrings])
      (World.fresh (fun _ r => (r, none)) stringsResponse.start) .reset listening :=
    ⟨⟨by decide, rfl⟩, by decide, by decide⟩
  have hfollows : Run.Follows World.apply
      (fun w a => (w.Allowed (fun _ => [twoStrings]) a ∧ w.Classifies a ∧ w.Retries a) ∧
        w.Unfed 0 a)
      (listening.apply (.add lrange stringsResponse.toAdapter stringsResponse.start))
      (interrupted (ascii "*2")) := by
    decide +kernel
  refine ⟨?_, by decide +kernel⟩
  apply response_of_retry (.single hstart)
    ((Run.of_follows hfollows).mono fun h => ⟨⟨⟨h.1.1.1, h.2⟩, h.1.1.2⟩, h.1.2⟩)
    ⟨⟨⟨by decide +kernel, rfl⟩, by decide +kernel, by decide +kernel⟩, by decide +kernel⟩
  decide +kernel

/-- The reply is interrupted after the first string, which is in the response twice then. -/
theorem response_of_retry_fails :
  ¬ ∀ (server : ℕ → List Message) (receiveAdapter : Adapter (Except Thrown stringsResponse.State))
    (as as' : List (Action (Except Thrown stringsResponse.State)))
    (v w w' : World (Except Thrown stringsResponse.State)) (req : Request),
    Run (World.RetryStep server) (.fresh receiveAdapter stringsResponse.start) as v →
    Run (World.RetryStep server)
      (v.apply (.add req stringsResponse.toAdapter stringsResponse.start)) as' w →
    World.RetryStep server w .commitRead w' →
    .notified v.nextId none ∈ w.mpx.commitRead.events →
    w.mpx.frontResponse.map stringsResponse.value
      = some (stringsResponse.value (feedAll stringsResponse.toAdapter stringsResponse.start
          (nodesOf (answers v.nextId (commands w.log) (server w.conn)))))
  := by
  intro h
  have hstart : World.RetryStep (fun _ => [twoStrings])
      (World.fresh (fun _ r => (r, none)) stringsResponse.start) .reset listening :=
    ⟨⟨by decide, rfl⟩, by decide, by decide⟩
  have hfollows : Run.Follows World.apply
      (fun w a => w.Allowed (fun _ => [twoStrings]) a ∧ w.Classifies a ∧ w.Retries a)
      (listening.apply (.add lrange stringsResponse.toAdapter stringsResponse.start))
      (interrupted (ascii "*2\r\n$1\r\na\r\n")) := by
    decide +kernel
  have hequal := h (fun _ => [twoStrings]) (fun _ r => (r, none)) _ _ listening _ _ lrange
    (.single hstart) ((Run.of_follows hfollows).mono fun h => ⟨⟨h.1.1, h.2⟩, h.1.2⟩)
    ⟨⟨by decide +kernel, rfl⟩, by decide +kernel, by decide +kernel⟩ (by decide +kernel)
  have hstrings := congrArg (Option.map strings) hequal
  revert hstrings
  decide +kernel

end Redis
