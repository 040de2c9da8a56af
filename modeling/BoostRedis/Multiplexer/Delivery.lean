import BoostRedis.Multiplexer.Entries
import BoostRedis.Multiplexer.Reading

/-!
# Delivery on one connection

On a connection whose requests all expect a response, every reply is delivered to the command
it answers and every push to the receive adapter.  A request that expects no response may stand
in the way: while it is being written, a reply that is meant for a request behind it is taken
for a push.
-/

namespace Redis

open Resp3

variable {ρ : Type}

/-! ### What is delivered -/

/-- What a call of `commit_read` does with the message `x`, which is the next one. -/
structure ReadsNext (ms : List Message) (w : World ρ) (x : Message) : Prop where
  /-- If the call returns a message, then it is this one, with all its nodes delivered. -/
  message : ∀ isPush size, w.mpx.commitRead.value = .message isPush size →
    isPush = x.isPush ∧ size = x.encode.length ∧
      w.mpx.commitRead.mpx.readBuffer = w.mpx.readBuffer.drop size ∧
      finished (w.log ++ w.mpx.commitRead.events) = finished w.log + 1 ∧
      deliveries (w.log ++ w.mpx.commitRead.events)
        = attribution (commands w.log) (ms.take (finished w.log + 1))
  /-- A message that has arrived as a whole is returned, unless an adapter sets an error. -/
  whole : x.encode <+: w.mpx.readBuffer → (∀ ec, .rejected ec ∉ w.mpx.commitRead.events) →
    w.mpx.commitRead.value = .message x.isPush x.encode.length

/-- What is right about a connection on which the server sends the messages `ms`. -/
structure Attributed (ms : List Message) (w : World ρ) : Prop where
  /-- What is delivered belongs to its target. -/
  delivered : deliveries w.log <+: attribution (commands w.log) ms
  /-- Of the messages that are finished all bytes are consumed and all nodes are delivered. -/
  consumed : w.up = true →
    w.received = encodeMessages (ms.take (finished w.log)) ++ w.mpx.readBuffer ∧
      attribution (commands w.log) (ms.take (finished w.log)) <+: deliveries w.log
  /-- The commands without a reply so far are those for which the requests that were sent wait. -/
  owed : w.up = true → (commands w.log).drop (replies (ms.take (finished w.log)))
    = (w.mpx.reqs.filter (!·.isWaiting)).flatMap Elem.owes
  /-- A call of `commit_read` reads the next message. -/
  reads : w.up = true → w.mpx.readBuffer ≠ [] → ¬ Overtaken w.mpx →
    ∃ x, ms[finished w.log]? = some x ∧ ReadsNext ms w x
  /-- When `commit_read` has nothing to do, all messages that have arrived are delivered. -/
  complete : w.up = true → w.mpx.readBuffer = [] ∨ w.mpx.commitRead.value = .needsMore →
    ∀ k, encodeMessages (ms.take k) <+: w.received →
      attribution (commands w.log) (ms.take k) <+: deliveries w.log
  /-- The adapters alone set errors. -/
  sound : w.up = true → w.mpx.readBuffer ≠ [] → w.mpx.commitRead.value ≠ .faulted ∧
    ∀ isPush ec, w.mpx.commitRead.value = .error isPush ec → .rejected ec ∈ w.mpx.commitRead.events

section Attributed

variable {ms : List Message} {w : World ρ} {sent queued : List (Elem ρ)}
  {cur : List (Target × Node)} {x : Message}

/-- What a call of `commit_read` reports while the message `x` is read. -/
structure Reports (m : Multiplexer ρ) (x : Message) (e : Effect ρ ReadResult) : Prop where
  ne_faulted : e.value ≠ .faulted
  rejected : ∀ isPush ec, e.value = .error isPush ec → .rejected ec ∈ e.events
  incomplete : e.value = .needsMore → ¬ x.encode <+: m.readBuffer

theorem reports_commitPush {m : Multiplexer ρ} {nds : List Node}
    (h : PartOf x m.readBuffer
      ((parse m.parser m.readBuffer m.receiveAdapter m.receiveResponse).prepend nds)) :
  Reports m x m.commitPush
  := by
  rw [Multiplexer.commitPush]
  generalize parse m.parser m.readBuffer m.receiveAdapter m.receiveResponse = r at h ⊢
  cases h with
  | done hs _ _ _ =>
      simp only [show r.status = .done from hs]
      exact ⟨by simp, by simp, by simp⟩
  | needsMore hs _ hnot =>
      simp only [show r.status = .needsMore from hs]
      exact ⟨by simp, by simp, fun _ => hnot⟩
  | @rejected ec hs _ =>
      simp only [show r.status = .rejected ec from hs]
      refine ⟨by simp, ?_, by simp⟩
      rintro _ _ ⟨⟩
      simp

theorem ReadOutcome.reports (h : ReadOutcome ms w queued x) :
  Reports w.mpx x w.mpx.commitRead
  := by
  cases h with
  | proceeds hv hnot _ _ => exact ⟨by simp [hv], by simp [hv], fun _ => hnot⟩
  | finishes hends _ =>
      exact ⟨by simp [hends.value], by simp [hends.value], by simp [hends.value]⟩
  | rejected hv hmem _ _ _ =>
      refine ⟨by simp [hv], ?_, by simp [hv]⟩
      intro isPush ec hv'
      rw [hv] at hv'
      cases hv'
      apply hmem

/-- A reply that is taken for a push is read from its start. -/
theorem Inv.commitRead_overtaken (h : Inv ms w sent queued cur) (hover : Overtaken w.mpx) :
  w.mpx.commitRead = w.mpx.commitPush ∧ w.mpx.parser = .fresh
  := by
  obtain ⟨hpush, -, e, he, hwait, hzero, -⟩ := hover
  obtain ⟨rest, hreqs⟩ := List.head?_eq_some_iff.mp he
  constructor
  · have hnext : w.mpx.isNextPush = true := by
      rw [Multiplexer.isNextPush, hreqs]
      simp [hzero]
    rw [Multiplexer.commitRead, hnext, Bool.or_true, if_pos rfl]
  · cases h.progress with
    | start _ hparser => apply hparser
    | push hpush' _ _ _ _ =>
        rw [hpush] at hpush'
        cases hpush'
    | reply _ _ _ hsent hrem _ _ =>
        have := h.split.eq
        rw [hreqs, hsent, List.cons_append, List.cons.injEq] at this
        rw [← this.1] at hrem
        exact absurd hzero hrem

theorem Inv.reports (h : Inv ms w sent queued cur) (hb : w.mpx.readBuffer ≠ []) :
  ∃ x, ms[finished w.log]? = some x ∧ Reports w.mpx x w.mpx.commitRead
  := by
  by_cases hover : Overtaken w.mpx
  · obtain ⟨x, s, hx, hpre, -⟩ := h.current hb
    obtain ⟨hread, hparser⟩ := h.commitRead_overtaken hover
    obtain ⟨t, -, hpart⟩ := (suspended_fresh hparser _ _).parse hpre h.buffer_lt
    rw [hread]
    exact ⟨x, hx, reports_commitPush hpart⟩
  · obtain ⟨x, hx, hout⟩ := h.outcome hb hover
    exact ⟨x, hx, hout.reports⟩

/-- The nodes that were read of the current message belong to it. -/
theorem Inv.nodes_part (h : Inv ms w sent queued cur) (hx : ms[finished w.log]? = some x)
    {v : Bytes} {adapter : Adapter ρ} {p : Parser} {r t : ρ} {nds : List Node}
    (hv : v <+: w.mpx.readBuffer) (hparse : parse .fresh v adapter t = ⟨p, r, nds, .needsMore⟩) :
  nds <+: x.nodes
  := by
  obtain ⟨s, hpre⟩ : ∃ s, v <+: x.encode ++ s := by
    by_cases hb : w.mpx.readBuffer = []
    · rw [hb, List.prefix_nil] at hv
      rw [hv]
      exact ⟨[], List.nil_prefix⟩
    · obtain ⟨y, s, hy, hpre, -⟩ := h.current hb
      obtain rfl := Option.some.inj (hx.symm.trans hy)
      exact ⟨s, hv.trans hpre⟩
  have hpart := parse_part hpre (hv.length_le.trans_lt h.buffer_lt) adapter t
  rw [hparse] at hpart
  cases hpart with
  | done hs _ _ _ => cases hs
  | needsMore _ hn _ => apply hn
  | rejected hs _ => cases hs

theorem Inv.delivered_part (h : Inv ms w sent queued cur) :
  deliveries w.log <+: attribution (commands w.log) ms
  := by
  rw [h.delivered]
  cases h.progress with
  | start _ _ =>
      rw [List.append_nil]
      have hall := attribution_take (commands w.log) (ms.take (finished w.log))
        (ms.drop (finished w.log))
      rw [List.take_append_drop] at hall
      apply hall
  | push _ hx hpush hv hparse =>
      apply attribution_part hx h.answered (aims_push hpush) (h.nodes_part hx hv hparse)
  | reply _ hx hreply hsent hrem hv hparse =>
      subst hsent
      apply attribution_part hx h.answered (h.aims_reply hreply hrem) (h.nodes_part hx hv hparse)

/-- When `commit_read` has nothing to do, the messages that have arrived are finished. -/
theorem Inv.take_finished (h : Inv ms w sent queued cur)
    (hquiet : w.mpx.readBuffer = [] ∨ w.mpx.commitRead.value = .needsMore) {k : ℕ}
    (hk : encodeMessages (ms.take k) <+: w.received) :
  ms.take k <+: ms.take (finished w.log)
  := by
  by_cases hle : k ≤ finished w.log
  · apply List.take_prefix_take_left hle
  cases hx : ms[finished w.log]? with
  | none =>
      rw [List.take_of_length_le (List.getElem?_eq_none_iff.mp hx)]
      apply List.take_prefix
  | some x =>
      exfalso
      obtain ⟨rest, hrest⟩ := take_eq_append hx (by omega : finished w.log < k)
      have hencode : x.encode <+: w.mpx.readBuffer := by
        rw [hrest, h.received, encodeMessages_append, List.prefix_append_right_inj] at hk
        apply (List.prefix_append x.encode (encodeMessages rest)).trans hk
      have hb : w.mpx.readBuffer ≠ [] := by
        intro hb
        rw [hb, List.prefix_nil] at hencode
        exact encode_ne_nil x.value hencode
      obtain ⟨y, hy, hreports⟩ := h.reports hb
      obtain rfl := Option.some.inj (hx.symm.trans hy)
      exact hreports.incomplete (hquiet.resolve_left hb) hencode

theorem ReadOutcome.readsNext (h : ReadOutcome ms w queued x) :
  ReadsNext ms w x
  := by
  cases h with
  | proceeds hv hnot _ _ => exact ⟨by simp [hv], fun hwhole => absurd hwhole hnot⟩
  | finishes hends hinv =>
      refine ⟨?_, fun _ _ => hends.value⟩
      intro isPush size hv
      obtain ⟨rfl, rfl⟩ := ReadResult.message.inj (hends.value.symm.trans hv)
      have hfinished : finished (w.log ++ w.mpx.commitRead.events) = finished w.log + 1 := by
        rw [finished_append, hends.finished]
      refine ⟨rfl, rfl, hends.readBuffer, hfinished, ?_⟩
      have hdelivered : deliveries (w.log ++ w.mpx.commitRead.events) = _ := hinv.delivered
      rw [hdelivered, World.after, hfinished, commands_append, hends.commands, List.append_nil,
        List.append_nil]
  | rejected hv hmem _ _ _ => exact ⟨by simp [hv], fun _ hnone => absurd hmem (hnone _)⟩

theorem Inv.attributed (h : Inv ms w sent queued cur) :
  Attributed ms w
  := by
  refine ⟨h.delivered_part, fun _ => ⟨h.received, ?_⟩, fun _ => ?_, fun _ hb hover => ?_, ?_, ?_⟩
  · rw [h.delivered]
    apply List.prefix_append
  · rw [h.owed, h.split.filter_waiting.1]
  · obtain ⟨x, hx, hout⟩ := h.outcome hb hover
    exact ⟨x, hx, hout.readsNext⟩
  · intro _ hquiet k hk
    obtain ⟨rest, hrest⟩ := h.take_finished hquiet hk
    rw [h.delivered, ← hrest]
    apply List.IsPrefix.trans _ (List.prefix_append _ _)
    apply attribution_take
  · intro _ hb
    obtain ⟨x, -, hreports⟩ := h.reports hb
    exact ⟨hreports.ne_faulted, hreports.rejected⟩

end Attributed

/-! ### One step -/

section Step

variable {ms : List Message} {server : ℕ → List Message} {w v : World ρ}
  {sent queued : List (Elem ρ)} {cur : List (Target × Node)} {a : Action ρ}

/-- The invariant holds, for some split of the queue. -/
def Live (ms : List Message) (w : World ρ) : Prop :=
  ∃ sent queued cur, Inv ms w sent queued cur

/-- What holds when the connection is about to be lost. -/
structure Losing (ms : List Message) (v : World ρ) : Prop where
  cancelled : v.mpx.cancelRunCalled = true → ∀ e ∈ v.mpx.reqs, e.isWaiting = true
  untouched : ∀ e ∈ v.mpx.reqs, e.isWaiting = true →
    e.remainingResponses = e.req.expectedResponses
  delivered : deliveries v.log <+: attribution (commands v.log) ms

theorem Inv.losing (h : Inv ms w sent queued cur) :
  Losing ms w
  := by
  refine ⟨?_, ?_, h.delivered_part⟩
  · intro hcancel
    rw [h.cancelRunCalled] at hcancel
    cases hcancel
  · intro e he hwait
    rw [h.split.eq] at he
    obtain he | he := List.mem_append.mp he
    · rw [h.split.sent_waiting e he] at hwait
      cases hwait
    · apply h.queued_untouched e he

/-- A call of `commit_read` leads on, or an adapter has set an error and the connection is
lost. -/
theorem Inv.commitRead (h : Inv ms w sent queued cur) (hb : w.mpx.readBuffer ≠ [])
    (hover : ¬ Overtaken w.mpx) :
  Live ms (w.apply .commitRead) ∨
    ∃ v, w.Loses .commitRead v ∧ Losing ms v ∧ ∃ ec, .rejected ec ∈ v.log
  := by
  obtain ⟨x, -, hout⟩ := h.outcome hb hover
  cases hout with
  | proceeds hv _ _ hinv =>
      left
      rw [World.apply_commitRead (by simp [hv])]
      exact ⟨_, _, _, hinv⟩
  | finishes hends hinv =>
      left
      rw [World.apply_commitRead (by simp [hends.value])]
      exact ⟨_, _, _, hinv⟩
  | rejected hv hmem hdel hsame hcancel =>
      right
      refine ⟨_, .commitRead hv, ⟨?_, ?_, hdel⟩, _, List.mem_append_right w.log hmem⟩
      · intro hcalled
        rw [World.after, hcancel, h.cancelRunCalled] at hcalled
        cases hcalled
      · intro e' he' hwait
        obtain ⟨e, he, heq⟩ := hsame e' he'
        rw [heq.remainingResponses, heq.req]
        apply h.losing.untouched e he
        rw [Elem.isWaiting, ← heq.status]
        apply hwait

/-- Every step on a connection that is up keeps the invariant or loses the connection. -/
theorem Inv.step (h : Inv (server w.conn) w sent queued cur) (ha : w.Allowed server a)
    (hover : a = .commitRead → ¬ Overtaken w.mpx) :
  Live (server w.conn) (w.apply a) ∨
    ∃ v, w.Loses a v ∧ Losing (server w.conn) v ∧ (a = .commitRead → ∃ ec, .rejected ec ∈ v.log)
  := by
  cases a with
  | add req adapter response =>
      obtain ⟨queued', h'⟩ := h.add req adapter response
      exact .inl ⟨_, _, _, h'⟩
  | remove id =>
      obtain ⟨queued', h'⟩ := h.remove id
      exact .inl ⟨_, _, _, h'⟩
  | cancelWaiting => exact .inl ⟨_, _, _, h.cancelWaiting⟩
  | prepareWrite => exact .inl ⟨_, _, _, h.prepareWrite⟩
  | commitWrite =>
      obtain ⟨sent', h'⟩ := h.commitWrite
      exact .inl ⟨_, _, _, h'⟩
  | receive chunk => exact .inl ⟨_, _, _, h.receive ha.1 (ha.2 h.up)⟩
  | commitRead =>
      obtain hlive | ⟨v, hv, hlosing, hrej⟩ := h.commitRead ha.1.1 (hover rfl)
      · exact .inl hlive
      · exact .inr ⟨v, hv, hlosing, fun _ => hrej⟩
  | connLost => exact .inr ⟨w, .connLost, h.losing, by simp⟩
  | reset =>
      have hup := ha.2
      rw [h.up] at hup
      cases hup

/-- A connection starts with requests that wait for all their responses. -/
theorem inv_start {m : Multiplexer ρ} (hm : w.mpx = m.reset) (hup : w.up = true)
    (hreceived : w.received = []) (hlog : w.log = []) (hwait : ∀ e ∈ m.reqs, e.isWaiting = true)
    (huntouched : ∀ e ∈ m.reqs, e.remainingResponses = e.req.expectedResponses) :
  Inv ms w [] m.reqs []
  := by
  refine ⟨hup, ?_, ⟨?_, by simp, hwait⟩, huntouched, by simp, by simp, ?_, ?_, ?_, ?_, ?_, ?_, ?_⟩
  · rw [hm]
    rfl
  · rw [hm]
    rfl
  · rw [hreceived, hlog, hm]
    rfl
  · rw [hm]
    show (0 : ℕ) < 2 ^ 64
    omega
  · rw [hreceived, hlog]
    exact ⟨0, List.nil_prefix, Nat.zero_le _⟩
  · rw [hlog]
    exact Nat.zero_le _
  · rw [hlog]
    rfl
  · rw [hlog]
    show [] = attribution _ [] ++ []
    rw [attribution_nil]
    rfl
  · rw [hm]
    exact .start rfl rfl

end Step

/-! ### Runs in which every request expects a response -/

section Answered

variable {ms : List Message} {w : World ρ} {a : Action ρ}

theorem World.log_apply (ha : a.isReset = false) :
  w.log <+: (w.apply a).log
  := by
  cases a with
  | add | remove | receive => exact List.prefix_refl _
  | cancelWaiting | prepareWrite | commitWrite | connLost => apply List.prefix_append
  | commitRead =>
      rw [World.apply]
      split
      · apply (List.prefix_append _ _).trans (List.prefix_append _ _)
      · apply List.prefix_append
  | reset => cases ha

/-- The entries of the queue were there before, or were added. -/
theorem World.entries_apply {x : ℕ × Request} (hx : x ∈ (w.apply a).mpx.entries) :
  x ∈ w.mpx.entries ∨ ∃ req adapter response, a = .add req adapter response ∧ x = (w.nextId, req)
  := by
  cases a with
  | add req adapter response =>
      obtain rfl | hx := List.mem_cons.mp ((Multiplexer.entries_add _).mem_iff.mp hx)
      · exact .inr ⟨req, adapter, response, rfl, rfl⟩
      · exact .inl hx
  | remove id => exact .inl ((Multiplexer.drops_remove id).subset hx)
  | cancelWaiting => exact .inl (Multiplexer.drops_cancelWaiting.subset hx)
  | prepareWrite =>
      rw [World.apply, World.after, Multiplexer.entries_prepareWrite] at hx
      exact .inl hx
  | commitWrite => exact .inl (Multiplexer.drops_commitWrite.subset hx)
  | receive | reset => exact .inl hx
  | commitRead =>
      left
      rw [World.apply] at hx
      split at hx
      · apply Multiplexer.entries_commitRead (Multiplexer.drops_cancelOnConnLost.subset hx)
      · apply Multiplexer.entries_commitRead hx
  | connLost => exact .inl (Multiplexer.drops_cancelOnConnLost.subset hx)

/-- Every request of the queue expects a response. -/
def AllAnswered (w : World ρ) : Prop :=
  ∀ x ∈ w.mpx.entries, 0 < x.2.expectedResponses

theorem Inv.not_overtaken {sent queued : List (Elem ρ)} {cur : List (Target × Node)}
    (h : Inv ms w sent queued cur) (hall : AllAnswered w) :
  ¬ Overtaken w.mpx
  := by
  rintro ⟨-, -, e, he, hwait, hzero, -⟩
  replace he : e ∈ w.mpx.reqs := List.mem_of_mem_head? he
  have hpos := hall e.entry (List.mem_map_of_mem he)
  rw [h.split.eq] at he
  obtain he | he := List.mem_append.mp he
  · exact absurd (h.sent_zero e he hzero) (Nat.ne_of_gt hpos)
  · rw [h.split.queued_waiting e he] at hwait
    cases hwait

/-- The actions on a connection that is not lost, with requests that expect a response. -/
def Action.Answered : Action ρ → Prop
  | .add req _ _ => 0 < req.expectedResponses
  | .connLost | .reset => False
  | _ => True

instance : DecidablePred (Action.Answered (ρ := ρ))
  | .add req _ _ => inferInstanceAs (Decidable (0 < req.expectedResponses))
  | .connLost | .reset => inferInstanceAs (Decidable False)
  | .remove _ | .cancelWaiting | .prepareWrite | .commitWrite | .receive _ | .commitRead =>
      inferInstanceAs (Decidable True)

/-- A step on such a connection, on which the server sends the messages `ms`. -/
def World.AnsweredStep (ms : List Message) (w : World ρ) (a : Action ρ) (w' : World ρ) : Prop :=
  World.Step (fun _ => ms) w a w' ∧ a.Answered

/-- Either an adapter has set an error, or the invariant holds and every request expects a
response. -/
theorem World.AnsweredStep.live {w' : World ρ} (hstep : World.AnsweredStep ms w a w')
    (h : (∃ ec, .rejected ec ∈ w.log) ∨ Live ms w ∧ AllAnswered w) :
  (∃ ec, .rejected ec ∈ w'.log) ∨ Live ms w' ∧ AllAnswered w'
  := by
  obtain ⟨⟨hallowed, rfl⟩, ha⟩ := hstep
  have hreset : a.isReset = false := by
    cases a <;> first | rfl | cases ha
  obtain ⟨ec, hmem⟩ | ⟨⟨sent, queued, cur, hinv⟩, hall⟩ := h
  · exact .inl ⟨ec, (World.log_apply hreset).subset hmem⟩
  obtain hlive | ⟨v, hv, -, hrej⟩ := hinv.step hallowed fun _ => hinv.not_overtaken hall
  · refine .inr ⟨hlive, ?_⟩
    intro x hx
    obtain hx | ⟨req, adapter, response, rfl, rfl⟩ := World.entries_apply hx
    · apply hall x hx
    · apply ha
  · left
    obtain ⟨ec, hmem⟩ := hrej (by cases hv with | connLost => cases ha | commitRead _ => rfl)
    refine ⟨ec, ?_⟩
    rw [hv.apply]
    apply List.mem_append_left _ hmem

/-- On a connection whose requests all expect a response, the replies are delivered to the
commands they answer and the pushes to the receive adapter, unless an adapter sets an error.  No
reply is ever taken for a push, so that every call of `commit_read` reads the next message. -/
theorem attributed_of_run {m : Multiplexer ρ} {nextId : ℕ} {as : List (Action ρ)}
    (hwait : ∀ e ∈ m.reqs, e.isWaiting = true)
    (huntouched : ∀ e ∈ m.reqs, e.remainingResponses = e.req.expectedResponses)
    (hall : ∀ e ∈ m.reqs, 0 < e.req.expectedResponses)
    (hrun : Run (World.AnsweredStep ms) (.connected m nextId) as w)
    (hrej : ∀ ec, .rejected ec ∉ w.log) :
  Attributed ms w ∧ w.up = true ∧ ¬ Overtaken w.mpx
  := by
  have hstart : Live ms (World.connected m nextId) :=
    ⟨_, _, _, inv_start rfl rfl rfl rfl hwait huntouched⟩
  have hanswered : AllAnswered (World.connected m nextId) := by
    intro x hx
    obtain ⟨e, he, rfl⟩ := List.mem_map.mp hx
    apply hall e he
  have hend := hrun.invariant (fun h hstep => hstep.live h) (.inr ⟨hstart, hanswered⟩)
  obtain ⟨ec, hmem⟩ | ⟨⟨sent, queued, cur, hinv⟩, hall⟩ := hend
  · exact absurd hmem (hrej ec)
  · exact ⟨hinv.attributed, hinv.up, hinv.not_overtaken hall⟩

/-- A reply. -/
def pong : Message where
  value := .simple .simpleString (ascii "PONG")
  wellFormed := by decide
  height_le := by decide
  length_lt := by decide

/-- A multiplexer without requests, for adapters that take everything. -/
def idle : Multiplexer Unit where
  receiveAdapter := accepting
  receiveResponse := ()

/-- A request with one command is answered in two parts, the first of them before the request
is written. -/
def pinging : List (Action Unit) :=
  [.add (Request.push {} (ascii "PING") []) (fun _ => accepting) (), .prepareWrite,
    .receive (ascii "+PO"), .commitRead, .commitWrite, .receive (ascii "NG\r\n"), .commitRead]

theorem attributed_of_run_ping :
  Attributed [pong] (pinging.foldl World.apply (.connected idle 0)) ∧
    (pinging.foldl World.apply (.connected idle 0)).up = true ∧
    ¬ Overtaken (pinging.foldl World.apply (.connected idle 0)).mpx
  := by
  have hfollows : Run.Follows World.apply
      (fun w a => w.Allowed (fun _ => [pong]) a ∧ a.Answered)
      (.connected idle 0) pinging := by
    decide
  apply attributed_of_run (m := idle) (by simp [idle]) (by simp [idle]) (by simp [idle])
    ((Run.of_follows hfollows).mono fun h => ⟨⟨h.1.1, h.2⟩, h.1.2⟩)
  intro ec hmem
  have hlog : (pinging.foldl World.apply (.connected idle 0)).log
      = [.staged 0 1, .fed 0 0 ⟨.simpleString, 1, 0, ascii "PONG"⟩, .notified 0 none,
        .finished false] := by
    decide
  rw [hlog] at hmem
  simp at hmem

end Answered

/-! ### Runs in which a request may expect no response -/

section Classified

variable {ms : List Message} {w : World ρ} {a : Action ρ} {x : Message}

/-- A step on one connection, on which the server sends the messages `ms`. -/
def World.ConnectedStep (ms : List Message) (w : World ρ) (a : Action ρ) (w' : World ρ) : Prop :=
  World.Step (fun _ => ms) w a w' ∧ a.isReset = false

/-- No reply is taken for a push. -/
def World.Classifies (w : World ρ) : Action ρ → Prop
  | .commitRead => ¬ Overtaken w.mpx
  | _ => True

instance (w : World ρ) : DecidablePred w.Classifies
  | .commitRead => inferInstanceAs (Decidable (¬ Overtaken w.mpx))
  | .add _ _ _ | .remove _ | .cancelWaiting | .prepareWrite | .commitWrite | .receive _ | .connLost
  | .reset => inferInstanceAs (Decidable True)

/-- A step on one connection with which no reply is taken for a push. -/
def World.ClassifiedStep (ms : List Message) (w : World ρ) (a : Action ρ) (w' : World ρ) : Prop :=
  World.ConnectedStep ms w a w' ∧ w.Classifies a

theorem World.up_apply (ha : a.isReset = false) (h : w.up = false) :
  (w.apply a).up = false
  := by
  cases a with
  | add | remove | receive | cancelWaiting | prepareWrite | commitWrite => exact h
  | connLost => rfl
  | commitRead =>
      rw [World.apply]
      split
      · rfl
      · exact h
  | reset => cases ha

theorem World.ClassifiedStep.live {w' : World ρ} (hstep : World.ClassifiedStep ms w a w')
    (h : w.up = false ∨ Live ms w) :
  w'.up = false ∨ Live ms w'
  := by
  obtain ⟨⟨⟨hallowed, rfl⟩, hreset⟩, hover⟩ := hstep
  obtain hdown | ⟨sent, queued, cur, hinv⟩ := h
  · exact .inl (World.up_apply hreset hdown)
  obtain hlive | ⟨v, hv, -, -⟩ := hinv.step hallowed fun ha => by subst ha; exact hover
  · exact .inr hlive
  · rw [hv.apply]
    exact .inl rfl

theorem pushed_not_commitResponse (m : Multiplexer ρ) (e : Elem ρ) (rest : List (Elem ρ))
    (nd : Node) :
  .pushed nd ∉ (m.commitResponse e rest).events
  := by
  obtain ⟨es, hevents, hreports⟩ := m.commitResponse_events e rest
  rw [hevents, List.mem_append]
  rintro (hfed | hreport)
  · simp at hfed
  · cases hreports _ hreport

/-- On a connection on which no reply is read while a request without responses is in its way,
no reply is given to the receive adapter. -/
theorem reply_not_pushed {m : Multiplexer ρ} {nextId : ℕ} {as : List (Action ρ)} {w' : World ρ}
    (hwait : ∀ e ∈ m.reqs, e.isWaiting = true)
    (huntouched : ∀ e ∈ m.reqs, e.remainingResponses = e.req.expectedResponses)
    (hrun : Run (World.ClassifiedStep ms) (.connected m nextId) as w)
    (hread : World.ClassifiedStep ms w .commitRead w')
    (hx : ms[finished w.log]? = some x) (hreply : x.isPush = false) (nd : Node) :
  .pushed nd ∉ w.mpx.commitRead.events
  := by
  have hstart : Live ms (World.connected m nextId) :=
    ⟨_, _, _, inv_start rfl rfl rfl rfl hwait huntouched⟩
  obtain ⟨⟨⟨⟨⟨hb, -⟩, hup⟩, -⟩, -⟩, hover⟩ := hread
  obtain hdown | ⟨sent, queued, cur, hinv⟩ := hrun.invariant (fun h hs => hs.live h) (.inr hstart)
  · rw [hup] at hdown
    cases hdown
  · obtain ⟨y, s, hy, hpre, howes⟩ := hinv.current hb
    obtain rfl := Option.some.inj (hx.symm.trans hy)
    obtain ⟨e, rest, -, -, hcommit, -⟩ :=
      hinv.commitRead_reply hb hx hpre hreply (howes hreply) hover
    rw [hcommit]
    apply pushed_not_commitResponse

/-- Two requests are added and staged, of which the first expects no response, and the reply to
the second one arrives. -/
def subscribing (rest : List (Action Unit)) : List (Action Unit) :=
  [.add (Request.push {} (ascii "SUBSCRIBE") [ascii "news"]) (fun _ => accepting) (),
    .add (Request.push {} (ascii "PING") []) (fun _ => accepting) (), .prepareWrite] ++ rest

theorem reply_not_pushed_ping :
  .pushed ⟨.simpleString, 1, 0, ascii "PONG"⟩ ∉
    ((subscribing [.commitWrite, .receive (ascii "+PONG\r\n")]).foldl World.apply
      (.connected idle 0)).mpx.commitRead.events
  := by
  have hfollows : Run.Follows World.apply
      (fun w a => (w.Allowed (fun _ => [pong]) a ∧ a.isReset = false) ∧ w.Classifies a)
      (.connected idle 0) (subscribing [.commitWrite, .receive (ascii "+PONG\r\n")]) := by
    decide
  apply reply_not_pushed (m := idle) (by simp [idle]) (by simp [idle])
    ((Run.of_follows hfollows).mono fun h => ⟨⟨⟨h.1.1.1, h.2⟩, h.1.1.2⟩, h.1.2⟩)
    ⟨⟨⟨by decide, rfl⟩, rfl⟩, by decide⟩ (x := pong) rfl rfl

/-- A reply that arrives while the request in front of its own is written is given to the receive
adapter. -/
theorem reply_not_pushed_fails :
  ¬ ∀ (ms : List Message) (m : Multiplexer Unit) (nextId : ℕ) (as : List (Action Unit))
    (w w' : World Unit) (x : Message) (nd : Node), (∀ e ∈ m.reqs, e.isWaiting = true) →
    (∀ e ∈ m.reqs, e.remainingResponses = e.req.expectedResponses) →
    Run (World.ConnectedStep ms) (.connected m nextId) as w →
    World.ConnectedStep ms w .commitRead w' → ms[finished w.log]? = some x → x.isPush = false →
    (∃ e ∈ w.mpx.reqs, e.isWaiting = false ∧ 0 < e.remainingResponses) →
    .pushed nd ∉ w.mpx.commitRead.events
  := by
  intro h
  have hfollows : Run.Follows World.apply
      (fun w a => w.Allowed (fun _ => [pong]) a ∧ a.isReset = false)
      (.connected idle 0) (subscribing [.receive (ascii "+PONG\r\n")]) := by
    decide
  have hrun : Run (World.ConnectedStep [pong]) _ _ _ :=
    (Run.of_follows hfollows).mono fun h => ⟨⟨h.1.1, h.2⟩, h.1.2⟩
  apply h [pong] idle 0 _ _ _ pong ⟨.simpleString, 1, 0, ascii "PONG"⟩ (by simp [idle])
    (by simp [idle]) hrun ⟨⟨by decide, rfl⟩, rfl⟩ rfl rfl (by decide)
  decide

end Classified

end Redis
