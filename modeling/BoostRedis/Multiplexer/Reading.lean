import BoostRedis.Multiplexer.Attribution

/-!
# Reading messages

A call of `commit_read` reads on in the current message of the stream.  A push goes to the
receive adapter, and a reply to the request at the front of the queue, if that waits for a
response.  A message that is finished makes way for the next one.
-/

namespace Redis

open Resp3

variable {ρ : Type}

/-! ### The current message -/

theorem encodeMessages_append (ms ms' : List Message) :
  encodeMessages (ms ++ ms') = encodeMessages ms ++ encodeMessages ms'
  := List.flatMap_append

theorem take_eq_append {ms : List Message} {n N : ℕ} {x : Message} (hx : ms[n]? = some x)
    (hN : n < N) :
  ∃ rest, ms.take N = ms.take n ++ x :: rest
  := by
  obtain ⟨hn, hget⟩ := List.getElem?_eq_some_iff.mp hx
  refine ⟨(ms.take N).drop (n + 1), ?_⟩
  have hlt : n < (ms.take N).length := by
    rw [List.length_take]
    omega
  calc
    ms.take N = (ms.take N).take n ++ (ms.take N).drop n := (List.take_append_drop n _).symm
    _ = ms.take n ++ x :: (ms.take N).drop (n + 1) := by
      rw [List.take_take, Nat.min_eq_left (by omega), List.drop_eq_getElem_cons hlt,
        List.getElem_take, hget]

theorem take_succ_of_get {ms : List Message} {n : ℕ} {x : Message} (hx : ms[n]? = some x) :
  ms.take (n + 1) = ms.take n ++ [x]
  := by
  rw [List.take_add_one, hx]
  rfl

/-- A byte in the buffer belongs to a message, and if that is a reply, some request waits for
it. -/
theorem Inv.current {ms : List Message} {w : World ρ} {sent queued : List (Elem ρ)}
    {cur : List (Target × Node)} (h : Inv ms w sent queued cur) (hb : w.mpx.readBuffer ≠ []) :
  ∃ x s, ms[finished w.log]? = some x ∧ w.mpx.readBuffer <+: x.encode ++ s ∧
    (x.isPush = false → sent.flatMap Elem.owes ≠ [])
  := by
  obtain ⟨N, hN, hle⟩ := h.sendable
  rw [h.received] at hN
  have hpos := List.length_pos_iff.mpr hb
  have hshort : ¬ ms.take N <+: ms.take (finished w.log) := by
    rintro ⟨rest, hrest⟩
    have hlen := hN.length_le
    rw [← hrest, encodeMessages_append, List.length_append, List.length_append] at hlen
    omega
  have hlt : finished w.log < N := by
    by_contra hge
    apply hshort
    apply List.take_prefix_take_left (by omega)
  cases hx : ms[finished w.log]? with
  | none =>
      have hall := List.getElem?_eq_none_iff.mp hx
      apply absurd _ hshort
      rw [List.take_of_length_le hall]
      apply List.take_prefix
  | some x =>
      obtain ⟨rest, hrest⟩ := take_eq_append hx hlt
      rw [hrest, encodeMessages_append, List.prefix_append_right_inj] at hN
      refine ⟨x, encodeMessages rest, rfl, hN, ?_⟩
      intro hreply hnone
      rw [← h.owed, List.drop_eq_nil_iff] at hnone
      rw [hrest, replies_append, replies_cons_reply hreply] at hle
      omega

theorem encode_head (v : Value) :
  ∃ t l, v.encode = toCode t :: l ∧ (toType (toCode t) = .push ↔ v.dataType = .push)
  := by
  have hiff : ∀ t : DataType, toType (toCode t) = .push ↔ t = .push := by
    intro t
    cases t <;> decide
  cases v with
  | simple t content => exact ⟨t, content ++ sep, rfl, hiff t⟩
  | bulk t blob =>
      exact ⟨t, _, by simp [Value.encode, addBlob, addHeader]; rfl, hiff t⟩
  | streamed parts =>
      exact ⟨.blobString, _, by simp [Value.encode, addSeparator]; rfl,
        by simp [Value.dataType, toType, toCode]⟩
  | aggregate t size elements =>
      exact ⟨t, _, by simp [Value.encode, addHeader]; rfl, hiff t⟩

/-- The first byte of a message tells whether it is a push. -/
theorem head_isPush {x : Message} {b s : Bytes} (hb : b ≠ []) (h : b <+: x.encode ++ s) :
  toType (b.headD 0) = .push ↔ x.isPush = true
  := by
  obtain ⟨t, l, hl, hiff⟩ := encode_head x.value
  obtain ⟨c, b, rfl⟩ := List.exists_cons_of_ne_nil hb
  rw [Message.encode, hl, List.cons_append, List.cons_prefix_cons] at h
  rw [List.headD_cons, h.1, hiff, Message.isPush, decide_eq_true_eq]

/-! ### The steps of the invariant -/

/-- A call of `commit_read` has read the message `x` to its end. -/
structure Ends (m : Multiplexer ρ) (x : Message) (e : Effect ρ ReadResult) : Prop where
  value : e.value = .message x.isPush x.encode.length
  whole : x.encode <+: m.readBuffer
  readBuffer : e.mpx.readBuffer = m.readBuffer.drop x.encode.length
  commands : Redis.commands e.events = []
  finished : Redis.finished e.events = 1

section Steps

variable {ms : List Message} {w w' : World ρ} {sent sent' queued : List (Elem ρ)}
  {cur : List (Target × Node)} {x : Message} {target : Target} {nds nds' : List Node}
  {es : List Event}

/-- The nodes of the current message belong to the target. -/
def Aims (ms : List Message) (w : World ρ) (x : Message) (target : Target) : Prop :=
  attribution ((commands w.log).drop (replies (ms.take (finished w.log)))) [x]
    = x.nodes.map (target, ·)

theorem aims_push (hx : x.isPush = true) :
  Aims ms w x .receiver
  := by
  rw [Aims, attribution_push hx, attribution_nil, List.append_nil]

theorem Inv.aims_reply {e : Elem ρ} {rest : List (Elem ρ)} (h : Inv ms w (e :: rest) queued cur)
    (hx : x.isPush = false) (hrem : e.remainingResponses ≠ 0) :
  Aims ms w x (.request e.id e.index)
  := by
  rw [Aims, h.owed, List.flatMap_cons, owes_succ (h.sent_le e List.mem_cons_self) hrem 0,
    List.cons_append, attribution_reply hx, attribution_nil, List.append_nil]

theorem attribution_take (cmds : List (ℕ × ℕ)) :
  ∀ ms ms' : List Message, attribution cmds ms <+: attribution cmds (ms ++ ms')
  | [], ms' => by
      rw [attribution_nil]
      apply List.nil_prefix
  | m :: ms, ms' => by
      rw [List.cons_append]
      cases hm : m.isPush with
      | true =>
          rw [attribution_push hm, attribution_push hm, List.prefix_append_right_inj]
          apply attribution_take
      | false =>
          obtain _ | ⟨⟨id, i⟩, cmds⟩ := cmds
          · simp [attribution, hm]
          · rw [attribution_reply hm, attribution_reply hm, List.prefix_append_right_inj]
            apply attribution_take

/-- What is delivered, up to some nodes of the current message, is part of the attribution of
all messages. -/
theorem attribution_part (hx : ms[finished w.log]? = some x)
    (hans : replies (ms.take (finished w.log)) ≤ (commands w.log).length)
    (haims : Aims ms w x target) (hnds : nds <+: x.nodes) :
  attribution (commands w.log) (ms.take (finished w.log)) ++ nds.map (target, ·)
    <+: attribution (commands w.log) ms
  := by
  have hnext : attribution (commands w.log) (ms.take (finished w.log + 1))
      = attribution (commands w.log) (ms.take (finished w.log)) ++ x.nodes.map (target, ·) := by
    rw [take_succ_of_get hx, attribution_append hans, haims]
  have hall := attribution_take (commands w.log) (ms.take (finished w.log + 1))
    (ms.drop (finished w.log + 1))
  rw [List.take_append_drop, hnext] at hall
  apply List.IsPrefix.trans _ hall
  rw [List.prefix_append_right_inj]
  apply hnds.map

/-- More nodes of the current message are delivered. -/
theorem Inv.proceed (h : Inv ms w sent queued cur) (hcur : cur = nds.map (target, ·))
    (hup : w'.up = w.up) (hcancel : w'.mpx.cancelRunCalled = w.mpx.cancelRunCalled)
    (hrec : w'.received = w.received) (hbuf : w'.mpx.readBuffer = w.mpx.readBuffer)
    (hlog : w'.log = w.log ++ es) (hcmds : commands es = []) (hfin : finished es = 0)
    (hdel : deliveries es = nds'.map (target, ·)) (hsplit : Split w'.mpx.reqs sent' queued)
    (hsent : ∀ e ∈ sent', e.remainingResponses ≤ e.req.expectedResponses ∧
      (e.remainingResponses = 0 → e.req.expectedResponses = 0))
    (howes : sent'.flatMap Elem.owes = sent.flatMap Elem.owes)
    (hprogress : Progress w'.mpx sent' ms[finished w.log]? ((nds ++ nds').map (target, ·))) :
  Inv ms w' sent' queued ((nds ++ nds').map (target, ·))
  := by
  have hfinished : finished w'.log = finished w.log := by
    rw [hlog, finished_append, hfin, Nat.add_zero]
  have hcommands : commands w'.log = commands w.log := by
    rw [hlog, commands_append, hcmds, List.append_nil]
  refine ⟨hup.trans h.up, hcancel.trans h.cancelRunCalled, hsplit, h.queued_untouched,
    fun e he => (hsent e he).1, fun e he => (hsent e he).2, ?_, ?_, ?_, ?_, ?_, ?_, ?_⟩
  · rw [hrec, hfinished, hbuf, h.received]
  · rw [hbuf]
    apply h.buffer_lt
  · rw [hrec, hlog]
    apply h.sendable.append
  · rw [hfinished, hcommands]
    apply h.answered
  · rw [hfinished, hcommands, h.owed, howes]
  · rw [hfinished, hcommands, hlog, deliveries_append, h.delivered, hdel, hcur, List.map_append,
      List.append_assoc]
  · rw [hfinished]
    apply hprogress

/-- The current message is finished. -/
theorem Inv.finish {eff : Effect ρ ReadResult} (h : Inv ms w sent queued cur)
    (hx : ms[finished w.log]? = some x) (hcur : cur = nds.map (target, ·))
    (haims : Aims ms w x target) (hnodes : nds ++ nds' = x.nodes) (hends : Ends w.mpx x eff)
    (hcancel : eff.mpx.cancelRunCalled = w.mpx.cancelRunCalled)
    (hpush : eff.mpx.onPush = false) (hparser : eff.mpx.parser = .fresh)
    (hdel : deliveries eff.events = nds'.map (target, ·)) (hsplit : Split eff.mpx.reqs sent' queued)
    (hsent : ∀ e ∈ sent', e.remainingResponses ≤ e.req.expectedResponses ∧
      (e.remainingResponses = 0 → e.req.expectedResponses = 0))
    (hans : replies (ms.take (finished w.log)) + replies [x] ≤ (commands w.log).length)
    (howed : (sent.flatMap Elem.owes).drop (replies [x]) = sent'.flatMap Elem.owes) :
  Inv ms (w.after eff) sent' queued []
  := by
  have hlog : (w.after eff).log = w.log ++ eff.events := rfl
  have hfinished : finished (w.after eff).log = finished w.log + 1 := by
    rw [hlog, finished_append, hends.finished]
  have hcommands : commands (w.after eff).log = commands w.log := by
    rw [hlog, commands_append, hends.commands, List.append_nil]
  have hreplies : replies (ms.take (finished w.log + 1))
      = replies (ms.take (finished w.log)) + replies [x] := by
    rw [take_succ_of_get hx, replies_append]
  have hbuf : (w.after eff).mpx.readBuffer = w.mpx.readBuffer.drop x.encode.length :=
    hends.readBuffer
  refine ⟨h.up, hcancel.trans h.cancelRunCalled, hsplit, h.queued_untouched,
    fun e he => (hsent e he).1, fun e he => (hsent e he).2, ?_, ?_, ?_, ?_, ?_, ?_,
    .start hpush hparser⟩
  · obtain ⟨u, hu⟩ := hends.whole
    show w.received = _
    rw [hfinished, hbuf, h.received, ← hu, List.drop_left, take_succ_of_get hx,
      encodeMessages_append, List.append_assoc]
    simp [encodeMessages]
  · have hlt := h.buffer_lt
    rw [hbuf, List.length_drop]
    omega
  · rw [hlog]
    apply h.sendable.append
  · rw [hfinished, hcommands, hreplies]
    apply hans
  · rw [hfinished, hcommands, hreplies, ← List.drop_drop, h.owed, howed]
  · rw [hfinished, hcommands, hlog, deliveries_append, h.delivered, hdel, hcur,
      take_succ_of_get hx, attribution_append h.answered, haims, ← hnodes, List.map_append,
      List.append_assoc, List.append_nil]

end Steps

/-! ### Classification -/

/-- A reply would be taken for a push: it is about to be read while the front of the queue was
sent and waits for no response, as a request that expects none, and another request that was
sent waits for one. -/
def Overtaken (m : Multiplexer ρ) : Prop :=
  m.onPush = false ∧ toType (m.readBuffer.headD 0) ≠ .push ∧
    ∃ e ∈ m.reqs.head?, e.isWaiting = false ∧ e.remainingResponses = 0 ∧
      ∃ e' ∈ m.reqs, e'.isWaiting = false ∧ e'.remainingResponses ≠ 0

instance (m : Multiplexer ρ) : Decidable (Overtaken m) :=
  inferInstanceAs (Decidable (_ ∧ _ ∧ ∃ e ∈ m.reqs.head?, _))

section Classification

variable {ms : List Message} {w : World ρ} {sent queued : List (Elem ρ)}
  {cur : List (Target × Node)} {x : Message} {s : Bytes}

/-- Some nodes have been given to an adapter, by calls of `parse` on a part of the buffer. -/
def Suspended (m : Multiplexer ρ) (adapter : Adapter ρ) (response : ρ) (nds : List Node) : Prop :=
  ∃ v c t, m.readBuffer = v ++ c ∧
    parse .fresh v adapter t = ⟨m.parser, response, nds, .needsMore⟩

theorem suspended_fresh {m : Multiplexer ρ} (h : m.parser = .fresh) (adapter : Adapter ρ)
    (response : ρ) :
  Suspended m adapter response []
  := by
  refine ⟨[], m.readBuffer, response, rfl, ?_⟩
  rw [h]
  apply parse_of_needsMore rfl rfl

/-- A push is given to the receive adapter. -/
theorem Inv.commitRead_push (h : Inv ms w sent queued cur) (hb : w.mpx.readBuffer ≠ [])
    (hx : ms[finished w.log]? = some x) (hpre : w.mpx.readBuffer <+: x.encode ++ s)
    (hpush : x.isPush = true) :
  w.mpx.commitRead = w.mpx.commitPush ∧
    ∃ nds, cur = nds.map (Target.receiver, ·) ∧
      Suspended w.mpx w.mpx.receiveAdapter w.mpx.receiveResponse nds
  := by
  have hnext : w.mpx.isNextPush = true := by
    rw [Multiplexer.isNextPush, decide_eq_true ((head_isPush hb hpre).mpr hpush), Bool.true_or]
  refine ⟨by rw [Multiplexer.commitRead, hnext, Bool.or_true, if_pos rfl], ?_⟩
  cases h.progress with
  | start _ hparser => exact ⟨[], rfl, suspended_fresh hparser _ _⟩
  | push _ _ _ hv hparse =>
      obtain ⟨c, hc⟩ := hv
      exact ⟨_, rfl, _, c, _, hc.symm, hparse⟩
  | reply _ hmsg hreply _ _ _ _ =>
      rw [hx] at hmsg
      obtain rfl := Option.some.inj hmsg
      rw [hpush] at hreply
      cases hreply

/-- A reply is given to the request at the front of the queue. -/
theorem Inv.commitRead_reply (h : Inv ms w sent queued cur) (hb : w.mpx.readBuffer ≠ [])
    (hx : ms[finished w.log]? = some x) (hpre : w.mpx.readBuffer <+: x.encode ++ s)
    (hreply : x.isPush = false) (howes : sent.flatMap Elem.owes ≠ [])
    (hover : ¬ Overtaken w.mpx) :
  ∃ e rest, sent = e :: rest ∧ e.remainingResponses ≠ 0 ∧
    w.mpx.commitRead = w.mpx.commitResponse e (rest ++ queued) ∧
    ∃ nds, cur = nds.map (Target.request e.id e.index, ·) ∧
      Suspended w.mpx e.getAdapter e.response nds
  := by
  have hhead : toType (w.mpx.readBuffer.headD 0) ≠ .push := by
    intro hp
    rw [(head_isPush hb hpre).mp hp] at hreply
    cases hreply
  have hread : ∀ {e rest}, sent = e :: rest → e.remainingResponses ≠ 0 → w.mpx.onPush = false →
      w.mpx.commitRead = w.mpx.commitResponse e (rest ++ queued) := by
    rintro e rest rfl hrem hpush
    have hreqs : w.mpx.reqs = e :: (rest ++ queued) := h.split.eq
    have hwait := h.split.sent_waiting e List.mem_cons_self
    have hnext : w.mpx.isNextPush = false := by
      rw [Multiplexer.isNextPush, decide_eq_false hhead, hreqs]
      simp [hrem, hwait]
    rw [Multiplexer.commitRead, hpush, hnext, hreqs]
    rfl
  cases h.progress with
  | start hpush hparser =>
      obtain _ | ⟨e, rest⟩ := sent
      · exact absurd rfl howes
      have hrem : e.remainingResponses ≠ 0 := by
        intro hzero
        rw [List.flatMap_cons, owes_of_zero hzero, List.nil_append] at howes
        obtain ⟨e', he', howes'⟩ : ∃ e' ∈ rest, e'.owes ≠ [] := by
          by_contra hnone
          apply howes
          rw [List.flatMap_eq_nil_iff]
          intro e' he'
          by_contra hne
          exact hnone ⟨e', he', hne⟩
        have hreqs : w.mpx.reqs = e :: (rest ++ queued) := h.split.eq
        apply hover
        refine ⟨hpush, hhead, e, ?_, h.split.sent_waiting e List.mem_cons_self, hzero, e', ?_,
          h.split.sent_waiting e' (List.mem_cons_of_mem e he'), ?_⟩
        · rw [hreqs]
          rfl
        · rw [hreqs]
          apply List.mem_cons_of_mem e (List.mem_append_left queued he')
        · intro hzero'
          exact howes' (owes_of_zero hzero')
      exact ⟨e, rest, rfl, hrem, hread rfl hrem hpush, [], rfl, suspended_fresh hparser _ _⟩
  | push _ hmsg hpush _ _ =>
      rw [hx] at hmsg
      obtain rfl := Option.some.inj hmsg
      rw [hreply] at hpush
      cases hpush
  | reply hpush _ _ hsent hrem hv hparse =>
      obtain ⟨c, hc⟩ := hv
      exact ⟨_, _, hsent, hrem, hread hsent hrem hpush, _, rfl, _, c, _, hc.symm, hparse⟩

/-- Reading on in a message that was begun. -/
theorem Suspended.parse {m : Multiplexer ρ} {adapter : Adapter ρ} {response : ρ} {nds : List Node}
    (h : Suspended m adapter response nds) (hpre : m.readBuffer <+: x.encode ++ s)
    (hlt : m.readBuffer.length < 2 ^ 64) :
  ∃ t, Resp3.parse .fresh m.readBuffer adapter t
      = (Resp3.parse m.parser m.readBuffer adapter response).prepend nds ∧
    PartOf x m.readBuffer ((Resp3.parse m.parser m.readBuffer adapter response).prepend nds)
  := by
  obtain ⟨v, c, t, hbuf, hparse⟩ := h
  rw [hbuf] at hpre hlt ⊢
  exact ⟨t, parse_part_resumed hpre hlt adapter t hparse rfl⟩

end Classification

/-! ### The outcome of `commit_read` -/

/-- Two entries agree in what decides whether they are kept when the connection is lost, and in
the responses they wait for. -/
structure SameCount (e e' : Elem ρ) : Prop where
  req : e'.req = e.req
  status : e'.status = e.status
  remainingResponses : e'.remainingResponses = e.remainingResponses

/-- What a call of `commit_read` leads to when the message `x` is read: the message goes on, it
is finished, or the adapter has set an error. -/
inductive ReadOutcome (ms : List Message) (w : World ρ) (queued : List (Elem ρ)) (x : Message) :
    Prop where
  | proceeds {sent' : List (Elem ρ)} {cur' : List (Target × Node)} :
      w.mpx.commitRead.value = .needsMore → ¬ x.encode <+: w.mpx.readBuffer →
      finished w.mpx.commitRead.events = 0 →
      Inv ms (w.after w.mpx.commitRead) sent' queued cur' → ReadOutcome ms w queued x
  | finishes {sent' : List (Elem ρ)} : Ends w.mpx x w.mpx.commitRead →
      Inv ms (w.after w.mpx.commitRead) sent' queued [] → ReadOutcome ms w queued x
  | rejected {isPush : Bool} {ec : ErrorCode} :
      w.mpx.commitRead.value = .error isPush ec → .rejected ec ∈ w.mpx.commitRead.events →
      deliveries (w.after w.mpx.commitRead).log
        <+: attribution (commands (w.after w.mpx.commitRead).log) ms →
      (∀ e' ∈ w.mpx.commitRead.mpx.reqs, ∃ e ∈ w.mpx.reqs, SameCount e e') →
      w.mpx.commitRead.mpx.cancelRunCalled = w.mpx.cancelRunCalled → ReadOutcome ms w queued x

section Outcome

variable {ms : List Message} {w : World ρ} {sent queued : List (Elem ρ)}
  {cur : List (Target × Node)} {x : Message} {s : Bytes}

/-- What is delivered with some more nodes of the current message belongs to its target. -/
theorem Inv.delivered_more {target : Target} {nds nds' : List Node} {es : List Event}
    (h : Inv ms w sent queued cur) (hx : ms[finished w.log]? = some x)
    (hcur : cur = nds.map (target, ·)) (haims : Aims ms w x target) (hn : nds ++ nds' <+: x.nodes)
    (hcmds : commands es = []) (hdel : deliveries es = nds'.map (target, ·)) :
  deliveries (w.log ++ es) <+: attribution (commands (w.log ++ es)) ms
  := by
  rw [commands_append, deliveries_append, hcmds, hdel, List.append_nil, h.delivered, hcur,
    List.append_assoc, ← List.map_append]
  apply attribution_part hx h.answered haims hn

theorem Inv.outcome_push (h : Inv ms w sent queued cur) (hb : w.mpx.readBuffer ≠ [])
    (hx : ms[finished w.log]? = some x) (hpre : w.mpx.readBuffer <+: x.encode ++ s)
    (hpush : x.isPush = true) :
  ReadOutcome ms w queued x
  := by
  obtain ⟨hread, nds, hcur, hsusp⟩ := h.commitRead_push hb hx hpre hpush
  obtain ⟨t, hparse, hpart⟩ := hsusp.parse hpre h.buffer_lt
  have haims : Aims ms w x .receiver := aims_push hpush
  generalize hr : parse w.mpx.parser w.mpx.readBuffer w.mpx.receiveAdapter w.mpx.receiveResponse = r
    at hparse hpart
  obtain ⟨hcmds, hfin, hdel⟩ := commands_pushed r.nodes
  cases hpart with
  | done hs hn hc hw =>
      replace hc : r.parser.consumed = x.encode.length := hc
      have heff := hread.trans (Multiplexer.commitPush_of_done hr hs)
      have hends : Ends w.mpx x w.mpx.commitRead := by
        rw [heff]
        refine ⟨by rw [hc, hpush], hw, ?_, by simp [hcmds, commands], by simp [hfin, finished]⟩
        rw [← hc]
        rfl
      apply ReadOutcome.finishes hends
      rw [heff] at hends ⊢
      refine h.finish hx hcur haims hn hends rfl rfl rfl ?_ h.split h.sent_both ?_ ?_
      · simp [hdel, deliveries]
      · rw [replies_cons_push hpush]
        apply h.answered
      · rw [replies_cons_push hpush]
        rfl
  | needsMore hs hn hw =>
      have heff := hread.trans (Multiplexer.commitPush_of_needsMore hr hs)
      apply ReadOutcome.proceeds (by rw [heff]) hw (by rw [heff]; exact hfin)
      rw [heff]
      refine h.proceed hcur rfl rfl rfl rfl rfl hcmds hfin hdel h.split h.sent_both rfl ?_
      refine .push rfl hx hpush (List.prefix_refl _) (t := t) ?_
      show parse .fresh w.mpx.readBuffer w.mpx.receiveAdapter t
        = ⟨r.parser, r.state, nds ++ r.nodes, .needsMore⟩
      rw [hparse, Parsed.prepend, show r.status = .needsMore from hs]
  | rejected hs hn =>
      have heff := hread.trans (Multiplexer.commitPush_of_rejected hr hs)
      have hsame : ∀ e ∈ w.mpx.commitRead.mpx.reqs, ∃ e' ∈ w.mpx.reqs, SameCount e' e := by
        rw [heff]
        intro e he
        exact ⟨e, he, rfl, rfl, rfl⟩
      refine .rejected (by rw [heff]) (by simp [heff]) ?_ hsame (by rw [heff])
      rw [heff]
      apply h.delivered_more hx hcur haims hn
      · simp [hcmds, commands]
      · simp [hdel, deliveries]

/-- The entries that were sent, with another one at the front. -/
theorem Split.front {reqs rest : List (Elem ρ)} {e e' : Elem ρ}
    (h : Split reqs (e :: rest) queued) (hw : e'.isWaiting = e.isWaiting) :
  Split (e' :: (rest ++ queued)) (e' :: rest) queued
  := by
  refine ⟨rfl, ?_, h.queued_waiting⟩
  intro x hx
  obtain rfl | hx := List.mem_cons.mp hx
  · rw [hw]
    apply h.sent_waiting e List.mem_cons_self
  · apply h.sent_waiting x (List.mem_cons_of_mem e hx)

theorem Split.pop {reqs rest : List (Elem ρ)} {e : Elem ρ} (h : Split reqs (e :: rest) queued) :
  Split (rest ++ queued) rest queued
  := ⟨rfl, fun x hx => h.sent_waiting x (List.mem_cons_of_mem e hx), h.queued_waiting⟩

/-- A reply that is read has its command among those that were staged. -/
theorem Inv.answered_reply {e : Elem ρ} {rest : List (Elem ρ)} (h : Inv ms w (e :: rest) queued cur)
    (hreply : x.isPush = false) (hrem : e.remainingResponses ≠ 0) :
  replies (ms.take (finished w.log)) + replies [x] ≤ (commands w.log).length
  := by
  have hlen := congrArg List.length h.owed
  rw [List.length_drop, List.flatMap_cons, owes_succ (h.sent_le e List.mem_cons_self) hrem 0,
    List.cons_append, List.length_cons] at hlen
  rw [replies_cons_reply hreply]
  simp only [replies, List.countP_nil]
  rw [replies] at hlen
  omega

/-- The response at the front is complete. -/
theorem Inv.outcome_response {e : Elem ρ} {rest : List (Elem ρ)} {nds : List Node} {r : Parsed ρ}
    (h : Inv ms w (e :: rest) queued cur) (hx : ms[finished w.log]? = some x)
    (hreply : x.isPush = false) (hrem : e.remainingResponses ≠ 0)
    (hread : w.mpx.commitRead = w.mpx.commitResponse e (rest ++ queued))
    (hcur : cur = nds.map (Target.request e.id e.index, ·))
    (hr : parse w.mpx.parser w.mpx.readBuffer e.getAdapter e.response = r)
    (hs : r.status = .done) (hn : nds ++ r.nodes = x.nodes)
    (hc : r.parser.consumed = x.encode.length) (hw : x.encode <+: w.mpx.readBuffer) :
  ReadOutcome ms w queued x
  := by
  have hle := h.sent_le e List.mem_cons_self
  have haims := h.aims_reply hreply hrem
  obtain ⟨hcmds, hfin, hdel⟩ := commands_fed e.id e.index r.nodes
  have howes : ∀ size, e.owes = (e.id, e.index) :: (e.commitResponse size).owes := owes_succ hle hrem
  have hans := h.answered_reply hreply hrem
  have hone : replies [x] = 1 := by
    rw [replies_cons_reply hreply]
    rfl
  generalize he' : Elem.commitResponse { e with response := r.state } r.parser.consumed = e'
  have howes' : e'.owes = (e.commitResponse 0).owes := by
    rw [← he']
    rfl
  have heff := hread.trans (Multiplexer.commitResponse_of_done hr hs he')
  by_cases hzero : e'.remainingResponses = 0
  · rw [if_pos hzero] at heff
    have hends : Ends w.mpx x w.mpx.commitRead := by
      rw [heff]
      refine ⟨by rw [hc, hreply], hw, ?_, by simp [hcmds, commands, Elem.notifyDone],
        by simp [hfin, finished, Elem.notifyDone]⟩
      rw [← hc]
      rfl
    apply ReadOutcome.finishes hends
    rw [heff] at hends ⊢
    refine h.finish hx hcur haims hn hends rfl rfl rfl ?_ h.split.pop
      (fun y hy => h.sent_both y (List.mem_cons_of_mem e hy)) hans ?_
    · simp [hdel, deliveries, Elem.notifyDone]
    · rw [hone, List.flatMap_cons, howes 0, ← howes', owes_of_zero hzero]
      rfl
  · rw [if_neg hzero] at heff
    have hends : Ends w.mpx x w.mpx.commitRead := by
      rw [heff]
      refine ⟨by rw [hc, hreply], hw, ?_, by simp [hcmds, commands], by simp [hfin, finished]⟩
      rw [← hc]
      rfl
    apply ReadOutcome.finishes hends
    rw [heff] at hends ⊢
    have hwait : e'.isWaiting = e.isWaiting := by
      rw [← he']
      rfl
    refine h.finish hx hcur haims hn hends rfl rfl rfl ?_ (h.split.front hwait) ?_ hans ?_
    · simp [hdel, deliveries]
    · intro y hy
      obtain rfl | hy := List.mem_cons.mp hy
      · refine ⟨?_, fun hz => absurd hz hzero⟩
        rw [← he']
        simp only [Elem.commitResponse]
        omega
      · apply h.sent_both y (List.mem_cons_of_mem e hy)
    · rw [hone, List.flatMap_cons, howes 0, ← howes', List.flatMap_cons]
      rfl

theorem Inv.outcome_reply (h : Inv ms w sent queued cur) (hb : w.mpx.readBuffer ≠ [])
    (hx : ms[finished w.log]? = some x) (hpre : w.mpx.readBuffer <+: x.encode ++ s)
    (hreply : x.isPush = false) (howes : sent.flatMap Elem.owes ≠ [])
    (hover : ¬ Overtaken w.mpx) :
  ReadOutcome ms w queued x
  := by
  obtain ⟨e, rest, rfl, hrem, hread, nds, hcur, hsusp⟩ :=
    h.commitRead_reply hb hx hpre hreply howes hover
  obtain ⟨t, hparse, hpart⟩ := hsusp.parse hpre h.buffer_lt
  have haims := h.aims_reply hreply hrem
  generalize hr : parse w.mpx.parser w.mpx.readBuffer e.getAdapter e.response = r at hparse hpart
  obtain ⟨hcmds, hfin, hdel⟩ := commands_fed e.id e.index r.nodes
  cases hpart with
  | done hs hn hc hw => apply h.outcome_response hx hreply hrem hread hcur hr hs hn hc hw
  | needsMore hs hn hw =>
      have heff := hread.trans (Multiplexer.commitResponse_of_needsMore hr hs)
      apply ReadOutcome.proceeds (by rw [heff]) hw (by rw [heff]; exact hfin)
      rw [heff]
      refine h.proceed hcur rfl rfl rfl rfl rfl hcmds hfin hdel (h.split.front rfl) ?_ rfl ?_
      · intro y hy
        obtain rfl | hy := List.mem_cons.mp hy
        · apply h.sent_both e List.mem_cons_self
        · apply h.sent_both y (List.mem_cons_of_mem e hy)
      · refine .reply (e := { e with response := r.state }) rfl hx hreply rfl hrem
          (List.prefix_refl _) (t := t) ?_
        show parse .fresh w.mpx.readBuffer e.getAdapter t
          = ⟨r.parser, r.state, nds ++ r.nodes, .needsMore⟩
        rw [hparse, Parsed.prepend, show r.status = .needsMore from hs]
  | rejected hs hn =>
      have heff := hread.trans (Multiplexer.commitResponse_of_rejected hr hs rfl)
      refine .rejected (by rw [heff]) (by simp [heff]) ?_ ?_ (by rw [heff])
      · rw [heff]
        apply h.delivered_more hx hcur haims hn
        · simp [hcmds, commands, Elem.notifyDone]
        · simp [hdel, deliveries, Elem.notifyDone]
      · rw [heff, h.split.eq]
        intro e' he'
        obtain rfl | he' := List.mem_cons.mp he'
        · exact ⟨e, List.mem_cons_self, rfl, rfl, rfl⟩
        · exact ⟨e', List.mem_cons_of_mem e he', rfl, rfl, rfl⟩

/-- A call of `commit_read` that does not take a reply for a push. -/
theorem Inv.outcome (h : Inv ms w sent queued cur) (hb : w.mpx.readBuffer ≠ [])
    (hover : ¬ Overtaken w.mpx) :
  ∃ x, ms[finished w.log]? = some x ∧ ReadOutcome ms w queued x
  := by
  obtain ⟨x, s, hx, hpre, howes⟩ := h.current hb
  refine ⟨x, hx, ?_⟩
  cases hpush : x.isPush with
  | true => apply h.outcome_push hb hx hpre hpush
  | false => apply h.outcome_reply hb hx hpre hpush (howes hpush) hover

end Outcome

end Redis
