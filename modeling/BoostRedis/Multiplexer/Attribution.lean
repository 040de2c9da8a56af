import BoostRedis.Multiplexer.Connection
import BoostRedis.Multiplexer.Queue

/-!
# In-order attribution of responses

While a connection is up, the commands that were staged and not answered are those that the
requests at the front of the queue still wait for, in order.  With the server answering the
commands in order, the front of the queue is therefore the request that the next reply belongs
to, unless it expects no response at all and is still being written.  Hence the nodes delivered
are those of the messages received, each given to its own target.
-/

namespace Redis

open Resp3

variable {ρ : Type}

/-- The commands whose responses an entry still waits for. -/
def Elem.owes (e : Elem ρ) : List (ℕ × ℕ) :=
  (List.range' e.index e.remainingResponses).map (e.id, ·)

theorem SameElem.owes {e e' : Elem ρ} (h : SameElem e e') :
  e'.owes = e.owes
  := by
  rw [Elem.owes, Elem.owes, h.index, h.remainingResponses, h.id]

theorem owes_of_untouched {e : Elem ρ} (h : e.remainingResponses = e.req.expectedResponses) :
  e.owes = (List.range e.req.expectedResponses).map (e.id, ·)
  := by
  rw [Elem.owes, Elem.index, h, Nat.sub_self, List.range_eq_range']

theorem owes_of_zero {e : Elem ρ} (h : e.remainingResponses = 0) :
  e.owes = []
  := by
  rw [Elem.owes, h]
  rfl

theorem owes_succ {e : Elem ρ} (hle : e.remainingResponses ≤ e.req.expectedResponses)
    (h : e.remainingResponses ≠ 0) (size : ℕ) :
  e.owes = (e.id, e.index) :: (e.commitResponse size).owes
  := by
  obtain ⟨n, hn⟩ := Nat.exists_eq_succ_of_ne_zero h
  have hindex : (e.commitResponse size).index = e.index + 1 := by
    simp only [Elem.index, Elem.commitResponse]
    omega
  rw [Elem.owes, Elem.owes, hindex, hn, List.range'_succ, List.map_cons]
  simp [Elem.commitResponse, hn]

/-! ### The invariant -/

/-- The nodes of the current message that were delivered.  A message that was begun is read on
by the same adapter, from where the parser has stopped. -/
inductive Progress (m : Multiplexer ρ) (sent : List (Elem ρ)) (msg : Option Message) :
    List (Target × Node) → Prop where
  | start : m.onPush = false → m.parser = .fresh → Progress m sent msg []
  | push {x : Message} {v : Bytes} {t : ρ} {nds : List Node} :
      m.onPush = true → msg = some x → x.isPush = true → v <+: m.readBuffer →
      parse .fresh v m.receiveAdapter t = ⟨m.parser, m.receiveResponse, nds, .needsMore⟩ →
      Progress m sent msg (nds.map (Target.receiver, ·))
  | reply {x : Message} {e : Elem ρ} {rest : List (Elem ρ)} {v : Bytes} {t : ρ}
      {nds : List Node} :
      m.onPush = false → msg = some x → x.isPush = false → sent = e :: rest →
      e.remainingResponses ≠ 0 → v <+: m.readBuffer →
      parse .fresh v e.getAdapter t = ⟨m.parser, e.response, nds, .needsMore⟩ →
      Progress m sent msg (nds.map (Target.request e.id e.index, ·))

/-- What holds while a connection is up, on which the server sends the messages `ms`. -/
structure Inv (ms : List Message) (w : World ρ) (sent queued : List (Elem ρ))
    (cur : List (Target × Node)) : Prop where
  up : w.up = true
  cancelRunCalled : w.mpx.cancelRunCalled = false
  split : Split w.mpx.reqs sent queued
  queued_untouched : ∀ e ∈ queued, e.remainingResponses = e.req.expectedResponses
  sent_le : ∀ e ∈ sent, e.remainingResponses ≤ e.req.expectedResponses
  sent_zero : ∀ e ∈ sent, e.remainingResponses = 0 → e.req.expectedResponses = 0
  received : w.received = encodeMessages (ms.take (finished w.log)) ++ w.mpx.readBuffer
  buffer_lt : w.mpx.readBuffer.length < 2 ^ 64
  sendable : World.Sendable ms w.log w.received
  answered : replies (ms.take (finished w.log)) ≤ (commands w.log).length
  owed : (commands w.log).drop (replies (ms.take (finished w.log))) = sent.flatMap Elem.owes
  delivered : deliveries w.log = attribution (commands w.log) (ms.take (finished w.log)) ++ cur
  progress : Progress w.mpx sent ms[finished w.log]? cur

/-- The entry at the front, if it waits for a response, is still there. -/
def SameFront (sent sent' : List (Elem ρ)) : Prop :=
  ∀ e rest, sent = e :: rest → e.remainingResponses ≠ 0 → ∃ e' rest', sent' = e' :: rest' ∧ SameElem e e'

theorem Progress.requeue {m m' : Multiplexer ρ} {sent sent' : List (Elem ρ)} {msg : Option Message}
    {cur : List (Target × Node)} (h : Progress m sent msg cur) (hsame : SameReading m m')
    (hfront : SameFront sent sent') :
  Progress m' sent' msg cur
  := by
  cases h with
  | start hpush hparser => exact .start (hsame.onPush.trans hpush) (hsame.parser.trans hparser)
  | @push x v t nds hpush hmsg hx hv hparse =>
      refine .push (hsame.onPush.trans hpush) hmsg hx (v := v) (t := t) ?_ ?_
      · rw [hsame.readBuffer]
        apply hv
      · rw [hsame.receiveAdapter, hparse, hsame.parser, hsame.receiveResponse]
  | @reply x e rest v t nds hpush hmsg hx hsent hrem hv hparse =>
      obtain ⟨e', rest', rfl, he⟩ := hfront _ _ hsent hrem
      rw [← he.id, ← he.index]
      refine .reply (hsame.onPush.trans hpush) hmsg hx rfl (v := v) (t := t) ?_ ?_ ?_
      · rw [he.remainingResponses]
        apply hrem
      · rw [hsame.readBuffer]
        apply hv
      · rw [he.getAdapter, hparse, hsame.parser, he.response]

theorem World.Sendable.append {ms : List Message} {log : List Event} {bytes : Bytes}
    (h : World.Sendable ms log bytes) (es : List Event) :
  World.Sendable ms (log ++ es) bytes
  := by
  obtain ⟨n, hn, hle⟩ := h
  refine ⟨n, hn, ?_⟩
  rw [commands_append, List.length_append]
  omega

/-- An operation on the queue that leaves alone the message that is read keeps the invariant,
if the commands it stages are what the requests in the new queue wait for besides. -/
theorem Inv.requeue {ms : List Message} {w w' : World ρ} {sent sent' queued queued' : List (Elem ρ)}
    {cur : List (Target × Node)} {es : List Event} (h : Inv ms w sent queued cur)
    (hsame : SameReading w.mpx w'.mpx) (hup : w'.up = w.up) (hrec : w'.received = w.received)
    (hlog : w'.log = w.log ++ es) (hdel : deliveries es = []) (hfin : finished es = 0)
    (hsplit : Split w'.mpx.reqs sent' queued')
    (hqueued : ∀ e ∈ queued', e.remainingResponses = e.req.expectedResponses)
    (hsent : ∀ e ∈ sent', e.remainingResponses ≤ e.req.expectedResponses ∧
      (e.remainingResponses = 0 → e.req.expectedResponses = 0))
    (howes : sent'.flatMap Elem.owes = sent.flatMap Elem.owes ++ commands es)
    (hfront : SameFront sent sent') :
  Inv ms w' sent' queued' cur
  := by
  have hfinished : finished w'.log = finished w.log := by
    rw [hlog, finished_append, hfin, Nat.add_zero]
  have hanswered := h.answered
  refine ⟨hup.trans h.up, hsame.cancelRunCalled.trans h.cancelRunCalled, hsplit, hqueued,
    fun e he => (hsent e he).1, fun e he => (hsent e he).2, ?_, ?_, ?_, ?_, ?_, ?_, ?_⟩
  · rw [hrec, hfinished, hsame.readBuffer, h.received]
  · rw [hsame.readBuffer]
    apply h.buffer_lt
  · rw [hrec, hlog]
    apply h.sendable.append
  · rw [hfinished, hlog, commands_append, List.length_append]
    omega
  · rw [hfinished, hlog, commands_append, List.drop_append_of_le_length hanswered, h.owed, howes]
  · rw [hfinished, hlog, deliveries_append, hdel, List.append_nil, h.delivered, commands_append,
      attribution_commands_append hanswered]
  · rw [hfinished]
    apply h.progress.requeue hsame hfront

/-! ### Operations on the queue -/

section Queue

variable {ms : List Message} {w : World ρ} {sent queued : List (Elem ρ)} {cur : List (Target × Node)}

theorem SameFront.refl (sent : List (Elem ρ)) :
  SameFront sent sent
  := fun e rest hsent _ => ⟨e, rest, hsent, .refl e⟩

theorem Inv.sent_both (h : Inv ms w sent queued cur) :
  ∀ e ∈ sent, e.remainingResponses ≤ e.req.expectedResponses ∧
    (e.remainingResponses = 0 → e.req.expectedResponses = 0)
  := fun e he => ⟨h.sent_le e he, h.sent_zero e he⟩

/-- An operation that only changes which requests wait. -/
theorem Inv.requeue_waiting {w' : World ρ} {queued' : List (Elem ρ)} {es : List Event}
    (h : Inv ms w sent queued cur) (hsame : SameReading w.mpx w'.mpx) (hup : w'.up = w.up)
    (hrec : w'.received = w.received) (hlog : w'.log = w.log ++ es)
    (hes : ∀ e ∈ es, ∃ id ec, e = .notified id ec) (hsplit : Split w'.mpx.reqs sent queued')
    (hqueued : ∀ e ∈ queued', e.remainingResponses = e.req.expectedResponses) :
  Inv ms w' sent queued' cur
  := by
  obtain ⟨hcommands, hdel, hfin⟩ := notifications hes
  apply h.requeue hsame hup hrec hlog hdel hfin hsplit hqueued h.sent_both _ (.refl sent)
  rw [hcommands, List.append_nil]

theorem Inv.add (h : Inv ms w sent queued cur) (req : Request) (adapter : ℕ → Adapter ρ)
    (response : ρ) :
  ∃ queued', Inv ms (w.apply (.add req adapter response)) sent queued' cur
  := by
  obtain ⟨queued', hsplit, hperm⟩ := h.split.add (e := .make w.nextId req adapter response) rfl
  refine ⟨queued', h.requeue_waiting (sameReading_add _ _) rfl rfl
    (List.append_nil _).symm (by simp) hsplit ?_⟩
  intro e he
  obtain rfl | he := List.mem_cons.mp (hperm.mem_iff.mp he)
  · rfl
  · apply h.queued_untouched e he

theorem Inv.remove (h : Inv ms w sent queued cur) (id : ℕ) :
  ∃ queued', Inv ms (w.apply (.remove id)) sent queued' cur
  := by
  obtain ⟨queued', hsplit, hsub⟩ := h.split.remove id
  exact ⟨queued', h.requeue_waiting (sameReading_remove _ _) rfl rfl
    (List.append_nil _).symm (by simp) hsplit fun e he => h.queued_untouched e (hsub.subset he)⟩

theorem Inv.cancelWaiting (h : Inv ms w sent queued cur) :
  Inv ms (w.apply .cancelWaiting) sent [] cur
  := h.requeue_waiting (sameReading_cancelWaiting _) rfl rfl rfl (notified_cancelWaiting _)
    h.split.cancelWaiting (by simp)

/-- The commands staged are those the staged requests wait for. -/
theorem commands_staged :
  ∀ {queued : List (Elem ρ)}, (∀ e ∈ queued, e.remainingResponses = e.req.expectedResponses) →
    commands (queued.map fun e => .staged e.id e.req.expectedResponses)
        = (queued.map Elem.markStaged).flatMap Elem.owes ∧
      deliveries (queued.map fun e => .staged e.id e.req.expectedResponses) = [] ∧
      finished (queued.map fun e => .staged e.id e.req.expectedResponses) = 0
  | [], _ => ⟨rfl, rfl, rfl⟩
  | e :: queued, h => by
      obtain ⟨hc, hd, hf⟩ := commands_staged fun x hx => h x (List.mem_cons_of_mem e hx)
      have he : e.markStaged.owes = (List.range e.req.expectedResponses).map (e.id, ·) :=
        owes_of_untouched (h e List.mem_cons_self)
      refine ⟨?_, hd, hf⟩
      rw [List.map_cons, commands, hc, List.map_cons, List.flatMap_cons, he]

theorem Inv.prepareWrite (h : Inv ms w sent queued cur) :
  Inv ms (w.apply .prepareWrite) (sent ++ queued.map Elem.markStaged) [] cur
  := by
  obtain ⟨hsplit, hevents⟩ := h.split.prepareWrite
  obtain ⟨hcommands, hdel, hfin⟩ := commands_staged h.queued_untouched
  rw [← hevents] at hcommands hdel hfin
  refine h.requeue (sameReading_prepareWrite _) rfl rfl rfl hdel hfin hsplit (by simp) ?_ ?_ ?_
  · intro e he
    obtain he | he := List.mem_append.mp he
    · apply h.sent_both e he
    · obtain ⟨x, hx, rfl⟩ := List.mem_map.mp he
      have hremaining := h.queued_untouched x hx
      exact ⟨hremaining.le, fun hzero => hremaining.symm.trans hzero⟩
  · rw [List.flatMap_append, hcommands]
  · rintro e rest rfl -
    exact ⟨e, rest ++ queued.map Elem.markStaged, rfl, .refl e⟩

theorem Inv.commitWrite (h : Inv ms w sent queued cur) :
  ∃ sent', Inv ms (w.apply .commitWrite) sent' queued cur
  := by
  obtain ⟨keep, hkeep, hsplit⟩ := h.split.commitWrite
  obtain ⟨hcommands, hdel, hfin⟩ := notifications (notified_commitWrite w.mpx)
  have hzero : ∀ e ∈ sent, keep (Split.written e) = false → e.remainingResponses = 0 := by
    intro e he hk
    have hexp := hkeep _ hk
    rw [(Split.sameElem_written e).req] at hexp
    have := h.sent_le e he
    omega
  refine ⟨_, h.requeue (sameReading_commitWrite _) rfl rfl rfl hdel hfin hsplit
    h.queued_untouched ?_ ?_ ?_⟩
  · intro e he
    obtain ⟨x, hx, rfl⟩ := List.mem_map.mp (List.mem_of_mem_filter he)
    rw [(Split.sameElem_written x).remainingResponses, (Split.sameElem_written x).req]
    apply h.sent_both x hx
  · rw [hcommands, List.append_nil]
    clear hsplit h
    induction sent with
    | nil => rfl
    | cons e sent ih =>
        have hrest := ih fun x hx => hzero x (List.mem_cons_of_mem e hx)
        have howes := (Split.sameElem_written e).owes
        rw [List.map_cons, List.flatMap_cons]
        cases hk : keep (Split.written e) with
        | true => rw [List.filter_cons_of_pos hk, List.flatMap_cons, hrest, howes]
        | false =>
            rw [List.filter_cons_of_neg (by simp [hk]), hrest,
              owes_of_zero (hzero e List.mem_cons_self hk), List.nil_append]
  · rintro e rest rfl hrem
    have hk : keep (Split.written e) = true := by
      by_contra hk
      exact hrem (hzero e List.mem_cons_self (by simpa using hk))
    refine ⟨Split.written e, (rest.map Split.written).filter keep, ?_, Split.sameElem_written e⟩
    rw [List.map_cons, List.filter_cons_of_pos hk]

/-- Bytes of the server are appended to the read buffer. -/
theorem Inv.receive (h : Inv ms w sent queued cur) {chunk : Bytes}
    (hlt : (w.mpx.readBuffer ++ chunk).length < 2 ^ 64)
    (hsend : World.Sendable ms w.log (w.received ++ chunk)) :
  Inv ms (w.apply (.receive chunk)) sent queued cur
  := by
  refine ⟨h.up, h.cancelRunCalled, h.split, h.queued_untouched, h.sent_le, h.sent_zero, ?_, hlt,
    hsend, h.answered, h.owed, h.delivered, ?_⟩
  · show w.received ++ chunk = encodeMessages (ms.take (finished w.log)) ++ (w.mpx.readBuffer ++ chunk)
    rw [h.received, List.append_assoc]
  · have hextend : ∀ {v}, v <+: w.mpx.readBuffer → v <+: w.mpx.readBuffer ++ chunk :=
      fun hv => hv.trans (List.prefix_append _ _)
    cases h.progress with
    | start hpush hparser => exact .start hpush hparser
    | push hpush hmsg hx hv hparse => exact .push hpush hmsg hx (hextend hv) hparse
    | reply hpush hmsg hx hsent hrem hv hparse =>
        exact .reply hpush hmsg hx hsent hrem (hextend hv) hparse

end Queue

end Redis
