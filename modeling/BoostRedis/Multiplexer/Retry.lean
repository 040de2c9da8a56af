import BoostRedis.Multiplexer.Delivery

/-!
# Retrying requests on a new connection

A request that is kept when the connection is lost is sent again on the next connection, as a
whole.  The number of responses it waits for is not set back, so its replies are delivered as
they should be only if none was read on the connection that was lost.
-/

namespace Redis

open Resp3

variable {ρ : Type}

/-! ### Without a connection -/

/-- What holds while no connection is up.  On the last one, the server has sent the messages
`ms`. -/
structure Down (ms : List Message) (w : World ρ) : Prop where
  up : w.up = false
  waiting : ∀ e ∈ w.mpx.reqs, e.isWaiting = true
  untouched : ∀ e ∈ w.mpx.reqs, e.remainingResponses = e.req.expectedResponses
  delivered : deliveries w.log <+: attribution (commands w.log) ms

/-- No request that stays when the connection is lost is answered in part. -/
def KeepsUntouched (m : Multiplexer ρ) : Prop :=
  ∀ e ∈ m.reqs, e.isWaiting = false → e.req.config.cancelIfUnresponded = false →
    e.remainingResponses = e.req.expectedResponses

instance (m : Multiplexer ρ) : Decidable (KeepsUntouched m) :=
  inferInstanceAs (Decidable (∀ e ∈ m.reqs, _))

section Down

variable {ms : List Message} {server : ℕ → List Message} {w w' v : World ρ} {a : Action ρ}

theorem Down.attributed (h : Down ms w) :
  Attributed ms w
  := by
  have hdown : ¬ w.up = true := by
    rw [h.up]
    exact Bool.false_ne_true
  exact ⟨h.delivered, fun hup => absurd hup hdown, fun hup => absurd hup hdown,
    fun hup => absurd hup hdown, fun hup => absurd hup hdown, fun hup => absurd hup hdown⟩

theorem Down.losing (h : Down ms w) :
  Losing ms w
  := ⟨fun _ => h.waiting, fun e he _ => h.untouched e he, h.delivered⟩

theorem Down.keepsUntouched (h : Down ms w) :
  KeepsUntouched w.mpx
  := fun e he _ _ => h.untouched e he

theorem Down.split (h : Down ms w) :
  Split w.mpx.reqs [] w.mpx.reqs
  := ⟨rfl, by simp, h.waiting⟩

/-- An operation that notifies at most, after which all requests wait. -/
theorem Down.requeue {es : List Event} (h : Down ms w) (hup : w'.up = w.up)
    (hlog : w'.log = w.log ++ es) (hes : ∀ e ∈ es, ∃ id ec, e = .notified id ec)
    {queued : List (Elem ρ)} (hsplit : Split w'.mpx.reqs [] queued)
    (hqueued : ∀ e ∈ queued, e.remainingResponses = e.req.expectedResponses) :
  Down ms w'
  := by
  obtain ⟨hcommands, hdel, -⟩ := notifications hes
  have hreqs : w'.mpx.reqs = queued := hsplit.eq
  refine ⟨hup.trans h.up, ?_, ?_, ?_⟩
  · rw [hreqs]
    apply hsplit.queued_waiting
  · rw [hreqs]
    apply hqueued
  · rw [hlog, commands_append, deliveries_append, hcommands, hdel, List.append_nil, List.append_nil]
    apply h.delivered

/-- The connection is lost, and no request that stays is answered in part. -/
theorem Losing.down (h : Losing ms v) (hkept : KeepsUntouched v.mpx) :
  Down ms v.lose
  := by
  have huntouched : ∀ e ∈ v.mpx.reqs, Multiplexer.keptOnConnLost e = true →
      e.remainingResponses = e.req.expectedResponses := by
    intro e he hkeep
    cases hwait : e.isWaiting with
    | true => apply h.untouched e he hwait
    | false =>
        apply hkept e he hwait
        simpa [Multiplexer.keptOnConnLost, hwait] using hkeep
  have hdelivered : deliveries v.lose.log <+: attribution (commands v.lose.log) ms := by
    obtain ⟨hcommands, hdel, -⟩ := notifications (notified_cancelOnConnLost v.mpx)
    show deliveries (v.log ++ v.mpx.cancelOnConnLost.events)
      <+: attribution (commands (v.log ++ v.mpx.cancelOnConnLost.events)) ms
    rw [commands_append, deliveries_append, hcommands, hdel, List.append_nil, List.append_nil]
    apply h.delivered
  cases hcancel : v.mpx.cancelRunCalled with
  | true =>
      have hreqs : v.lose.mpx = v.mpx := by
        simp only [World.lose, World.after, Multiplexer.cancelOnConnLost, hcancel, ↓reduceIte]
      refine ⟨rfl, ?_, ?_, hdelivered⟩
      · rw [hreqs]
        apply h.cancelled hcancel
      · rw [hreqs]
        intro e he
        apply h.untouched e he (h.cancelled hcancel e he)
  | false =>
      have hreqs : v.lose.mpx.reqs
          = (v.mpx.reqs.filter Multiplexer.keptOnConnLost).map Elem.markWaiting := by
        simp [World.lose, World.after, Multiplexer.cancelOnConnLost, hcancel]
      refine ⟨rfl, ?_, ?_, hdelivered⟩
      · rw [hreqs]
        intro e he
        obtain ⟨x, -, rfl⟩ := List.mem_map.mp he
        rfl
      · rw [hreqs]
        intro e he
        obtain ⟨x, hx, rfl⟩ := List.mem_map.mp he
        obtain ⟨hx, hkeep⟩ := List.mem_filter.mp hx
        apply huntouched x hx hkeep

/-- Every step without a connection, other than to establish one. -/
theorem Down.step (h : Down (server w.conn) w) (ha : w.Allowed server a)
    (hreset : a.isReset = false) :
  Down (server w.conn) (w.apply a)
  := by
  have hdown : ¬ w.up = true := by
    rw [h.up]
    exact Bool.false_ne_true
  cases a with
  | add req adapter response =>
      obtain ⟨queued', hsplit, hperm⟩ := h.split.add (e := .make w.nextId req adapter response) rfl
      refine h.requeue rfl (List.append_nil _).symm (by simp) hsplit ?_
      intro e he
      obtain rfl | he := List.mem_cons.mp (hperm.mem_iff.mp he)
      · rfl
      · apply h.untouched e he
  | remove id =>
      obtain ⟨queued', hsplit, hsub⟩ := h.split.remove id
      refine h.requeue rfl (List.append_nil _).symm (by simp) hsplit ?_
      intro e he
      apply h.untouched e (hsub.subset he)
  | cancelWaiting =>
      exact h.requeue rfl rfl (notified_cancelWaiting _) h.split.cancelWaiting (by simp)
  | prepareWrite => exact absurd ha.2 hdown
  | commitWrite =>
      obtain ⟨keep, -, hsplit⟩ := h.split.commitWrite
      exact h.requeue rfl rfl (notified_commitWrite _) hsplit h.untouched
  | receive chunk => exact ⟨h.up, h.waiting, h.untouched, h.delivered⟩
  | commitRead => exact absurd ha.2 hdown
  | connLost => apply h.losing.down h.keepsUntouched
  | reset => cases hreset

end Down

/-! ### Runs over several connections -/

section Retry

variable {server : ℕ → List Message} {w w' v : World ρ} {a : Action ρ}

/-- The condition under which requests are retried as they should be: no request that stays when
the connection is lost is answered in part. -/
def World.Retries (w : World ρ) (a : Action ρ) : Prop :=
  ∀ v, w.Loses a v → KeepsUntouched v.mpx

instance (w : World ρ) (a : Action ρ) : Decidable (w.Retries a) :=
  inferInstanceAs (Decidable (∀ v, w.Loses a v → KeepsUntouched v.mpx))

/-- A step with which no reply is taken for a push and no request that stays is answered in
part. -/
def World.RetryStep (server : ℕ → List Message) (w : World ρ) (a : Action ρ) (w' : World ρ) :
    Prop :=
  World.Step server w a w' ∧ w.Classifies a ∧ w.Retries a

theorem World.conn_apply (ha : a.isReset = false) :
  (w.apply a).conn = w.conn
  := by
  cases a with
  | add | remove | receive | cancelWaiting | prepareWrite | commitWrite | connLost => rfl
  | commitRead =>
      rw [World.apply]
      split <;> rfl
  | reset => cases ha

/-- The invariant of runs over several connections. -/
def Settled (server : ℕ → List Message) (w : World ρ) : Prop :=
  Live (server w.conn) w ∨ Down (server w.conn) w

theorem World.RetryStep.settled (hstep : World.RetryStep server w a w') (h : Settled server w) :
  Settled server w'
  := by
  obtain ⟨⟨hallowed, rfl⟩, hclass, hretry⟩ := hstep
  cases hreset : a.isReset with
  | false =>
      rw [Settled, World.conn_apply hreset]
      obtain ⟨sent, queued, cur, hinv⟩ | hdown := h
      · obtain hlive | ⟨v, hv, hlosing, -⟩ := hinv.step hallowed fun ha => by subst ha; exact hclass
        · exact .inl hlive
        · right
          rw [hv.apply]
          apply hlosing.down (hretry v hv)
      · exact .inr (hdown.step hallowed hreset)
  | true =>
      obtain rfl : a = .reset := by
        cases a <;> first | rfl | cases hreset
      obtain ⟨sent, queued, cur, hinv⟩ | hdown := h
      · have hup := hallowed.2
        rw [hinv.up] at hup
        cases hup
      · exact .inl ⟨_, _, _, inv_start rfl rfl rfl rfl hdown.waiting hdown.untouched⟩

theorem settled_of_run {receiveAdapter : Adapter ρ} {receiveResponse : ρ} {as : List (Action ρ)}
    (hrun : Run (World.RetryStep server) (.fresh receiveAdapter receiveResponse) as w) :
  Settled server w
  := by
  have hstart : Down (server 0) (World.fresh receiveAdapter receiveResponse) :=
    ⟨rfl, by simp [World.fresh], by simp [World.fresh], List.nil_prefix⟩
  exact hrun.invariant (fun h hstep => hstep.settled h) (.inr hstart)

/-- On every connection the replies are delivered to the commands they answer, those of requests
that are retried included, if no request is retried that was answered in part and no reply is
read while a request without responses is in its way. -/
theorem attributed_of_retry {receiveAdapter : Adapter ρ} {receiveResponse : ρ}
    {as : List (Action ρ)}
    (hrun : Run (World.RetryStep server) (.fresh receiveAdapter receiveResponse) as w) :
  Attributed (server w.conn) w
  := by
  obtain ⟨sent, queued, cur, hinv⟩ | hdown := settled_of_run hrun
  · apply hinv.attributed
  · apply hdown.attributed

/-- A request with two commands that stays when the connection is lost. -/
def twoPings : Action Unit :=
  .add
    ((Request.push { config := { cancelIfUnresponded := false } } (ascii "PING") []).push
      (ascii "PING") [])
    (fun _ => accepting) ()

/-- The request is sent, and sent again after the connection was lost.  The new connection
receives both replies. -/
def retrying (before : List (Action Unit)) : List (Action Unit) :=
  [.reset, twoPings, .prepareWrite, .commitWrite] ++ before ++
    [.connLost, .reset, .prepareWrite, .commitWrite,
      .receive (ascii "+PONG\r\n" ++ ascii "+PONG\r\n"), .commitRead, .commitRead]

theorem attributed_of_retry_ping :
  Attributed [pong, pong]
    ((retrying [.receive (ascii "+PO")]).foldl World.apply (.fresh accepting ()))
  := by
  have hfollows : Run.Follows World.apply
      (fun w a => w.Allowed (fun _ => [pong, pong]) a ∧ w.Classifies a ∧ w.Retries a)
      (.fresh accepting ()) (retrying [.receive (ascii "+PO")]) := by
    decide
  have hrun : Run (World.RetryStep fun _ => [pong, pong]) _ _ _ :=
    (Run.of_follows hfollows).mono fun h => ⟨⟨h.1.1, h.2⟩, h.1.2⟩
  exact attributed_of_retry hrun

/-- A request that was answered in part when the connection was lost gets the first reply on the
new connection for the second one, and the second reply is given to the receive adapter. -/
theorem attributed_of_retry_fails :
  ¬ ∀ (server : ℕ → List Message) (receiveAdapter : Adapter Unit) (as : List (Action Unit))
    (w : World Unit),
    Run (fun w a w' => World.Step server w a w' ∧ w.Classifies a) (.fresh receiveAdapter ()) as w →
    Attributed (server w.conn) w
  := by
  intro h
  have hfollows : Run.Follows World.apply
      (fun w a => w.Allowed (fun _ => [pong, pong]) a ∧ w.Classifies a)
      (.fresh accepting ()) (retrying [.receive (ascii "+PONG\r\n"), .commitRead]) := by
    decide
  have hattributed := h (fun _ => [pong, pong]) accepting _ _
    ((Run.of_follows hfollows).mono fun h => ⟨⟨h.1.1, h.2⟩, h.1.2⟩)
  have hdeliveries : deliveries
      ((retrying [.receive (ascii "+PONG\r\n"), .commitRead]).foldl World.apply
        (.fresh accepting ())).log
      = [(.request 0 1, ⟨.simpleString, 1, 0, ascii "PONG"⟩),
        (.receiver, ⟨.simpleString, 1, 0, ascii "PONG"⟩)] := by
    decide
  have hcommands : commands
      ((retrying [.receive (ascii "+PONG\r\n"), .commitRead]).foldl World.apply
        (.fresh accepting ())).log = [(0, 0), (0, 1)] := by
    decide
  have hdelivered := hattributed.delivered
  rw [hdeliveries, hcommands] at hdelivered
  revert hdelivered
  decide

end Retry

end Redis
