import BoostRedis.Multiplexer.Execution

/-!
# The loss of a connection

While a connection is up, the operations of the multiplexer are called in any order.  When it is
lost, `cancel_on_conn_lost` is called, perhaps several times, by the reader, the writer, the
handshake or the user, while requests are added, removed and cancelled, and a write that was going
on is committed late.  Then the multiplexer is reset.

The first of the calls decides on every request: it is notified and taken out of the queue, or it
stays and waits.  No later call changes that.
-/

namespace Redis

open Resp3

variable {ρ : Type}

/-! ### The discipline of a connection -/

namespace World

/-- When an operation follows the discipline: the writer starts and the reader reads only while
the connection is up, and a reset comes only after a loss. -/
def Disciplined (w : World ρ) (a : Action ρ) : Prop :=
  w.Possible a ∧
    match a with
    | .prepareWrite | .receive _ | .commitRead => w.up = true
    | .reset => w.up = false
    | _ => True

instance (w : World ρ) (a : Action ρ) : Decidable (w.Disciplined a) :=
  match a with
  | .prepareWrite | .receive _ | .commitRead => inferInstanceAs (Decidable (_ ∧ w.up = true))
  | .reset => inferInstanceAs (Decidable (_ ∧ w.up = false))
  | .add _ _ _ | .remove _ | .cancelWaiting | .commitWrite | .connLost =>
      inferInstanceAs (Decidable (_ ∧ True))

/-- A step that follows the discipline. -/
def DisciplinedStep (w : World ρ) (a : Action ρ) (w' : World ρ) : Prop :=
  w.Disciplined a ∧ w' = w.operate a

theorem Disciplined.up {w : World ρ} {a : Action ρ} (h : w.Disciplined a)
    (ha : a.isPrepareWrite = true) :
  w.up = true
  := by
  cases a with
  | prepareWrite => exact h.2
  | _ => cases ha

end World

/-- Whether a loss cancels a request: it waits and is to be cancelled when the connection is lost,
or it was sent and is to be cancelled if it is not responded to. -/
def Elem.CancelledByLoss (e : Elem ρ) : Prop :=
  e.isWaiting = true ∧ e.req.config.cancelOnConnectionLost = true
    ∨ e.isWaiting = false ∧ e.req.config.cancelIfUnresponded = true

/-- What becomes of the requests when the connection is lost in the world `v`, until the world `u`
is reached through the operations `as`, before the multiplexer is reset.

* The first call of `cancel_on_conn_lost` notifies and takes out the requests that a loss cancels,
  and no others.  They are notified with `operation_aborted`, or with the error they have already.
* No later call of it, and no late `commit_write`, notifies a request or changes the queue.
* The others leave only if they are removed or cancelled, and keep their order.
* All requests in the queue wait. -/
structure Decision (v : World ρ) (as : List (Action ρ)) (u : World ρ) : Prop where
  notified : ∀ e ∈ v.mpx.reqs, ∀ ec, .notified e.id ec ∈ v.calls .connLost
    ↔ e.CancelledByLoss ∧ ec = some (e.ec.getD .operationAborted)
  removed : ∀ e ∈ v.mpx.reqs, e.id ∉ (v.operate .connLost).mpx.ids ↔ e.CancelledByLoss
  once : u.calls .connLost = [] ∧ (u.operate .connLost).mpx = u.mpx
  late : u.calls .commitWrite = [] ∧ (u.operate .commitWrite).mpx.reqs = u.mpx.reqs
  stay : ∀ e ∈ v.mpx.reqs, ¬ e.CancelledByLoss →
    e.id ∈ u.mpx.ids ∨ .remove e.id ∈ as ∨ .cancelWaiting ∈ as
  order : (u.mpx.ids.filter (· < v.nextId)).Sublist v.mpx.ids
  waiting : ∀ e ∈ u.mpx.reqs, e.isWaiting = true

/-! ### The first call -/

theorem Elem.cancelledByLoss_iff {e : Elem ρ} :
  e.CancelledByLoss ↔ Multiplexer.keptOnConnLost e = false
  := by
  rw [CancelledByLoss, Multiplexer.keptOnConnLost]
  cases e.isWaiting <;> simp

namespace Governed

variable {v : World ρ} {e : Elem ρ}

/-- The first call of `cancel_on_conn_lost`. -/
theorem connLost_eq (h : Governed v) (hup : v.up = true) :
  v.calls .connLost = (v.mpx.reqs.filter (!Multiplexer.keptOnConnLost ·)).map
      (fun e => (e.notifyError .operationAborted).2)
    ∧ (v.operate .connLost).mpx.reqs
      = (v.mpx.reqs.filter Multiplexer.keptOnConnLost).map Elem.markWaiting
    ∧ (v.operate .connLost).mpx.cancelRunCalled = true
  := by
  have hcalled : ¬ v.mpx.cancelRunCalled = true := by
    rw [h.up hup]
    simp
  simp only [World.calls, World.operate, World.apply, World.lose, World.after,
    Multiplexer.cancelOnConnLost, if_neg hcalled]
  exact ⟨trivial, trivial, trivial⟩

/-- Entries of the queue with the same number are the same. -/
theorem eq_of_id (h : Governed v) {x : Elem ρ} (hx : x ∈ v.mpx.reqs) (he : e ∈ v.mpx.reqs)
    (hid : x.id = e.id) :
  x = e
  := List.inj_on_of_nodup_map h.orderly.nodup hx he hid

theorem notified_connLost (h : Governed v) (hup : v.up = true) (he : e ∈ v.mpx.reqs)
    (ec : Option ErrorCode) :
  .notified e.id ec ∈ v.calls .connLost
    ↔ e.CancelledByLoss ∧ ec = some (e.ec.getD .operationAborted)
  := by
  rw [(h.connLost_eq hup).1, List.mem_map, Elem.cancelledByLoss_iff]
  constructor
  · rintro ⟨x, hx, hnotified⟩
    obtain ⟨hx, hkept⟩ := List.mem_filter.mp hx
    rw [Elem.notifyError, Elem.notifyDone] at hnotified
    injection hnotified with hid hec
    obtain rfl := h.eq_of_id hx he hid
    exact ⟨by simpa using hkept, hec.symm⟩
  · rintro ⟨hkept, rfl⟩
    exact ⟨e, List.mem_filter.mpr ⟨he, by simp [hkept]⟩, rfl⟩

theorem removed_connLost (h : Governed v) (hup : v.up = true) (he : e ∈ v.mpx.reqs) :
  e.id ∉ (v.operate .connLost).mpx.ids ↔ e.CancelledByLoss
  := by
  rw [Multiplexer.ids, (h.connLost_eq hup).2.1, Elem.cancelledByLoss_iff]
  constructor
  · intro hid
    have hleft := Multiplexer.not_kept _ Stays.markWaiting he hid
    simpa using (List.mem_filter.mp hleft).2
  · intro hkept hid
    rw [List.map_map, List.mem_map] at hid
    obtain ⟨x, hx, hxid⟩ := hid
    obtain ⟨hx, hxkept⟩ := List.mem_filter.mp hx
    obtain rfl := h.eq_of_id hx he hxid
    rw [hkept] at hxkept
    cases hxkept

end Governed

/-! ### Until the reset -/

/-- The connection is lost, and `cancel_on_conn_lost` has been called. -/
structure Lost (w : World ρ) : Prop where
  governed : Governed w
  down : w.up = false
  called : w.mpx.cancelRunCalled = true

namespace Lost

variable {w w' : World ρ} {a : Action ρ}

theorem waiting (h : Lost w) :
  ∀ e ∈ w.mpx.reqs, e.isWaiting = true
  := h.governed.down h.down

/-- Another call of `cancel_on_conn_lost` does nothing. -/
theorem connLost (h : Lost w) :
  w.calls .connLost = [] ∧ (w.operate .connLost).mpx = w.mpx
  := by
  simp only [World.calls, World.operate, World.apply, World.lose, World.after,
    Multiplexer.cancelOnConnLost, if_pos h.called]
  exact ⟨trivial, trivial⟩

/-- A late `commit_write` finds no request that was staged. -/
theorem commitWrite (h : Lost w) :
  w.calls .commitWrite = [] ∧ (w.operate .commitWrite).mpx.reqs = w.mpx.reqs
  := by
  have hwritten : w.mpx.reqs.map Split.written = w.mpx.reqs := by
    apply (List.map_congr_left (g := id) _).trans (List.map_id _)
    intro e he
    have hstatus : e.status = .waiting := of_decide_eq_true (h.waiting e he)
    simp [Split.written, Elem.isStaged, hstatus]
  have hunwritten : ∀ e ∈ w.mpx.reqs, e.isWritten = false := by
    intro e he
    have hstatus : e.status = .waiting := of_decide_eq_true (h.waiting e he)
    simp [Elem.isWritten, hstatus]
  constructor
  · show ((w.mpx.reqs.map Split.written).filter _).map Elem.notifyDone = []
    rw [hwritten, List.map_eq_nil_iff, List.filter_eq_nil_iff]
    intro e he
    simp [hunwritten e he]
  · show (w.mpx.reqs.map Split.written).filter _ = w.mpx.reqs
    rw [hwritten, List.filter_eq_self]
    intro e he
    simp [hunwritten e he]

/-- The requests that are in the queue leave only if they are removed or cancelled. -/
theorem stays (h : Lost w) (ha : w.Disciplined a) {id : ℕ} (hid : id ∈ w.mpx.ids) :
  id ∈ (w.operate a).mpx.ids ∨ a = .remove id ∨ a = .cancelWaiting
  := by
  by_cases hstays : id ∈ (w.operate a).mpx.ids
  · exact .inl hstays
  · right
    obtain ⟨e, he, rfl⟩ := List.mem_map.mp hid
    rcases h.governed.orderly.left he hstays with ⟨rfl, -, -⟩ | ⟨ec, hnotified⟩
    · exact .inl rfl
    · cases a with
      | cancelWaiting => exact .inr rfl
      | connLost =>
          rw [h.connLost.1] at hnotified
          cases hnotified
      | commitWrite =>
          rw [h.commitWrite.1] at hnotified
          cases hnotified
      | prepareWrite | commitRead =>
          have hup : w.up = true := ha.2
          rw [h.down] at hup
          cases hup
      | add _ _ _ | remove _ | receive _ | reset => cases hnotified

/-- A new request is put between those that are there. -/
theorem ids_add (h : Lost w) (req : Request) (adapter : ℕ → Adapter ρ) (response : ρ) :
  ∃ front back, w.mpx.ids = front ++ back
    ∧ (w.operate (.add req adapter response)).mpx.ids = front ++ w.nextId :: back
  := by
  obtain ⟨sent, queued, hsplit⟩ := h.governed.orderly.split
  have hids : w.mpx.ids = sent.map Elem.id ++ queued.map Elem.id := by
    rw [Multiplexer.ids, hsplit.eq, List.map_append]
  cases hp : req.hasHelloPriority with
  | false =>
      refine ⟨w.mpx.ids, [], (List.append_nil _).symm, ?_⟩
      have hlast : (w.operate (.add req adapter response)).mpx.reqs
        = w.mpx.reqs ++ [.make w.nextId req adapter response] := Split.add_last hp
      rw [Multiplexer.ids, hlast, List.map_append]
      rfl
  | true =>
      refine ⟨sent.map Elem.id, queued.map Elem.id, hids, ?_⟩
      have hfirst : (w.operate (.add req adapter response)).mpx.reqs
        = sent ++ .make w.nextId req adapter response :: queued := hsplit.add_priority rfl hp
      rw [Multiplexer.ids, hfirst, List.map_append]
      rfl

/-- The requests that were added before some point keep their order. -/
theorem order {n : ℕ} (h : Lost w) (hn : n ≤ w.nextId) :
  ((w.operate a).mpx.ids.filter (· < n)).Sublist (w.mpx.ids.filter (· < n))
  := by
  cases hadd : a.isAdd with
  | false => exact (World.thins hadd).ids.filter _
  | true =>
      cases a with
      | add req adapter response =>
          obtain ⟨front, back, hids, hadded⟩ := h.ids_add req adapter response
          have hnew : [w.nextId].filter (· < n) = [] := by simp [hn]
          rw [hadded, hids, List.filter_append, List.filter_append, ← List.singleton_append,
            List.filter_append, hnew, List.nil_append]
      | _ => cases hadd

/-- The connection stays lost until the reset. -/
theorem step (h : Lost w) (ha : w.Disciplined a) (hreset : a.isReset = false) :
  Lost (w.operate a)
  := by
  have hgoverned := h.governed.operate ha.up
  cases hlost : a.isConnLost with
  | false =>
      obtain ⟨hcalled, hup⟩ := World.cancelRunCalled_operate (w := w) hlost hreset
      exact ⟨hgoverned, hup.trans h.down, hcalled.trans h.called⟩
  | true =>
      cases a with
      | connLost =>
          refine ⟨hgoverned, rfl, ?_⟩
          rw [h.connLost.2]
          apply h.called
      | _ => cases hlost

/-- Until the reset the connection stays lost, and the requests stay in their order. -/
theorem run {bs : List (Action ρ)} {u : World ρ} (hrun : Run World.DisciplinedStep w bs u) :
  Lost w → (∀ b ∈ bs, b.isReset = false) →
    Lost u
      ∧ (∀ id ∈ w.mpx.ids, id ∈ u.mpx.ids ∨ .remove id ∈ bs ∨ .cancelWaiting ∈ bs)
      ∧ ∀ n ≤ w.nextId, (u.mpx.ids.filter (· < n)).Sublist (w.mpx.ids.filter (· < n))
  := by
  induction hrun with
  | nil w => exact fun h _ => ⟨h, fun id hid => .inl hid, fun n _ => .refl _⟩
  | @cons w _ u b bs hb _ ih =>
      intro h hresets
      obtain ⟨hb, rfl⟩ := hb
      obtain ⟨hlost, hstays, horder⟩ :=
        ih (h.step hb (hresets b List.mem_cons_self)) fun b hb => hresets b (.tail _ hb)
      refine ⟨hlost, ?_, ?_⟩
      · intro id hid
        rcases h.stays hb hid with hid | rfl | rfl
        · rcases hstays id hid with hid | hremoved | hcancelled
          · exact .inl hid
          · exact .inr (.inl (.tail _ hremoved))
          · exact .inr (.inr (.tail _ hcancelled))
        · exact .inr (.inl List.mem_cons_self)
        · exact .inr (.inr List.mem_cons_self)
      · intro n hn
        have hnext : n ≤ (w.operate b).nextId :=
          Nat.le_of_not_lt fun hlt => Nat.lt_irrefl _ (World.lt_nextId_operate (hlt.trans_le hn))
        exact (horder n hnext).trans (h.order hn)

end Lost

namespace Governed

variable {v : World ρ}

/-- The first call loses the connection. -/
theorem lost (h : Governed v) (hup : v.up = true) :
  Lost (v.operate .connLost)
  := ⟨h.connLost, rfl, (h.connLost_eq hup).2.2⟩

theorem run {receiveAdapter : Adapter ρ} {receiveResponse : ρ} {as : List (Action ρ)}
    (hrun : Run World.DisciplinedStep (.fresh receiveAdapter receiveResponse) as v) :
  Governed v
  := by
  apply hrun.invariant (I := Governed)
  · intro w a w' hgoverned hstep
    obtain ⟨ha, rfl⟩ := hstep
    apply hgoverned.operate ha.up
  · refine ⟨.fresh receiveAdapter receiveResponse, ?_, fun hup => by cases hup⟩
    intro _ e he
    cases he

end Governed

/-- Each loss of a connection decides about each request exactly once: in every run, whatever
happened before the connection was lost in the world `v`, and whatever happens until the next
reset. -/
theorem loss_decides {receiveAdapter : Adapter ρ} {receiveResponse : ρ} {as bs : List (Action ρ)}
    {v u : World ρ}
    (hup : Run World.DisciplinedStep (.fresh receiveAdapter receiveResponse) as v ∧ v.up = true)
    (hdown : Run World.DisciplinedStep (v.operate .connLost) bs u)
    (hreset : ∀ b ∈ bs, b.isReset = false) :
  Decision v bs u
  := by
  have hgoverned : Governed v := Governed.run hup.1
  have hlost := hgoverned.lost hup.2
  obtain ⟨hu, hstay, horder⟩ := Lost.run hdown hlost hreset
  refine ⟨?_, ?_, hu.connLost, hu.commitWrite, ?_, ?_, hu.waiting⟩
  · intro e he ec
    apply hgoverned.notified_connLost hup.2 he
  · intro e he
    apply hgoverned.removed_connLost hup.2 he
  · intro e he hkept
    apply hstay
    by_contra hleft
    exact hkept ((hgoverned.removed_connLost hup.2 he).mp hleft)
  · apply (horder v.nextId le_rfl).trans
    apply List.filter_sublist.trans
    exact (World.thins rfl).ids

/-- Two requests are written, the first of which stays when it is not responded to, and a third one
waits. -/
def beforeLoss : List (Action Unit) :=
  [.reset,
    .add (Request.push { config := { cancelIfUnresponded := false } } (ascii "PING") [])
      (fun _ => accepting) (),
    .add (Request.push {} (ascii "PING") []) (fun _ => accepting) (),
    .prepareWrite,
    .add (Request.push { config := { cancelOnConnectionLost := false } } (ascii "PING") [])
      (fun _ => accepting) ()]

/-- The loss is noticed again, a request with priority is added, and the write is committed. -/
def afterLoss : List (Action Unit) :=
  [.connLost, .add (Request.push {} (ascii "HELLO") [ascii "3"]) (fun _ => accepting) (), .connLost,
    .commitWrite]

theorem loss_decides_pings :
  Decision (beforeLoss.foldl World.operate (.fresh accepting ())) afterLoss
      ((.connLost :: afterLoss).foldl World.operate
        (beforeLoss.foldl World.operate (.fresh accepting ())))
    ∧ (beforeLoss.foldl World.operate (.fresh accepting ())).calls .connLost
      = [.notified 1 (some .operationAborted)]
    ∧ ((.connLost :: afterLoss).foldl World.operate
        (beforeLoss.foldl World.operate (.fresh accepting ()))).mpx.ids = [3, 0, 2]
  := by
  have hup : Run.Follows World.operate World.Disciplined (World.fresh accepting ()) beforeLoss := by
    decide
  have hdown : Run.Follows World.operate World.Disciplined
      ((beforeLoss.foldl World.operate (.fresh accepting ())).operate .connLost) afterLoss := by
    decide
  exact ⟨loss_decides ⟨Run.of_follows hup, by decide⟩ (Run.of_follows hdown) (by decide),
    by decide, by decide⟩

/-- A request whose adapter takes no node is answered. -/
def refusedReply : List (Action Unit) :=
  [.reset,
    .add (Request.push {} (ascii "PING") [])
      (fun _ _ _ => ((), some (.redis .incompatibleSize))) (),
    .prepareWrite, .commitWrite, .receive (ascii "+PONG\r\n"), .commitRead]

/-- A request that has an error when the connection is lost is not notified with
`operation_aborted`. -/
theorem loss_keeps_error :
  ¬ ∀ (receiveAdapter : Adapter Unit) (as : List (Action Unit)) (v : World Unit),
    Run World.DisciplinedStep (.fresh receiveAdapter ()) as v → v.up = true →
      ∀ e ∈ v.mpx.reqs,
        .notified e.id (some .operationAborted) ∈ v.calls .connLost ↔ e.CancelledByLoss
  := by
  intro h
  have hfollows : Run.Follows World.operate World.Disciplined (World.fresh accepting ())
      refusedReply := by
    decide
  have hcalls : (refusedReply.foldl World.operate (.fresh accepting ())).calls .connLost
      = [.notified 0 (some (.redis .incompatibleSize))] := by
    decide
  have hreqs : ∃ e ∈ (refusedReply.foldl World.operate (.fresh accepting ())).mpx.reqs,
      e.id = 0 ∧ e.CancelledByLoss := by
    refine ⟨_, List.mem_cons_self, rfl, .inr ⟨rfl, rfl⟩⟩
  obtain ⟨e, he, hid, hcancelled⟩ := hreqs
  have hnotified := (h accepting _ _ (Run.of_follows hfollows) (by decide) e he).mpr hcancelled
  rw [hcalls, hid] at hnotified
  simp at hnotified

end Redis
