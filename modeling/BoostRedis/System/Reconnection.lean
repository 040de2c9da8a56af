import BoostRedis.System.Serving
import Mathlib.Data.List.Perm.Subperm

/-!
# The end of connections

* If handlers run in the order in which they were queued, a connection that is lost ends `async_run`
  only if the server has refused the HELLO, or after a timeout of the health check
  (`group_ends_run`).
* For any order, a connection that is lost may hang, in one way (`hung_iff`), and then hangs unless
  the user cancels requests (`hung_forever`).
* After everything was cancelled no connection is opened, but for one case
  (`cancel_all_final_iff`).
-/

namespace Redis

open Resp3

variable {G : Type}

namespace Supervisor

open GroupOps

variable {cfg : RunConfig} {asio : Asio G} {s s' : Supervisor G} {t : Task} {a : Await}
variable {ec : Option ErrorCode} {f : Finding}

/-! ### Connections that are lost and end the run -/

/-- Why the group may end the run while it is to be connected again: the health check is not
disabled, and the first operation that has completed is the handshake, which the server has refused,
or the health check, with a timeout. -/
def Ends (cfg : RunConfig) (asio : Asio G) (s : Supervisor G) (r : Option ErrorCode) : Prop :=
  cfg.checked = true ∧
    ((asio.group.order s.group).head? = some (.hello, some (.redis .resp3Hello)) ∧
        r = some (.redis .resp3Hello) ∨
      (asio.group.order s.group).head? = some (.checkTimeout, some (.redis .pongTimeout)))

theorem InOrder.ends (h : InOrder cfg asio s) {r : Option ErrorCode}
    (hr : (s.groupDone asio).stage = .completed r) (hreconnect : s.willReconnect = true) :
  Ends cfg asio (s.groupDone asio) r
  := by
  have hchecked : ∀ {t : Task} {ec : Option ErrorCode},
      (asio.group.order s.group).head? = some (t, ec) → t ≠ .ping → cfg.checked = true := by
    intro t ec hhead hne
    by_contra hchecked
    have hping := h.unchecked (by simpa using hchecked)
    obtain ⟨order, horder⟩ := List.head?_eq_some_iff.mp hhead
    rw [active, horder] at hping
    exact hne (by simpa using hping)
  rw [groupDone] at hr ⊢
  dsimp only at hr ⊢
  split at hr
  · rename_i e hhead
    obtain rfl := h.refused e hhead
    cases hr
    exact ⟨hchecked hhead (by rintro ⟨⟩), .inl ⟨hhead, rfl⟩⟩
  · rename_i hhead
    exact ⟨hchecked hhead (by rintro ⟨⟩), .inr hhead⟩
  · rw [if_pos hreconnect] at hr
    cases hr

section Fifo

variable (hgroup : asio.group.Contract) {ready : List (Task × Option ErrorCode)}

include hgroup

/-- The operation whose handler was queued first completes. -/
theorem InOrder.complete {r : Option ErrorCode} (h : InOrder cfg asio s)
    (hready : asio.group.ready s.group = (t, ec) :: ready)
    (hfirst : ∀ e, t = .hello → r = some e → asio.group.order s.group = [] →
      e = .redis .resp3Hello ∨ ec ≠ none) :
  InOrder cfg asio { s with group := asio.group.complete s.group t r }
  := by
  have ht : t ∈ (asio.group.ready s.group).map Prod.fst := by
    rw [hready]
    exact List.mem_cons_self
  obtain ⟨horder, -, new, hready', -⟩ := hgroup.complete s.group t r ht
  have hactive : asio.group.active (asio.group.complete s.group t r)
      = asio.group.active s.group ++ new.map Prod.fst := by
    simp [active, horder, hready', hready]
  refine ⟨?_, ?_, ?_⟩
  · intro hchecked
    show (asio.group.active (asio.group.complete s.group t r)).head? = _
    rw [hactive, List.head?_append, h.unchecked hchecked]
    rfl
  · rintro e -
    refine .inl ?_
    show asio.group.order (asio.group.complete s.group t r) ≠ []
    rw [horder]
    simp
  · show ∀ e, (asio.group.order (asio.group.complete s.group t r)).head? = _ → _
    rw [horder]
    intro e he
    cases hnil : asio.group.order s.group with
    | nil =>
        obtain ⟨rfl, rfl⟩ : t = .hello ∧ r = some e := by simpa [hnil] using he
        obtain hrefused | hec := hfirst e rfl rfl hnil
        · exact hrefused
        · -- an error is only queued for the handshake behind the reader
          obtain ⟨e', rfl⟩ := Option.ne_none_iff_exists'.mp hec
          obtain horder | ⟨-, hreader⟩ := h.notified e' (by rw [hready]; exact List.mem_cons_self)
          · exact absurd hnil horder
          · rw [hready] at hreader
            exact absurd rfl (hreader.tail (by rintro ⟨⟩)).1
    | cons p order =>
        apply h.refused e
        rw [hnil] at he ⊢
        exact he

/-- The operation whose handler was queued first suspends again. -/
theorem InOrder.suspend (h : InOrder cfg asio s)
    (hready : asio.group.ready s.group = (t, ec) :: ready)
    (hping : t = .ping → cfg.checked = true)
    (hopen : t = .reader ∨ t = .writer → s.isOpen = true) :
  InOrder cfg asio (s.suspend asio t a)
  := by
  have ht : t ∈ (asio.group.ready s.group).map Prod.fst := by
    rw [hready]
    exact List.mem_cons_self
  obtain ⟨horder, -, hready'⟩ := hgroup.suspend s.group t a ht
  rw [hready, List.eraseP_cons_of_pos (by simp)] at hready'
  refine ⟨?_, ?_, ?_⟩
  · intro hchecked
    show (asio.group.active (asio.group.suspend s.group t a)).head? = _
    have hhead := h.unchecked hchecked
    rw [active, hready] at hhead
    rw [active, horder, hready']
    cases hnil : asio.group.order s.group with
    | nil =>
        obtain rfl : t = .ping := by simpa [hnil] using hhead
        cases (hping rfl).symm.trans hchecked
    | cons p order =>
        rw [hnil] at hhead
        exact hhead
  · show ∀ e, _ ∈ asio.group.ready (asio.group.suspend s.group t a) →
      asio.group.order (asio.group.suspend s.group t a) ≠ [] ∨ s.isOpen = false ∧
        Task.ReaderFirst ((asio.group.ready (asio.group.suspend s.group t a)).map Prod.fst)
    rw [horder, hready']
    intro e he
    obtain horder | ⟨hclosed, hreader⟩ :=
      h.notified e (by rw [hready]; exact List.mem_cons_of_mem _ he)
    · exact .inl horder
    · have hne : t ≠ .reader := by
        rintro rfl
        cases (hopen (.inl rfl)).symm.trans hclosed
      rw [hready] at hreader
      exact .inr ⟨hclosed, (hreader.tail hne).2⟩
  · show ∀ e, (asio.group.order (asio.group.suspend s.group t a)).head? = _ → _
    rw [horder]
    exact h.refused

/-- The handler that was queued first runs. -/
theorem Handled.inOrder (h : InOrder cfg asio s) (hserving : s.stage = .serving)
    (hready : asio.group.ready s.group = (t, ec) :: ready)
    (hhandled : Handled cfg asio s t ec s') :
  (s'.stage = .serving → InOrder cfg asio s') ∧
    ∀ r, s'.stage = .completed r → s.willReconnect = true → Ends cfg asio s' r
  := by
  cases hhandled with
  | @complete s₁ r hprepares hfirst _ =>
      obtain ⟨new, hnew, -⟩ := hprepares.posted
      have hready₁ : asio.group.ready s₁.group = (t, ec) :: (ready ++ new) := by
        rw [hnew.ready, hready, List.cons_append]
      have hinOrder := (hprepares.inOrder h).complete hgroup (r := r) hready₁ (by
        rw [hnew.order]
        exact hfirst)
      rw [Supervisor.complete]
      split
      · refine ⟨fun hstage => absurd hstage (groupDone_stage _), ?_⟩
        intro r' hr' hreconnect
        exact hinOrder.ends hr' (hprepares.willReconnect.trans hreconnect)
      · refine ⟨fun _ => hinOrder, ?_⟩
        intro r' hr'
        cases (hprepares.stage hserving).symm.trans hr'
  | suspend _ _ hping hopen _ =>
      refine ⟨fun _ => h.suspend hgroup hready hping hopen, ?_⟩
      intro r hr
      cases hserving.symm.trans hr

theorem InOrder.handle (h : InOrder cfg asio s) (hserved : Served asio s)
    (hserving : s.stage = .serving) (hturn : s.InTurn asio (.handle t f)) :
  ((s.handle cfg asio t f).stage = .serving → InOrder cfg asio (s.handle cfg asio t f)) ∧
    ∀ r, (s.handle cfg asio t f).stage = .completed r → s.willReconnect = true →
      Ends cfg asio (s.handle cfg asio t f) r
  := by
  obtain ⟨⟨t', ec⟩, hhead, rfl⟩ := Option.map_eq_some_iff.mp hturn
  obtain ⟨ready, hready⟩ := List.head?_eq_some_iff.mp hhead
  have hqueued : asio.group.queued s.group t' = some ec := by
    rw [queued, hready, List.lookup_cons_self]
  rw [Supervisor.handle, hqueued]
  exact Handled.inOrder hgroup h hserving hready (handled_handler hgroup hserved.sound hqueued)

theorem inOrder_step {o : Occurrence} (hserved : s.stage = .serving → Served asio s)
    (h : s.stage = .serving → InOrder cfg asio s) (hstep : s.FifoStep cfg asio o s')
    (hserving : s'.stage = .serving) :
  InOrder cfg asio s'
  := by
  obtain ⟨⟨hpossible, rfl⟩, hturn⟩ := hstep
  cases o with
  | ended ec =>
      have hsame : Same s { s with stage := s.stage.ended ec } := ⟨rfl, rfl, rfl⟩
      exact hsame.inOrder (h (RunStage.serving_of_ended hserving))
  | tries => cases hpossible.1.symm.trans hserving
  | resume =>
      obtain hstart | ⟨hstays, hbefore⟩ := resume_serving hserving
      · rw [next, hstart]
        exact InOrder.startGroup hgroup cfg s
      · rw [next, hstays]
        exact h hbefore
  | wake t ec =>
      have hsound := (hserved hpossible.1).sound
      exact (prepares_wake hgroup hsound (hsound.ends_hello hpossible.2.2)).inOrder (h hpossible.1)
  | handle t f =>
      exact ((h hpossible.1).handle hgroup (hserved hpossible.1) hpossible.1 hturn).1 hserving
  | cancel op waits =>
      have hbefore := serving_of_cancel hserving
      obtain ⟨s₀, hsame, -, hprepares⟩ := prepares_cancel hgroup (hserved hbefore).sound op waits
      exact hprepares.inOrder (hsame.inOrder (h hbefore))

end Fifo

/-- If the handlers run in the order in which they were queued, then while it is to be connected
again a connection that is lost ends `async_run` only if the health check is not disabled, and the
first operation that has completed is the handshake, which the server has refused, or the health
check, with a timeout. -/
theorem group_ends_run {willReconnect : Bool} {os : List Occurrence} {o : Occurrence}
    {r : Option ErrorCode} (hgroup : asio.group.Contract)
    (hrun : Run (Supervisor.FifoStep cfg asio) (.start asio willReconnect) os s)
    (hserving : s.stage = .serving) (hreconnect : s.willReconnect = true)
    (hstep : s.FifoStep cfg asio o s') (hr : s'.stage = .completed r) :
  cfg.checked = true ∧
    ((asio.group.order s'.group).head? = some (.hello, some (.redis .resp3Hello)) ∧
        r = some (.redis .resp3Hello) ∨
      (asio.group.order s'.group).head? = some (.checkTimeout, some (.redis .pongTimeout)))
  := by
  have h : (s.stage = .serving → Served asio s) ∧ (s.stage = .serving → InOrder cfg asio s) := by
    apply hrun.invariant (I := fun s => (s.stage = .serving → Served asio s) ∧
      (s.stage = .serving → InOrder cfg asio s)) _ ⟨by rintro ⟨⟩, by rintro ⟨⟩⟩
    rintro s o s' ⟨hserved, hinOrder⟩ hstep
    exact ⟨served_step hgroup hserved hstep.1, inOrder_step hgroup hserved hinOrder hstep⟩
  have hserved := h.1 hserving
  obtain ⟨⟨hpossible, rfl⟩, hturn⟩ := hstep
  have hstays : ∀ {stage : RunStage}, stage = .serving → stage ≠ .completed r := by
    rintro _ rfl ⟨⟩
  cases o with
  | ended ec | resume =>
      rw [Possible, hserving] at hpossible
      cases hpossible
  | tries => cases hserving.symm.trans hpossible.1
  | wake t ec => exact absurd hr (hstays hserving)
  | handle t f => exact ((h.2 hserving).handle hgroup hserved hserving hturn).2 r hr hreconnect
  | cancel op waits => exact absurd hr (hstays (hserved.cancel hgroup hserving op waits).2)

end Supervisor

/-- What Asio does, as far as it matters: what is cancelled fails with `operation_aborted`, but for
`async_exec`, which is resumed without an error and finds out that it was cancelled.  If the socket
was closed then `async_connect` fails when it is resumed. -/
def Asio.usual : Asio (ParallelGroup Task Await ErrorCode) where
  group := ParallelGroup.ops Task.all fun a => if a = .exec then none else some .operationAborted
  aborted _ := .operationAborted
  badDescriptor := .foreign 9
  cancelResolve result := some (result.getD (some .operationAborted))
  closeConnect _ := some (some .operationAborted)
  closeHandshake result := some (result.getD (some .operationAborted))
  tries isOpen := isOpen

theorem Asio.contract_usual :
  Asio.usual.group.Contract
  := ParallelGroup.contract Task.mem_all _

namespace Supervisor

/-- The server refuses the HELLO, and all other operations but one complete. -/
def refusing : List Occurrence :=
  [.ended none, .resume, .ended none, .resume, .wake .hello none, .handle .hello .refused,
    .handle .reader .done, .handle .writer .done, .handle .ping .done]

def refusedHello : Supervisor (ParallelGroup Task Await ErrorCode) :=
  refusing.foldl (next ⟨false, true⟩ .usual) (start .usual true)

theorem group_ends_run_refused :
  (refusedHello.next ⟨false, true⟩ .usual (.handle .checkTimeout .done)).stage
      = .completed (some (.redis .resp3Hello)) ∧
    (refusedHello.next ⟨false, true⟩ .usual (.handle .checkTimeout .done)).group.order.head?
      = some (.hello, some (.redis .resp3Hello))
  := by
  have hfollows : Run.Follows (next ⟨false, true⟩ .usual)
      (fun s o => s.Possible .usual o ∧ s.InTurn .usual o) (start .usual true) refusing := by
    decide
  have hrun : Run (FifoStep ⟨false, true⟩ .usual) (start .usual true) refusing refusedHello :=
    (Run.of_follows hfollows).mono fun h => ⟨⟨h.1.1, h.2⟩, h.1.2⟩
  have hstage : (refusedHello.next ⟨false, true⟩ .usual (.handle .checkTimeout .done)).stage
      = .completed (some (.redis .resp3Hello)) := by
    decide
  have hstep : refusedHello.FifoStep ⟨false, true⟩ .usual (.handle .checkTimeout .done)
      (refusedHello.next ⟨false, true⟩ .usual (.handle .checkTimeout .done)) :=
    ⟨⟨by decide, rfl⟩, by decide⟩
  obtain ⟨-, ⟨hhead, -⟩ | hhead⟩ :=
    group_ends_run Asio.contract_usual hrun (by decide) (by decide) hstep hstage
  · exact ⟨hstage, hhead⟩
  · exact absurd hhead (by decide)

-- The order matters: the run is cancelled before the HELLO is answered, and the handler of the
-- handshake runs before that of the reader.
example :
  ([.ended none, .resume, .ended none, .resume, .cancel .run false, .handle .hello .done,
      .handle .reader .done, .handle .writer .done, .handle .ping .done,
      .handle .checkTimeout .done].foldl (next ⟨false, true⟩ .usual) (start .usual true)).stage
    = .completed (some .operationAborted)
  := by decide

/-! ### Connections that are lost and stay -/

section Hung

variable {cfg : RunConfig} {asio : Asio G} {s s' : Supervisor G} {a : Await}

/-- All operations have completed but `ping_op`, which is suspended on `async_exec`. -/
structure Hung (asio : Asio G) (g : G) : Prop where
  ready : asio.group.ready g = []
  awaits : asio.group.awaits g .ping = .exec
  active : ∀ t, t ∈ asio.group.active g ↔ t ≠ .ping

/-- Nothing happens without the user. -/
theorem Hung.isCancel {o : Occurrence} (h : Hung asio s.group) (hserving : s.stage = .serving)
    (hclosed : s.isOpen = false) (hpossible : s.Possible asio o) :
  o.isCancel = true
  := by
  cases o with
  | ended _ | resume =>
      rw [Possible, hserving] at hpossible
      cases hpossible
  | tries => cases hserving.symm.trans hpossible.1
  | wake t ec =>
      obtain ⟨-, hsuspended, hends⟩ := hpossible
      obtain rfl : t = .ping := by
        by_contra hne
        exact hsuspended ((h.active t).mpr hne)
      rw [h.awaits, hclosed] at hends
      cases hends
  | handle t f =>
      have hqueued := hpossible.2
      rw [GroupOps.queued, h.ready] at hqueued
      cases hqueued
  | cancel op waits => rfl

theorem Served.called (h : Served asio s) (hclosed : s.isOpen = false)
    (hready : asio.group.ready s.group = []) :
  s.cancelRunCalled = true
  := by
  obtain hcalled | ⟨e, he⟩ := h.lost hclosed
  · exact hcalled
  · rw [GroupOps.queued, hready] at he
    cases he

/-- In whichever order handlers run, nothing but the calls of the user goes on with a connection
that is lost, exactly if all operations have completed but `ping_op`, which is suspended on
`async_exec`. -/
theorem hung_iff {willReconnect : Bool} {os : List Occurrence} (hgroup : asio.group.Contract)
    (hrun : Run (Supervisor.Step cfg asio) (.start asio willReconnect) os s)
    (hserving : s.stage = .serving) (hclosed : s.isOpen = false) :
  (∀ o s', s.Step cfg asio o s' → o.isCancel = true) ↔ Hung asio s.group
  := by
  have h := Served.run hgroup hrun hserving
  constructor
  · intro hcancel
    have hready : asio.group.ready s.group = [] := by
      cases hready : asio.group.ready s.group with
      | nil => rfl
      | cons p ready =>
          have hqueued : (asio.group.queued s.group p.1).isSome = true := by
            rw [GroupOps.queued, hready, List.lookup_cons_self]
            rfl
          cases hcancel (.handle p.1 .done) _ ⟨⟨hserving, hqueued⟩, rfl⟩
    have hwake : ∀ t, (asio.group.awaits s.group t).ends false none = true →
        t ∈ asio.group.active s.group := by
      intro t hends
      by_contra hsuspended
      rw [← hclosed] at hends
      cases hcancel (.wake t none) _ ⟨⟨hserving, hsuspended, hends⟩, rfl⟩
    have hhello := h.sound.called (h.called hclosed hready)
    obtain ⟨hreader, hwriter⟩ := h.sound.closed hclosed
    have hcheck : Task.checkTimeout ∈ asio.group.active s.group := by
      apply hwake
      rw [List.mem_singleton.mp (h.sound.places .checkTimeout)]
      rfl
    have hping : Task.ping ∉ asio.group.active s.group := by
      intro hping
      have hsubset : Task.all ⊆ asio.group.active s.group := by
        intro t _
        cases t <;> assumption
      have hle := (List.Nodup.subperm (by decide) hsubset).length_le
      have hlt := h.unfinished
      rw [GroupOps.active, hready, List.map_nil, List.append_nil, List.length_map] at hle
      omega
    refine ⟨hready, ?_, ?_⟩
    · obtain hexec | htimer : asio.group.awaits s.group .ping = .exec ∨
          asio.group.awaits s.group .ping = .pingTimer := by
        simpa [Task.places] using h.sound.places .ping
      · exact hexec
      · exact absurd (hwake .ping (by rw [htimer]; rfl)) hping
    · intro t
      cases t <;> simp [*]
  · rintro hhung o s' ⟨hpossible, -⟩
    exact hhung.isCancel hserving hclosed hpossible

/-- What stays of a connection that hangs. -/
structure Stays (asio : Asio G) (s s' : Supervisor G) : Prop where
  stage : s'.stage = .serving
  isOpen : s'.isOpen = false
  cancelRunCalled : s'.cancelRunCalled = true
  order : asio.group.order s'.group = asio.group.order s.group
  hung : Hung asio s'.group

theorem Stays.abort {v : Supervisor G} (h : Stays asio s v) (hgroup : asio.group.Contract)
    (ha : a ≠ .exec) :
  Stays asio s (v.abort asio a)
  := by
  obtain ⟨hposted, -⟩ := hgroup.release v.group a (asio.aborted a)
  have hready := hposted.ready_eq (by
    rintro p ⟨hawaits, -⟩
    apply (h.hung.active p.1).mpr
    intro hping
    rw [hping, h.hung.awaits] at hawaits
    exact ha hawaits.symm)
  refine ⟨h.stage, h.isOpen, h.cancelRunCalled, hposted.order.trans h.order,
    hready.trans h.hung.ready, ?_, ?_⟩
  · show asio.group.awaits (asio.group.release v.group a _) .ping = .exec
    rw [hposted.awaits]
    exact h.hung.awaits
  · intro t
    show t ∈ asio.group.active (asio.group.release v.group a _) ↔ _
    rw [GroupOps.active, hposted.order, hready]
    exact h.hung.active t

theorem Stays.cancelRun {v : Supervisor G} (h : Stays asio s v) (hgroup : asio.group.Contract) :
  Stays asio s (v.cancelRun asio)
  := by
  have hclose : v.close asio = v := by
    rw [close, h.isOpen]
    rfl
  have habort := (h.abort hgroup (a := .writerTimer) (by rintro ⟨⟩)).abort hgroup (a := .channel)
    (by rintro ⟨⟩)
  rw [Supervisor.cancelRun, hclose]
  split
  · exact habort
  · rename_i hcalled
    exact absurd habort.cancelRunCalled hcalled

theorem Stays.step {v v' : Supervisor G} {o : Occurrence} (h : Stays asio s v)
    (hgroup : asio.group.Contract) (hstep : v.Step cfg asio o v')
    (hspares : o.cancelsExec = false) :
  Stays asio s v'
  := by
  obtain ⟨hpossible, rfl⟩ := hstep
  have hcancel := h.hung.isCancel h.stage h.isOpen hpossible
  cases o with
  | ended _ | tries | resume | wake _ _ | handle _ _ => cases hcancel
  | cancel op waits =>
      cases op with
      | exec | all => cases hspares
      | resolve =>
          refine ⟨?_, h.isOpen, h.cancelRunCalled, h.order, h.hung⟩
          show v.stage.cancelResolve asio = .serving
          rw [h.stage]
          rfl
      | run => exact h.cancelRun hgroup
      | receive => exact h.abort hgroup (by rintro ⟨⟩)
      | healthCheck => exact (h.abort hgroup (by rintro ⟨⟩)).abort hgroup (by rintro ⟨⟩)
      | reconnection => exact ⟨h.stage, h.isOpen, h.cancelRunCalled, h.order, h.hung⟩
      | connect | sslHandshake => exact h

/-- If all operations of a connection that is lost have completed but `ping_op`, which is suspended
on `async_exec`, this stays so, and `async_run` neither completes nor connects again, unless the
user cancels the requests that wait.  It does not help to cancel the run. -/
theorem hung_forever {willReconnect : Bool} {os os' : List Occurrence}
    (hgroup : asio.group.Contract)
    (hrun : Run (Supervisor.Step cfg asio) (.start asio willReconnect) os s)
    (hserving : s.stage = .serving) (hclosed : s.isOpen = false) (hhung : Hung asio s.group)
    (hrun' : Run (fun s o s' => s.Step cfg asio o s' ∧ o.cancelsExec = false) s os' s') :
  s'.stage = .serving ∧ s'.isOpen = false ∧
    asio.group.order s'.group = asio.group.order s.group ∧ Hung asio s'.group
  := by
  have hcalled := (Served.run hgroup hrun hserving).called hclosed hhung.ready
  have h : Stays asio s s' :=
    hrun'.invariant (fun h hstep => h.step hgroup hstep.1 hstep.2)
      ⟨hserving, hclosed, hcalled, rfl, hhung⟩
  exact ⟨h.stage, h.isOpen, h.order, h.hung⟩

end Hung

/-- A read fails, and the timer of `ping_op` expires before the reader is resumed.  So the handler
of `ping_op` is queued already when the reader cancels the run, and the group. -/
def lostAtExpiry : List Occurrence :=
  [.ended none, .resume, .ended none, .resume, .wake .hello none, .handle .hello .done,
    .wake .ping none, .handle .ping .done, .wake .reader (some (.foreign 104)), .wake .ping none,
    .handle .reader .done, .handle .ping .done, .handle .writer .done, .handle .checkTimeout .done]

def hanging : Supervisor (ParallelGroup Task Await ErrorCode) :=
  lostAtExpiry.foldl (next ⟨false, true⟩ .usual) (start .usual true)

theorem run_lostAtExpiry :
  Run (Supervisor.Step ⟨false, true⟩ .usual) (.start .usual true) lostAtExpiry hanging
  := by
  have hfollows : Run.Follows (next ⟨false, true⟩ .usual) (Possible .usual) (start .usual true)
      lostAtExpiry := by
    decide
  exact Run.of_follows hfollows

theorem hung_hanging :
  Hung .usual hanging.group
  := by
  refine ⟨by decide, by decide, ?_⟩
  intro t
  cases t <;> decide

theorem hung_iff_expiry :
  ¬ ∃ o s', hanging.Step ⟨false, true⟩ .usual o s' ∧ o.isCancel = false
  := by
  rintro ⟨o, s', hstep, hnot⟩
  have hiff := hung_iff Asio.contract_usual run_lostAtExpiry (by decide) (by decide)
  cases (hiff.mpr hung_hanging o s' hstep).symm.trans hnot

theorem hung_forever_expiry :
  (hanging.next ⟨false, true⟩ .usual (.cancel .run false)).stage = .serving
  := by
  have hstep : hanging.Step ⟨false, true⟩ .usual (.cancel .run false)
      (hanging.next ⟨false, true⟩ .usual (.cancel .run false)) := ⟨trivial, rfl⟩
  exact (hung_forever Asio.contract_usual run_lostAtExpiry (by decide) (by decide) hung_hanging
    (.single ⟨hstep, rfl⟩)).1

end Supervisor

/-! ### Cancelling everything -/

namespace RunStage

variable {asio : Asio G} {stage : RunStage}

/-- Whether `run_op` may open a connection before it looks at `will_reconnect()`. -/
def opens : RunStage → Bool
  | .resolving none | .resolving (some none) => true
  | _ => false

theorem opens_ended {ec : Option ErrorCode} (h : stage.opens = false) :
  (stage.ended ec).opens = false
  := by
  cases stage with
  | resolving result =>
      cases result with
      | none => cases h
      | some result => exact h
  | connecting result | sslHandshaking result | waiting result => cases result <;> rfl
  | serving | completed _ => rfl

theorem opens_close :
  (stage.close asio).opens = stage.opens
  := by
  cases stage <;> rfl

/-- If the resolver is cancelled, a connection may be opened only if the name was resolved. -/
theorem opens_cancelResolve (hconnect : asio.ConnectContract)
    (h : stage ≠ .resolving (some none)) :
  (stage.cancelResolve asio).opens = false
  := by
  cases stage with
  | resolving result =>
      cases result with
      | none =>
          obtain ⟨ec, hec⟩ := hconnect.pending
          rw [cancelResolve, hec]
          rfl
      | some result =>
          rw [cancelResolve, hconnect.ended]
          cases result with
          | none => exact absurd rfl h
          | some ec => rfl
  | connecting _ | sslHandshaking _ | waiting _ | serving | completed _ => rfl

end RunStage

namespace Supervisor

section Final

variable {cfg : RunConfig} {asio : Asio G} {s s' : Supervisor G} {t : Task} {a : Await}
variable {ec : Option ErrorCode}

/-- No connection will be opened. -/
structure Final (s : Supervisor G) : Prop where
  isOpen : s.isOpen = false
  willReconnect : s.willReconnect = false
  stage : s.stage.opens = false

theorem Final.groupDone (hopen : s.isOpen = false) (hreconnect : s.willReconnect = false) :
  Final (s.groupDone asio)
  := by
  rw [Supervisor.groupDone]
  dsimp only
  split
  · exact ⟨hopen, hreconnect, rfl⟩
  · exact ⟨hopen, hreconnect, rfl⟩
  · rw [if_neg (by rw [hreconnect]; rintro ⟨⟩)]
    exact ⟨hopen, hreconnect, rfl⟩

theorem Handled.final (h : Handled cfg asio s t ec s') (hserving : s.stage = .serving)
    (hfinal : Final s) :
  Final s'
  := by
  cases h with
  | @complete s₁ r hprepares =>
      have hopen : s₁.isOpen = false := by
        obtain ⟨hopen, -⟩ | ⟨hopen, -⟩ := hprepares.flags
        · exact hopen.trans hfinal.isOpen
        · exact hopen
      have hreconnect := hprepares.willReconnect.trans hfinal.willReconnect
      rw [Supervisor.complete]
      split
      · exact Final.groupDone hopen hreconnect
      · refine ⟨hopen, hreconnect, ?_⟩
        show s₁.stage.opens = false
        rw [hprepares.stage hserving]
        rfl
  | suspend => exact ⟨hfinal.isOpen, hfinal.willReconnect, hfinal.stage⟩

namespace Final

theorem resume (h : Final s) :
  Final (s.resume cfg asio)
  := by
  obtain ⟨hopen, hreconnect, hstage⟩ := h
  rw [Supervisor.resume]
  split
  · exact ⟨hopen, hreconnect, rfl⟩
  · rename_i hresolved
    rw [hresolved] at hstage
    cases hstage
  · exact ⟨hopen, hreconnect, rfl⟩
  · split
    · exact ⟨hopen, hreconnect, rfl⟩
    · exact ⟨hopen, hreconnect, rfl⟩
  · exact ⟨hopen, hreconnect, rfl⟩
  · exact ⟨hopen, hreconnect, rfl⟩
  · exact ⟨hopen, hreconnect, rfl⟩
  · rw [if_neg (by rw [hreconnect]; rintro ⟨⟩)]
    exact ⟨hopen, hreconnect, rfl⟩
  · exact ⟨hopen, hreconnect, hstage⟩

theorem cancelRun (h : Final s) :
  Final (s.cancelRun asio)
  := by
  obtain ⟨hclosed, -, hreconnect, hstage⟩ := cancelRun_flags asio s
  refine ⟨hclosed, hreconnect.trans h.willReconnect, ?_⟩
  rw [hstage, h.isOpen]
  exact h.stage

theorem abort (h : Final s) :
  Final (s.abort asio a)
  := ⟨h.isOpen, h.willReconnect, h.stage⟩

theorem cancelWaiting (h : Final s) (waits : Bool) :
  Final (s.cancelWaiting asio waits)
  := by
  rw [Supervisor.cancelWaiting]
  split
  · exact ⟨h.isOpen, h.willReconnect, h.stage⟩
  · exact h

theorem cancelResolve (h : Final s) (hconnect : asio.ConnectContract) :
  (s.stage.cancelResolve asio).opens = false
  := by
  apply RunStage.opens_cancelResolve hconnect
  intro hresolved
  have hstage := h.stage
  rw [hresolved] at hstage
  cases hstage

theorem cancel (h : Final s) (hconnect : asio.ConnectContract) (op : Operation) (waits : Bool) :
  Final (s.cancel asio waits op)
  := by
  cases op with
  | resolve => exact ⟨h.isOpen, h.willReconnect, h.cancelResolve hconnect⟩
  | exec => exact h.cancelWaiting waits
  | run => exact h.cancelRun
  | receive => exact h.abort
  | reconnection => exact ⟨h.isOpen, rfl, h.stage⟩
  | healthCheck => exact h.abort.abort
  | connect | sslHandshake => exact h
  | all =>
      have hresolve : Final
          { s with stage := s.stage.cancelResolve asio, willReconnect := false } :=
        ⟨h.isOpen, rfl, h.cancelResolve hconnect⟩
      exact hresolve.abort.abort.cancelRun.abort.cancelWaiting waits

theorem step {o : Occurrence} (h : Final s) (hgroup : asio.group.Contract)
    (hconnect : asio.ConnectContract) (hserved : s.stage = .serving → Served asio s)
    (hstep : s.Step cfg asio o s') :
  Final s'
  := by
  obtain ⟨hpossible, rfl⟩ := hstep
  cases o with
  | ended ec => exact ⟨h.isOpen, h.willReconnect, RunStage.opens_ended h.stage⟩
  | tries =>
      have htries := hpossible.2
      rw [h.isOpen, hconnect.closed] at htries
      cases htries
  | resume => exact h.resume
  | wake t ec => exact ⟨h.isOpen, h.willReconnect, h.stage⟩
  | handle t f =>
      obtain ⟨hserving, hsome⟩ := hpossible
      obtain ⟨ec, hqueued⟩ := Option.isSome_iff_exists.mp hsome
      rw [next, handle, hqueued]
      exact (handled_handler hgroup (hserved hserving).sound hqueued).final hserving h
  | cancel op waits => exact h.cancel hconnect op waits

end Final

theorem cancel_all_flags (asio : Asio G) (s : Supervisor G) (waits : Bool) :
  (s.cancel asio waits .all).isOpen = false ∧ (s.cancel asio waits .all).willReconnect = false ∧
    (s.cancel asio waits .all).stage =
      if s.isOpen then (s.stage.cancelResolve asio).close asio else s.stage.cancelResolve asio
  := by
  have hwaiting : ∀ s : Supervisor G, (s.cancelWaiting asio waits).isOpen = s.isOpen ∧
      (s.cancelWaiting asio waits).willReconnect = s.willReconnect ∧
      (s.cancelWaiting asio waits).stage = s.stage := by
    intro s
    rw [cancelWaiting]
    split <;> exact ⟨rfl, rfl, rfl⟩
  rw [cancel, (hwaiting _).1, (hwaiting _).2.1, (hwaiting _).2.2]
  obtain ⟨hclosed, -, hreconnect, hstage⟩ := cancelRun_flags asio
    ({ s with stage := s.stage.cancelResolve asio, willReconnect := false }.cancelHealthCheck asio)
  exact ⟨hclosed, hreconnect, hstage⟩

theorem isOpen_resume (cfg : RunConfig) (asio : Asio G) (h : s.stage = .resolving (some none)) :
  s.Step cfg asio .resume (s.next cfg asio .resume) ∧ (s.next cfg asio .resume).isOpen = true
  := by
  refine ⟨⟨?_, rfl⟩, ?_⟩
  · rw [Possible, h]
    rfl
  · rw [next, resume, h]

/-- After everything was cancelled no connection is opened any more, unless the name was resolved
and `run_op` is about to be resumed when that happens.  This is so if a resolution that is cancelled
fails, and `async_connect` does not open a socket again that was closed. -/
theorem cancel_all_final_iff {willReconnect : Bool} {os : List Occurrence}
    (hgroup : asio.group.Contract) (hconnect : asio.ConnectContract)
    (hrun : Run (Supervisor.Step cfg asio) (.start asio willReconnect) os s) (waits : Bool) :
  (∀ os' s', Run (Supervisor.Step cfg asio) (s.cancel asio waits .all) os' s' →
      s'.isOpen = false) ↔
    s.stage ≠ .resolving (some none)
  := by
  obtain ⟨hclosed, hreconnect, hstage⟩ := cancel_all_flags asio s waits
  constructor
  · intro hfinal hresolved
    have hresolved' : (s.cancel asio waits .all).stage = .resolving (some none) := by
      rw [hstage, hresolved, RunStage.cancelResolve, hconnect.ended]
      split <;> rfl
    obtain ⟨hresume, hopen⟩ := isOpen_resume cfg asio hresolved'
    cases (hfinal _ _ (.single hresume)).symm.trans hopen
  · intro hresolved os' s' hrun'
    have hopens : (s.cancel asio waits .all).stage.opens = false := by
      rw [hstage, ← RunStage.opens_cancelResolve hconnect hresolved]
      split
      · exact RunStage.opens_close
      · rfl
    have hserved : (s.cancel asio waits .all).stage = .serving →
        Served asio (s.cancel asio waits .all) := by
      intro hserving
      have hbefore := serving_of_cancel hserving
      exact ((Served.run hgroup hrun hbefore).cancel hgroup hbefore .all waits).1
    have hend : (s'.stage = .serving → Served asio s') ∧ Final s' := by
      apply hrun'.invariant (I := fun s' => (s'.stage = .serving → Served asio s') ∧ Final s') _
        ⟨hserved, hclosed, hreconnect, hopens⟩
      rintro v o v' ⟨hserved, hfinal⟩ hstep
      exact ⟨served_step hgroup hserved hstep, hfinal.step hgroup hconnect hserved hstep⟩
    exact hend.2.isOpen

end Final

/-- `run_op` is about to be resumed with the addresses of the server. -/
def resolved : Supervisor (ParallelGroup Task Await ErrorCode) :=
  (start .usual true).next ⟨false, true⟩ .usual (.ended none)

theorem cancel_all_final_iff_resolved :
  ¬ ∀ os' s', Run (Supervisor.Step ⟨false, true⟩ .usual) (resolved.cancel .usual false .all) os' s' →
    s'.isOpen = false
  := by
  have hconnect : Asio.usual.ConnectContract := ⟨⟨.operationAborted, rfl⟩, fun _ => rfl, rfl⟩
  have hstep : (start .usual true).Step ⟨false, true⟩ .usual (.ended none) resolved :=
    ⟨by decide, rfl⟩
  intro hfinal
  exact (cancel_all_final_iff Asio.contract_usual hconnect (.single hstep) false).mp hfinal rfl

end Supervisor

end Redis
