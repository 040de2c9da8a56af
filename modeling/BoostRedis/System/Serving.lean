import BoostRedis.System.Supervision
import Mathlib.Data.List.TakeWhile

/-!
# Connections that are served

What holds of the operations of a connection while it is served: for any order in which handlers run
(`Supervisor.Served`), and if they run in the order in which they were queued
(`Supervisor.InOrder`).

A handler does one of two things (`Supervisor.Handled`).  Its operation completes, after other
handlers may have been queued and the run cancelled (`Supervisor.Prepares`), or it suspends again.
-/

namespace Redis

open Resp3

variable {G : Type}

/-- What an operation may be suspended on. -/
def Task.places : Task → List Await
  | .hello => [.exec]
  | .ping => [.exec, .pingTimer]
  | .checkTimeout => [.waitTimer]
  | .reader => [.socket, .channel]
  | .writer => [.socket, .writerTimer]

theorem Task.mem_all (t : Task) :
  t ∈ Task.all
  := by
  cases t <;> decide

/-- The reader comes before the handshake. -/
def Task.ReaderFirst (l : List Task) : Prop := Task.reader ∈ l.takeWhile (· ≠ .hello)

namespace Task.ReaderFirst

variable {l : List Task}

theorem append (h : ReaderFirst l) (new : List Task) :
  ReaderFirst (l ++ new)
  := by
  rw [ReaderFirst, List.takeWhile_append]
  split
  · exact List.mem_append_left _ ((List.takeWhile_prefix _).subset h)
  · exact h

theorem of_not_mem (hreader : Task.reader ∈ l) (hhello : Task.hello ∉ l) :
  ReaderFirst l
  := by
  have hall : l.takeWhile (· ≠ .hello) = l := by
    rw [List.takeWhile_eq_self_iff]
    intro t ht
    have hne : t ≠ .hello := by
      rintro rfl
      exact hhello ht
    simpa using hne
  rw [ReaderFirst, hall]
  exact hreader

theorem tail {t : Task} (h : ReaderFirst (t :: l)) (ht : t ≠ .reader) :
  t ≠ .hello ∧ ReaderFirst l
  := by
  by_cases hhello : t = .hello
  · subst hhello
    simp [ReaderFirst] at h
  · rw [ReaderFirst, List.takeWhile_cons_of_pos (by simpa using hhello)] at h
    obtain heq | h := List.mem_cons.mp h
    · exact absurd heq.symm ht
    · exact ⟨hhello, h⟩

end Task.ReaderFirst

namespace RunStage

variable {asio : Asio G} {stage : RunStage}

theorem serving_of_close (h : stage.close asio = .serving) :
  stage = .serving
  := by
  cases stage with
  | serving => rfl
  | _ => cases h

theorem serving_of_cancelResolve (h : stage.cancelResolve asio = .serving) :
  stage = .serving
  := by
  cases stage with
  | serving => rfl
  | _ => cases h

theorem serving_of_ended {ec : Option ErrorCode} (h : stage.ended ec = .serving) :
  stage = .serving
  := by
  cases stage with
  | resolving result | connecting result | sslHandshaking result | waiting result =>
      cases result <;> cases h
  | serving => rfl
  | completed _ => cases h

end RunStage

namespace Supervisor

open GroupOps

variable {cfg : RunConfig} {asio : Asio G} {s s' s'' : Supervisor G} {t : Task} {a : Await}
variable {ec : Option ErrorCode} {f : Finding} {P : Task × Option ErrorCode → Prop}

/-- What holds of the group.

* Every operation is suspended on one of its resources.
* Neither the reader nor the writer is suspended when the socket is closed, and the handshake is not
  suspended after `cancel_run`. -/
structure Sound (asio : Asio G) (s : Supervisor G) : Prop where
  places : ∀ t, asio.group.awaits s.group t ∈ t.places
  closed : s.isOpen = false →
    Task.reader ∈ asio.group.active s.group ∧ Task.writer ∈ asio.group.active s.group
  called : s.cancelRunCalled = true → Task.hello ∈ asio.group.active s.group

/-- What holds of the group if the handlers run in the order in which they were queued.

* Without health checks `ping_op` comes first.
* If the handshake is resumed with an error then some operation has completed, or the socket is
  closed and the reader comes before it.  So it is the first to complete only if the server refuses
  it. -/
structure InOrder (cfg : RunConfig) (asio : Asio G) (s : Supervisor G) : Prop where
  unchecked : cfg.checked = false → (asio.group.active s.group).head? = some .ping
  notified : ∀ e, (.hello, some e) ∈ asio.group.ready s.group → asio.group.order s.group ≠ [] ∨
    s.isOpen = false ∧ Task.ReaderFirst ((asio.group.ready s.group).map Prod.fst)
  refused : ∀ e, (asio.group.order s.group).head? = some (.hello, some e) →
    e = .redis .resp3Hello

theorem Sound.awaits_hello (h : Sound asio s) :
  asio.group.awaits s.group .hello = .exec
  := List.mem_singleton.mp (h.places .hello)

/-- Handlers are queued, that of the handshake with an error only if the socket is closed and the
reader is not suspended. -/
theorem InOrder.posted (h : InOrder cfg asio s) (s' : Supervisor G)
    (hposted : asio.group.Posted P s.group s'.group)
    (hopen : s.isOpen = false → s'.isOpen = false)
    (hP : ∀ e, P (.hello, some e) →
      s'.isOpen = false ∧ Task.reader ∈ asio.group.active s.group) :
  InOrder cfg asio s'
  := by
  obtain ⟨new, hnew, hall⟩ := hposted
  refine ⟨?_, ?_, ?_⟩
  · intro hchecked
    rw [hnew.active, List.head?_append, h.unchecked hchecked]
    rfl
  · intro e he
    rw [hnew.ready] at he
    rw [hnew.order, hnew.ready, List.map_append]
    obtain he | he := List.mem_append.mp he
    · obtain horder | ⟨hclosed, hfirst⟩ := h.notified e he
      · exact .inl horder
      · exact .inr ⟨hopen hclosed, hfirst.append _⟩
    · obtain ⟨hclosed, hreader⟩ := hP e (hall _ he)
      have hhello := hnew.suspended _ he
      obtain hreader | hreader := List.mem_append.mp hreader
      · exact .inl fun hnil => by simp [hnil] at hreader
      · have hnot : Task.hello ∉ (asio.group.ready s.group).map Prod.fst :=
          fun hmem => hhello (List.mem_append_right _ hmem)
        exact .inr ⟨hclosed, (Task.ReaderFirst.of_not_mem hreader hnot).append _⟩
  · rw [hnew.order]
    exact h.refused

/-- Two supervisors are the same as to their group, their socket and whether the run was
cancelled. -/
structure Same (s s' : Supervisor G) : Prop where
  group : s'.group = s.group
  isOpen : s'.isOpen = s.isOpen
  cancelRunCalled : s'.cancelRunCalled = s.cancelRunCalled

theorem Same.sound (h : Same s s') (hsound : Sound asio s) :
  Sound asio s'
  := by
  obtain ⟨hplaces, hclosed, hcalled⟩ := hsound
  refine ⟨?_, ?_, ?_⟩
  · rw [h.group]
    exact hplaces
  · rw [h.group, h.isOpen]
    exact hclosed
  · rw [h.group, h.cancelRunCalled]
    exact hcalled

theorem Same.inOrder (h : Same s s') (hinOrder : InOrder cfg asio s) :
  InOrder cfg asio s'
  := by
  apply hinOrder.posted s' (P := fun _ => False)
  · rw [h.group]
    exact .refl _ _
  · rw [h.isOpen]
    exact id
  · rintro e ⟨⟩

/-! ### What a handler does -/

/-- What is done before an operation completes: handlers are queued, and the run may be
cancelled. -/
structure Prepares (asio : Asio G) (s s' : Supervisor G) : Prop where
  sound : Sound asio s'
  inOrder : ∀ {cfg : RunConfig}, InOrder cfg asio s → InOrder cfg asio s'
  posted : asio.group.Posted (fun _ => True) s.group s'.group
  stage : s.stage = .serving → s'.stage = .serving
  willReconnect : s'.willReconnect = s.willReconnect
  flags : s'.isOpen = s.isOpen ∧ s'.cancelRunCalled = s.cancelRunCalled ∨
    s'.isOpen = false ∧ s'.cancelRunCalled = true

namespace Prepares

theorem refl (h : Sound asio s) :
  Prepares asio s s
  := ⟨h, fun hinOrder => hinOrder, .refl _ _, id, rfl, .inl ⟨rfl, rfl⟩⟩

theorem trans (h : Prepares asio s s') (h' : Prepares asio s' s'') :
  Prepares asio s s''
  := by
  refine ⟨h'.sound, fun hinOrder => h'.inOrder (h.inOrder hinOrder), h.posted.trans h'.posted,
    h'.stage ∘ h.stage, h'.willReconnect.trans h.willReconnect, ?_⟩
  obtain ⟨hopen, hcalled⟩ | hlost := h'.flags
  · rw [hopen, hcalled]
    exact h.flags
  · exact .inr hlost

/-- Handlers are queued, not that of the handshake with an error. -/
theorem posted_of_ne {g : G} (h : Sound asio s)
    (hposted : asio.group.Posted P s.group g) (hP : ∀ e, ¬ P (.hello, some e)) :
  Prepares asio s { s with group := g }
  := by
  refine ⟨⟨?_, ?_, ?_⟩, ?_, hposted.mono fun _ _ => trivial, id, rfl, .inl ⟨rfl, rfl⟩⟩
  · show ∀ t, asio.group.awaits g t ∈ t.places
    rw [hposted.awaits]
    exact h.places
  · intro hclosed
    exact ⟨hposted.subset (h.closed hclosed).1, hposted.subset (h.closed hclosed).2⟩
  · intro hcalled
    exact hposted.subset (h.called hcalled)
  · intro cfg hinOrder
    exact hinOrder.posted { s with group := g } hposted id fun e he => absurd he (hP e)

end Prepares

@[simp]
theorem isOpen_abort (s : Supervisor G) (a : Await) :
  (s.abort asio a).isOpen = s.isOpen
  := rfl

@[simp]
theorem stage_abort (s : Supervisor G) (a : Await) :
  (s.abort asio a).stage = s.stage
  := rfl

@[simp]
theorem willReconnect_abort (s : Supervisor G) (a : Await) :
  (s.abort asio a).willReconnect = s.willReconnect
  := rfl

@[simp]
theorem cancelRunCalled_abort (s : Supervisor G) (a : Await) :
  (s.abort asio a).cancelRunCalled = s.cancelRunCalled
  := rfl

theorem close_spec (asio : Asio G) (s : Supervisor G) :
  (s.close asio).isOpen = false ∧ (s.close asio).willReconnect = s.willReconnect ∧
    (s.close asio).cancelRunCalled = s.cancelRunCalled ∧
    (s.close asio).stage = if s.isOpen then s.stage.close asio else s.stage
  := by
  rw [close]
  split
  · exact ⟨rfl, rfl, rfl, rfl⟩
  · rename_i hopen
    exact ⟨by simpa using hopen, rfl, rfl, rfl⟩

theorem cancelRun_flags (asio : Asio G) (s : Supervisor G) :
  (s.cancelRun asio).isOpen = false ∧ (s.cancelRun asio).cancelRunCalled = true ∧
    (s.cancelRun asio).willReconnect = s.willReconnect ∧
    (s.cancelRun asio).stage = if s.isOpen then s.stage.close asio else s.stage
  := by
  obtain ⟨hopen, hreconnect, -, hstage⟩ := close_spec asio s
  rw [cancelRun]
  split
  · rename_i hcalled
    simp only [isOpen_abort, stage_abort, willReconnect_abort]
    exact ⟨hopen, hcalled, hreconnect, hstage⟩
  · simp only [isOpen_abort, stage_abort, willReconnect_abort]
    exact ⟨hopen, trivial, hreconnect, hstage⟩

theorem serving_cancelRun (h : s.stage = .serving) :
  (s.cancelRun asio).stage = .serving
  := by
  rw [(cancelRun_flags asio s).2.2.2, h]
  split <;> rfl

section Group

variable (hgroup : asio.group.Contract)

include hgroup

theorem prepares_abort (h : Sound asio s) (ha : a ≠ .exec) :
  Prepares asio s (s.abort asio a)
  := by
  apply Prepares.posted_of_ne h (hgroup.release s.group a (asio.aborted a)).1
  rintro e ⟨hawaits, -⟩
  exact ha (hawaits.symm.trans h.awaits_hello)

theorem posted_abort (hplace : asio.group.awaits s.group .hello = .exec) (ha : a ≠ .exec) :
  asio.group.Posted (fun p => p.1 ≠ .hello) s.group (s.abort asio a).group
  := by
  apply (hgroup.release s.group a (asio.aborted a)).1.mono
  rintro ⟨t, ec⟩ ⟨hawaits, -⟩ rfl
  exact ha (hawaits.symm.trans hplace)

theorem mem_active_abort (hawaits : asio.group.awaits s.group t = a) :
  t ∈ asio.group.active (s.abort asio a).group
  := (hgroup.release s.group a (asio.aborted a)).2 t hawaits

theorem close_posted (hplace : asio.group.awaits s.group .hello = .exec) :
  asio.group.Posted (fun p => p.1 ≠ .hello) s.group (s.close asio).group ∧
    (s.isOpen = true → ∀ t, asio.group.awaits s.group t = .socket →
      t ∈ asio.group.active (s.close asio).group)
  := by
  rw [close]
  split
  · exact ⟨posted_abort hgroup hplace (by rintro ⟨⟩), fun _ t ht => mem_active_abort hgroup ht⟩
  · rename_i hopen
    exact ⟨.refl _ _, fun h => absurd h hopen⟩

/-- What `cancel_run` does to the group: first what is suspended on the socket, on the timer of the
writer and on the channel is aborted, and then `async_exec`. -/
theorem cancelRun_spec (hplaces : ∀ t, asio.group.awaits s.group t ∈ t.places) :
  ∃ g, asio.group.Posted (fun p => p.1 ≠ .hello) s.group g ∧
    asio.group.Posted (fun _ => True) g (s.cancelRun asio).group ∧
    (s.isOpen = true → Task.reader ∈ asio.group.active g ∧ Task.writer ∈ asio.group.active g) ∧
    (s.cancelRunCalled = false → Task.hello ∈ asio.group.active (s.cancelRun asio).group)
  := by
  have hplace : asio.group.awaits s.group .hello = .exec := List.mem_singleton.mp (hplaces .hello)
  obtain ⟨hclose, hsocket⟩ := close_posted hgroup hplace
  generalize hs₁ : s.close asio = s₁ at hclose hsocket
  have htimer : asio.group.Posted (fun p => p.1 ≠ .hello) s₁.group
      (s₁.abort asio .writerTimer).group :=
    posted_abort hgroup (by rw [hclose.awaits, hplace]) (by rintro ⟨⟩)
  generalize hs₂ : s₁.abort asio .writerTimer = s₂ at htimer
  have hchannel : asio.group.Posted (fun p => p.1 ≠ .hello) s₂.group
      (s₂.abort asio .channel).group :=
    posted_abort hgroup (by rw [htimer.awaits, hclose.awaits, hplace]) (by rintro ⟨⟩)
  have hrelease := hgroup.release (s₂.abort asio .channel).group .exec .operationAborted
  refine ⟨(s₂.abort asio .channel).group, (hclose.trans htimer).trans hchannel, ?_, ?_, ?_⟩
  · rw [cancelRun, hs₁, hs₂]
    split
    · exact .refl _ _
    · exact hrelease.1.mono fun _ _ => trivial
  · intro hopen
    constructor
    · obtain hreader | hreader : asio.group.awaits s.group .reader = .socket ∨
          asio.group.awaits s.group .reader = .channel := by
        simpa [Task.places] using hplaces .reader
      · exact hchannel.subset (htimer.subset (hsocket hopen _ hreader))
      · apply mem_active_abort hgroup
        rw [htimer.awaits, hclose.awaits, hreader]
    · obtain hwriter | hwriter : asio.group.awaits s.group .writer = .socket ∨
          asio.group.awaits s.group .writer = .writerTimer := by
        simpa [Task.places] using hplaces .writer
      · exact hchannel.subset (htimer.subset (hsocket hopen _ hwriter))
      · apply hchannel.subset
        rw [← hs₂]
        apply mem_active_abort hgroup
        rw [hclose.awaits, hwriter]
  · intro hcalled
    have hcalled' : (s₂.abort asio .channel).cancelRunCalled = false := by
      rw [← hs₂, ← hs₁, cancelRunCalled_abort, cancelRunCalled_abort, (close_spec asio s).2.2.1,
        hcalled]
    rw [cancelRun, hs₁, hs₂, hcalled']
    apply hrelease.2
    rw [hchannel.awaits, htimer.awaits, hclose.awaits, hplace]

/-- The run is cancelled, after handlers may have been queued. -/
theorem Prepares.lost (h : Sound asio s)
    (hposted : asio.group.Posted (fun _ => True) s.group s'.group) (hstage : s'.stage = s.stage)
    (hreconnect : s'.willReconnect = s.willReconnect) (hopen : s'.isOpen = s.isOpen)
    (hcalled : s'.cancelRunCalled = s.cancelRunCalled)
    (hinOrder : ∀ {cfg : RunConfig}, InOrder cfg asio s → InOrder cfg asio (s'.cancelRun asio)) :
  Prepares asio s (s'.cancelRun asio)
  := by
  obtain ⟨hclosed, hcalled', hreconnect', -⟩ := cancelRun_flags asio s'
  have hplaces : ∀ t, asio.group.awaits s'.group t ∈ t.places := by
    rw [hposted.awaits]
    exact h.places
  obtain ⟨g, hfirst, hsecond, hsocket, hhello⟩ := cancelRun_spec hgroup hplaces
  have hall : asio.group.Posted (fun _ => True) s.group (s'.cancelRun asio).group :=
    hposted.trans ((hfirst.mono fun _ _ => trivial).trans hsecond)
  refine ⟨⟨?_, fun _ => ?_, fun _ => ?_⟩, hinOrder, hall, ?_, hreconnect'.trans hreconnect,
    .inr ⟨hclosed, hcalled'⟩⟩
  · rw [hall.awaits]
    exact h.places
  · cases hs : s.isOpen with
    | true =>
        obtain ⟨hreader, hwriter⟩ := hsocket (hopen.trans hs)
        exact ⟨hsecond.subset hreader, hsecond.subset hwriter⟩
    | false =>
        obtain ⟨hreader, hwriter⟩ := h.closed hs
        exact ⟨hall.subset hreader, hall.subset hwriter⟩
  · cases hs : s.cancelRunCalled with
    | true => exact hall.subset (h.called hs)
    | false => exact hhello (hcalled.trans hs)
  · intro hserving
    exact serving_cancelRun (hstage.trans hserving)

theorem prepares_cancelRun (h : Sound asio s) :
  Prepares asio s (s.cancelRun asio)
  := by
  apply Prepares.lost hgroup h (.refl _ _) rfl rfl rfl rfl
  intro cfg hinOrder
  obtain ⟨hclosed, -, -, -⟩ := cancelRun_flags asio s
  obtain ⟨g, hfirst, hsecond, hsocket, -⟩ := cancelRun_spec hgroup h.places
  have hreader : Task.reader ∈ asio.group.active g := by
    cases hs : s.isOpen with
    | true => exact (hsocket hs).1
    | false => exact hfirst.subset (h.closed hs).1
  have hlost : InOrder cfg asio { s with group := g, isOpen := false } :=
    hinOrder.posted { s with group := g, isOpen := false } hfirst (fun _ => rfl)
      fun e hne => absurd rfl hne
  exact hlost.posted (s.cancelRun asio) hsecond (fun _ => hclosed) fun _ _ => ⟨hclosed, hreader⟩

/-- `commit_read` has failed. -/
theorem prepares_fail (h : Sound asio s) (hreader : Task.reader ∈ asio.group.active s.group)
    (e : ErrorCode) (notified : Option Task) :
  Prepares asio s ((s.notify asio e notified).cancelRun asio)
  := by
  have hnotify : asio.group.Posted (fun _ => True) s.group (s.notify asio e notified).group ∧
      (s.notify asio e notified).stage = s.stage ∧
      (s.notify asio e notified).willReconnect = s.willReconnect ∧
      (s.notify asio e notified).isOpen = s.isOpen ∧
      (s.notify asio e notified).cancelRunCalled = s.cancelRunCalled := by
    cases notified with
    | none => exact ⟨.refl _ _, rfl, rfl, rfl, rfl⟩
    | some t =>
        rw [notify]
        split
        · exact ⟨(hgroup.wake _ _ _).mono fun _ _ => trivial, rfl, rfl, rfl, rfl⟩
        · exact ⟨.refl _ _, rfl, rfl, rfl, rfl⟩
  obtain ⟨hposted, hstage, hreconnect, hopen, hcalled⟩ := hnotify
  apply Prepares.lost hgroup h hposted hstage hreconnect hopen hcalled
  intro cfg hinOrder
  have hplaces : ∀ t, asio.group.awaits (s.notify asio e notified).group t ∈ t.places := by
    rw [hposted.awaits]
    exact h.places
  obtain ⟨g, hfirst, hsecond, -, -⟩ := cancelRun_spec hgroup hplaces
  have hall := hposted.trans ((hfirst.mono fun _ _ => trivial).trans hsecond)
  have hclosed := (cancelRun_flags asio (s.notify asio e notified)).1
  exact hinOrder.posted _ hall (fun _ => hclosed) fun _ _ => ⟨hclosed, hreader⟩

theorem prepares_wake (h : Sound asio s) (hne : t = .hello → ec = none) :
  Prepares asio s { s with group := asio.group.wake s.group t ec }
  := by
  apply Prepares.posted_of_ne h (hgroup.wake s.group t ec)
  intro e heq
  cases heq
  cases hne rfl

theorem prepares_cancelWaiting (h : Sound asio s) (waits : Bool) :
  Prepares asio s (s.cancelWaiting asio waits)
  := by
  rw [cancelWaiting]
  split
  · exact prepares_wake hgroup h (by rintro ⟨⟩)
  · exact .refl h

theorem prepares_cancelHealthCheck (h : Sound asio s) :
  Prepares asio s (s.cancelHealthCheck asio)
  := by
  have hping : Prepares asio s (s.abort asio .pingTimer) :=
    prepares_abort hgroup h (by rintro ⟨⟩)
  exact hping.trans (prepares_abort hgroup hping.sound (by rintro ⟨⟩))

/-- What the handler of an operation does when it is resumed with some result.

* It completes.  The handshake is the first to do so with an error only if the server refuses it or
  it is resumed with an error, and the reader cancels the run if it is resumed with an error.
* It suspends again, the reader and the writer only on an open socket. -/
inductive Handled (cfg : RunConfig) (asio : Asio G) (s : Supervisor G) (t : Task)
    (ec : Option ErrorCode) : Supervisor G → Prop where
  | complete {s' : Supervisor G} {r : Option ErrorCode} : Prepares asio s s' →
      (∀ e, t = .hello → r = some e → asio.group.order s.group = [] →
        e = .redis .resp3Hello ∨ ec ≠ none) →
      (t = .reader → ec ≠ none → s'.cancelRunCalled = true) →
      Handled cfg asio s t ec (s'.complete asio t r)
  | suspend {a : Await} : a ∈ t.places → t ≠ .hello → (t = .ping → cfg.checked = true) →
      (t = .reader ∨ t = .writer → s.isOpen = true) → (t = .reader → ec = none) →
      Handled cfg asio s t ec (s.suspend asio t a)

omit hgroup in
/-- An operation other than the handshake and the reader completes. -/
theorem Handled.other {r : Option ErrorCode} (h : Prepares asio s s') (hhello : t ≠ .hello)
    (hreader : t ≠ .reader) :
  Handled cfg asio s t ec (s'.complete asio t r)
  := .complete h (fun _ ht => absurd ht hhello) fun ht => absurd ht hreader

theorem handled_helloOp (h : Sound asio s) :
  Handled cfg asio s .hello ec (s.helloOp asio ec f)
  := by
  have hlost : Prepares asio s (s.cancelRun asio) := prepares_cancelRun hgroup h
  cases ec with
  | some e => exact .complete hlost (fun _ _ _ _ => .inr (by rintro ⟨⟩)) (by rintro ⟨⟩)
  | none =>
      rw [helloOp]
      split
      · rename_i hcancelled
        have horder := hgroup.isCancelled _ _ hcancelled
        exact .complete hlost (fun _ _ _ hnil => absurd hnil horder) (by rintro ⟨⟩)
      · split
        · refine .complete hlost ?_ (by rintro ⟨⟩)
          rintro e - ⟨⟩ -
          exact .inl rfl
        · exact .complete (.refl h) (by rintro _ _ ⟨⟩) (by rintro ⟨⟩)

theorem handled_pingOp (h : Sound asio s) :
  Handled cfg asio s .ping ec (s.pingOp cfg asio ec f)
  := by
  have hcompletes : ∀ {s' : Supervisor G} {r : Option ErrorCode}, Prepares asio s s' →
      Handled cfg asio s .ping ec (s'.complete asio .ping r) :=
    fun h => .other h (by rintro ⟨⟩) (by rintro ⟨⟩)
  rw [pingOp]
  split
  · exact hcompletes (.refl h)
  · rename_i hchecked
    have hsuspends : ∀ {a : Await}, a ∈ Task.ping.places →
        Handled cfg asio s .ping ec (s.suspend asio .ping a) :=
      fun ha => .suspend ha (by rintro ⟨⟩) (fun _ => by simpa using hchecked)
        (by simp) (by rintro ⟨⟩)
    split
    · cases ec with
      | some e => exact hcompletes (prepares_abort hgroup h (by rintro ⟨⟩))
      | none =>
          rw [pingExecuted]
          dsimp only
          split
          · apply hcompletes
            split
            · exact prepares_abort hgroup h (by rintro ⟨⟩)
            · have hcancel : Prepares asio s (s.cancelRun asio) := prepares_cancelRun hgroup h
              exact hcancel.trans (prepares_abort hgroup hcancel.sound (by rintro ⟨⟩))
          · exact hsuspends (by simp [Task.places])
    · cases ec with
      | some e => exact hcompletes (.refl h)
      | none =>
          rw [pingExpired]
          split
          · exact hcompletes (.refl h)
          · exact hsuspends (by simp [Task.places])

theorem handled_checkTimeoutOp (h : Sound asio s) :
  Handled cfg asio s .checkTimeout ec (s.checkTimeoutOp cfg asio ec f)
  := by
  have hcompletes : ∀ {s' : Supervisor G} {r : Option ErrorCode}, Prepares asio s s' →
      Handled cfg asio s .checkTimeout ec (s'.complete asio .checkTimeout r) :=
    fun h => .other h (by rintro ⟨⟩) (by rintro ⟨⟩)
  unfold checkTimeoutOp
  split
  · exact hcompletes (.refl h)
  · cases ec with
    | some e => exact hcompletes (.refl h)
    | none =>
        cases f with
        | refused => exact hcompletes (.refl h)
        | nothing =>
            have habort : Prepares asio s (s.abort asio .pingTimer) :=
              prepares_abort hgroup h (by rintro ⟨⟩)
            have hlost := habort.trans (prepares_cancelRun hgroup habort.sound)
            apply hcompletes
            have hsame : Same ((s.abort asio .pingTimer).cancelRun asio)
                { (s.abort asio .pingTimer).cancelRun asio with checkerHasExited := true } :=
              ⟨rfl, rfl, rfl⟩
            exact ⟨hsame.sound hlost.sound, fun hinOrder => hsame.inOrder (hlost.inOrder hinOrder),
              hlost.posted, hlost.stage, hlost.willReconnect, hlost.flags⟩
        | done | more | removed | failed _ _ =>
            exact .suspend (by simp [Task.places]) (by rintro ⟨⟩) (by rintro ⟨⟩)
              (by simp) (by rintro ⟨⟩)

theorem handled_readerOp (h : Sound asio s) (hactive : Task.reader ∈ asio.group.active s.group) :
  Handled cfg asio s .reader ec (s.readerOp asio ec f)
  := by
  cases ec with
  | some e =>
      exact .complete (prepares_cancelRun hgroup h) (by rintro _ ⟨⟩)
        fun _ _ => (cancelRun_flags asio s).2.1
  | none =>
      have hcompletes : ∀ {s' : Supervisor G} {r : Option ErrorCode}, Prepares asio s s' →
          Handled cfg asio s .reader none (s'.complete asio .reader r) :=
        fun h => .complete h (by rintro _ ⟨⟩) fun _ hne => absurd rfl hne
      unfold readerOp
      dsimp only
      split
      · rename_i hopen
        have hsuspends : ∀ {a : Await}, a ∈ Task.reader.places →
            Handled cfg asio s .reader none (s.suspend asio .reader a) :=
          fun ha => .suspend ha (by rintro ⟨⟩) (by rintro ⟨⟩) (fun _ => hopen) fun _ => rfl
        cases f with
        | failed e notified => exact hcompletes (prepares_fail hgroup h hactive e notified)
        | more => exact hsuspends (by simp [Task.places])
        | done | refused | nothing | removed => exact hsuspends (by simp [Task.places])
      · exact hcompletes (.refl h)

omit hgroup in
theorem handled_write (h : Sound asio s) :
  Handled cfg asio s .writer ec (s.write asio f)
  := by
  rw [write]
  split
  · rename_i hopen
    refine .suspend ?_ (by rintro ⟨⟩) (by rintro ⟨⟩) (fun _ => hopen) (by rintro ⟨⟩)
    split <;> simp [Task.places]
  · exact .other (.refl h) (by rintro ⟨⟩) (by rintro ⟨⟩)

theorem handled_writerOp (h : Sound asio s) :
  Handled cfg asio s .writer ec (s.writerOp asio ec f)
  := by
  cases ec with
  | some e =>
      rw [writerOp]
      split
      · exact .other (prepares_cancelRun hgroup h) (by rintro ⟨⟩) (by rintro ⟨⟩)
      · exact handled_write h
  | none => exact handled_write h

theorem handled_handler (h : Sound asio s) (hqueued : asio.group.queued s.group t = some ec) :
  Handled cfg asio s t ec (s.handler cfg asio ec f t)
  := by
  cases t with
  | hello => exact handled_helloOp hgroup h
  | ping => exact handled_pingOp hgroup h
  | checkTimeout => exact handled_checkTimeoutOp hgroup h
  | reader => exact handled_readerOp hgroup h (mem_active_of_queued hqueued)
  | writer => exact handled_writerOp hgroup h

end Group

/-! ### What holds while a connection is served -/

/-- What holds while a connection is served: some operation has not completed, and if the socket is
closed the run was cancelled, or the reader is about to do it. -/
structure Served (asio : Asio G) (s : Supervisor G) : Prop where
  sound : Sound asio s
  unfinished : (asio.group.order s.group).length < Task.all.length
  lost : s.isOpen = false → s.cancelRunCalled = true ∨
    ∃ e, asio.group.queued s.group .reader = some (some e)

theorem groupDone_stage (s : Supervisor G) :
  (s.groupDone asio).stage ≠ .serving
  := by
  rw [groupDone]
  dsimp only
  split
  · rintro ⟨⟩
  · rintro ⟨⟩
  · split <;> rintro ⟨⟩

section Group

variable (hgroup : asio.group.Contract)

include hgroup

theorem Sound.complete {r : Option ErrorCode} (h : Sound asio s)
    (ht : t ∈ (asio.group.ready s.group).map Prod.fst) :
  Sound asio { s with group := asio.group.complete s.group t r }
  := by
  have hsubset := hgroup.active_complete (r := r) ht
  refine ⟨?_, ?_, fun hcalled => hsubset (h.called hcalled)⟩
  · show ∀ t', asio.group.awaits (asio.group.complete s.group t r) t' ∈ t'.places
    rw [(hgroup.complete _ _ _ ht).2.1]
    exact h.places
  · intro hclosed
    exact ⟨hsubset (h.closed hclosed).1, hsubset (h.closed hclosed).2⟩

theorem Sound.suspend (h : Sound asio s) (ht : t ∈ (asio.group.ready s.group).map Prod.fst)
    (ha : a ∈ t.places) (hhello : t ≠ .hello)
    (hopen : t = .reader ∨ t = .writer → s.isOpen = true) :
  Sound asio (s.suspend asio t a)
  := by
  refine ⟨?_, ?_, fun hcalled => hgroup.active_suspend ht hhello.symm (h.called hcalled)⟩
  · intro t'
    show asio.group.awaits (asio.group.suspend s.group t a) t' ∈ t'.places
    rw [(hgroup.suspend _ _ _ ht).2.1]
    by_cases heq : t' = t
    · subst heq
      rw [Function.update_self]
      exact ha
    · rw [Function.update_of_ne heq]
      exact h.places t'
  · intro hclosed
    have hne : ∀ t', t' = .reader ∨ t' = .writer → t' ≠ t := by
      rintro t' ht' rfl
      cases (hopen ht').symm.trans hclosed
    exact ⟨hgroup.active_suspend ht (hne _ (.inl rfl)) (h.closed hclosed).1,
      hgroup.active_suspend ht (hne _ (.inr rfl)) (h.closed hclosed).2⟩

/-- The handler of an operation runs. -/
theorem Handled.served (h : Served asio s)
    (hqueued : asio.group.queued s.group t = some ec) (hhandled : Handled cfg asio s t ec s')
    (hserving' : s'.stage = .serving) :
  Served asio s'
  := by
  cases hhandled with
  | @complete s₁ r hprepares _ hreader =>
      have hqueued₁ := hprepares.posted.queued hqueued
      have ht := List.mem_map_of_mem (f := Prod.fst) (mem_ready_of_queued hqueued₁)
      obtain ⟨horder, -, -⟩ := hgroup.complete s₁.group t r ht
      by_cases hall : (asio.group.order (asio.group.complete s₁.group t r)).length = Task.all.length
      · rw [Supervisor.complete, if_pos hall] at hserving'
        exact absurd hserving' (groupDone_stage _)
      · rw [Supervisor.complete, if_neg hall]
        refine ⟨hprepares.sound.complete hgroup ht, ?_, ?_⟩
        · have hlength := congrArg List.length hprepares.posted.order
          have hlt := h.unfinished
          rw [horder, List.length_append, List.length_singleton] at hall
          show (asio.group.order (asio.group.complete s₁.group t r)).length < _
          rw [horder, List.length_append, List.length_singleton]
          omega
        · show s₁.isOpen = false → s₁.cancelRunCalled = true ∨ _
          intro hclosed
          obtain ⟨hopen, hcalled⟩ | ⟨-, hcalled⟩ := hprepares.flags
          · obtain hbefore | ⟨e, he⟩ := h.lost (hopen.symm.trans hclosed)
            · exact .inl (hcalled.trans hbefore)
            · by_cases hne : Task.reader = t
              · subst hne
                cases hqueued.symm.trans he
                exact .inl (hreader rfl (by rintro ⟨⟩))
              · have he₁ := hprepares.posted.queued he
                exact .inr ⟨e, hgroup.queued_complete ht hne he₁⟩
          · exact .inl hcalled
  | @suspend a ha hhello _ hopen hreader =>
      have ht := List.mem_map_of_mem (f := Prod.fst) (mem_ready_of_queued hqueued)
      obtain ⟨horder, -, -⟩ := hgroup.suspend s.group t a ht
      refine ⟨h.sound.suspend hgroup ht ha hhello hopen, ?_, ?_⟩
      · show (asio.group.order (asio.group.suspend s.group t a)).length < _
        rw [horder]
        exact h.unfinished
      · intro hclosed
        obtain hcalled | ⟨e, he⟩ := h.lost hclosed
        · exact .inl hcalled
        · have hne : Task.reader ≠ t := by
            rintro rfl
            cases (hopen (.inl rfl)).symm.trans hclosed
          refine .inr ⟨e, ?_⟩
          show asio.group.queued (asio.group.suspend s.group t a) .reader = _
          rw [hgroup.queued_suspend ht hne]
          exact he

omit hgroup in
theorem Served.prepares (h : Served asio s) (hprepares : Prepares asio s s') :
  Served asio s'
  := by
  refine ⟨hprepares.sound, ?_, ?_⟩
  · rw [hprepares.posted.order]
    exact h.unfinished
  · intro hclosed
    obtain ⟨hopen, hcalled⟩ | ⟨-, hcalled⟩ := hprepares.flags
    · obtain hbefore | ⟨e, he⟩ := h.lost (hopen.symm.trans hclosed)
      · exact .inl (hcalled.trans hbefore)
      · exact .inr ⟨e, hprepares.posted.queued he⟩
    · exact .inl hcalled

omit hgroup in
theorem Same.served (hsame : Same s s') (h : Served asio s) :
  Served asio s'
  := by
  refine ⟨hsame.sound h.sound, ?_, ?_⟩
  · rw [hsame.group]
    exact h.unfinished
  · rw [hsame.isOpen, hsame.cancelRunCalled, hsame.group]
    exact h.lost

theorem Served.handle (h : Served asio s) (hpossible : s.Possible asio (.handle t f))
    (hserving' : (s.handle cfg asio t f).stage = .serving) :
  Served asio (s.handle cfg asio t f)
  := by
  obtain ⟨-, hsome⟩ := hpossible
  obtain ⟨ec, hqueued⟩ := Option.isSome_iff_exists.mp hsome
  rw [Supervisor.handle, hqueued] at hserving' ⊢
  exact Handled.served hgroup h hqueued (handled_handler hgroup h.sound hqueued) hserving'

/-- What `cancel` does, after it may have changed what is not seen of the group. -/
theorem prepares_cancel (h : Sound asio s) (op : Operation) (waits : Bool) :
  ∃ s₀, Same s s₀ ∧ (s.stage = .serving → s₀.stage = .serving) ∧
    Prepares asio s₀ (s.cancel asio waits op)
  := by
  have hself : Same s s := ⟨rfl, rfl, rfl⟩
  have hresolve : s.stage = .serving → s.stage.cancelResolve asio = .serving := by
    intro hserving
    rw [hserving]
    rfl
  cases op with
  | resolve =>
      have hsame : Same s { s with stage := s.stage.cancelResolve asio } := ⟨rfl, rfl, rfl⟩
      exact ⟨_, hsame, hresolve, .refl (hsame.sound h)⟩
  | exec => exact ⟨s, hself, id, prepares_cancelWaiting hgroup h waits⟩
  | run => exact ⟨s, hself, id, prepares_cancelRun hgroup h⟩
  | receive => exact ⟨s, hself, id, prepares_abort hgroup h (by rintro ⟨⟩)⟩
  | reconnection =>
      have hsame : Same s { s with willReconnect := false } := ⟨rfl, rfl, rfl⟩
      exact ⟨_, hsame, id, .refl (hsame.sound h)⟩
  | healthCheck => exact ⟨s, hself, id, prepares_cancelHealthCheck hgroup h⟩
  | connect | sslHandshake => exact ⟨s, hself, id, .refl h⟩
  | all =>
      have hsame : Same s
          { s with stage := s.stage.cancelResolve asio, willReconnect := false } := ⟨rfl, rfl, rfl⟩
      have hhealth := prepares_cancelHealthCheck hgroup (hsame.sound h)
      have hrun := hhealth.trans (prepares_cancelRun hgroup hhealth.sound)
      have hreceive := hrun.trans (prepares_abort (a := .channel) hgroup hrun.sound (by rintro ⟨⟩))
      exact ⟨_, hsame, hresolve,
        hreceive.trans (prepares_cancelWaiting hgroup hreceive.sound waits)⟩

theorem Served.cancel (h : Served asio s) (hserving : s.stage = .serving) (op : Operation)
    (waits : Bool) :
  Served asio (s.cancel asio waits op) ∧ (s.cancel asio waits op).stage = .serving
  := by
  obtain ⟨s₀, hsame, hstage, hprepares⟩ := prepares_cancel hgroup h.sound op waits
  exact ⟨(hsame.served h).prepares hprepares, hprepares.stage (hstage hserving)⟩

end Group

/-- The group is started. -/
theorem Served.startGroup (hgroup : asio.group.Contract) (cfg : RunConfig) (s : Supervisor G) :
  Served asio (s.startGroup cfg asio)
  := by
  have hplaces : ∀ t : Task, t.first ∈ t.places := by
    intro t
    cases t <;> decide
  refine ⟨⟨?_, ?_, by rintro ⟨⟩⟩, ?_, ?_⟩
  · show ∀ t, asio.group.awaits (asio.group.start _ _ _) t ∈ t.places
    rw [hgroup.awaits_start]
    exact hplaces
  · show s.isOpen = false → Task.reader ∈ asio.group.active (asio.group.start _ _ _) ∧
      Task.writer ∈ asio.group.active (asio.group.start _ _ _)
    intro hclosed
    rw [active, hgroup.order_start, hgroup.ready_start, hclosed]
    simp
  · show (asio.group.order (asio.group.start _ _ _)).length < _
    rw [hgroup.order_start]
    split <;> decide
  · show s.isOpen = false → _ ∨ ∃ e, asio.group.queued (asio.group.start _ _ _) .reader = _
    intro hclosed
    refine .inr ⟨asio.badDescriptor, ?_⟩
    rw [queued, hgroup.ready_start, hclosed]
    split <;> rfl

theorem InOrder.startGroup (hgroup : asio.group.Contract) (cfg : RunConfig) (s : Supervisor G) :
  InOrder cfg asio (s.startGroup cfg asio)
  := by
  refine ⟨?_, ?_, ?_⟩
  · show cfg.checked = false → (asio.group.active (asio.group.start _ _ _)).head? = _
    intro hchecked
    rw [active, hgroup.order_start, hgroup.ready_start, hchecked]
    rfl
  · show ∀ e, _ ∈ asio.group.ready (asio.group.start _ _ _) → _
    rw [hgroup.ready_start]
    intro e he
    split at he <;> split at he <;> simp at he
  · show ∀ e, (asio.group.order (asio.group.start _ _ _)).head? = _ → _
    rw [hgroup.order_start]
    intro e he
    split at he <;> simp at he

theorem serving_of_cancelRun (h : (s.cancelRun asio).stage = .serving) :
  s.stage = .serving
  := by
  rw [(cancelRun_flags asio s).2.2.2] at h
  split at h
  · exact RunStage.serving_of_close h
  · exact h

theorem stage_cancelWaiting (s : Supervisor G) (waits : Bool) :
  (s.cancelWaiting asio waits).stage = s.stage
  := by
  rw [cancelWaiting]
  split <;> rfl

theorem serving_of_cancel {op : Operation} {waits : Bool}
    (h : (s.cancel asio waits op).stage = .serving) :
  s.stage = .serving
  := by
  cases op with
  | resolve => exact RunStage.serving_of_cancelResolve h
  | exec => exact (s.stage_cancelWaiting waits).symm.trans h
  | run => exact serving_of_cancelRun h
  | receive | reconnection | healthCheck | connect | sslHandshake => exact h
  | all =>
      rw [cancel, stage_cancelWaiting] at h
      exact RunStage.serving_of_cancelResolve (serving_of_cancelRun h)

/-- If `run_op` serves a connection when it is resumed, then it has started the group, or was not
resumed. -/
theorem resume_serving (hserving : (s.resume cfg asio).stage = .serving) :
  s.resume cfg asio = s.startGroup cfg asio ∨ s.resume cfg asio = s ∧ s.stage = .serving
  := by
  rw [Supervisor.resume] at hserving ⊢
  split at hserving
  · cases hserving
  · cases hserving
  · cases hserving
  · split at hserving
    · cases hserving
    · rename_i hssl
      exact .inl (if_neg hssl)
  · cases hserving
  · exact .inl rfl
  · cases hserving
  · split at hserving <;> cases hserving
  · exact .inr ⟨rfl, hserving⟩

theorem Sound.ends_hello (h : Sound asio s)
    (hends : (asio.group.awaits s.group t).ends s.isOpen ec = true) :
  t = .hello → ec = none
  := by
  rintro rfl
  rw [h.awaits_hello, Await.ends, Bool.and_eq_true] at hends
  exact Option.isNone_iff_eq_none.mp hends.2

theorem served_step {o : Occurrence} (hgroup : asio.group.Contract)
    (h : s.stage = .serving → Served asio s) (hstep : s.Step cfg asio o s')
    (hserving : s'.stage = .serving) :
  Served asio s'
  := by
  obtain ⟨hpossible, rfl⟩ := hstep
  cases o with
  | ended ec =>
      have hsame : Same s { s with stage := s.stage.ended ec } := ⟨rfl, rfl, rfl⟩
      exact hsame.served (h (RunStage.serving_of_ended hserving))
  | tries => cases hpossible.1.symm.trans hserving
  | resume =>
      obtain hstart | ⟨hstays, hbefore⟩ := resume_serving hserving
      · rw [next, hstart]
        exact Served.startGroup hgroup cfg s
      · rw [next, hstays]
        exact h hbefore
  | wake t ec =>
      have hserved := h hpossible.1
      exact hserved.prepares
        (prepares_wake hgroup hserved.sound (hserved.sound.ends_hello hpossible.2.2))
  | handle t f => exact (h hpossible.1).handle hgroup hpossible hserving
  | cancel op waits =>
      have hbefore := serving_of_cancel hserving
      exact ((h hbefore).cancel hgroup hbefore op waits).1

theorem Served.run {willReconnect : Bool} {os : List Occurrence} (hgroup : asio.group.Contract)
    (hrun : Run (Supervisor.Step cfg asio) (.start asio willReconnect) os s) :
  s.stage = .serving → Served asio s
  := hrun.invariant (I := fun s => s.stage = .serving → Served asio s)
    (fun h hstep => served_step hgroup h hstep) (by rintro ⟨⟩)

end Supervisor

end Redis
