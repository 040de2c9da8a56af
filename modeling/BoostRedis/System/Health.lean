import BoostRedis.Adapter.Generic
import BoostRedis.General.Run
import BoostRedis.Multiplexer.Delivery

/-!
# The health checker

While a connection is up, `ping_op` executes a PING, waits for the ping interval and starts again.
`check_timeout_op` wakes up after twice the interval, and reports a timeout if no reply has come
since it looked last.  The two share the response, two timers and a flag, which stay as they are
from one connection to the next.

Time passes by steps of their own, so that an operation may be resumed at any time after its timer
has expired.
-/

namespace Redis

open Resp3

/-! ### Timers -/

/-- A wait on a timer: when the timer expires, and when the wait was cancelled. -/
structure TimerWait where
  expiry : ℕ
  cancelled : Option ℕ := none
deriving DecidableEq, Repr

namespace TimerWait

/-- `cancel`, at some time. -/
def cancel (w : TimerWait) (now : ℕ) : TimerWait :=
  { w with cancelled := some (w.cancelled.getD now) }

/-- Whether the wait may complete without an error: the timer has expired, and it had already when
the wait was cancelled. -/
def expires (w : TimerWait) (now : ℕ) : Bool :=
  w.expiry ≤ now && w.cancelled.all (w.expiry ≤ ·)

/-- Whether the wait may complete with an error. -/
def aborts (w : TimerWait) : Bool := w.cancelled.isSome

end TimerWait

/-! ### The operations -/

/-- Where `ping_op` is: it executes a PING, the reply to which may have arrived, or it waits
before the next one. -/
inductive PingOp where
  | executing (since : ℕ)
  | answered (since : ℕ)
  | waiting (w : TimerWait)
  | completed (ec : Option ErrorCode)
deriving DecidableEq

/-- Where `check_timeout_op` is. -/
inductive CheckTimeoutOp where
  | waiting (w : TimerWait)
  | completed (ec : Option ErrorCode)
deriving DecidableEq

/-- The members of `health_checker` and its operations.  The connection is open or not, an
exception may have been thrown, and it is recorded how many times a PING was executed, and when
the connection was established or the last reply without an error came. -/
structure HealthChecker where
  now : ℕ := 0
  isOpen : Bool := false
  ping : PingOp := .completed none
  check : CheckTimeoutOp := .completed none
  resp : Result (List Node) := .ok []
  thrown : Option Thrown := none
  checkerHasExited : Bool := false
  pings : ℕ := 0
  lastPong : ℕ := 0

/-- What happens to the health checker.

* A connection is established, or lost.
* Time passes.
* The reply to a PING arrives, and `async_exec` completes.
* A wait completes, because the timer has expired or because it was cancelled.
* The health check is cancelled. -/
inductive Beat where
  | connect
  | lose
  | wait (d : ℕ)
  | reply (m : Message)
  | executed (ec : Option ErrorCode)
  | pingExpires
  | pingAborts
  | checkExpires
  | checkAborts
  | cancel

def PingOp.isExecuting : PingOp → Bool
  | .executing _ => true
  | _ => false

def PingOp.isAnswered : PingOp → Bool
  | .answered _ => true
  | _ => false

def PingOp.isCompleted : PingOp → Bool
  | .completed _ => true
  | _ => false

def CheckTimeoutOp.isCompleted : CheckTimeoutOp → Bool
  | .completed _ => true
  | _ => false

namespace HealthChecker

/-- `ping_op` from the beginning of its loop. -/
def pingLoop (interval : ℕ) (s : HealthChecker) : HealthChecker :=
  if interval = 0 then { s with ping := .completed none }
  else if s.checkerHasExited then { s with ping := .completed none }
  else { s with ping := .executing s.now, pings := s.pings + 1 }

/-- `check_timeout_op` from the beginning of its loop. -/
def checkLoop (interval : ℕ) (s : HealthChecker) : HealthChecker :=
  if interval = 0 then { s with check := .completed none }
  else { s with check := .waiting { expiry := s.now + 2 * interval } }

/-- `ping_timer_.cancel()`. -/
def cancelPing (s : HealthChecker) : HealthChecker :=
  match s.ping with
  | .waiting w => { s with ping := .waiting (w.cancel s.now) }
  | _ => s

/-- `wait_timer_.cancel()`. -/
def cancelCheck (s : HealthChecker) : HealthChecker :=
  match s.check with
  | .waiting w => { s with check := .waiting (w.cancel s.now) }
  | _ => s

/-- `health_checker::cancel`. -/
def cancel (s : HealthChecker) : HealthChecker := s.cancelPing.cancelCheck

/-- What `check_timeout_op` does when its timer has expired. -/
def checkTimeout (interval : ℕ) (s : HealthChecker) : HealthChecker :=
  match s.resp with
  | .error _ => { s with check := .completed none }
  | .ok [] =>
      { s.cancelPing with
        isOpen := false
        checkerHasExited := true
        check := .completed (some (.redis .pongTimeout)) }
  | .ok (_ :: _) => checkLoop interval { s with resp := .ok [] }

/-- The reply to a PING is given to the adapter of the response. -/
def receive (s : HealthChecker) (m : Message) : HealthChecker :=
  match feedUntil collect m.nodes s.resp with
  | .error t => { s with thrown := some t }
  | .ok (.error e, _) => { s with resp := .error e, ping := .answered s.now }
  | .ok (.ok nds, _) => { s with resp := .ok nds, ping := .answered s.now, lastPong := s.now }

/-- What a step does.  When a connection is established, `ping_op` is started before the flag is
reset by `async_check_timeout`.  When it is lost, the operations are cancelled. -/
def next (interval : ℕ) (s : HealthChecker) : Beat → HealthChecker
  | .connect =>
      checkLoop interval
        { pingLoop interval { s with isOpen := true, lastPong := s.now } with
          checkerHasExited := false }
  | .lose => { s.cancel with isOpen := false }
  | .wait d => { s with now := s.now + d }
  | .reply m => s.receive m
  | .executed none => { s with ping := .waiting { expiry := s.now + interval } }
  | .executed (some ec) => { s.cancelCheck with ping := .completed (some ec) }
  | .pingExpires => s.pingLoop interval
  | .pingAborts => { s with ping := .completed (some .operationAborted) }
  | .checkExpires => s.checkTimeout interval
  | .checkAborts => { s with check := .completed (some .operationAborted) }
  | .cancel => s.cancel

/-- When a step is possible.  Nothing happens any more after an exception. -/
def possible (s : HealthChecker) : Beat → Bool
  | .connect => s.thrown.isNone && !s.isOpen && s.ping.isCompleted && s.check.isCompleted
  | .lose => s.thrown.isNone && s.isOpen
  | .wait _ => true
  | .reply _ => s.thrown.isNone && s.isOpen && s.ping.isExecuting
  | .executed none => s.thrown.isNone && s.ping.isAnswered
  | .executed (some _) => s.thrown.isNone && (s.ping.isExecuting || s.ping.isAnswered)
  | .pingExpires =>
      s.thrown.isNone &&
        match s.ping with
        | .waiting w => w.expires s.now
        | _ => false
  | .pingAborts =>
      s.thrown.isNone &&
        match s.ping with
        | .waiting w => w.aborts
        | _ => false
  | .checkExpires =>
      s.thrown.isNone &&
        match s.check with
        | .waiting w => w.expires s.now
        | _ => false
  | .checkAborts =>
      s.thrown.isNone &&
        match s.check with
        | .waiting w => w.aborts
        | _ => false
  | .cancel => s.thrown.isNone

def Step (interval : ℕ) (s : HealthChecker) (a : Beat) (s' : HealthChecker) : Prop :=
  s.possible a = true ∧ s' = s.next interval a

/-- A connection that is just established. -/
def connected (interval : ℕ) : HealthChecker := next interval {} .connect

/-! ### When a step is possible -/

section Possible

variable {s : HealthChecker} {m : Message}

theorem executing_of_reply (h : s.possible (.reply m) = true) :
  s.thrown = none ∧ s.isOpen = true ∧ ∃ since, s.ping = .executing since
  := by
  simp only [possible, Bool.and_eq_true, Option.isNone_iff_eq_none] at h
  obtain ⟨⟨hthrown, hopen⟩, hexecuting⟩ := h
  cases hping : s.ping with
  | executing since => exact ⟨hthrown, hopen, since, rfl⟩
  | answered _ | waiting _ | completed _ =>
      rw [hping] at hexecuting
      cases hexecuting

theorem answered_of_executed (h : s.possible (.executed none) = true) :
  ∃ since, s.ping = .answered since
  := by
  simp only [possible, Bool.and_eq_true] at h
  cases hping : s.ping with
  | answered since => exact ⟨since, rfl⟩
  | executing _ | waiting _ | completed _ =>
      rw [hping] at h
      cases h.2

theorem waiting_of_pingExpires (h : s.possible .pingExpires = true) :
  ∃ w, s.ping = .waiting w ∧ w.expiry ≤ s.now
  := by
  simp only [possible, Bool.and_eq_true] at h
  cases hping : s.ping with
  | waiting w =>
      simp only [hping, TimerWait.expires, Bool.and_eq_true, decide_eq_true_eq] at h
      exact ⟨w, rfl, h.2.1⟩
  | executing _ | answered _ | completed _ => simp [hping] at h

theorem waiting_of_checkExpires (h : s.possible .checkExpires = true) :
  ∃ w, s.check = .waiting w ∧ w.expiry ≤ s.now
  := by
  simp only [possible, Bool.and_eq_true] at h
  cases hcheck : s.check with
  | waiting w =>
      simp only [hcheck, TimerWait.expires, Bool.and_eq_true, decide_eq_true_eq] at h
      exact ⟨w, rfl, h.2.1⟩
  | completed _ => simp [hcheck] at h

end Possible

/-! ### The response to a PING -/

section Replies

variable {s : HealthChecker} {m : Message}

theorem nodes_ne_nil (m : Message) :
  m.nodes ≠ []
  := by
  obtain ⟨nd, nds, hnodes, -⟩ := m.value.exists_nodes_eq_cons 0
  rw [Message.nodes, hnodes]
  exact List.cons_ne_nil nd nds

/-- A reply without an error. -/
theorem receive_value {nds : List Node} (hresp : s.resp = .ok nds)
    (hm : hasErrorNode m.nodes = false) :
  s.receive m
    = { s with resp := .ok (nds ++ m.nodes), ping := .answered s.now, lastPong := s.now }
  := by
  rw [receive, hresp, collect_values nds hm]

/-- A reply after an error: either the error is replaced by another one, or an exception is
thrown. -/
theorem receive_error {e : RespError} (hresp : s.resp = .error e) :
  (∃ e', s.receive m = { s with resp := .error e', ping := .answered s.now }) ∨
    s.receive m = { s with thrown := some .systemError }
  := by
  by_cases hvalue : ∃ nd ∈ m.nodes, isErrorType nd.dataType = false
  · right
    rw [receive, hresp, collect_throws_of_exists e hvalue]
  · left
    have hall : ∀ nd ∈ m.nodes, isErrorType nd.dataType = true := by
      simpa using hvalue
    obtain ⟨e', -, hfed⟩ := collect_errors e hall
    use e'
    rw [receive, hresp, hfed]

end Replies

/-! ### The loops -/

section Loops

variable {interval : ℕ} {s : HealthChecker}

theorem pingLoop_executes (hinterval : 0 < interval) (hgoing : s.checkerHasExited = false) :
  s.pingLoop interval = { s with ping := .executing s.now, pings := s.pings + 1 }
  := by
  rw [pingLoop, if_neg hinterval.ne', hgoing]
  rfl

theorem checkTimeout_value (hinterval : 0 < interval) {nd : Node} {nds : List Node}
    (hresp : s.resp = .ok (nd :: nds)) :
  s.checkTimeout interval
    = { s with resp := .ok [], check := .waiting { expiry := s.now + 2 * interval } }
  := by
  simp only [checkTimeout, hresp]
  rw [checkLoop, if_neg hinterval.ne']

end Loops

/-! ### Alarms without a reason -/

section Alarm

variable {interval delay latency : ℕ} {s s' : HealthChecker} {a : Beat}

/-- Whether nothing is overdue at some time: a PING is answered within the delay, and what is to
be resumed is resumed within the latency. -/
def inTime (delay latency : ℕ) (s : HealthChecker) (t : ℕ) : Prop :=
  (match s.ping with
    | .executing since => t ≤ since + delay
    | .answered since => t ≤ since + latency
    | .waiting w => t ≤ w.expiry + latency
    | .completed _ => True) ∧
  match s.check with
    | .waiting w => t ≤ w.expiry + latency
    | .completed _ => True

/-- A server that answers every PING in time and without an error, on a connection that is not
lost. -/
def Prompt (delay latency : ℕ) (s : HealthChecker) : Beat → Prop
  | .wait d => s.inTime delay latency (s.now + d)
  | .reply m => hasErrorNode m.nodes = false
  | .executed ec => ec = none
  | .pingExpires | .checkExpires => True
  | .connect | .lose | .pingAborts | .checkAborts | .cancel => False

def PromptStep (interval delay latency : ℕ) (s : HealthChecker) (a : Beat) (s' : HealthChecker) :
    Prop :=
  s.Step interval a s' ∧ s.Prompt delay latency a

/-- When the next reply comes at the latest. -/
def expected (interval delay latency : ℕ) (s : HealthChecker) : ℕ :=
  match s.ping with
  | .executing since => since + delay
  | .answered since => since + latency + interval + latency + delay
  | .waiting w => w.expiry + latency + delay
  | .completed _ => 0

/-- What holds of a checker whose server is prompt. -/
structure OnTime (interval delay latency : ℕ) (s : HealthChecker) : Prop where
  running : s.ping.isCompleted = false
  going : s.checkerHasExited = false
  due : s.inTime delay latency s.now
  soon : s.expected interval delay latency ≤ s.now + interval + 2 * latency + delay
  checking : ∃ w, s.check = .waiting w ∧
    (s.resp = .ok [] → s.expected interval delay latency < w.expiry)
  value : ∃ nds, s.resp = .ok nds

theorem OnTime.le_expected (h : OnTime interval delay latency s) :
  s.now ≤ s.expected interval delay latency
  := by
  have hdue := h.due.1
  have hrunning := h.running
  rw [expected]
  cases hping : s.ping with
  | executing _ | answered _ | waiting _ =>
      simp only [hping] at hdue ⊢
      omega
  | completed _ =>
      rw [hping] at hrunning
      cases hrunning

theorem OnTime.step (hlt : delay + 2 * latency < interval)
    (h : OnTime interval delay latency s) (hstep : PromptStep interval delay latency s a s') :
  OnTime interval delay latency s'
  := by
  obtain ⟨⟨hpossible, rfl⟩, hprompt⟩ := hstep
  have hle := h.le_expected
  obtain ⟨hrunning, hgoing, ⟨hdue, hcheck⟩, hsoon, ⟨w, hw, hwindow⟩, nds, hresp⟩ := h
  cases a with
  | wait d =>
      refine ⟨hrunning, hgoing, hprompt, ?_, ⟨w, hw, hwindow⟩, nds, hresp⟩
      show s.expected interval delay latency ≤ s.now + d + interval + 2 * latency + delay
      omega
  | reply m =>
      have hreceive := receive_value hresp hprompt
      rw [next, hreceive]
      refine ⟨rfl, hgoing, ⟨?_, hcheck⟩, ?_, ⟨w, hw, ?_⟩, _, rfl⟩
      · show s.now ≤ s.now + latency
        omega
      · show s.now + latency + interval + latency + delay
          ≤ s.now + interval + 2 * latency + delay
        omega
      · intro hnil
        have hnodes : nds ++ m.nodes = [] := Except.ok.inj hnil
        exact absurd (List.append_eq_nil_iff.mp hnodes).2 (nodes_ne_nil m)
  | executed ec =>
      obtain rfl : ec = none := hprompt
      obtain ⟨since, hping⟩ := answered_of_executed hpossible
      simp only [expected, hping] at hdue hwindow
      refine ⟨rfl, hgoing, ⟨?_, hcheck⟩, ?_, ⟨w, hw, ?_⟩, nds, hresp⟩
      · show s.now ≤ s.now + interval + latency
        omega
      · show s.now + interval + latency + delay ≤ s.now + interval + 2 * latency + delay
        omega
      · intro hnil
        have hbefore := hwindow hnil
        show s.now + interval + latency + delay < w.expiry
        omega
  | pingExpires =>
      obtain ⟨v, hping, -⟩ := waiting_of_pingExpires hpossible
      simp only [expected, hping] at hdue hwindow
      have hloop : s.next interval .pingExpires
          = { s with ping := .executing s.now, pings := s.pings + 1 } :=
        pingLoop_executes (by omega) hgoing
      rw [hloop]
      refine ⟨rfl, hgoing, ⟨?_, hcheck⟩, ?_, ⟨w, hw, ?_⟩, nds, hresp⟩
      · show s.now ≤ s.now + delay
        omega
      · show s.now + delay ≤ s.now + interval + 2 * latency + delay
        omega
      · intro hnil
        have hbefore := hwindow hnil
        show s.now + delay < w.expiry
        omega
  | checkExpires =>
      obtain ⟨v, hv, hexpired⟩ := waiting_of_checkExpires hpossible
      obtain rfl : w = v := CheckTimeoutOp.waiting.inj (hw.symm.trans hv)
      cases nds with
      | nil =>
          have hbefore := hwindow hresp
          omega
      | cons nd nds =>
          have hloop : s.next interval .checkExpires
              = { s with resp := .ok [], check := .waiting { expiry := s.now + 2 * interval } } :=
            checkTimeout_value (by omega) hresp
          rw [hloop]
          refine ⟨hrunning, hgoing, ⟨hdue, ?_⟩, hsoon, ⟨_, rfl, ?_⟩, [], rfl⟩
          · show s.now ≤ s.now + 2 * interval + latency
            omega
          · intro _
            show s.expected interval delay latency < s.now + 2 * interval
            omega
  | connect | lose | pingAborts | checkAborts | cancel => cases hprompt

/-- A connection that is up, and is checked at the time `e`. -/
def checking (now : ℕ) (ping : PingOp) (e : ℕ) (nds : List Node) (pings lastPong : ℕ) :
    HealthChecker :=
  { now := now, isOpen := true, ping := ping, check := .waiting { expiry := e }, resp := .ok nds,
    pings := pings, lastPong := lastPong }

theorem connected_eq (hinterval : 0 < interval) :
  connected interval = checking 0 (.executing 0) (2 * interval) [] 1 0
  := by
  simp [connected, next, pingLoop, checkLoop, checking, hinterval.ne']

theorem onTime_connected (hlt : delay + 2 * latency < interval) :
  OnTime interval delay latency (connected interval)
  := by
  rw [connected_eq (by omega)]
  refine ⟨rfl, rfl, ⟨?_, ?_⟩, ?_, ⟨_, rfl, ?_⟩, [], rfl⟩
  · show 0 ≤ 0 + delay
    omega
  · show 0 ≤ 2 * interval + latency
    omega
  · show 0 + delay ≤ 0 + interval + 2 * latency + delay
    omega
  · intro _
    show 0 + delay < 2 * interval
    omega

section Checking

variable {t e u n l : ℕ} {nds : List Node}

theorem checking_reply :
  Run (PromptStep interval delay latency) (checking t (.executing u) e nds n l) [.reply pong]
    (checking t (.answered t) e (nds ++ pong.nodes) n t)
  := .single ⟨⟨rfl, rfl⟩, (by decide : hasErrorNode pong.nodes = false)⟩

/-- `async_exec` completes, and later the next PING is executed. -/
theorem checking_ping (hinterval : 0 < interval) {y : ℕ} (hy : y ≤ latency)
    (hle : t + interval + y ≤ e + latency) :
  Run (PromptStep interval delay latency) (checking t (.answered u) e nds n l)
    [.executed none, .wait (interval + y), .pingExpires]
    (checking (t + interval + y) (.executing (t + interval + y)) e nds (n + 1) l)
  := by
  rw [Nat.add_assoc] at hle ⊢
  refine .cons (t := checking t (.waiting { expiry := t + interval }) e nds n l)
    ⟨⟨rfl, rfl⟩, rfl⟩ (.cons ⟨⟨rfl, rfl⟩, ?_, hle⟩ (.single ⟨⟨?_, ?_⟩, trivial⟩))
  · show t + (interval + y) ≤ t + interval + latency
    omega
  · simp [possible, next, checking, TimerWait.expires]
  · exact (pingLoop_executes
      (s := checking (t + (interval + y)) (.waiting { expiry := t + interval }) e nds n l)
      hinterval rfl).symm

/-- A PING is answered at once, and the next one is executed after the interval. -/
theorem checking_cycle (hinterval : 0 < interval) (hle : t + interval ≤ e + latency) :
  Run (PromptStep interval delay latency) (checking t (.executing u) e nds n l)
    [.reply pong, .executed none, .wait interval, .pingExpires]
    (checking (t + interval) (.executing (t + interval)) e (nds ++ pong.nodes) (n + 1) t)
  := checking_reply.trans (checking_ping hinterval (Nat.zero_le latency) hle)

theorem checking_wait {p : PingOp} {d : ℕ}
    (h : (checking t p e nds n l).inTime delay latency (t + d)) :
  Run (PromptStep interval delay latency) (checking t p e nds n l) [.wait d]
    (checking (t + d) p e nds n l)
  := .single ⟨⟨rfl, rfl⟩, h⟩

theorem checking_clear (hinterval : 0 < interval) (hexpired : e ≤ t) (hnds : nds ≠ [])
    (p : PingOp) :
  (checking t p e nds n l).Step interval .checkExpires (checking t p (t + 2 * interval) [] n l)
  := by
  obtain ⟨nd, nds, rfl⟩ := List.exists_cons_of_ne_nil hnds
  refine ⟨?_, ?_⟩
  · simp [possible, checking, TimerWait.expires, hexpired]
  · rw [next, checkTimeout_value hinterval rfl]
    rfl

theorem checking_alarm (hexpired : e ≤ t) (p : PingOp) :
  ∃ s, Run (PromptStep interval delay latency) (checking t p e [] n l) [.checkExpires] s ∧
    s.check = .completed (some (.redis .pongTimeout))
  := by
  refine ⟨_, .single ⟨⟨?_, rfl⟩, trivial⟩, rfl⟩
  simp [possible, checking, TimerWait.expires, hexpired]

end Checking

/-- A reply comes just before the first check. -/
theorem exists_cleared (delay latency : ℕ) (hinterval : 0 < interval) :
  ∃ t as n, Run (PromptStep interval delay latency) (connected interval) as
    (checking t (.answered t) (t + 2 * interval) [] n t)
  := by
  have hfirst : Run (PromptStep interval delay latency)
      (checking 0 (.executing 0) (2 * interval) [] 1 0) _ _ :=
    checking_cycle hinterval (by omega)
  have hsecond := hfirst.trans (checking_cycle hinterval (by omega))
  have hreply := hsecond.trans checking_reply
  have hclear := hreply.snoc ⟨checking_clear hinterval (by omega)
    (by simpa using nodes_ne_nil pong) _, trivial⟩
  rw [connected_eq hinterval]
  exact ⟨_, _, _, hclear⟩

/-- After that the next reply may not come before the next check. -/
theorem exists_alarm (hinterval : 0 < interval) (hle : interval ≤ delay + 2 * latency) :
  ∃ as s, Run (PromptStep interval delay latency) (connected interval) as s ∧
    s.check = .completed (some (.redis .pongTimeout))
  := by
  obtain ⟨x, y, z, hx, hy, hz, hsum⟩ : ∃ x y z, x ≤ latency ∧ y ≤ latency ∧ z ≤ delay ∧
      x + y + z = interval := by
    refine ⟨min latency interval, min latency (interval - min latency interval),
      interval - min latency interval - min latency (interval - min latency interval), ?_⟩
    omega
  obtain ⟨t, as, n, hclear⟩ := exists_cleared delay latency hinterval
  have hresume := hclear.trans (checking_wait (d := x) ⟨by show t + x ≤ t + latency; omega,
    by show t + x ≤ t + 2 * interval + latency; omega⟩)
  have hping := hresume.trans (checking_ping hinterval hy (by omega))
  have hlate := hping.trans (checking_wait (d := z)
    ⟨by show t + x + interval + y + z ≤ t + x + interval + y + delay; omega,
      by show t + x + interval + y + z ≤ t + 2 * interval + latency; omega⟩)
  obtain ⟨s, halarm, hs⟩ : ∃ s, Run (PromptStep interval delay latency)
      (checking (t + x + interval + y + z) (.executing (t + x + interval + y)) (t + 2 * interval)
        [] (n + 1) t) [.checkExpires] s ∧ s.check = .completed (some (.redis .pongTimeout)) :=
    checking_alarm (by omega) _
  exact ⟨_, s, hlate.trans halarm, hs⟩

/-- The checker raises no alarm as long as every PING is answered in time, for every server and
every order in which the operations are resumed, exactly if a reply and the two resumptions before
it take less than the interval together. -/
theorem no_alarm_iff (hinterval : 0 < interval) :
  (∀ as s, Run (PromptStep interval delay latency) (connected interval) as s →
      s.check ≠ .completed (some (.redis .pongTimeout)))
    ↔ delay + 2 * latency < interval
  := by
  constructor
  · intro h
    by_contra hge
    obtain ⟨as, s, hrun, halarm⟩ := exists_alarm hinterval (Nat.le_of_not_lt hge)
    exact h as s hrun halarm
  · intro hlt as s hrun halarm
    obtain ⟨w, hw, -⟩ := (hrun.invariant (I := OnTime interval delay latency)
      (fun h hstep => h.step hlt hstep) (onTime_connected hlt)).checking
    rw [hw] at halarm
    cases halarm

/-- Intervals of five and of three seconds, with replies within one. -/
theorem no_alarm_iff_five :
  (∀ as s, Run (PromptStep 5 1 1) (connected 5) as s →
      s.check ≠ .completed (some (.redis .pongTimeout))) ∧
    ¬ ∀ as s, Run (PromptStep 3 1 1) (connected 3) as s →
      s.check ≠ .completed (some (.redis .pongTimeout))
  := ⟨(no_alarm_iff (by decide)).mpr (by decide), mt (no_alarm_iff (by decide)).mp (by decide)⟩

end Alarm

/-! ### A server that does not answer -/

section Detection

variable {interval latency : ℕ} {s s' : HealthChecker} {a : Beat}

/-- Time does not pass without the check being resumed. -/
def Resumes (latency : ℕ) (s : HealthChecker) (a : Beat) : Prop :=
  ∀ d w, a = .wait d → s.check = .waiting w → s.now + d ≤ w.expiry + latency

def ResumedStep (interval latency : ℕ) (s : HealthChecker) (a : Beat) (s' : HealthChecker) : Prop :=
  s.Step interval a s' ∧ s.Resumes latency a

/-- What holds while the check waits: when it looks for replies, in terms of when it was begun and
when the last reply came. -/
structure Bounded (interval latency : ℕ) (s : HealthChecker) (w : TimerWait) : Prop where
  now_le : s.now ≤ w.expiry + latency
  begun : w.expiry ≤ s.now + 2 * interval
  expiry_le : w.expiry ≤ s.lastPong + 4 * interval + latency
  unseen : ∀ nd nds, s.resp = .ok (nd :: nds) → w.expiry ≤ s.lastPong + 2 * interval

/-- A step that is not about the check: it may be cancelled, but not begun. -/
structure KeepsCheck (s s' : HealthChecker) : Prop where
  now : s'.now = s.now
  lastPong : s'.lastPong = s.lastPong
  resp : s'.resp = s.resp
  check : ∀ w', s'.check = .waiting w' → ∃ w, s.check = .waiting w ∧ w'.expiry = w.expiry

theorem KeepsCheck.trans {s'' : HealthChecker} (h : KeepsCheck s s') (h' : KeepsCheck s' s'') :
  KeepsCheck s s''
  := by
  refine ⟨h'.now.trans h.now, h'.lastPong.trans h.lastPong, h'.resp.trans h.resp, ?_⟩
  intro w'' hw''
  obtain ⟨w', hw', hexpiry'⟩ := h'.check w'' hw''
  obtain ⟨w, hw, hexpiry⟩ := h.check w' hw'
  exact ⟨w, hw, hexpiry'.trans hexpiry⟩

theorem keepsCheck_of_eq (hnow : s'.now = s.now) (hlast : s'.lastPong = s.lastPong)
    (hresp : s'.resp = s.resp) (hcheck : s'.check = s.check) :
  KeepsCheck s s'
  := ⟨hnow, hlast, hresp, fun w hw => ⟨w, hcheck ▸ hw, rfl⟩⟩

theorem keepsCheck_cancelPing (s : HealthChecker) :
  KeepsCheck s s.cancelPing
  := by
  rw [cancelPing]
  split <;> exact keepsCheck_of_eq rfl rfl rfl rfl

theorem keepsCheck_cancelCheck (s : HealthChecker) :
  KeepsCheck s s.cancelCheck
  := by
  rw [cancelCheck]
  split
  · rename_i w hw
    refine ⟨rfl, rfl, rfl, ?_⟩
    rintro _ ⟨⟩
    exact ⟨w, hw, rfl⟩
  · exact keepsCheck_of_eq rfl rfl rfl rfl

theorem keepsCheck_pingLoop (interval : ℕ) (s : HealthChecker) :
  KeepsCheck s (s.pingLoop interval)
  := by
  rw [pingLoop]
  split
  · exact keepsCheck_of_eq rfl rfl rfl rfl
  · split <;> exact keepsCheck_of_eq rfl rfl rfl rfl

/-- While the check waits. -/
def Detects (interval latency : ℕ) (s : HealthChecker) : Prop :=
  ∀ w, s.check = .waiting w → Bounded interval latency s w

theorem Detects.keeps (h : Detects interval latency s) (hkeeps : KeepsCheck s s') :
  Detects interval latency s'
  := by
  intro w' hw'
  obtain ⟨w, hw, hexpiry⟩ := hkeeps.check w' hw'
  obtain ⟨hnow, hbegun, hle, hunseen⟩ := h w hw
  refine ⟨?_, ?_, ?_, ?_⟩
  · rw [hkeeps.now, hexpiry]
    exact hnow
  · rw [hkeeps.now, hexpiry]
    exact hbegun
  · rw [hkeeps.lastPong, hexpiry]
    exact hle
  · rw [hkeeps.lastPong, hexpiry, hkeeps.resp]
    exact hunseen

/-- A check is begun. -/
theorem detects_checkLoop (hresp : ∀ nd nds, s.resp = .ok (nd :: nds) → s.now ≤ s.lastPong)
    (hlast : s.now ≤ s.lastPong + 2 * interval + latency) :
  Detects interval latency (s.checkLoop interval)
  := by
  intro w hw
  rw [checkLoop] at hw ⊢
  split at hw
  · cases hw
  · rename_i hinterval
    rw [if_neg hinterval]
    cases hw
    refine ⟨?_, Nat.le_refl _, ?_, ?_⟩
    · show s.now ≤ s.now + 2 * interval + latency
      omega
    · show s.now + 2 * interval ≤ s.lastPong + 4 * interval + latency
      omega
    · intro nd nds hnds
      have hle := hresp nd nds hnds
      show s.now + 2 * interval ≤ s.lastPong + 2 * interval
      omega

theorem Detects.receive (h : Detects interval latency s) (m : Message) :
  Detects interval latency (s.receive m)
  := by
  rw [HealthChecker.receive]
  split
  · exact h.keeps (keepsCheck_of_eq rfl rfl rfl rfl)
  · intro w hw
    obtain ⟨hnow, hbegun, hle, -⟩ := h w hw
    exact ⟨hnow, hbegun, hle, by rintro _ _ ⟨⟩⟩
  · intro w hw
    obtain ⟨hnow, hbegun, -, -⟩ := h w hw
    refine ⟨hnow, hbegun, ?_, fun _ _ _ => hbegun⟩
    show w.expiry ≤ s.now + 4 * interval + latency
    omega

theorem Detects.checkTimeout (h : Detects interval latency s) {w : TimerWait}
    (hw : s.check = .waiting w) :
  Detects interval latency (s.checkTimeout interval)
  := by
  rw [HealthChecker.checkTimeout]
  split
  · rintro _ ⟨⟩
  · rintro _ ⟨⟩
  · rename_i nd nds hresp
    have hbounded := h w hw
    have hunseen := hbounded.unseen nd nds hresp
    have hnow := hbounded.now_le
    apply detects_checkLoop
    · rintro _ _ ⟨⟩
    · show s.now ≤ s.lastPong + 2 * interval + latency
      omega

theorem Detects.step (h : Detects interval latency s)
    (hstep : ResumedStep interval latency s a s') :
  Detects interval latency s'
  := by
  obtain ⟨⟨hpossible, rfl⟩, hresumes⟩ := hstep
  cases a with
  | connect =>
      have hkeeps := keepsCheck_pingLoop interval { s with isOpen := true, lastPong := s.now }
      apply detects_checkLoop
      · intro _ _ _
        show (pingLoop interval _).now ≤ (pingLoop interval _).lastPong
        rw [hkeeps.now, hkeeps.lastPong]
      · show (pingLoop interval _).now ≤ (pingLoop interval _).lastPong + 2 * interval + latency
        rw [hkeeps.now, hkeeps.lastPong]
        show s.now ≤ s.now + 2 * interval + latency
        omega
  | wait d =>
      intro w hw
      obtain ⟨-, hbegun, hle, hunseen⟩ := h w hw
      refine ⟨hresumes d w rfl hw, ?_, hle, hunseen⟩
      show w.expiry ≤ s.now + d + 2 * interval
      omega
  | reply m => exact h.receive m
  | checkExpires =>
      obtain ⟨w, hw, -⟩ := waiting_of_checkExpires hpossible
      exact h.checkTimeout hw
  | lose =>
      have hcancel := (keepsCheck_cancelPing s).trans (keepsCheck_cancelCheck s.cancelPing)
      exact h.keeps (hcancel.trans (keepsCheck_of_eq rfl rfl rfl rfl))
  | cancel => exact h.keeps ((keepsCheck_cancelPing s).trans (keepsCheck_cancelCheck s.cancelPing))
  | executed ec =>
      cases ec with
      | none => exact h.keeps (keepsCheck_of_eq rfl rfl rfl rfl)
      | some ec =>
          exact h.keeps ((keepsCheck_cancelCheck s).trans (keepsCheck_of_eq rfl rfl rfl rfl))
  | pingExpires => exact h.keeps (keepsCheck_pingLoop interval s)
  | pingAborts => exact h.keeps (keepsCheck_of_eq rfl rfl rfl rfl)
  | checkAborts => rintro _ ⟨⟩

/-- The worst case: a reply comes when the check has just begun, and both this and the next one
are resumed late. -/
theorem exists_unanswered (latency : ℕ) (hinterval : 0 < interval) :
  ∃ as s w, Run (ResumedStep interval latency) {} as s ∧ s.check = .waiting w ∧
    s.now = s.lastPong + (4 * interval + 2 * latency)
  := by
  have hquiet : ∀ {s : HealthChecker} {a : Beat}, (∀ d, a ≠ .wait d) → s.Resumes latency a :=
    fun ha d _ hwait _ => absurd hwait (ha d)
  have hwait : ∀ {p : PingOp} {t e d n l : ℕ} {nds : List Node}, t + d ≤ e + latency →
      (checking t p e nds n l).Resumes latency (.wait d) := by
    rintro p t e d n l nds hle _ _ ⟨⟩ ⟨⟩
    exact hle
  have hconnect : Run (ResumedStep interval latency) {} [.connect]
      (checking 0 (.executing 0) (2 * interval) [] 1 0) :=
    .single ⟨⟨rfl, (connected_eq hinterval).symm⟩, hquiet (by rintro _ ⟨⟩)⟩
  have hreply := hconnect.snoc (l := .reply pong)
    (r := checking 0 (.answered 0) (2 * interval) pong.nodes 1 0)
    ⟨⟨rfl, rfl⟩, hquiet (by rintro _ ⟨⟩)⟩
  have hlate := hreply.snoc (l := .wait (2 * interval + latency))
    (r := checking (0 + (2 * interval + latency)) (.answered 0) (2 * interval) pong.nodes 1 0)
    ⟨⟨rfl, rfl⟩, hwait (by omega)⟩
  have hclear := hlate.snoc ⟨checking_clear hinterval (by omega) (nodes_ne_nil pong) _,
    hquiet (by rintro _ ⟨⟩)⟩
  refine ⟨_, _, _, hclear.snoc (l := .wait (2 * interval + latency)) ⟨⟨rfl, rfl⟩, hwait ?_⟩,
    rfl, ?_⟩
  · omega
  · show 0 + (2 * interval + latency) + (2 * interval + latency) = 0 + _
    omega

/-- In every run over any number of connections, while the checker watches over a connection the
time that has passed since it was established, or since the last reply without an error, is
bounded exactly by four intervals and the delays with which the check is resumed twice. -/
theorem detection_iff (hinterval : 0 < interval) (bound : ℕ) :
  (∀ as s w, Run (ResumedStep interval latency) {} as s → s.check = .waiting w →
      s.now ≤ s.lastPong + bound)
    ↔ 4 * interval + 2 * latency ≤ bound
  := by
  constructor
  · intro h
    obtain ⟨as, s, w, hrun, hw, hnow⟩ := exists_unanswered latency hinterval
    have hle := h as s w hrun hw
    omega
  · intro hle as s w hrun hw
    have hstart : Detects interval latency {} := by
      rintro _ ⟨⟩
    obtain ⟨hnow, -, hexpiry, -⟩ := hrun.invariant (I := Detects interval latency)
      (fun h hstep => h.step hstep) hstart w hw
    omega

/-- An interval of five seconds. -/
theorem detection_iff_five :
  (∀ as s w, Run (ResumedStep 5 0) {} as s → s.check = .waiting w → s.now ≤ s.lastPong + 20) ∧
    ¬ ∀ as s w, Run (ResumedStep 5 0) {} as s → s.check = .waiting w → s.now ≤ s.lastPong + 19
  := ⟨(detection_iff (by decide) 20).mpr (by decide),
    mt (detection_iff (by decide) 19).mp (by decide)⟩

end Detection

/-! ### After a timeout -/

section Timeout

variable {interval : ℕ} {s s' t : HealthChecker} {a : Beat} {as : List Beat}

/-- Nobody but the checker itself ends a connection. -/
def UndisturbedStep (interval : ℕ) (s : HealthChecker) (a : Beat) (s' : HealthChecker) : Prop :=
  s.Step interval a s' ∧ a ≠ .lose ∧ a ≠ .cancel

/-- A timeout was reported, and the connection is closed or the next one is watched over without
a PING. -/
inductive Flapping (n : ℕ) (s : HealthChecker) : Prop where
  | closed : s.resp = .ok [] → s.pings = n → s.isOpen = false → s.checkerHasExited = true →
      s.check = .completed (some (.redis .pongTimeout)) → Flapping n s
  | silent {e : ℕ} : s.resp = .ok [] → s.pings = n → s.ping.isCompleted = true →
      s.check = .waiting { expiry := e } → Flapping n s

theorem pings_cancelPing (s : HealthChecker) :
  s.cancelPing.pings = s.pings
  := by
  rw [cancelPing]
  split <;> rfl

/-- A check that finds no reply. -/
theorem flapping_checkTimeout (hresp : s.resp = .ok []) :
  Flapping s.pings (s.checkTimeout interval)
  := by
  simp only [checkTimeout, hresp]
  exact .closed ((keepsCheck_cancelPing s).resp.trans hresp) (pings_cancelPing s) rfl rfl rfl

theorem flapping_of_timeout (hstep : s.Step interval .checkExpires s')
    (htimeout : s'.check = .completed (some (.redis .pongTimeout))) :
  Flapping s.pings s'
  := by
  obtain ⟨-, rfl⟩ := hstep
  rw [next] at htimeout ⊢
  cases hresp : s.resp with
  | error e =>
      simp only [checkTimeout, hresp] at htimeout
      cases htimeout
  | ok nds =>
      cases nds with
      | nil => exact flapping_checkTimeout hresp
      | cons nd nds =>
          simp only [checkTimeout, hresp, checkLoop] at htimeout
          split at htimeout <;> cases htimeout

theorem Flapping.step {n : ℕ} (hinterval : 0 < interval) (h : Flapping n s)
    (hstep : UndisturbedStep interval s a s') :
  Flapping n s'
  := by
  obtain ⟨⟨hpossible, rfl⟩, hlose, hcancel⟩ := hstep
  cases h with
  | closed hresp hpings hopen hexited hcheck =>
      cases a with
      | connect =>
          have hping : pingLoop interval { s with isOpen := true, lastPong := s.now }
              = { s with isOpen := true, lastPong := s.now, ping := .completed none } := by
            rw [pingLoop, if_neg hinterval.ne', if_pos hexited]
          rw [next, hping, checkLoop, if_neg hinterval.ne']
          exact .silent hresp hpings rfl rfl
      | wait d => exact .closed hresp hpings hopen hexited hcheck
      | reply m => simp [possible, hopen] at hpossible
      | executed ec =>
          cases ec with
          | none => exact .closed hresp hpings hopen hexited hcheck
          | some ec =>
              rw [next, cancelCheck, hcheck]
              exact .closed hresp hpings hopen hexited hcheck
      | pingExpires =>
          rw [next, pingLoop, if_neg hinterval.ne', if_pos hexited]
          exact .closed hresp hpings hopen hexited hcheck
      | pingAborts => exact .closed hresp hpings hopen hexited hcheck
      | checkExpires | checkAborts => simp [possible, hcheck] at hpossible
      | lose => exact absurd rfl hlose
      | cancel => exact absurd rfl hcancel
  | @silent e hresp hpings hping hcheck =>
      obtain ⟨ec, hping'⟩ : ∃ ec, s.ping = .completed ec := by
        cases hp : s.ping with
        | completed ec => exact ⟨ec, rfl⟩
        | executing _ | answered _ | waiting _ =>
            rw [hp] at hping
            cases hping
      cases a with
      | wait d => exact .silent hresp hpings hping hcheck
      | checkExpires =>
          rw [← hpings]
          exact flapping_checkTimeout hresp
      | connect => simp [possible, hcheck, CheckTimeoutOp.isCompleted] at hpossible
      | checkAborts => simp [possible, hcheck, TimerWait.aborts] at hpossible
      | reply m => simp [possible, hping', PingOp.isExecuting] at hpossible
      | executed ec =>
          cases ec <;> simp [possible, hping', PingOp.isExecuting, PingOp.isAnswered] at hpossible
      | pingExpires | pingAborts => simp [possible, hping'] at hpossible
      | lose => exact absurd rfl hlose
      | cancel => exact absurd rfl hcancel

/-- After a timeout was reported no PING is executed any more, and every check ends with another
timeout, whatever the server does, until a connection is lost for another reason or the health
check is cancelled. -/
theorem timeout_repeats (hinterval : 0 < interval) (hstep : s.Step interval .checkExpires s')
    (htimeout : s'.check = .completed (some (.redis .pongTimeout)))
    (hrun : Run (UndisturbedStep interval) s' as t) :
  t.pings = s.pings ∧ ∀ ec, t.check = .completed ec → ec = some (.redis .pongTimeout)
  := by
  have hflapping := hrun.invariant (I := Flapping s.pings) (fun h hstep => h.step hinterval hstep)
    (flapping_of_timeout hstep htimeout)
  cases hflapping with
  | closed _ hpings _ _ hcheck =>
      refine ⟨hpings, ?_⟩
      intro ec hec
      rw [hcheck] at hec
      cases hec
      rfl
  | silent _ hpings _ hcheck =>
      refine ⟨hpings, ?_⟩
      intro ec hec
      rw [hcheck] at hec
      cases hec

/-- The first PING is not answered.  The next connection is closed although nobody was asked. -/
theorem timeout_repeats_five :
  ∃ s t : HealthChecker, s.pings = 1 ∧ t.now = 20 ∧ t.pings = s.pings ∧
    ∀ ec, t.check = .completed ec → ec = some (.redis .pongTimeout)
  := by
  let s : HealthChecker := next 5 (connected 5) (.wait 10)
  have hrun : Run (UndisturbedStep 5) (s.next 5 .checkExpires)
      [.executed (some .operationAborted), .connect, .wait 10, .checkExpires] _ :=
    .cons ⟨⟨rfl, rfl⟩, nofun, nofun⟩ (.cons ⟨⟨rfl, rfl⟩, nofun, nofun⟩
      (.cons ⟨⟨rfl, rfl⟩, nofun, nofun⟩ (.single ⟨⟨rfl, rfl⟩, nofun, nofun⟩)))
  exact ⟨s, _, rfl, rfl, timeout_repeats (by decide) ⟨rfl, rfl⟩ rfl hrun⟩

end Timeout

/-! ### After an error -/

section Disarmed

variable {interval : ℕ} {s s' t : HealthChecker} {a : Beat} {as as' : List Beat}

theorem completed_of_cancelCheck {ec : Option ErrorCode}
    (h : s.cancelCheck.check = .completed ec) :
  s.check = .completed ec
  := by
  rw [cancelCheck] at h
  split at h
  · cases h
  · exact h

theorem isOpen_cancelCheck (s : HealthChecker) :
  s.cancelCheck.isOpen = s.isOpen
  := by
  rw [cancelCheck]
  split <;> rfl

theorem cancelPing_eq (s : HealthChecker) :
  s.cancelPing.check = s.check ∧ s.cancelPing.isOpen = s.isOpen
  := by
  rw [cancelPing]
  split <;> exact ⟨rfl, rfl⟩

theorem pingLoop_eq (interval : ℕ) (s : HealthChecker) :
  (s.pingLoop interval).check = s.check ∧ (s.pingLoop interval).isOpen = s.isOpen
  := by
  rw [pingLoop]
  split
  · exact ⟨rfl, rfl⟩
  · split <;> exact ⟨rfl, rfl⟩

theorem receive_eq (s : HealthChecker) (m : Message) :
  (s.receive m).check = s.check ∧ (s.receive m).isOpen = s.isOpen
  := by
  rw [receive]
  split <;> exact ⟨rfl, rfl⟩

/-- A timeout is reported by a check that finds no reply, or was reported before. -/
theorem timeout_cases (hstep : s.Step interval a s')
    (htimeout : s'.check = .completed (some (.redis .pongTimeout))) :
  s.resp = .ok [] ∧ s'.isOpen = false ∨
    s.check = .completed (some (.redis .pongTimeout)) ∧ (s'.isOpen = true → s.isOpen = true)
  := by
  obtain ⟨-, rfl⟩ := hstep
  cases a with
  | connect =>
      rw [next, checkLoop] at htimeout
      split at htimeout <;> cases htimeout
  | lose =>
      have hcheck := completed_of_cancelCheck (s := s.cancelPing) htimeout
      rw [(cancelPing_eq s).1] at hcheck
      exact .inr ⟨hcheck, by rintro ⟨⟩⟩
  | wait d | pingAborts => exact .inr ⟨htimeout, id⟩
  | reply m =>
      rw [next, (receive_eq s m).1] at htimeout
      rw [next, (receive_eq s m).2]
      exact .inr ⟨htimeout, id⟩
  | executed ec =>
      cases ec with
      | none => exact .inr ⟨htimeout, id⟩
      | some ec =>
          refine .inr ⟨completed_of_cancelCheck htimeout, ?_⟩
          show s.cancelCheck.isOpen = true → _
          rw [isOpen_cancelCheck]
          exact id
  | pingExpires =>
      rw [next, (pingLoop_eq interval s).1] at htimeout
      rw [next, (pingLoop_eq interval s).2]
      exact .inr ⟨htimeout, id⟩
  | checkExpires =>
      rw [next, checkTimeout] at htimeout ⊢
      split at htimeout
      · cases htimeout
      · rename_i hresp
        exact .inl ⟨hresp, rfl⟩
      · rw [checkLoop] at htimeout
        split at htimeout <;> cases htimeout
  | checkAborts => cases htimeout
  | cancel =>
      have hcheck := completed_of_cancelCheck (s := s.cancelPing) htimeout
      rw [(cancelPing_eq s).1] at hcheck
      refine .inr ⟨hcheck, ?_⟩
      show s.cancelPing.cancelCheck.isOpen = true → _
      rw [isOpen_cancelCheck, (cancelPing_eq s).2]
      exact id

/-- When a timeout was reported the connection is closed. -/
theorem closed_of_run (hrun : Run (Step interval) {} as s)
    (htimeout : s.check = .completed (some (.redis .pongTimeout))) :
  s.isOpen = false
  := by
  refine hrun.invariant (I := fun s => s.check = .completed (some (.redis .pongTimeout)) →
    s.isOpen = false) ?_ (by rintro ⟨⟩) htimeout
  intro s a s' h hstep htimeout
  obtain ⟨-, hclosed⟩ | ⟨hbefore, hopen⟩ := timeout_cases hstep htimeout
  · exact hclosed
  · apply Bool.eq_false_of_not_eq_true
    intro hopen'
    rw [h hbefore] at hopen
    cases hopen hopen'

/-- An error was stored, and no timeout is reported. -/
structure Disarmed (s : HealthChecker) : Prop where
  error : ∃ e, s.resp = .error e
  quiet : s.check ≠ .completed (some (.redis .pongTimeout))

theorem resp_checkLoop (interval : ℕ) (s : HealthChecker) :
  (s.checkLoop interval).resp = s.resp
  := by
  rw [checkLoop]
  split <;> rfl

/-- An error stays in the response. -/
theorem error_step {e : RespError} (herror : s.resp = .error e) (hstep : s.Step interval a s') :
  ∃ e', s'.resp = .error e'
  := by
  obtain ⟨-, rfl⟩ := hstep
  have hcancel := (keepsCheck_cancelPing s).trans (keepsCheck_cancelCheck s.cancelPing)
  cases a with
  | connect =>
      refine ⟨e, ?_⟩
      rw [next, resp_checkLoop]
      exact (keepsCheck_pingLoop interval _).resp.trans herror
  | lose | cancel => exact ⟨e, hcancel.resp.trans herror⟩
  | wait d | pingAborts | checkAborts => exact ⟨e, herror⟩
  | reply m =>
      rw [next]
      obtain ⟨e', heq⟩ | heq := receive_error (m := m) herror
      · rw [heq]
        exact ⟨e', rfl⟩
      · rw [heq]
        exact ⟨e, herror⟩
  | executed ec =>
      cases ec with
      | none => exact ⟨e, herror⟩
      | some ec => exact ⟨e, (keepsCheck_cancelCheck s).resp.trans herror⟩
  | pingExpires => exact ⟨e, (keepsCheck_pingLoop interval s).resp.trans herror⟩
  | checkExpires =>
      simp only [next, checkTimeout, herror]
      exact ⟨e, rfl⟩

theorem Disarmed.step (h : Disarmed s) (hstep : s.Step interval a s') :
  Disarmed s'
  := by
  obtain ⟨e, herror⟩ := h.error
  refine ⟨error_step herror hstep, ?_⟩
  intro htimeout
  obtain ⟨hnil, -⟩ | ⟨hbefore, -⟩ := timeout_cases hstep htimeout
  · rw [herror] at hnil
    cases hnil
  · exact h.quiet hbefore

/-- After a reply that leaves an error, the checker is of no use any more, also on the connections
to come: it never reports a timeout, and a reply without an error throws an exception. -/
theorem error_disarms {m : Message} {e : RespError} (hrun : Run (Step interval) {} as s)
    (hreply : s.Step interval (.reply m) s') (herror : s'.resp = .error e)
    (hrun' : Run (Step interval) s' as' t) :
  t.check ≠ .completed (some (.redis .pongTimeout)) ∧
    ∀ m' t', t.Step interval (.reply m') t' → hasErrorNode m'.nodes = false →
      t'.thrown = some .systemError
  := by
  have hopen := (executing_of_reply hreply.1).2.1
  have hquiet : s'.check ≠ .completed (some (.redis .pongTimeout)) := by
    intro htimeout
    have hclosed := closed_of_run (hrun.snoc hreply) htimeout
    rw [hreply.2, next, (receive_eq s m).2, hopen] at hclosed
    cases hclosed
  obtain ⟨⟨e', herror'⟩, hquiet'⟩ := hrun'.invariant (I := Disarmed)
    (fun h hstep => h.step hstep) ⟨⟨e, herror⟩, hquiet⟩
  refine ⟨hquiet', ?_⟩
  rintro m' _ ⟨-, rfl⟩ hvalue
  obtain ⟨nd, nds, hnodes⟩ := List.exists_cons_of_ne_nil (nodes_ne_nil m')
  have hnd : isErrorType nd.dataType = false := by
    rw [hnodes, hasErrorNode, List.any_cons] at hvalue
    exact (Bool.or_eq_false_iff.mp hvalue).1
  rw [next, receive, herror', collect_throws_of_exists e' ⟨nd, by simp [hnodes], hnd⟩]

/-- The reply to a command without authentication. -/
def authError : Message where
  value := .simple .simpleError (ascii "NOAUTH")
  wellFormed := by decide
  height_le := by decide
  length_lt := by decide

/-- The first PING is answered by an error, and the next one could be answered by PONG. -/
theorem error_disarms_five :
  ∃ t : HealthChecker, t.possible (.reply pong) = true ∧
    t.check ≠ .completed (some (.redis .pongTimeout)) ∧
    ∀ m' t', t.Step 5 (.reply m') t' → hasErrorNode m'.nodes = false →
      t'.thrown = some .systemError
  := by
  have hrun : Run (Step 5) {} [.connect] (connected 5) := .single ⟨rfl, rfl⟩
  have hrun' : Run (Step 5) ((connected 5).next 5 (.reply authError))
      [.executed none, .wait 5, .pingExpires] _ :=
    .cons ⟨rfl, rfl⟩ (.cons ⟨rfl, rfl⟩ (.single ⟨rfl, rfl⟩))
  exact ⟨_, rfl, error_disarms (e := ⟨.simpleError, ascii "NOAUTH"⟩) hrun ⟨rfl, rfl⟩ rfl hrun'⟩

end Disarmed

end HealthChecker

end Redis
