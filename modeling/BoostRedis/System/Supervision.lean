import BoostRedis.General.ParallelGroup
import BoostRedis.General.Run
import BoostRedis.Resp3.Type

/-!
# The supervision of connections

`run_op` resolves the address, connects, and starts the operations of a connection as a parallel
group: the handshake, `ping_op`, `check_timeout_op`, the reader and the writer.  When all of them
have completed it decides from the order in which they did, and from their errors, whether to end or
to connect again after a while.

All of this happens on one executor, which runs the handlers that are queued in any order.  What
Asio does is a parameter, and what is assumed of it is said where it is used: `GroupOps.Contract`
for the group, `Asio.ConnectContract` for the resolver and the connector, and `Supervisor.InTurn`
for an executor that runs the handlers in the order in which they were queued.  The user cancels
with `connection::cancel`; the cancellation slot of `async_run` is left alone.
-/

namespace Redis

open Resp3

variable {G : Type}

/-- The operations of the group, in the order in which they are started. -/
inductive Task where
  | hello
  | ping
  | checkTimeout
  | reader
  | writer
deriving DecidableEq, Repr

/-- What an operation is suspended on: `async_exec`, the timers of the health checker, the socket,
the receive channel, or the timer of the writer. -/
inductive Await where
  | exec
  | pingTimer
  | waitTimer
  | socket
  | channel
  | writerTimer
deriving DecidableEq, Repr

/-- What `cancel` is called with. -/
inductive Operation where
  | resolve
  | connect
  | sslHandshake
  | exec
  | run
  | receive
  | reconnection
  | healthCheck
  | all
deriving DecidableEq, Repr

/-- Where `run_op` is: it is suspended on the resolver, on the connector, on the SSL handshake or on
the timer, where the result is there if it is about to be resumed, it is suspended on the group, or
it has completed. -/
inductive RunStage where
  | resolving (result : Option (Option ErrorCode))
  | connecting (result : Option (Option ErrorCode))
  | sslHandshaking (result : Option (Option ErrorCode))
  | serving
  | waiting (result : Option (Option ErrorCode))
  | completed (ec : Option ErrorCode)
deriving DecidableEq, Repr

/-- What a handler finds out.

* There is nothing more to do now, or there is more: another write, or a push for which the receive
  channel has no room.
* The server has refused the HELLO or the PING, or no reply to a PING has come.
* The request of an `async_exec` that was cancelled could be removed.
* `commit_read` fails, and perhaps notifies the request of an operation.  An `async_exec` that was
  cancelled finds that its request was notified so. -/
inductive Finding where
  | done
  | more
  | refused
  | nothing
  | removed
  | failed (ec : ErrorCode) (notified : Option Task)
deriving DecidableEq, Repr

/-- The error of an `async_exec` that was cancelled. -/
def Finding.abortedWith : Finding → ErrorCode
  | .failed ec _ => ec
  | _ => .operationAborted

/-- Whether an `async_exec` that was cancelled need not lose the connection. -/
def Finding.isSettled : Finding → Bool
  | .failed _ _ | .removed => true
  | _ => false

/-- What matters of the configuration: whether SSL is used, and whether the interval of the health
check is not zero. -/
structure RunConfig where
  useSsl : Bool
  checked : Bool
deriving DecidableEq, Repr

/-- What is taken from Asio: the group; the error of an operation that is resumed because the socket
was closed, or the timer or the channel was cancelled; the error of an operation on a socket that is
not open; what becomes of an operation of `run_op` when the resolver is cancelled or the socket is
closed, where an operation is `none` while it is pending, and then its result; and whether
`async_connect` goes on with another address, when the socket is open or not. -/
structure Asio (G : Type) where
  group : GroupOps Task Await ErrorCode G
  aborted : Await → ErrorCode
  badDescriptor : ErrorCode
  cancelResolve : Option (Option ErrorCode) → Option (Option ErrorCode)
  closeConnect : Option (Option ErrorCode) → Option (Option ErrorCode)
  closeHandshake : Option (Option ErrorCode) → Option (Option ErrorCode)
  tries : Bool → Bool

/-- What is assumed of the resolver and of `async_connect`: a resolution that is cancelled while it
is pending fails, and a socket that was closed is not opened again. -/
structure Asio.ConnectContract (asio : Asio G) : Prop where
  pending : ∃ ec, asio.cancelResolve none = some (some ec)
  ended : ∀ result, asio.cancelResolve (some result) = some result
  closed : asio.tries false = false

/-- A connection with its `run_op`.  The interval for which it waits before it connects again is
zero unless `willReconnect`. -/
structure Supervisor (G : Type) where
  stage : RunStage
  willReconnect : Bool
  isOpen : Bool := false
  checkerHasExited : Bool := false
  cancelRunCalled : Bool := false
  group : G

/-- What happens.

* What `run_op` is suspended on ends, `async_connect` goes on with another address, or `run_op` is
  resumed.
* What an operation of the group is suspended on ends, or the handler of an operation runs.
* `cancel` is called, while the request of `ping_op` waits to be written or not. -/
inductive Occurrence where
  | ended (ec : Option ErrorCode)
  | tries
  | resume
  | wake (t : Task) (ec : Option ErrorCode)
  | handle (t : Task) (f : Finding)
  | cancel (op : Operation) (waits : Bool)
deriving DecidableEq, Repr

/-- Whether the user calls `cancel`. -/
def Occurrence.isCancel : Occurrence → Bool
  | .cancel _ _ => true
  | _ => false

/-- Whether the user cancels the requests that wait. -/
def Occurrence.cancelsExec : Occurrence → Bool
  | .cancel .exec _ | .cancel .all _ => true
  | _ => false

/-- The operations of the group. -/
def Task.all : List Task := [.hello, .ping, .checkTimeout, .reader, .writer]

/-- What an operation is suspended on first. -/
def Task.first : Task → Await
  | .hello | .ping => .exec
  | .checkTimeout => .waitTimer
  | .reader | .writer => .socket

/-- How what an operation is suspended on may end by itself.  Nothing is received, and the writer is
not woken up, while the socket is closed. -/
def Await.ends (isOpen : Bool) (ec : Option ErrorCode) : Await → Bool
  | .exec => isOpen && ec.isNone
  | .socket => isOpen
  | .writerTimer => isOpen && ec == some .operationAborted
  | .pingTimer | .waitTimer | .channel => ec.isNone

namespace RunStage

/-- What `run_op` is suspended on ends. -/
def ended (ec : Option ErrorCode) : RunStage → RunStage
  | .resolving none => .resolving (some ec)
  | .connecting none => .connecting (some ec)
  | .sslHandshaking none => .sslHandshaking (some ec)
  | .waiting none => .waiting (some ec)
  | stage => stage

/-- `resv_.cancel()`. -/
def cancelResolve (asio : Asio G) : RunStage → RunStage
  | .resolving result => .resolving (asio.cancelResolve result)
  | stage => stage

/-- The socket is closed. -/
def close (asio : Asio G) : RunStage → RunStage
  | .connecting result => .connecting (asio.closeConnect result)
  | .sslHandshaking result => .sslHandshaking (asio.closeHandshake result)
  | stage => stage

def isPending : RunStage → Bool
  | .resolving none | .connecting none | .sslHandshaking none | .waiting none => true
  | _ => false

def isResumed : RunStage → Bool
  | .resolving (some _) | .connecting (some _) | .sslHandshaking (some _)
  | .waiting (some _) => true
  | _ => false

end RunStage

namespace Supervisor

variable (cfg : RunConfig) (asio : Asio G)

/-- What operations of the group are suspended on is cancelled. -/
def abort (s : Supervisor G) (a : Await) : Supervisor G :=
  { s with group := asio.group.release s.group a (asio.aborted a) }

/-- `close`. -/
def close (s : Supervisor G) : Supervisor G :=
  if s.isOpen then { s.abort asio .socket with isOpen := false, stage := s.stage.close asio } else s

/-- `cancel_run`.  The requests of the handshake and of `ping_op` are cancelled when the connection
is lost. -/
def cancelRun (s : Supervisor G) : Supervisor G :=
  let s := ((s.close asio).abort asio .writerTimer).abort asio .channel
  if s.cancelRunCalled then s
  else
    { s with
      group := asio.group.release s.group .exec .operationAborted
      cancelRunCalled := true }

/-- `mpx_.cancel_waiting()`.  The HELLO never waits, as the writer is started right after it was
added. -/
def cancelWaiting (s : Supervisor G) (waits : Bool) : Supervisor G :=
  if waits && asio.group.awaits s.group .ping == .exec then
    { s with group := asio.group.wake s.group .ping (some .operationAborted) }
  else s

/-- `health_checker_.cancel()`. -/
def cancelHealthCheck (s : Supervisor G) : Supervisor G :=
  (s.abort asio .pingTimer).abort asio .waitTimer

/-- `cancel`. -/
def cancel (s : Supervisor G) (waits : Bool) : Operation → Supervisor G
  | .resolve => { s with stage := s.stage.cancelResolve asio }
  | .exec => s.cancelWaiting asio waits
  | .reconnection => { s with willReconnect := false }
  | .run => s.cancelRun asio
  | .receive => s.abort asio .channel
  | .healthCheck => s.cancelHealthCheck asio
  | .all =>
      let s := { s with stage := s.stage.cancelResolve asio, willReconnect := false }
      (((s.cancelHealthCheck asio).cancelRun asio).abort asio .channel).cancelWaiting asio waits
  | .connect | .sslHandshake => s

/-! ### The group -/

/-- `run_op` is resumed as the operations of the group have completed. -/
def groupDone (s : Supervisor G) : Supervisor G :=
  let ec (t : Task) : Option ErrorCode := ((asio.group.order s.group).lookup t).join
  match (asio.group.order s.group).head? with
  | some (.hello, some ec) => { s with stage := .completed (some ec) }
  | some (.checkTimeout, some (.redis .pongTimeout)) => { s with stage := .completed (ec .ping) }
  | _ =>
      if s.willReconnect then { s.abort asio .channel with stage := .waiting none }
      else { s.abort asio .channel with stage := .completed (ec .reader) }

/-- The operation whose handler runs completes. -/
def complete (s : Supervisor G) (t : Task) (ec : Option ErrorCode) : Supervisor G :=
  let s := { s with group := asio.group.complete s.group t ec }
  if (asio.group.order s.group).length = Task.all.length then s.groupDone asio else s

/-- The operation whose handler runs suspends again. -/
def suspend (s : Supervisor G) (t : Task) (a : Await) : Supervisor G :=
  { s with group := asio.group.suspend s.group t a }

/-- `hello_op` after `async_exec`, which completes with an error if it was cancelled. -/
def helloOp (s : Supervisor G) (ec : Option ErrorCode) (f : Finding) : Supervisor G :=
  match ec with
  | some ec => (s.cancelRun asio).complete asio .hello (some ec)
  | none =>
      if asio.group.isCancelled s.group .hello then
        (s.cancelRun asio).complete asio .hello (some f.abortedWith)
      else if f = .refused then
        (s.cancelRun asio).complete asio .hello (some (.redis .resp3Hello))
      else s.complete asio .hello none

/-- `ping_op` after `async_exec`, which cancels the run if it was cancelled and its request was not
notified and cannot be removed. -/
def pingExecuted (s : Supervisor G) (ec : Option ErrorCode) (f : Finding) : Supervisor G :=
  match ec with
  | some ec => (s.abort asio .waitTimer).complete asio .ping (some ec)
  | none =>
      if asio.group.isCancelled s.group .ping then
        let s := if f.isSettled then s else s.cancelRun asio
        (s.abort asio .waitTimer).complete asio .ping (some f.abortedWith)
      else s.suspend asio .ping .pingTimer

/-- `ping_op` after the wait on its timer. -/
def pingExpired (s : Supervisor G) (ec : Option ErrorCode) : Supervisor G :=
  match ec with
  | some ec => s.complete asio .ping (some ec)
  | none =>
      if s.checkerHasExited then s.complete asio .ping none else s.suspend asio .ping .exec

def pingOp (s : Supervisor G) (ec : Option ErrorCode) (f : Finding) : Supervisor G :=
  if !cfg.checked then s.complete asio .ping none
  else if asio.group.awaits s.group .ping = .exec then s.pingExecuted asio ec f
  else s.pingExpired asio ec

def checkTimeoutOp (s : Supervisor G) (ec : Option ErrorCode) (f : Finding) : Supervisor G :=
  if !cfg.checked then s.complete asio .checkTimeout none
  else
    match ec with
    | some ec => s.complete asio .checkTimeout (some ec)
    | none =>
        match f with
        | .refused => s.complete asio .checkTimeout none
        | .nothing =>
            let s := (s.abort asio .pingTimer).cancelRun asio
            complete asio { s with checkerHasExited := true } .checkTimeout
              (some (.redis .pongTimeout))
        | _ => s.suspend asio .checkTimeout .waitTimer

/-- The request of an operation is notified. -/
def notify (s : Supervisor G) (ec : ErrorCode) : Option Task → Supervisor G
  | some t =>
      if asio.group.awaits s.group t = .exec then
        { s with group := asio.group.wake s.group t (some ec) }
      else s
  | none => s

def readerOp (s : Supervisor G) (ec : Option ErrorCode) (f : Finding) : Supervisor G :=
  match ec with
  | some ec => (s.cancelRun asio).complete asio .reader (some ec)
  | none =>
      if s.isOpen then
        match f with
        | .failed ec notified =>
            ((s.notify asio ec notified).cancelRun asio).complete asio .reader (some ec)
        | .more => s.suspend asio .reader .channel
        | _ => s.suspend asio .reader .socket
      else
        s.complete asio .reader
          (if asio.group.awaits s.group .reader = .channel then some .operationAborted else none)

/-- `writer_op` when it has not failed. -/
def write (s : Supervisor G) (f : Finding) : Supervisor G :=
  if s.isOpen then s.suspend asio .writer (if f = .more then .socket else .writerTimer)
  else s.complete asio .writer none

/-- `writer_op`, which does not look at the error of its timer. -/
def writerOp (s : Supervisor G) (ec : Option ErrorCode) (f : Finding) : Supervisor G :=
  match ec with
  | some ec =>
      if asio.group.awaits s.group .writer = .socket then
        (s.cancelRun asio).complete asio .writer (some ec)
      else s.write asio f
  | none => s.write asio f

/-- The handler of an operation. -/
def handler (s : Supervisor G) (ec : Option ErrorCode) (f : Finding) : Task → Supervisor G
  | .hello => s.helloOp asio ec f
  | .ping => s.pingOp cfg asio ec f
  | .checkTimeout => s.checkTimeoutOp cfg asio ec f
  | .reader => s.readerOp asio ec f
  | .writer => s.writerOp asio ec f

/-- The handler of an operation runs, if it is queued. -/
def handle (s : Supervisor G) (t : Task) (f : Finding) : Supervisor G :=
  match asio.group.queued s.group t with
  | none => s
  | some ec => s.handler cfg asio ec f t

/-! ### `run_op` -/

/-- The multiplexer is reset, and the group is started.  Without health checks `ping_op` and
`check_timeout_op` post their completion.  Otherwise `ping_op` completes at once if the flag is
still set, which is reset only by `async_check_timeout`. -/
def startGroup (s : Supervisor G) : Supervisor G :=
  { s with
    stage := .serving
    cancelRunCalled := false
    checkerHasExited := false
    group := asio.group.start
      (if cfg.checked && s.checkerHasExited then [(.ping, none)] else [])
      ((if cfg.checked then [] else [(.ping, none), (.checkTimeout, none)]) ++
        if s.isOpen then []
        else [(.reader, some asio.badDescriptor), (.writer, some asio.badDescriptor)])
      Task.first }

/-- `run_op` is resumed.  The operations `resolve_op` and `connect_op` report a timeout when they
are cancelled. -/
def resume (s : Supervisor G) : Supervisor G :=
  match s.stage with
  | .resolving (some (some ec)) =>
      { s with
        stage := .completed
          (some (if ec = .operationAborted then .redis .resolveTimeout else ec)) }
  | .resolving (some none) => { s with stage := .connecting none, isOpen := true }
  | .connecting (some (some ec)) =>
      { s with
        stage := .completed
          (some (if ec = .operationAborted then .redis .connectTimeout else ec)) }
  | .connecting (some none) =>
      if cfg.useSsl then { s with stage := .sslHandshaking none } else s.startGroup cfg asio
  | .sslHandshaking (some (some ec)) => { s with stage := .completed (some ec) }
  | .sslHandshaking (some none) => s.startGroup cfg asio
  | .waiting (some (some ec)) => { s with stage := .completed (some ec) }
  | .waiting (some none) =>
      if s.willReconnect then { s with stage := .resolving none, isOpen := false }
      else { s with stage := .completed (some .operationAborted) }
  | _ => s

def next (s : Supervisor G) : Occurrence → Supervisor G
  | .ended ec => { s with stage := s.stage.ended ec }
  | .tries => { s with isOpen := true }
  | .resume => s.resume cfg asio
  | .wake t ec => { s with group := asio.group.wake s.group t ec }
  | .handle t f => s.handle cfg asio t f
  | .cancel op waits => s.cancel asio waits op

def Possible (s : Supervisor G) : Occurrence → Prop
  | .ended _ => s.stage.isPending = true
  | .tries => s.stage = .connecting none ∧ asio.tries s.isOpen = true
  | .resume => s.stage.isResumed = true
  | .wake t ec => s.stage = .serving ∧ t ∉ asio.group.active s.group ∧
      (asio.group.awaits s.group t).ends s.isOpen ec = true
  | .handle t _ => s.stage = .serving ∧ (asio.group.queued s.group t).isSome = true
  | .cancel _ _ => True

instance (s : Supervisor G) (a : Occurrence) : Decidable (s.Possible asio a) :=
  match a with
  | .ended _ => inferInstanceAs (Decidable (s.stage.isPending = true))
  | .tries =>
      inferInstanceAs (Decidable (s.stage = .connecting none ∧ asio.tries s.isOpen = true))
  | .resume => inferInstanceAs (Decidable (s.stage.isResumed = true))
  | .wake t ec =>
      inferInstanceAs (Decidable (s.stage = .serving ∧ t ∉ asio.group.active s.group ∧
        (asio.group.awaits s.group t).ends s.isOpen ec = true))
  | .handle t _ =>
      inferInstanceAs (Decidable (s.stage = .serving ∧
        (asio.group.queued s.group t).isSome = true))
  | .cancel _ _ => inferInstanceAs (Decidable True)

def Step (s : Supervisor G) (a : Occurrence) (s' : Supervisor G) : Prop :=
  s.Possible asio a ∧ s' = s.next cfg asio a

/-- A handler runs only if it was queued before all others that are queued. -/
def InTurn (s : Supervisor G) : Occurrence → Prop
  | .handle t _ => ((asio.group.ready s.group).head?.map Prod.fst) = some t
  | _ => True

instance (s : Supervisor G) (a : Occurrence) : Decidable (s.InTurn asio a) :=
  match a with
  | .handle t _ =>
      inferInstanceAs (Decidable (((asio.group.ready s.group).head?.map Prod.fst) = some t))
  | .ended _ | .tries | .resume | .wake _ _ | .cancel _ _ => inferInstanceAs (Decidable True)

/-- A step if the handlers run in the order in which they were queued. -/
def FifoStep (s : Supervisor G) (a : Occurrence) (s' : Supervisor G) : Prop :=
  s.Step cfg asio a s' ∧ s.InTurn asio a

/-- `async_run` is called on a connection that was never used. -/
def start (willReconnect : Bool) : Supervisor G where
  stage := .resolving none
  willReconnect := willReconnect
  group := asio.group.start [] [] Task.first

end Supervisor

end Redis
