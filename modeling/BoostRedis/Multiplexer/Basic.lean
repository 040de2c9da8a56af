import BoostRedis.Request
import BoostRedis.Resp3.Parser

/-!
# The multiplexer

The multiplexer queues the requests of a connection, coalesces those that wait into the write
buffer, and gives the messages in the read buffer to the adapter of the request they answer, or
to the receive adapter.

`Elem` is an entry of the queue and `Multiplexer` the state of `detail::multiplexer`.  Entries
are shared pointers in the source: here an entry has an identity, and with it the response that
its adapter writes to.  An operation returns the calls it makes to adapters and to the callbacks
of the entries, besides the new state.
-/

namespace Redis

open Resp3

/-- How far a request is: it waits to be written, it is being written, or it has been
written. -/
inductive Elem.Status where
  | waiting
  | staged
  | written
deriving DecidableEq, Repr

/-- An entry of the queue, `multiplexer::elem`. -/
structure Elem (ρ : Type) where
  id : ℕ
  req : Request
  adapter : ℕ → Adapter ρ
  response : ρ
  remainingResponses : ℕ
  status : Elem.Status
  ec : Option ErrorCode
  readSize : ℕ

/-- What an operation does that can be seen from outside: it stages a request with a number of
responses, it gives a node to the adapter of a request, with the index of the response, or to
the receive adapter, an adapter sets an error, a message is finished, and a request is notified
with an error or without. -/
inductive Event where
  | staged (id responses : ℕ)
  | fed (id index : ℕ) (nd : Node)
  | pushed (nd : Node)
  | rejected (ec : ErrorCode)
  | finished (isPush : Bool)
  | notified (id : ℕ) (ec : Option ErrorCode)
deriving DecidableEq, Repr

namespace Elem

variable {ρ : Type}

/-- A new entry, as the constructor makes it. -/
def make (id : ℕ) (req : Request) (adapter : ℕ → Adapter ρ) (response : ρ) : Elem ρ where
  id := id
  req := req
  adapter := adapter
  response := response
  remainingResponses := req.expectedResponses
  status := .waiting
  ec := none
  readSize := 0

def isWaiting (e : Elem ρ) : Bool := e.status = .waiting

def isWritten (e : Elem ρ) : Bool := e.status = .written

def isStaged (e : Elem ρ) : Bool := e.status = .staged

def markWritten (e : Elem ρ) : Elem ρ := { e with status := .written }

def markStaged (e : Elem ρ) : Elem ρ := { e with status := .staged }

def markWaiting (e : Elem ρ) : Elem ρ := { e with status := .waiting }

/-- The index of the response that is read next. -/
def index (e : Elem ρ) : ℕ := e.req.expectedResponses - e.remainingResponses

/-- The adapter for the response that is read next, `get_adapter`. -/
def getAdapter (e : Elem ρ) : Adapter ρ := e.adapter e.index

/-- `notify_done`. -/
def notifyDone (e : Elem ρ) : Event := .notified e.id e.ec

/-- `notify_error`: the first error is kept. -/
def notifyError (e : Elem ρ) (ec : ErrorCode) : Elem ρ × Event :=
  let e := { e with ec := some (e.ec.getD ec) }
  (e, e.notifyDone)

/-- `commit_response`. -/
def commitResponse (e : Elem ρ) (size : ℕ) : Elem ρ :=
  { e with readSize := (e.readSize + size) % 2 ^ 64, remainingResponses := e.remainingResponses - 1 }

end Elem

/-- The counters of `usage`. -/
structure Usage where
  commandsSent : ℕ := 0
  bytesSent : ℕ := 0
  responsesReceived : ℕ := 0
  pushesReceived : ℕ := 0
  responseBytesReceived : ℕ := 0
  pushBytesReceived : ℕ := 0
deriving DecidableEq, Repr

/-- The state of `detail::multiplexer`, with what the receive adapter writes to. -/
structure Multiplexer (ρ : Type) where
  readBuffer : Bytes := []
  writeBuffer : Bytes := []
  reqs : List (Elem ρ) := []
  parser : Parser := .fresh
  onPush : Bool := false
  cancelRunCalled : Bool := false
  usage : Usage := {}
  receiveAdapter : Adapter ρ
  receiveResponse : ρ

/-- What an operation leaves: the state afterwards, what it returns, and the calls it made. -/
structure Effect (ρ α : Type) where
  mpx : Multiplexer ρ
  value : α
  events : List Event

/-- How a call of `commit_read` ends: more data is needed, a message of some size was read, an
error is set, or the program has faulted.  Whether the message is a push is reported with it. -/
inductive ReadResult where
  | needsMore
  | message (isPush : Bool) (size : ℕ)
  | error (isPush : Bool) (ec : ErrorCode)
  | faulted
deriving DecidableEq, Repr

namespace Multiplexer

variable {ρ : Type}

/-- `multiplexer::remove`, for an entry of the queue. -/
def remove (m : Multiplexer ρ) (id : ℕ) : Multiplexer ρ × Bool :=
  match m.reqs.find? (·.id = id) with
  | none => (m, false)
  | some e =>
      if e.isWaiting then ({ m with reqs := m.reqs.eraseP (·.id = id) }, true) else (m, false)

/-- `release_push_requests`: requests without responses are done once they are written. -/
def releasePushRequests (m : Multiplexer ρ) : Effect ρ ℕ :=
  let keep (e : Elem ρ) : Bool := !(e.isWritten && e.req.expectedResponses == 0)
  let released := m.reqs.filter (!keep ·)
  { mpx := { m with reqs := m.reqs.filter keep }
    value := released.length
    events := released.map Elem.notifyDone }

/-- `multiplexer::commit_write`. -/
def commitWrite (m : Multiplexer ρ) : Effect ρ ℕ :=
  releasePushRequests
    { m with
      writeBuffer := []
      reqs := m.reqs.map fun e => if e.isStaged then e.markWritten else e }

/-- The rotation of `std::rotate` that brings the first element of a list to its end. -/
def rotateFirst {α : Type} : List α → List α
  | [] => []
  | x :: xs => xs ++ [x]

/-- `multiplexer::add`: the new entry is the last one, or, with priority, it is rotated to the
front of the entries that wait.  The rotation is on the reversed queue. -/
def add (m : Multiplexer ρ) (e : Elem ρ) : Multiplexer ρ :=
  let reqs := m.reqs ++ [e]
  if e.req.hasHelloPriority then
    let backwards := reqs.reverse
    let waiting := backwards.takeWhile Elem.isWaiting
    { m with reqs := (rotateFirst waiting ++ backwards.dropWhile Elem.isWaiting).reverse }
  else { m with reqs := reqs }

/-- `is_next_push`, on a read buffer that is not empty. -/
def isNextPush (m : Multiplexer ρ) : Bool :=
  toType (m.readBuffer.headD 0) = .push ||
    match m.reqs with
    | [] => true
    | e :: _ => e.remainingResponses == 0 || e.isWaiting

/-- `on_finish_parsing`. -/
def onFinishParsing (m : Multiplexer ρ) (isPush : Bool) : Multiplexer ρ × ℕ :=
  let size := m.parser.consumed
  let usage := m.usage
  let usage :=
    if isPush then
      { usage with
        pushesReceived := (usage.pushesReceived + 1) % 2 ^ 64
        pushBytesReceived := (usage.pushBytesReceived + size) % 2 ^ 64 }
    else
      { usage with
        responsesReceived := (usage.responsesReceived + 1) % 2 ^ 64
        responseBytesReceived := (usage.responseBytesReceived + size) % 2 ^ 64 }
  ({ m with
      usage := usage
      onPush := false
      readBuffer := m.readBuffer.drop size
      parser := m.parser.reset }, size)

/-- The part of `commit_read` for a push. -/
def commitPush (m : Multiplexer ρ) : Effect ρ ReadResult :=
  let r := parse m.parser m.readBuffer m.receiveAdapter m.receiveResponse
  let m := { m with onPush := true, parser := r.parser, receiveResponse := r.state }
  let events := r.nodes.map Event.pushed
  match r.status with
  | .needsMore => ⟨m, .needsMore, events⟩
  | .failed e => ⟨m, .error true (.redis e), events⟩
  | .rejected ec => ⟨m, .error true ec, events ++ [.rejected ec]⟩
  | .done =>
      let (m, size) := m.onFinishParsing true
      ⟨m, .message true size, events ++ [.finished true]⟩
  | .faulted _ | .exhausted => ⟨m, .faulted, events⟩

/-- The part of `commit_read` for the response to the request at the front of the queue. -/
def commitResponse (m : Multiplexer ρ) (e : Elem ρ) (rest : List (Elem ρ)) : Effect ρ ReadResult :=
  let r := parse m.parser m.readBuffer e.getAdapter e.response
  let events := r.nodes.map (Event.fed e.id e.index)
  let e := { e with response := r.state }
  let m := { m with onPush := false, parser := r.parser, reqs := e :: rest }
  match r.status with
  | .needsMore => ⟨m, .needsMore, events⟩
  | .failed ec =>
      let (e, notified) := e.notifyError (.redis ec)
      ⟨{ m with reqs := e :: rest }, .error false (.redis ec), events ++ [notified]⟩
  | .rejected ec =>
      let (e, notified) := e.notifyError ec
      ⟨{ m with reqs := e :: rest }, .error false ec, events ++ [.rejected ec, notified]⟩
  | .done =>
      let e := e.commitResponse m.parser.consumed
      if e.remainingResponses = 0 then
        let (m, size) := onFinishParsing { m with reqs := rest } false
        ⟨m, .message false size, events ++ [e.notifyDone, .finished false]⟩
      else
        let (m, size) := onFinishParsing { m with reqs := e :: rest } false
        ⟨m, .message false size, events ++ [.finished false]⟩
  | .faulted _ | .exhausted => ⟨m, .faulted, events⟩

/-- `multiplexer::commit_read`.  On a new message it is decided whether the message is a push.
With an empty queue `is_next_push` holds, so the last case is the assertion of the source. -/
def commitRead (m : Multiplexer ρ) : Effect ρ ReadResult :=
  if m.onPush || m.isNextPush then m.commitPush
  else
    match m.reqs with
    | e :: rest => m.commitResponse e rest
    | [] => ⟨m, .faulted, []⟩

/-- `multiplexer::reset`. -/
def reset (m : Multiplexer ρ) : Multiplexer ρ :=
  { m with
    writeBuffer := []
    readBuffer := []
    parser := m.parser.reset
    onPush := false
    cancelRunCalled := false }

/-- `multiplexer::prepare_write`: the requests after the partition point are coalesced into the
write buffer and staged. -/
def prepareWrite (m : Multiplexer ρ) : Effect ρ ℕ :=
  let sent := m.reqs.takeWhile (!·.isWaiting)
  let queued := m.reqs.dropWhile (!·.isWaiting)
  let writeBuffer := queued.foldl (fun buffer e => buffer ++ e.req.payload) m.writeBuffer
  let commandsSent :=
    queued.foldl (fun n e => (n + e.req.commands) % 2 ^ 64) m.usage.commandsSent
  { mpx :=
      { m with
        writeBuffer := writeBuffer
        reqs := sent ++ queued.map Elem.markStaged
        usage :=
          { m.usage with
            commandsSent := commandsSent
            bytesSent := (m.usage.bytesSent + writeBuffer.length) % 2 ^ 64 } }
    value := queued.length
    events := queued.map fun e => .staged e.id e.req.expectedResponses }

/-- `multiplexer::cancel_waiting`. -/
def cancelWaiting (m : Multiplexer ρ) : Effect ρ ℕ :=
  let cancelled := m.reqs.filter Elem.isWaiting
  { mpx := { m with reqs := m.reqs.filter (!·.isWaiting) }
    value := cancelled.length
    events := cancelled.map fun e => (e.notifyError .operationAborted).2 }

/-- Whether `cancel_on_conn_lost` keeps a request. -/
def keptOnConnLost (e : Elem ρ) : Bool :=
  if e.isWaiting then !e.req.config.cancelOnConnectionLost else !e.req.config.cancelIfUnresponded

/-- `multiplexer::cancel_on_conn_lost`. -/
def cancelOnConnLost (m : Multiplexer ρ) : Effect ρ ℕ :=
  if m.cancelRunCalled then ⟨m, 0, []⟩
  else
    let cancelled := m.reqs.filter (!keptOnConnLost ·)
    { mpx :=
        { m with
          cancelRunCalled := true
          reqs := (m.reqs.filter keptOnConnLost).map Elem.markWaiting }
      value := cancelled.length
      events := cancelled.map fun e => (e.notifyError .operationAborted).2 }

/-! ### The ends of `commit_read` -/

section Ends

variable {m : Multiplexer ρ} {r : Parsed ρ}

section Push

variable (hr : parse m.parser m.readBuffer m.receiveAdapter m.receiveResponse = r)

include hr

theorem commitPush_of_done (hs : r.status = .done) :
  m.commitPush
    = ⟨(onFinishParsing
          { m with onPush := true, parser := r.parser, receiveResponse := r.state } true).1,
      .message true r.parser.consumed, r.nodes.map .pushed ++ [.finished true]⟩
  := by
  rw [commitPush, hr]
  simp only [hs]
  rfl

theorem commitPush_of_needsMore (hs : r.status = .needsMore) :
  m.commitPush
    = ⟨{ m with onPush := true, parser := r.parser, receiveResponse := r.state }, .needsMore,
      r.nodes.map .pushed⟩
  := by
  rw [commitPush, hr]
  simp only [hs]

theorem commitPush_of_rejected {ec : ErrorCode} (hs : r.status = .rejected ec) :
  m.commitPush
    = ⟨{ m with onPush := true, parser := r.parser, receiveResponse := r.state }, .error true ec,
      r.nodes.map .pushed ++ [.rejected ec]⟩
  := by
  rw [commitPush, hr]
  simp only [hs]

end Push

section Response

variable {e : Elem ρ} {rest : List (Elem ρ)}
  (hr : parse m.parser m.readBuffer e.getAdapter e.response = r)

include hr

theorem commitResponse_of_done (hs : r.status = .done) {e' : Elem ρ}
    (he : Elem.commitResponse { e with response := r.state } r.parser.consumed = e') :
  m.commitResponse e rest
    = if e'.remainingResponses = 0 then
        ⟨(onFinishParsing { m with onPush := false, parser := r.parser, reqs := rest } false).1,
          .message false r.parser.consumed,
          r.nodes.map (.fed e.id e.index) ++ [e'.notifyDone, .finished false]⟩
      else
        ⟨(onFinishParsing { m with onPush := false, parser := r.parser, reqs := e' :: rest } false).1,
          .message false r.parser.consumed, r.nodes.map (.fed e.id e.index) ++ [.finished false]⟩
  := by
  rw [commitResponse, hr, ← he]
  simp only [hs]
  rfl

theorem commitResponse_of_needsMore (hs : r.status = .needsMore) :
  m.commitResponse e rest
    = ⟨{ m with
          onPush := false
          parser := r.parser
          reqs := { e with response := r.state } :: rest },
      .needsMore, r.nodes.map (.fed e.id e.index)⟩
  := by
  rw [commitResponse, hr]
  simp only [hs]

theorem commitResponse_of_rejected {ec : ErrorCode} (hs : r.status = .rejected ec) {e' : Elem ρ}
    {notified : Event}
    (he : Elem.notifyError { e with response := r.state } ec = (e', notified)) :
  m.commitResponse e rest
    = ⟨{ m with onPush := false, parser := r.parser, reqs := e' :: rest }, .error false ec,
      r.nodes.map (.fed e.id e.index) ++ [.rejected ec, notified]⟩
  := by
  rw [commitResponse, hr]
  simp only [hs, he]

end Response

end Ends

end Multiplexer

end Redis
