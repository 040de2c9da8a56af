import BoostRedis.Adapter.Types
import BoostRedis.Multiplexer.Response
import BoostRedis.Request.Wire
import Mathlib.Data.List.GetD

/-!
# A client and a server

A `Server` is any function that answers commands, depending on a state.  An `Exchange` is a
connection with such a server at its other end: requests are made by calls of `push` and
`push_range`, the writer hands over their bytes, the server reads commands off the bytes that have
arrived, and what it sends comes back in chunks.  The two ends and the network take turns in any
order.

To the user it looks as if the requests were executed one after the other, in the order in which
they were staged: the response of a request is what its adapter makes of the replies that the
server gives to its commands, from the state in which the earlier requests have left it.  This is
so in every run in which no reply is taken for a push.  A reply is taken for one if it is read
while a request that expects no response is at the front of the queue, staged and not yet written.
-/

namespace Redis

open Resp3

/-! ### Servers -/

/-- What a server does with a command: the state afterwards, and the messages it sends.  One of
them is a reply, unless the command is answered by pushes only. -/
structure Server (σ : Type) where
  handle : σ → List Bytes → σ × List Message
  replies_handle : ∀ s fields,
    replies (handle s fields).2 = if fields.headD [] ∈ pushCommands then 0 else 1

/-- The number of commands that are answered by a reply. -/
def repliesTo (cmds : List (List Bytes)) : ℕ :=
  cmds.countP fun fields => fields.headD [] ∉ pushCommands

/-- The bytes of some commands. -/
def encodeCommands (cmds : List (List Bytes)) : Bytes :=
  cmds.flatMap fun fields => (commandValue fields).encode

namespace Server

variable {σ : Type} (server : Server σ)

/-- The state after some commands. -/
def execute (s : σ) (cmds : List (List Bytes)) : σ :=
  cmds.foldl (fun s fields => (server.handle s fields).1) s

/-- The replies to some commands. -/
def respond : σ → List (List Bytes) → List Message
  | _, [] => []
  | s, fields :: cmds =>
      (server.handle s fields).2.filter (!·.isPush) ++ respond (server.handle s fields).1 cmds

theorem execute_append (s : σ) (cmds cmds' : List (List Bytes)) :
  server.execute s (cmds ++ cmds') = server.execute (server.execute s cmds) cmds'
  := List.foldl_append

theorem respond_append (s : σ) (cmds cmds' : List (List Bytes)) :
  server.respond s (cmds ++ cmds')
    = server.respond s cmds ++ server.respond (server.execute s cmds) cmds'
  := by
  induction cmds generalizing s with
  | nil => rfl
  | cons fields cmds ih =>
      rw [List.cons_append, respond, respond, ih, List.append_assoc]
      rfl

theorem length_respond (s : σ) (cmds : List (List Bytes)) :
  (server.respond s cmds).length = repliesTo cmds
  := by
  induction cmds generalizing s with
  | nil => rfl
  | cons fields cmds ih =>
      have hreplies := server.replies_handle s fields
      rw [replies, List.countP_eq_length_filter] at hreplies
      rw [respond, List.length_append, ih, hreplies, repliesTo, repliesTo, List.countP_cons]
      simp [Nat.add_comm]

theorem isPush_of_mem_respond {s : σ} {cmds : List (List Bytes)} {m : Message}
    (h : m ∈ server.respond s cmds) :
  m.isPush = false
  := by
  induction cmds generalizing s with
  | nil => cases h
  | cons fields cmds ih =>
      obtain h | h := List.mem_append.mp h
      · simpa using (List.mem_filter.mp h).2
      · apply ih h

end Server

/-! ### Exchanges -/

/-- A connection with its writer, and the server: the bytes that have arrived there, how many of
them it has read, the commands it has executed, its state, and the messages it has sent.  The
commands of the requests are kept by their numbers. -/
structure Exchange (σ ρ : Type) where
  writer : Writer ρ
  state : σ
  arrived : Bytes := []
  read : ℕ := 0
  served : List (List Bytes) := []
  outbox : List Message := []
  book : List (List (List Bytes)) := []

/-- What happens in an exchange.

* A request is made and executed, removed, or all requests that wait are cancelled.
* The writer prepares and commits a write.
* The first `n` bytes that were written have arrived at the server.
* The server reads a command and executes it, or sends a push.
* A chunk of what the server has sent arrives, and is read. -/
inductive Turnaround (ρ : Type) where
  | exec (calls : List Call) (config : Config) (adapter : ℕ → Adapter ρ) (response : ρ)
  | remove (id : ℕ)
  | cancelWaiting
  | prepareWrite
  | commitWrite
  | transmit (n : ℕ)
  | serve
  | announce (m : Message)
  | deliver (chunk : Bytes)
  | commitRead

/-- The request that is made by some calls. -/
def Request.ofCalls (config : Config) (calls : List Call) : Request :=
  calls.foldl Request.call (Request.clear { config := config })

namespace Exchange

variable {σ ρ : Type}

/-- A connection that is just up, without requests. -/
def start (receiveAdapter : Adapter ρ) (receiveResponse : ρ) (init : σ) : Exchange σ ρ where
  writer :=
    { world := .connected
        { receiveAdapter := receiveAdapter, receiveResponse := receiveResponse } 0 }
  state := init

def world (s : Exchange σ ρ) : World ρ := s.writer.world

/-- The bytes given to `async_write`. -/
def written (s : Exchange σ ρ) : Bytes :=
  (s.writer.committed ++ s.writer.flight.toList).flatten

/-- The commands of a request. -/
def commandsOf (s : Exchange σ ρ) (id : ℕ) : List (List Bytes) := s.book.getD id []

/-- The commands that were staged, in order. -/
def staged (s : Exchange σ ρ) : List (List Bytes) :=
  (stagings s.world.log).flatMap s.commandsOf

/-- What the server reads of the bytes that have arrived. -/
def reads (s : Exchange σ ρ) : Parsed Unit :=
  parse .fresh (s.arrived.drop s.read) accepting ()

/-- An operation on the multiplexer. -/
def operate (s : Exchange σ ρ) (a : Action ρ) : Exchange σ ρ :=
  { s with writer := { s.writer.next a with world := s.world.apply a } }

/-- What a turn does. -/
def next (server : Server σ) (s : Exchange σ ρ) : Turnaround ρ → Exchange σ ρ
  | .exec calls config adapter response =>
      { s.operate (.add (.ofCalls config calls) adapter response) with
        book := s.book ++ [calls.filterMap Call.fields] }
  | .remove id => s.operate (.remove id)
  | .cancelWaiting => s.operate .cancelWaiting
  | .prepareWrite => s.operate .prepareWrite
  | .commitWrite => s.operate .commitWrite
  | .transmit n => { s with arrived := s.written.take n }
  | .serve =>
      let fields := s.reads.nodes.tail.map Node.value
      { s with
        read := s.read + s.reads.parser.consumed
        served := s.served ++ [fields]
        state := (server.handle s.state fields).1
        outbox := s.outbox ++ (server.handle s.state fields).2 }
  | .announce m => { s with outbox := s.outbox ++ [m] }
  | .deliver chunk => s.operate (.receive chunk)
  | .commitRead => s.operate .commitRead

/-- When a turn is possible.  The client takes part while the connection is up, and the bytes of
its requests can be counted.  The server reads a command when it is complete. -/
def Possible (s : Exchange σ ρ) : Turnaround ρ → Prop
  | .exec calls config _ _ => s.world.up = true ∧
      (Request.ofCalls config calls).payload.length < 2 ^ 64
  | .remove id => s.world.up = true ∧ s.world.Possible (.remove id)
  | .cancelWaiting => s.world.up = true
  | .prepareWrite => s.world.up = true ∧ s.writer.flight = none
  | .commitWrite => s.world.up = true ∧ s.writer.flight.isSome = true
  | .transmit n => s.arrived.length ≤ n ∧ (s.written.take n).length < s.read + 2 ^ 64
  | .serve => s.reads.status = .done
  | .announce m => m.isPush = true
  | .deliver chunk => s.world.up = true ∧ s.world.Possible (.receive chunk) ∧
      s.world.received ++ chunk <+: encodeMessages s.outbox
  | .commitRead => s.world.up = true ∧ s.world.Possible .commitRead

instance (s : Exchange σ ρ) (a : Turnaround ρ) : Decidable (s.Possible a) :=
  match a with
  | .exec _ _ _ _ => inferInstanceAs (Decidable (_ ∧ _))
  | .remove _ => inferInstanceAs (Decidable (_ ∧ _))
  | .cancelWaiting => inferInstanceAs (Decidable (_ = _))
  | .prepareWrite => inferInstanceAs (Decidable (_ ∧ _))
  | .commitWrite => inferInstanceAs (Decidable (_ ∧ _))
  | .transmit _ => inferInstanceAs (Decidable (_ ∧ _))
  | .serve => inferInstanceAs (Decidable (_ = _))
  | .announce _ => inferInstanceAs (Decidable (_ = _))
  | .deliver _ => inferInstanceAs (Decidable (_ ∧ _ ∧ _))
  | .commitRead => inferInstanceAs (Decidable (_ ∧ _))

def Step (server : Server σ) (s : Exchange σ ρ) (a : Turnaround ρ) (s' : Exchange σ ρ) : Prop :=
  s.Possible a ∧ s' = s.next server a

/-- No reply is taken for a push. -/
def Classifies (s : Exchange σ ρ) : Turnaround ρ → Prop
  | .commitRead => ¬ Overtaken s.world.mpx
  | _ => True

instance (s : Exchange σ ρ) : DecidablePred s.Classifies
  | .commitRead => inferInstanceAs (Decidable (¬ Overtaken s.world.mpx))
  | .exec _ _ _ _ | .remove _ | .cancelWaiting | .prepareWrite | .commitWrite | .transmit _ | .serve
  | .announce _ | .deliver _ => inferInstanceAs (Decidable True)

/-- A turn with which no reply is taken for a push. -/
def ClassifiedStep (server : Server σ) (s : Exchange σ ρ) (a : Turnaround ρ) (s' : Exchange σ ρ) :
    Prop :=
  s.Step server a s' ∧ s.Classifies a

theorem run_of_follows {server : Server σ} {s : Exchange σ ρ} {ts : List (Turnaround ρ)}
    (h : Run.Follows (next server) (fun s t => s.Possible t ∧ s.Classifies t) s ts) :
  Run (ClassifiedStep server) s ts (ts.foldl (next server) s)
  := (Run.of_follows h).mono fun h => ⟨⟨h.1.1, h.2⟩, h.1.2⟩

end Exchange

/-! ### The answers of a server -/

section Answers

variable {id : ℕ} {cmds : List (ℕ × ℕ)} {ms : List Message}

/-- Pushes answer no command. -/
theorem answers_filter :
  answers id cmds (ms.filter (!·.isPush)) = answers id cmds ms
  := by
  induction ms generalizing cmds with
  | nil => rfl
  | cons m ms ih =>
      cases hm : m.isPush with
      | true => rw [List.filter_cons_of_neg (by simp [hm]), answers_push hm, ih]
      | false =>
          rw [List.filter_cons_of_pos (by simp [hm])]
          cases cmds with
          | nil => simp [answers, hm]
          | cons c cmds => rw [answers_reply hm, answers_reply hm, ih]

theorem replies_eq_length (h : ∀ m ∈ ms, m.isPush = false) :
  replies ms = ms.length
  := by
  apply List.countP_eq_length.mpr
  intro m hm
  rw [h m hm]
  rfl

/-- Replies to the commands of one request. -/
theorem answers_own {i : ℕ} (h : ∀ m ∈ ms, m.isPush = false) :
  answers id ((List.range' i ms.length).map (id, ·) ++ cmds) ms = (ms.zipIdx i).map Prod.swap
  := by
  induction ms generalizing i with
  | nil => simp [answers]
  | cons m ms ih =>
      obtain ⟨hm, hms⟩ := List.forall_mem_cons.mp h
      rw [List.length_cons, List.range'_succ, List.map_cons, List.cons_append, answers_reply hm,
        if_pos rfl, ih hms, List.zipIdx_cons, List.map_cons]
      rfl

/-- The replies to the commands of a request, where those before them are to other commands. -/
theorem answers_between {before after : List (ℕ × ℕ)} {first own last : List Message}
    (hbefore : indicesOf id before = []) (hafter : indicesOf id after = [])
    (hfirst : first.length = before.length)
    (hreplies : ∀ m ∈ first ++ (own ++ last), m.isPush = false) :
  answers id (before ++ ((List.range own.length).map (id, ·) ++ after)) (first ++ (own ++ last))
    = own.zipIdx.map Prod.swap
  := by
  obtain ⟨hfirst', hrest⟩ := List.forall_mem_append.mp hreplies
  obtain ⟨hown, -⟩ := List.forall_mem_append.mp hrest
  have hskip : replies first = before.length := by
    rw [replies_eq_length hfirst', hfirst]
  have hcount : replies own = ((List.range own.length).map (id, ·)).length := by
    rw [replies_eq_length hown, List.length_map, List.length_range]
  have hnone :
      answers id (before ++ ((List.range own.length).map (id, ·) ++ after)) first = [] := by
    apply List.map_eq_nil_iff.mp
    rw [map_fst_answers, hskip, List.take_left, hbefore]
  rw [answers_append, hnone, hskip, List.drop_left, List.nil_append, answers_append, hcount,
    List.drop_left, answers_eq_nil hafter, List.append_nil, List.range_eq_range', answers_own hown]
  · rw [List.length_append]
    omega
  · rw [List.length_append]
    omega

/-- More replies answer more commands. -/
theorem answers_prefix {ms' : List Message} (h : ms <+: ms') (hle : replies ms ≤ cmds.length) :
  answers id cmds ms <+: answers id cmds ms'
  := by
  obtain ⟨rest, rfl⟩ := h
  rw [answers_append hle]
  apply List.prefix_append

theorem nodesOf_zipIdx (ms : List Message) :
  nodesOf (ms.zipIdx.map Prod.swap) = replyCalls (ms.map Message.nodes)
  := by
  rw [nodesOf, replyCalls, List.flatMap_map, List.zipIdx_map, List.flatMap_map]
  rfl

end Answers

/-! ### Commands on their way -/

theorem encodeCommands_append (cmds cmds' : List (List Bytes)) :
  encodeCommands (cmds ++ cmds') = encodeCommands cmds ++ encodeCommands cmds'
  := List.flatMap_append

theorem repliesTo_append (cmds cmds' : List (List Bytes)) :
  repliesTo (cmds ++ cmds') = repliesTo cmds + repliesTo cmds'
  := List.countP_append

theorem Request.ofCalls_eq (config : Config) (calls : List Call) :
  (Request.ofCalls config calls).payload = encodeCommands (calls.filterMap Call.fields) ∧
    (Request.ofCalls config calls).expectedResponses = repliesTo (calls.filterMap Call.fields)
  := by
  obtain ⟨hpayload, -, hexpected⟩ := foldl_call calls (Request.clear { config := config })
  exact ⟨hpayload, hexpected.trans (Nat.zero_add _)⟩

/-- A command is read when it has arrived, and just the command. -/
theorem read_command {fields : List Bytes} {view s : Bytes}
    (hlen : (commandValue fields).encode.length < 2 ^ 64)
    (hview : view <+: (commandValue fields).encode ++ s) (hv : view.length < 2 ^ 64)
    (hdone : (parse .fresh view accepting ()).status = .done) :
  (parse .fresh view accepting ()).nodes.tail.map Node.value = fields ∧
    (parse .fresh view accepting ()).parser.consumed = (commandValue fields).encode.length
  := by
  have hpart := parse_part (m := commandMessage fields hlen) hview hv accepting ()
  cases hpart with
  | done _ hnodes hconsumed _ =>
      refine ⟨?_, hconsumed⟩
      rw [hnodes, nodes_commandMessage, commandNodes, List.tail_cons, List.map_map]
      apply List.map_id
  | needsMore hmore _ _ =>
      rw [hdone] at hmore
      cases hmore
  | rejected hrejected _ =>
      rw [hdone] at hrejected
      cases hrejected

/-- The commands that are answered, by the numbers of their requests. -/
theorem commands_map_staged {ρ : Type} (queued : List (Elem ρ)) :
  commands (queued.map fun e => .staged e.id e.req.expectedResponses)
    = queued.flatMap fun e => (List.range e.req.expectedResponses).map (e.id, ·)
  := by
  induction queued with
  | nil => rfl
  | cons e queued ih =>
      rw [List.map_cons, commands, ih]
      rfl

section Worlds

variable {ρ : Type} {w : World ρ} {a : Action ρ}

/-- An action that neither adds nor stages anything. -/
theorem World.apply_quiet (hadd : a.isAdd = false) (hprepare : a.isPrepareWrite = false)
    (hreset : a.isReset = false) :
  (w.apply a).nextId = w.nextId ∧ ∃ es, (w.apply a).log = w.log ++ es ∧ stagings es = []
  := by
  have hcalls := stagings_calls (w := w) hprepare
  have hlog := World.operate_log (w := w) hreset
  cases a with
  | commitRead =>
      rw [World.apply]
      split
      · refine ⟨rfl, w.mpx.commitRead.events ++ w.mpx.commitRead.mpx.cancelOnConnLost.events,
          List.append_assoc _ _ _, ?_⟩
        have hread : stagings w.mpx.commitRead.events = [] := hcalls
        have hlost := stagings_calls (w := w.after w.mpx.commitRead) (a := .connLost) rfl
        rw [stagings_append, hread]
        apply hlost
      · exact ⟨rfl, _, hlog, hcalls⟩
  | add _ _ _ => cases hadd
  | prepareWrite => cases hprepare
  | reset => cases hreset
  | remove _ | cancelWaiting | commitWrite | receive _ | connLost => exact ⟨rfl, _, hlog, hcalls⟩

/-- While the connection is up, an action is one operation. -/
theorem World.apply_of_up (hup : (w.apply a).up = true) (hreset : a.isReset = false) :
  w.up = true ∧ w.apply a = w.operate a
  := by
  cases a with
  | commitRead =>
      rw [World.apply] at hup ⊢
      split at hup
      · cases hup
      · exact ⟨hup, rfl⟩
  | connLost => cases hup
  | reset => cases hreset
  | add _ _ _ | remove _ | cancelWaiting | prepareWrite | commitWrite | receive _ =>
      exact ⟨hup, rfl⟩

end Worlds

/-! ### The client -/

namespace Exchange

variable {σ ρ : Type} {s s' : Exchange σ ρ} {a : Action ρ}

/-- What holds of the client: the requests are those in the book, and what was written are the
commands of the requests that were staged. -/
structure Issued (s : Exchange σ ρ) : Prop where
  numbered : s.world.nextId = s.book.length
  counted : ∀ cmds ∈ s.book, (encodeCommands cmds).length < 2 ^ 64
  entries : ∀ x ∈ s.world.mpx.entries, x.2.payload = encodeCommands (s.commandsOf x.1) ∧
    x.2.expectedResponses = repliesTo (s.commandsOf x.1)
  payloads : ∀ p ∈ s.writer.staged, p.1 < s.book.length ∧ p.2 = encodeCommands (s.commandsOf p.1)
  order : s.writer.staged.map Prod.fst = stagings s.world.log
  once : (stagings s.world.log).Nodup
  written : s.written = (s.writer.staged.map Prod.snd).flatten
  commands : commands s.world.log = (stagings s.world.log).flatMap fun id =>
    (List.range (repliesTo (s.commandsOf id))).map (id, ·)
  consistent : s.world.up = true → s.writer.Consistent

namespace Issued

theorem start (receiveAdapter : Adapter ρ) (receiveResponse : ρ) (init : σ) :
  (Exchange.start receiveAdapter receiveResponse init).Issued
  := by
  refine ⟨rfl, ?_, ?_, ?_, rfl, List.nodup_nil, rfl, rfl, ?_⟩
  · rintro _ ⟨⟩
  · rintro _ ⟨⟩
  · rintro _ ⟨⟩
  · intro _
    exact ⟨⟨List.nodup_nil, by rintro _ ⟨⟩, ⟨[], [], rfl, by simp, by simp⟩, by rintro _ ⟨⟩⟩, rfl,
      rfl, rfl, List.nodup_nil, by rintro _ ⟨⟩, by rintro _ ⟨⟩⟩

/-- What the server does leaves the client alone. -/
theorem congr (h : s.Issued) (hwriter : s'.writer = s.writer) (hbook : s'.book = s.book) :
  s'.Issued
  := by
  obtain ⟨writer, _, _, _, _, _, book⟩ := s'
  obtain rfl : writer = s.writer := hwriter
  obtain rfl : book = s.book := hbook
  exact ⟨h.numbered, h.counted, h.entries, h.payloads, h.order, h.once, h.written, h.commands,
    h.consistent⟩

/-- What was written are the commands that were staged. -/
theorem written_eq (h : s.Issued) :
  s.written = encodeCommands s.staged
  := by
  rw [h.written, staged, ← h.order, encodeCommands, List.flatMap_assoc, List.flatMap_map,
    List.flatMap_def]
  congr 1
  apply List.map_congr_left
  intro p hp
  apply (h.payloads p hp).2

/-- An operation that neither adds nor stages anything. -/
theorem quiet (h : s.Issued) (hadd : a.isAdd = false) (hprepare : a.isPrepareWrite = false)
    (hreset : a.isReset = false) (hpermits : s.writer.Permits a)
    (hstaged : (s.writer.next a).staged = s.writer.staged)
    (hwritten : ((s.writer.next a).committed ++ (s.writer.next a).flight.toList).flatten
      = s.written) :
  (s.operate a).Issued
  := by
  obtain ⟨hnext, es, hlog, hes⟩ := World.apply_quiet (w := s.world) hadd hprepare hreset
  have hlog' : (s.operate a).world.log = s.world.log ++ es := hlog
  have hstagings : stagings (s.operate a).world.log = stagings s.world.log := by
    rw [hlog', stagings_append, hes, List.append_nil]
  refine ⟨hnext.trans h.numbered, h.counted, ?_, ?_, ?_, ?_, ?_, ?_, ?_⟩
  · intro x hx
    obtain hx | ⟨req, adapter, response, rfl, -⟩ := World.entries_apply hx
    · apply h.entries x hx
    · cases hadd
  · show ∀ p ∈ (s.writer.next a).staged, _
    rw [hstaged]
    apply h.payloads
  · show (s.writer.next a).staged.map Prod.fst = _
    rw [hstaged, hstagings, h.order]
  · rw [hstagings]
    apply h.once
  · show ((s.writer.next a).committed ++ (s.writer.next a).flight.toList).flatten
      = ((s.writer.next a).staged.map Prod.snd).flatten
    rw [hwritten, hstaged, h.written]
  · rw [hstagings, hlog', commands_append, commands_of_stagings hes, List.append_nil]
    apply h.commands
  · intro hup
    obtain ⟨hup, happly⟩ := World.apply_of_up hup hreset
    have hwriter : (s.operate a).writer = s.writer.next a := by
      rw [operate, happly]
      cases a with
      | add _ _ _ => cases hadd
      | prepareWrite => cases hprepare
      | reset => cases hreset
      | remove _ | cancelWaiting | commitWrite | receive _ | commitRead | connLost => rfl
    rw [hwriter]
    apply (h.consistent hup).step hpermits

/-- The requests that were staged are in the book. -/
theorem lt_of_staged (h : s.Issued) {id : ℕ} (hid : id ∈ stagings s.world.log) :
  id < s.book.length
  := by
  rw [← h.order] at hid
  obtain ⟨p, hp, rfl⟩ := List.mem_map.mp hid
  apply (h.payloads p hp).1

theorem lt_of_entry (h : s.Issued) (hup : s.world.up = true) {x : ℕ × Request}
    (hx : x ∈ s.world.mpx.entries) :
  x.1 < s.book.length
  := by
  rw [← h.numbered]
  apply (h.consistent hup).orderly.lt_nextId
  rw [Multiplexer.ids_eq]
  apply List.mem_map_of_mem hx

/-- A request is made. -/
theorem exec (h : s.Issued) (hup : s.world.up = true) {calls : List Call} {config : Config}
    (hlen : (Request.ofCalls config calls).payload.length < 2 ^ 64) (adapter : ℕ → Adapter ρ)
    (response : ρ) (server : Server σ) :
  (s.next server (.exec calls config adapter response)).Issued
  := by
  obtain ⟨hpayload, hexpected⟩ := Request.ofCalls_eq config calls
  rw [hpayload] at hlen
  have hold : ∀ id < s.book.length,
      (s.next server (.exec calls config adapter response)).commandsOf id = s.commandsOf id :=
    fun id hid => List.getD_append _ _ _ _ hid
  have hnew : (s.next server (.exec calls config adapter response)).commandsOf s.book.length
      = calls.filterMap Call.fields := by
    show (s.book ++ [_]).getD s.book.length [] = _
    simp
  refine ⟨?_, ?_, ?_, ?_, h.order, h.once, h.written, ?_, ?_⟩
  · show s.world.nextId + 1 = (s.book ++ [_]).length
    rw [h.numbered, List.length_append, List.length_singleton]
  · intro cmds hcmds
    obtain hcmds | hcmds := List.mem_append.mp hcmds
    · apply h.counted cmds hcmds
    · obtain rfl := List.mem_singleton.mp hcmds
      apply hlen
  · intro x hx
    obtain hx | ⟨_, _, _, hadd, rfl⟩ := World.entries_apply (w := s.world)
      (a := .add (.ofCalls config calls) adapter response) hx
    · rw [hold x.1 (h.lt_of_entry hup hx)]
      apply h.entries x hx
    · cases hadd
      rw [h.numbered, hnew]
      exact ⟨hpayload, hexpected⟩
  · intro p hp
    obtain ⟨hlt, heq⟩ := h.payloads p hp
    rw [hold p.1 hlt]
    refine ⟨?_, heq⟩
    show p.1 < (s.book ++ [_]).length
    rw [List.length_append]
    omega
  · show Redis.commands s.world.log = _
    rw [h.commands]
    apply List.flatMap_congr
    intro id hid
    rw [hold id (h.lt_of_staged hid)]
  · intro _
    apply (h.consistent hup).step (a := .add (.ofCalls config calls) adapter response) trivial

/-- The requests that wait are staged. -/
theorem prepareWrite (h : s.Issued) (hup : s.world.up = true) (hflight : s.writer.flight = none) :
  (s.operate .prepareWrite).Issued
  := by
  have hconsistent := h.consistent hup
  have hconsistent' := hconsistent.prepareWrite hflight
  have hsplit : Split s.world.mpx.reqs s.world.mpx.sent s.world.mpx.queued :=
    hconsistent.orderly.split_sent
  have hlog : (s.operate .prepareWrite).world.log
      = s.world.log ++ s.world.mpx.queued.map fun e => .staged e.id e.req.expectedResponses := by
    show s.world.log ++ s.world.mpx.prepareWrite.events = _
    rw [hsplit.prepareWrite.2]
  have hqueued : ∀ e ∈ s.world.mpx.queued, e.entry ∈ s.world.mpx.entries :=
    fun e he => List.mem_map_of_mem (List.mem_filter.mp he).1
  refine ⟨h.numbered, h.counted, ?_, ?_, hconsistent'.order, ?_, hconsistent'.written, ?_, ?_⟩
  · intro x hx
    obtain hx | ⟨_, _, _, hadd, -⟩ := World.entries_apply (w := s.world) (a := .prepareWrite) hx
    · apply h.entries x hx
    · cases hadd
  · intro p hp
    obtain hp | hp := List.mem_append.mp hp
    · apply h.payloads p hp
    · obtain ⟨e, he, rfl⟩ := List.mem_map.mp hp
      have hmem : e ∈ s.world.mpx.queued := hsplit.stages ▸ he
      exact ⟨h.lt_of_entry hup (hqueued e hmem), (h.entries _ (hqueued e hmem)).1⟩
  · have hnodup := hconsistent'.once
    rw [hconsistent'.order] at hnodup
    apply hnodup
  · rw [hlog, commands_append, stagings_append, List.flatMap_append, stagings_staged,
      commands_map_staged, h.commands, List.flatMap_map]
    congr 1
    apply List.flatMap_congr
    intro e he
    have hexpected : e.req.expectedResponses = repliesTo (s.commandsOf e.id) :=
      (h.entries _ (hqueued e he)).2
    rw [hexpected]
    rfl
  · intro _
    apply hconsistent'

/-- More is staged as the log and the book grow. -/
theorem staged_prefix (h : s.Issued) (hlog : s.world.log <+: s'.world.log)
    (hbook : s.book <+: s'.book) :
  s.staged <+: s'.staged
  := by
  obtain ⟨es, hlog⟩ := hlog
  obtain ⟨cmds, hbook⟩ := hbook
  have hsame : s.staged = (stagings s.world.log).flatMap s'.commandsOf := by
    apply List.flatMap_congr
    intro id hid
    rw [commandsOf, commandsOf, ← hbook, List.getD_append _ _ _ _ (h.lt_of_staged hid)]
  rw [hsame, staged, ← hlog, stagings_append, List.flatMap_append]
  apply List.prefix_append

/-- As many commands as are answered by a reply. -/
theorem length_answered (s : Exchange σ ρ) (ids : List ℕ) :
  (ids.flatMap fun id => (List.range (repliesTo (s.commandsOf id))).map (id, ·)).length
    = repliesTo (ids.flatMap s.commandsOf)
  := by
  induction ids with
  | nil => rfl
  | cons id ids ih =>
      rw [List.flatMap_cons, List.flatMap_cons, List.length_append, ih, repliesTo_append,
        List.length_map, List.length_range]

/-- The bytes of a command that was staged can be counted. -/
theorem counted_of_mem (h : s.Issued) {fields : List Bytes} (hmem : fields ∈ s.staged) :
  (commandValue fields).encode.length < 2 ^ 64
  := by
  obtain ⟨id, hid, hmem⟩ := List.mem_flatMap.mp hmem
  have hcmds : s.commandsOf id ∈ s.book := by
    rw [commandsOf, List.getD_eq_getElem _ _ (h.lt_of_staged hid)]
    apply List.getElem_mem
  obtain ⟨before, after, hsplit⟩ := List.append_of_mem hmem
  have hlen := h.counted _ hcmds
  rw [hsplit, encodeCommands, List.flatMap_append, List.flatMap_cons, List.length_append,
    List.length_append] at hlen
  omega

end Issued

/-! ### The server -/

/-- What holds of the server: it has executed the commands that were staged, in order, as far as
they have arrived. -/
structure Executed (server : Server σ) (init : σ) (s : Exchange σ ρ) : Prop where
  arrived : s.arrived <+: s.written
  arrived_lt : s.arrived.length < s.read + 2 ^ 64
  read : s.read = (encodeCommands s.served).length
  served : s.served <+: s.staged
  state : s.state = server.execute init s.served
  outbox : s.outbox.filter (!·.isPush) = server.respond init s.served

namespace Executed

variable {server : Server σ} {init : σ}

theorem start (receiveAdapter : Adapter ρ) (receiveResponse : ρ) :
  Executed server init (.start receiveAdapter receiveResponse init)
  := by
  refine ⟨List.prefix_refl _, ?_, rfl, List.prefix_refl _, rfl, rfl⟩
  show 0 < 0 + 2 ^ 64
  omega

/-- What the client does leaves the server alone. -/
theorem operate (h : Executed server init s) (hissued : s.Issued) (hissued' : (s.operate a).Issued)
    (hreset : a.isReset = false) :
  Executed server init (s.operate a)
  := by
  have hstaged : s.staged <+: (s.operate a).staged :=
    hissued.staged_prefix (World.log_apply hreset) (List.prefix_refl _)
  refine ⟨?_, h.arrived_lt, h.read, h.served.trans hstaged, h.state, h.outbox⟩
  apply h.arrived.trans
  obtain ⟨rest, hrest⟩ := hstaged
  rw [hissued.written_eq, hissued'.written_eq, ← hrest, encodeCommands_append]
  apply List.prefix_append

theorem exec (h : Executed server init s) (hissued : s.Issued) {calls : List Call} {config : Config}
    {adapter : ℕ → Adapter ρ} {response : ρ} :
  Executed server init (s.next server (.exec calls config adapter response))
  := by
  have hstaged : s.staged <+: (s.next server (.exec calls config adapter response)).staged :=
    hissued.staged_prefix (List.prefix_refl _) (List.prefix_append _ _)
  exact ⟨h.arrived, h.arrived_lt, h.read, h.served.trans hstaged, h.state, h.outbox⟩

theorem transmit (h : Executed server init s) {n : ℕ}
    (hn : (s.written.take n).length < s.read + 2 ^ 64) :
  Executed server init (s.next server (.transmit n))
  := ⟨List.take_prefix n _, hn, h.read, h.served, h.state, h.outbox⟩

theorem announce (h : Executed server init s) {m : Message} (hm : m.isPush = true) :
  Executed server init (s.next server (.announce m))
  := by
  refine ⟨h.arrived, h.arrived_lt, h.read, h.served, h.state, ?_⟩
  show (s.outbox ++ [m]).filter _ = _
  rw [List.filter_append, h.outbox, List.filter_cons_of_neg (by simp [hm]), List.filter_nil,
    List.append_nil]
  rfl

/-- The server executes the next command that was staged. -/
theorem serve (h : Executed server init s) (hissued : s.Issued) (hdone : s.reads.status = .done) :
  Executed server init (s.next server .serve)
  := by
  obtain ⟨rest, hrest⟩ := h.served
  have hview : s.arrived.drop s.read <+: encodeCommands rest := by
    have hdrop := h.arrived.drop s.read
    rw [hissued.written_eq, ← hrest, encodeCommands_append, h.read, List.drop_left, ← h.read]
      at hdrop
    apply hdrop
  have hlt : (s.arrived.drop s.read).length < 2 ^ 64 := by
    have := h.arrived_lt
    rw [List.length_drop]
    omega
  cases rest with
  | nil =>
      have hempty : s.reads.status = .needsMore := by
        rw [reads, List.prefix_nil.mp hview]
        rfl
      rw [hdone] at hempty
      cases hempty
  | cons fields rest =>
      have hmem : fields ∈ s.staged := by
        rw [← hrest]
        simp
      obtain ⟨hfields, hconsumed⟩ := read_command (hissued.counted_of_mem hmem) hview hlt hdone
      have hfields' : s.reads.nodes.tail.map Node.value = fields := hfields
      have hconsumed' : s.reads.parser.consumed = (commandValue fields).encode.length := hconsumed
      have hread : s.read + s.reads.parser.consumed
          = (encodeCommands (s.served ++ [fields])).length := by
        rw [hconsumed', h.read, encodeCommands_append, List.length_append]
        simp [encodeCommands]
      have hnext : s.next server .serve
          = { s with
              read := (encodeCommands (s.served ++ [fields])).length
              served := s.served ++ [fields]
              state := (server.handle s.state fields).1
              outbox := s.outbox ++ (server.handle s.state fields).2 } := by
        rw [next, hfields', hread]
      rw [hnext]
      refine ⟨h.arrived, ?_, rfl, ?_, ?_, ?_⟩
      · show s.arrived.length < (encodeCommands (s.served ++ [fields])).length + 2 ^ 64
        have := h.arrived_lt
        omega
      · show s.served ++ [fields] <+: s.staged
        rw [← hrest, List.append_cons s.served fields rest]
        apply List.prefix_append
      · show (server.handle s.state fields).1 = server.execute init (s.served ++ [fields])
        rw [server.execute_append, ← h.state]
        rfl
      · show (s.outbox ++ _).filter _ = server.respond init (s.served ++ [fields])
        rw [List.filter_append, h.outbox, server.respond_append, ← h.state, Server.respond,
          Server.respond, List.append_nil]

/-- The server has sent no more replies than commands were staged that it answers. -/
theorem replies_le (h : Executed server init s) (hissued : s.Issued) :
  replies s.outbox ≤ (Redis.commands s.world.log).length
  := by
  obtain ⟨rest, hrest⟩ := h.served
  rw [replies, List.countP_eq_length_filter, h.outbox, server.length_respond, hissued.commands,
    Issued.length_answered]
  show _ ≤ repliesTo s.staged
  rw [← hrest, repliesTo_append]
  omega

end Executed

/-! ### Both ends -/

/-- What holds of an exchange. -/
structure Coupled (server : Server σ) (init : σ) (s : Exchange σ ρ) : Prop where
  issued : s.Issued
  executed : Executed server init s

namespace Coupled

variable {server : Server σ} {init : σ} {t : Turnaround ρ}

theorem start {receiveAdapter : Adapter ρ} {receiveResponse : ρ} :
  Coupled server init (.start receiveAdapter receiveResponse init)
  := ⟨.start _ _ _, .start _ _⟩

/-- An operation that neither adds nor stages anything. -/
theorem quiet (h : Coupled server init s) (hadd : a.isAdd = false)
    (hprepare : a.isPrepareWrite = false) (hreset : a.isReset = false)
    (hpermits : s.writer.Permits a) (hstaged : (s.writer.next a).staged = s.writer.staged)
    (hwritten : ((s.writer.next a).committed ++ (s.writer.next a).flight.toList).flatten
      = s.written) :
  Coupled server init (s.operate a)
  := by
  have hissued := h.issued.quiet hadd hprepare hreset hpermits hstaged hwritten
  exact ⟨hissued, h.executed.operate h.issued hissued hreset⟩

theorem step (h : Coupled server init s) (hstep : s.Step server t s') :
  Coupled server init s'
  := by
  obtain ⟨hpossible, rfl⟩ := hstep
  cases t with
  | exec calls config adapter response =>
      obtain ⟨hup, hlen⟩ := hpossible
      exact ⟨h.issued.exec hup hlen adapter response server, h.executed.exec h.issued⟩
  | remove id => apply h.quiet (a := .remove id) rfl rfl rfl trivial rfl rfl
  | cancelWaiting => apply h.quiet (a := .cancelWaiting) rfl rfl rfl trivial rfl rfl
  | prepareWrite =>
      obtain ⟨hup, hflight⟩ := hpossible
      have hissued := h.issued.prepareWrite hup hflight
      exact ⟨hissued, h.executed.operate h.issued hissued rfl⟩
  | commitWrite =>
      apply h.quiet (a := .commitWrite) rfl rfl rfl hpossible.2 rfl
      show ((s.writer.committed ++ s.writer.flight.toList) ++ []).flatten = _
      rw [List.append_nil]
      rfl
  | transmit n => exact ⟨h.issued.congr rfl rfl, h.executed.transmit hpossible.2⟩
  | serve => exact ⟨h.issued.congr rfl rfl, h.executed.serve h.issued hpossible⟩
  | announce m => exact ⟨h.issued.congr rfl rfl, h.executed.announce hpossible⟩
  | deliver chunk => apply h.quiet (a := .receive chunk) rfl rfl rfl trivial rfl rfl
  | commitRead => apply h.quiet (a := .commitRead) rfl rfl rfl trivial rfl rfl

/-- The bytes that arrive are sent in answer to commands that were staged. -/
theorem sendable (h : Coupled server init s) {ms : List Message} (hms : s.outbox <+: ms)
    {bytes : Bytes} (hbytes : bytes <+: encodeMessages s.outbox) :
  World.Sendable ms s.world.log bytes
  := by
  refine ⟨s.outbox.length, ?_, ?_⟩
  · rw [← List.prefix_iff_eq_take.mp hms]
    apply hbytes
  · rw [← List.prefix_iff_eq_take.mp hms]
    apply h.executed.replies_le h.issued

/-- To the client, the server is one that sends the messages `ms`. -/
theorem classified (h : Coupled server init s) (hstep : s.ClassifiedStep server t s')
    {ms : List Message} (hms : s.outbox <+: ms) :
  ∃ as, Run (World.ClassifiedStep ms) s.world as s'.world
  := by
  obtain ⟨⟨hpossible, rfl⟩, hover⟩ := hstep
  have hsingle : ∀ {a : Action ρ}, s.world.Allowed (fun _ => ms) a → a.isReset = false →
      s.world.Classifies a →
      ∃ as, Run (World.ClassifiedStep ms) s.world as (s.operate a).world :=
    fun {a} hallowed hreset hover => ⟨[a], .single ⟨⟨⟨hallowed, rfl⟩, hreset⟩, hover⟩⟩
  cases t with
  | exec calls config adapter response => exact hsingle ⟨trivial, trivial⟩ rfl trivial
  | remove id => exact hsingle ⟨hpossible.2, trivial⟩ rfl trivial
  | cancelWaiting => exact hsingle ⟨trivial, trivial⟩ rfl trivial
  | prepareWrite => exact hsingle ⟨trivial, hpossible.1⟩ rfl trivial
  | commitWrite => exact hsingle ⟨trivial, trivial⟩ rfl trivial
  | transmit n | serve | announce m => exact ⟨[], .nil _⟩
  | deliver chunk =>
      exact hsingle ⟨hpossible.2.1, fun _ => h.sendable hms hpossible.2.2⟩ rfl trivial
  | commitRead => exact hsingle ⟨hpossible.2, hpossible.1⟩ rfl hover

end Coupled

theorem outbox_extends {server : Server σ} {t : Turnaround ρ} (hstep : s.Step server t s') :
  s.outbox <+: s'.outbox
  := by
  obtain ⟨-, rfl⟩ := hstep
  cases t with
  | serve | announce m => apply List.prefix_append
  | exec _ _ _ _ | remove _ | cancelWaiting | prepareWrite | commitWrite | transmit _ | deliver _
  | commitRead => apply List.prefix_refl

/-- A run of an exchange is a run of its client, against the messages that the server has sent in
the end. -/
theorem Coupled.run {server : Server σ} {init : σ} {ts : List (Turnaround ρ)}
    (h : Coupled server init s) (hrun : Run (ClassifiedStep server) s ts s') :
  Coupled server init s' ∧ s.outbox <+: s'.outbox ∧
    ∀ ms, s'.outbox <+: ms → ∃ as, Run (World.ClassifiedStep ms) s.world as s'.world
  := by
  induction hrun with
  | nil s => exact ⟨h, List.prefix_refl _, fun ms _ => ⟨[], .nil _⟩⟩
  | cons hstep _ ih =>
      obtain ⟨hcoupled, hprefix, hrest⟩ := ih (h.step hstep.1)
      have hfirst := (outbox_extends hstep.1).trans hprefix
      refine ⟨hcoupled, hfirst, ?_⟩
      intro ms hms
      obtain ⟨as, has⟩ := h.classified hstep (hfirst.trans hms)
      obtain ⟨as', has'⟩ := hrest ms hms
      exact ⟨as ++ as', has.trans has'⟩

end Exchange

/-! ### The client while the connection is up -/

section Tracked

variable {ρ : Type} {ms : List Message} {w w' : World ρ} {a : Action ρ}

/-- What holds of a client while the connection is up. -/
structure Tracked (ms : List Message) (w : World ρ) : Prop where
  live : Live ms w
  orderly : Orderly w
  known : Known w

theorem World.ClassifiedStep.of_up (hstep : World.ClassifiedStep ms w a w')
    (hup : w'.up = true) :
  w.up = true ∧ w' = w.operate a ∧ a.isReset = false
  := by
  obtain ⟨⟨⟨-, rfl⟩, hreset⟩, -⟩ := hstep
  obtain ⟨hup, happly⟩ := World.apply_of_up hup hreset
  exact ⟨hup, happly, hreset⟩

/-- A connection that is just up. -/
theorem Tracked.start {receiveAdapter : Adapter ρ} {receiveResponse : ρ}
    (hmpx : w.mpx = Multiplexer.reset
      { receiveAdapter := receiveAdapter, receiveResponse := receiveResponse })
    (hup : w.up = true) (hreceived : w.received = []) (hlog : w.log = []) :
  Tracked ms w
  := by
  have hreqs : w.mpx.reqs = [] := by rw [hmpx]; rfl
  have hnone : ∀ {p : Elem ρ → Prop}, ∀ e ∈ w.mpx.reqs, p e := by simp [hreqs]
  refine ⟨⟨[], [], [], inv_start hmpx hup hreceived hlog (by simp) (by simp)⟩, ?_, ?_⟩
  · exact ⟨by simp [Multiplexer.ids, hreqs], by simp [Multiplexer.ids, hreqs],
      ⟨[], [], hreqs, by simp, by simp⟩, hnone⟩
  · simp [Known, hlog]

theorem Tracked.step (h : Tracked ms w) (hstep : World.ClassifiedStep ms w a w')
    (hup : w'.up = true) :
  Tracked ms w'
  := by
  obtain ⟨-, hoperate, -⟩ := hstep.of_up hup
  refine ⟨?_, ?_, ?_⟩
  · obtain hdown | hlive := hstep.live (.inr h.live)
    · rw [hup] at hdown
      cases hdown
    · apply hlive
  · rw [hoperate]
    apply h.orderly.step
  · rw [hoperate]
    apply h.known.operate h.orderly

theorem Tracked.run {as : List (Action ρ)} (h : w.up = true → Tracked ms w)
    (hrun : Run (World.ClassifiedStep ms) w as w') (hup : w'.up = true) :
  Tracked ms w'
  := by
  apply hrun.invariant (I := fun w => w.up = true → Tracked ms w) _ h hup
  intro w a w' h hstep hup
  apply (h (hstep.of_up hup).1).step hstep hup

theorem Serving.step {id : ℕ} {req : Request} {adapter : ℕ → Adapter ρ} {response : ρ}
    (h : Serving id req adapter response w) (hstep : World.ClassifiedStep ms w a w')
    (hup : w'.up = true) :
  Serving id req adapter response w'
  := by
  obtain ⟨-, rfl, hreset⟩ := hstep.of_up hup
  cases a with
  | prepareWrite => apply h.prepareWrite
  | commitRead => apply h.commitRead
  | connLost => cases hup
  | reset => cases hreset
  | add _ _ _ | remove _ | cancelWaiting | commitWrite | receive _ => apply h.operate _ rfl hreset

end Tracked

/-! ### What the user sees -/

section Response

variable {σ ρ : Type} {server : Server σ} {init : σ} {s s' v v' : Exchange σ ρ}

theorem Exchange.log_operate {a : Action ρ} (hreset : a.isReset = false) :
  s.world.log <+: (s.operate a).world.log
  := World.log_apply hreset

theorem Exchange.Step.growing {t : Turnaround ρ} (hstep : s.Step server t s') :
  s.book <+: s'.book ∧ s.world.log <+: s'.world.log
  := by
  obtain ⟨-, rfl⟩ := hstep
  cases t with
  | exec calls config adapter response => exact ⟨List.prefix_append _ _, List.prefix_refl _⟩
  | transmit n | serve | announce m => exact ⟨List.prefix_refl _, List.prefix_refl _⟩
  | remove _ | cancelWaiting | prepareWrite | commitWrite | deliver _ | commitRead =>
      exact ⟨List.prefix_refl _, log_operate rfl⟩

/-- The book and the log grow. -/
theorem Exchange.growing {ts : List (Turnaround ρ)}
    (hrun : Run (Exchange.ClassifiedStep server) s ts s') :
  s.book <+: s'.book ∧ s.world.log <+: s'.world.log
  := by
  induction hrun with
  | nil s => exact ⟨List.prefix_refl _, List.prefix_refl _⟩
  | cons hstep _ ih => exact ⟨hstep.1.growing.1.trans ih.1, hstep.1.growing.2.trans ih.2⟩

/-- The replies to the commands of a request that was staged, if the server has executed all that
was staged. -/
theorem Exchange.Issued.answers_staged (h : s.Issued) (server : Server σ) (init : σ) {id : ℕ}
    {before after : List ℕ} (hsplit : stagings s.world.log = before ++ id :: after) :
  answers id (Redis.commands s.world.log) (server.respond init s.staged)
    = (server.respond (server.execute init (before.flatMap s.commandsOf))
        (s.commandsOf id)).zipIdx.map Prod.swap
  := by
  have hnodup := h.once
  rw [hsplit] at hnodup
  have hbefore : id ∉ before := fun hmem =>
    List.disjoint_of_nodup_append hnodup hmem List.mem_cons_self
  have hafter : id ∉ after := (List.nodup_cons.mp hnodup.of_append_right).1
  have hother : ∀ ids : List ℕ, id ∉ ids → indicesOf id (ids.flatMap fun id =>
      (List.range (repliesTo (s.commandsOf id))).map (id, ·)) = [] := by
    intro ids hids
    apply indicesOf_eq_nil
    rintro c hc rfl
    obtain ⟨id', hid', hc⟩ := List.mem_flatMap.mp hc
    obtain ⟨i, -, rfl⟩ := List.mem_map.mp hc
    exact hids hid'
  have hpush : ∀ m ∈ server.respond init s.staged, m.isPush = false :=
    fun m hm => server.isPush_of_mem_respond hm
  rw [staged, hsplit, List.flatMap_append, List.flatMap_cons, server.respond_append,
    server.respond_append] at hpush ⊢
  rw [h.commands, hsplit, List.flatMap_append, List.flatMap_cons,
    ← server.length_respond (server.execute init (before.flatMap s.commandsOf))]
  apply answers_between (hother before hbefore) (hother after hafter) _ hpush
  rw [server.length_respond, length_answered]

/-- The replies to the commands of a request that was staged, when there are as many as it
expects. -/
theorem Exchange.Coupled.answers_eq (h : Coupled server init s) {id : ℕ} {before after : List ℕ}
    (hsplit : stagings s.world.log = before ++ id :: after)
    (hlength : (answers id (commands s.world.log) s.outbox).length
      = repliesTo (s.commandsOf id)) :
  nodesOf (answers id (commands s.world.log) s.outbox)
    = replyCalls ((server.respond (server.execute init (before.flatMap s.commandsOf))
        (s.commandsOf id)).map Message.nodes)
  := by
  have hall := h.issued.answers_staged server init hsplit
  have hle : replies (server.respond init s.served) ≤ (commands s.world.log).length := by
    rw [← h.executed.outbox, replies, List.countP_filter]
    simp only [Bool.and_self]
    apply h.executed.replies_le h.issued
  have hpart : answers id (commands s.world.log) s.outbox
      <+: answers id (commands s.world.log) (server.respond init s.staged) := by
    obtain ⟨rest, hrest⟩ := h.executed.served
    have hfilter : answers id (commands s.world.log) (s.outbox.filter (!·.isPush))
        = answers id (commands s.world.log) s.outbox :=
      answers_filter
    rw [← hfilter, h.executed.outbox]
    apply answers_prefix _ hle
    rw [← hrest, server.respond_append]
    apply List.prefix_append
  rw [hpart.eq_of_length, hall, nodesOf_zipIdx]
  rw [hlength, hall, List.length_map, List.length_zipIdx, server.length_respond]

/-- The client of an exchange, against the messages that the server has sent in the end. -/
theorem Exchange.tracked {receiveAdapter : Adapter ρ} {receiveResponse : ρ}
    {ts : List (Turnaround ρ)}
    (hrun : Run (Exchange.ClassifiedStep server) (.start receiveAdapter receiveResponse init) ts s)
    {ms : List Message} (hms : s.outbox <+: ms) (hup : s.world.up = true) :
  Tracked ms s.world
  := by
  obtain ⟨as, has⟩ := (Coupled.start.run hrun).2.2 ms hms
  apply Tracked.run _ has hup
  intro _
  exact Tracked.start rfl rfl rfl rfl

/-- A request that is made is served while the connection is up. -/
theorem Exchange.serving {receiveAdapter : Adapter ρ} {receiveResponse : ρ}
    {ts ts' : List (Turnaround ρ)} {calls : List Call} {config : Config}
    {adapter : ℕ → Adapter ρ} {response : ρ}
    (hrun : Run (Exchange.ClassifiedStep server) (.start receiveAdapter receiveResponse init) ts v)
    (hexec : v.Step server (.exec calls config adapter response) v')
    (hserve : Run (Exchange.ClassifiedStep server) v' ts' s) (hup : s.world.up = true) :
  Tracked s.outbox s.world ∧
    Serving v.book.length (.ofCalls config calls) adapter response s.world
  := by
  have hall := (hrun.snoc ⟨hexec, trivial⟩).trans hserve
  have hcoupled := (Coupled.start.run hrun).1
  obtain ⟨-, houtbox, hworld⟩ := (hcoupled.step hexec).run hserve
  obtain ⟨⟨hupv, -⟩, rfl⟩ := hexec
  have htracked := tracked hrun houtbox hupv
  obtain ⟨as, has⟩ := hworld s.outbox (List.prefix_refl _)
  refine ⟨tracked hall (List.prefix_refl _) hup, ?_⟩
  apply has.invariant (I := fun w => w.up = true →
    Serving v.book.length (.ofCalls config calls) adapter response w) _ _ hup
  · intro w a w' h hstep hup
    apply (h (hstep.of_up hup).1).step hstep hup
  · intro _
    rw [← hcoupled.issued.numbered]
    apply serving_add htracked.orderly htracked.known

/-- A prefix that ends before an element. -/
theorem prefix_of_notMem {α : Type} {l before after : List α} {x : α}
    (h : l <+: before ++ x :: after) (hx : x ∉ l) :
  l <+: before
  := by
  obtain h' | ⟨rest, rfl⟩ :=
    List.prefix_or_prefix_of_prefix h (List.prefix_append before (x :: after))
  · apply h'
  · have hrest := (List.prefix_append_right_inj before).mp h
    cases rest with
    | nil => simp
    | cons y rest =>
        obtain ⟨rfl, -⟩ := List.cons_prefix_cons.mp hrest
        simp at hx

/-- The place of a request that is done among those that were staged, and the replies to its
commands. -/
theorem Exchange.placed {receiveAdapter : Adapter ρ} {receiveResponse : ρ}
    {ts ts' : List (Turnaround ρ)} {calls : List Call} {config : Config}
    {adapter : ℕ → Adapter ρ} {response : ρ}
    (hrun : Run (Exchange.ClassifiedStep server) (.start receiveAdapter receiveResponse init) ts v)
    (hexec : v.Step server (.exec calls config adapter response) v')
    (hserve : Run (Exchange.ClassifiedStep server) v' ts' s)
    (hexpects : 0 < (Request.ofCalls config calls).expectedResponses)
    (hcomplete : (answers v.book.length (commands s.world.log) s.outbox).map Prod.fst
      = List.range (Request.ofCalls config calls).expectedResponses) :
  ∃ before after, stagings s.world.log = before ++ v.book.length :: after ∧
    stagings v.world.log <+: before ∧
    nodesOf (answers v.book.length (commands s.world.log) s.outbox)
      = replyCalls ((server.respond (server.execute init (before.flatMap s.commandsOf))
          (calls.filterMap Call.fields)).map Message.nodes)
  := by
  have hv : v.Issued := (Coupled.start.run hrun).1.issued
  have hcoupled := (Coupled.start.run ((hrun.snoc ⟨hexec, trivial⟩).trans hserve)).1
  obtain ⟨es, hes⟩ := (growing (.cons ⟨hexec, trivial⟩ hserve)).2
  have hcommands : s.commandsOf v.book.length = calls.filterMap Call.fields := by
    obtain ⟨-, rfl⟩ := hexec
    obtain ⟨more, hmore⟩ := (growing hserve).1
    rw [commandsOf, ← hmore, List.getD_append _ _ _ _ (by simp [next])]
    show (v.book ++ [calls.filterMap Call.fields]).getD v.book.length [] = _
    simp
  rw [(Request.ofCalls_eq config calls).2, ← hcommands] at hcomplete hexpects
  have hstaged : v.book.length ∈ stagings s.world.log := by
    by_contra hnot
    have hnone : indicesOf v.book.length ((commands s.world.log).take (replies s.outbox)) = [] := by
      apply indicesOf_eq_nil
      intro c hc heq
      rw [hcoupled.issued.commands] at hc
      obtain ⟨id, hid, hc⟩ := List.mem_flatMap.mp (List.mem_of_mem_take hc)
      obtain ⟨i, -, rfl⟩ := List.mem_map.mp hc
      exact hnot (heq ▸ hid)
    rw [map_fst_answers, hnone] at hcomplete
    exact absurd hcomplete.symm (List.range_eq_nil.not.mpr hexpects.ne')
  obtain ⟨before, after, hsplit⟩ := List.append_of_mem hstaged
  refine ⟨before, after, hsplit, ?_, ?_⟩
  · have hpre : stagings v.world.log <+: before ++ v.book.length :: after := by
      rw [← hsplit, ← hes, stagings_append]
      apply List.prefix_append
    apply prefix_of_notMem hpre
    intro hmem
    exact absurd (hv.lt_of_staged hmem) (Nat.lt_irrefl _)
  · rw [hcoupled.answers_eq hsplit, hcommands]
    rw [← List.length_map Prod.fst, hcomplete, List.length_range]

/-- A request that is done when a message was read expects a response. -/
theorem Serving.expects {id : ℕ} {req : Request} {adapter : ℕ → Adapter ρ} {response : ρ}
    {w : World ρ} (h : Serving id req adapter response w)
    (hdone : .notified id none ∈ w.mpx.commitRead.events) :
  0 < req.expectedResponses
  := by
  obtain ⟨e, rest, size, rfl, hfor, -, -⟩ := readsFor_of_notified hdone
  have hmem : e ∈ w.mpx.reqs := hfor.reqs ▸ List.mem_cons_self
  have hle := h.orderly.bounded e hmem
  rw [(h.served e hmem rfl).req_eq] at hle
  have hpending := hfor.pending
  omega

/-- It looks as if the requests were executed one after the other, unless a reply is taken for a
push.  When a request is done, its response is what its adapter makes of the replies that the
server gives to its commands after those of the requests `before` it, among which are all requests
that were staged before it was made. -/
theorem response_of_exchange {receiveAdapter : Adapter ρ} {receiveResponse : ρ}
    {ts ts' : List (Turnaround ρ)} {calls : List Call} {config : Config}
    {adapter : ℕ → Adapter ρ} {response : ρ}
    (hrun : Run (Exchange.ClassifiedStep server) (.start receiveAdapter receiveResponse init) ts v)
    (hexec : v.Step server (.exec calls config adapter response) v')
    (hserve : Run (Exchange.ClassifiedStep server) v' ts' s)
    (hread : s.ClassifiedStep server .commitRead s')
    (hdone : .notified v.book.length none ∈ s.world.mpx.commitRead.events) :
  ∃ before after, stagings s.world.log = before ++ v.book.length :: after ∧
    stagings v.world.log <+: before ∧
    s.world.mpx.frontResponse = some (feedAll adapter response (replyCalls
      ((server.respond (server.execute init (before.flatMap s.commandsOf))
        (calls.filterMap Call.fields)).map Message.nodes)))
  := by
  obtain ⟨⟨⟨hup, hb, -⟩, -⟩, hover⟩ := hread
  obtain ⟨⟨⟨sent, queued, cur, hinv⟩, -, -⟩, hserving⟩ := Exchange.serving hrun hexec hserve hup
  obtain ⟨hcomplete, hequal⟩ := hserving.responds hinv hb hover hdone
  obtain ⟨before, after, hsplit, hbefore, hnodes⟩ :=
    Exchange.placed hrun hexec hserve (hserving.expects hdone) hcomplete
  rw [hnodes] at hequal
  exact ⟨before, after, hsplit, hbefore, hequal⟩

end Response

/-! ### A lock -/

/-- The reply to the command that has acquired the lock. -/
def granted : Message where
  value := .simple .number (ascii "1")
  wellFormed := by decide
  height_le := by decide
  length_lt := by decide

/-- The reply to the other commands. -/
def refused : Message where
  value := .simple .number (ascii "0")
  wellFormed := by decide
  height_le := by decide
  length_lt := by decide

/-- A server on which the first command acquires a lock. -/
def lockServer : Server Bool where
  handle locked fields :=
    if fields.headD [] ∈ pushCommands then (locked, [])
    else (true, [if locked then refused else granted])
  replies_handle := by
    intro locked fields
    split
    · rfl
    · cases locked <;> decide

/-- A call for which no response is expected. -/
def subscribe : Call := .push (ascii "SUBSCRIBE") [.bytes (ascii "news")]

/-- The call that asks for the lock. -/
def setnx : Call := .push (ascii "SETNX") [.bytes (ascii "lock"), .bytes (ascii "1")]

section Lock

variable {ρ : Type} (adapter : ℕ → Adapter ρ) (response : ρ)

/-- A request that asks for the lock. -/
def askLock : Turnaround ρ := .exec [setnx] {} adapter response

/-- A request without responses and one that asks for the lock are made. -/
def lockRequests : List (Turnaround ρ) :=
  [.exec [subscribe] {} adapter response, askLock adapter response]

def lockAsked : Exchange Bool ρ :=
  (lockRequests adapter response).foldl (Exchange.next lockServer)
    (.start (fun _ r => (r, none)) response false)

/-- After another one all are written, and the server executes their commands.  Its replies
arrive one after the other. -/
def lockTurns : List (Turnaround ρ) :=
  [.prepareWrite, .commitWrite, .transmit 100, .serve, .serve, .serve, .deliver granted.encode,
    .commitRead, .deliver refused.encode]

/-- The second reply is there. -/
def lockReplied : Exchange Bool ρ :=
  lockTurns.foldl (Exchange.next lockServer)
    ((lockAsked adapter response).next lockServer (askLock adapter response))

end Lock

/-- The nodes of a response are kept. -/
def keepNodes (i : ℕ) : Adapter (List (ℕ × Node)) := fun nd r => (r ++ [(i, nd)], none)

/-- The last request is told that the lock was taken before. -/
theorem response_of_exchange_lock :
  (lockReplied keepNodes []).world.mpx.frontResponse = some (refused.nodes.map (0, ·)) ∧
    ∃ before after, stagings (lockReplied keepNodes []).world.log = before ++ 2 :: after ∧
      stagings (lockAsked keepNodes []).world.log <+: before ∧
      (lockReplied keepNodes []).world.mpx.frontResponse = some (feedAll keepNodes [] (replyCalls
        ((lockServer.respond (lockServer.execute false
            (before.flatMap (lockReplied keepNodes []).commandsOf))
          ([setnx].filterMap Call.fields)).map Message.nodes)))
  := by
  have hasked : Run.Follows (Exchange.next lockServer) (fun s t => s.Possible t ∧ s.Classifies t)
      (.start (fun _ r => (r, none)) [] false) (lockRequests keepNodes []) := by
    decide +kernel
  have hagain : (lockAsked keepNodes []).Possible (askLock keepNodes []) := by
    decide +kernel
  have hfollows : Run.Follows (Exchange.next lockServer) (fun s t => s.Possible t ∧ s.Classifies t)
      ((lockAsked keepNodes []).next lockServer (askLock keepNodes [])) lockTurns := by
    decide +kernel
  refine ⟨by decide +kernel, ?_⟩
  apply response_of_exchange (Exchange.run_of_follows hasked) ⟨hagain, rfl⟩
    (Exchange.run_of_follows hfollows) ⟨⟨by decide +kernel, rfl⟩, by decide +kernel⟩
  decide +kernel

end Redis
