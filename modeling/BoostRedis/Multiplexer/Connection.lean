import BoostRedis.General.Run
import BoostRedis.Multiplexer.Basic
import BoostRedis.Resp3.Stream

/-!
# Runs of a connection

A `World` is a multiplexer together with what has happened around it: whether the connection is
up, the bytes received on it, and the calls made to adapters and callbacks.  An `Action` is one
operation on the multiplexer, as the operations of a connection make it: an error of
`commit_read` is followed at once by `cancel_on_conn_lost`, as in `reader_op`.

`FreeStep` allows the operations in any order.  `Step` is the discipline of a connection: the
writer and the reader work only while it is up, it is reset only after it was lost, and the
server sends a stream of messages in which no reply comes before its command was staged.
-/

namespace Redis

open Resp3

/-! ### Worlds and actions -/

/-- A multiplexer, and what has happened: the number of entries made, whether the connection is
up, how many connections there were, the bytes received and the calls made on the current one,
and the calls made on earlier ones. -/
structure World (ρ : Type) where
  mpx : Multiplexer ρ
  nextId : ℕ := 0
  up : Bool := false
  conn : ℕ := 0
  received : Bytes := []
  log : List Event := []
  past : List Event := []

/-- An operation on the multiplexer. -/
inductive Action (ρ : Type) where
  | add (req : Request) (adapter : ℕ → Adapter ρ) (response : ρ)
  | remove (id : ℕ)
  | cancelWaiting
  | prepareWrite
  | commitWrite
  | receive (chunk : Bytes)
  | commitRead
  | connLost
  | reset

def Action.isReset {ρ : Type} : Action ρ → Bool
  | .reset => true
  | _ => false

namespace World

variable {ρ : Type}

/-- The world after an operation that has made some calls. -/
def after {α : Type} (w : World ρ) (e : Effect ρ α) : World ρ :=
  { w with mpx := e.mpx, log := w.log ++ e.events }

/-- The connection is lost. -/
def lose (w : World ρ) : World ρ :=
  { w.after w.mpx.cancelOnConnLost with up := false }

/-- What an action does. -/
def apply (w : World ρ) : Action ρ → World ρ
  | .add req adapter response =>
      { w with
        mpx := w.mpx.add (.make w.nextId req adapter response)
        nextId := w.nextId + 1 }
  | .remove id => { w with mpx := (w.mpx.remove id).1 }
  | .cancelWaiting => w.after w.mpx.cancelWaiting
  | .prepareWrite => w.after w.mpx.prepareWrite
  | .commitWrite => w.after w.mpx.commitWrite
  | .receive chunk =>
      { w with
        mpx := { w.mpx with readBuffer := w.mpx.readBuffer ++ chunk }
        received := w.received ++ chunk }
  | .commitRead =>
      match w.mpx.commitRead.value with
      | .error _ _ => (w.after w.mpx.commitRead).lose
      | _ => w.after w.mpx.commitRead
  | .connLost => w.lose
  | .reset =>
      { w with
        mpx := w.mpx.reset
        up := true
        conn := w.conn + 1
        received := []
        log := []
        past := w.past ++ w.log }

/-- An action loses the connection in the world `v`: the connection is lost in any case, or
`commit_read` has failed. -/
inductive Loses (w : World ρ) : Action ρ → World ρ → Prop where
  | connLost : Loses w .connLost w
  | commitRead {isPush : Bool} {ec : ErrorCode} : w.mpx.commitRead.value = .error isPush ec →
      Loses w .commitRead (w.after w.mpx.commitRead)

/-- A condition on the world in which an action loses the connection, if it does. -/
instance decidableLoses {P : World ρ → Prop} [DecidablePred P] (w : World ρ) :
    ∀ a : Action ρ, Decidable (∀ v, w.Loses a v → P v)
  | .connLost => decidable_of_iff (P w) ⟨by rintro h _ ⟨⟩; exact h, fun h => h w .connLost⟩
  | .commitRead =>
      match hv : w.mpx.commitRead.value with
      | .error _ _ =>
          decidable_of_iff (P (w.after w.mpx.commitRead))
            ⟨by rintro h _ ⟨⟩; exact h, fun h => h _ (.commitRead hv)⟩
      | .needsMore | .message _ _ | .faulted =>
          isTrue (by rintro _ (_ | he); rw [hv] at he; cases he)
  | .add _ _ _ | .remove _ | .cancelWaiting | .prepareWrite | .commitWrite | .receive _ | .reset =>
      isTrue (by rintro _ ⟨⟩)

/-- When an action is possible: only an entry of the queue is removed, a buffer has less than
`2 ^ 64` bytes, and `commit_read` is called on a buffer that is not empty.  There is no world
after a fault. -/
def Possible (w : World ρ) : Action ρ → Prop
  | .remove id => ∃ e ∈ w.mpx.reqs, e.id = id
  | .receive chunk => (w.mpx.readBuffer ++ chunk).length < 2 ^ 64
  | .commitRead => w.mpx.readBuffer ≠ [] ∧ w.mpx.commitRead.value ≠ .faulted
  | _ => True

instance (w : World ρ) (a : Action ρ) : Decidable (w.Possible a) :=
  match a with
  | .remove id => inferInstanceAs (Decidable (∃ e ∈ w.mpx.reqs, e.id = id))
  | .receive chunk => inferInstanceAs (Decidable ((w.mpx.readBuffer ++ chunk).length < 2 ^ 64))
  | .commitRead =>
      inferInstanceAs (Decidable (w.mpx.readBuffer ≠ [] ∧ w.mpx.commitRead.value ≠ .faulted))
  | .add _ _ _ | .cancelWaiting | .prepareWrite | .commitWrite | .connLost | .reset =>
      inferInstanceAs (Decidable True)

/-- A step with the operations in any order. -/
def FreeStep (w : World ρ) (a : Action ρ) (w' : World ρ) : Prop :=
  w.Possible a ∧ w' = w.apply a

/-- A connection that is just up: `reset` has been called. -/
def connected (m : Multiplexer ρ) (nextId : ℕ) : World ρ :=
  { mpx := m.reset, nextId := nextId, up := true }

/-- Nothing has happened. -/
def fresh (receiveAdapter : Adapter ρ) (receiveResponse : ρ) : World ρ :=
  { mpx := { receiveAdapter := receiveAdapter, receiveResponse := receiveResponse } }

theorem Loses.apply {w v : World ρ} {a : Action ρ} (h : w.Loses a v) :
  w.apply a = v.lose
  := by
  cases h with
  | connLost => rfl
  | commitRead hv => rw [World.apply, hv]

theorem apply_commitRead {w : World ρ} (h : ∀ isPush ec, w.mpx.commitRead.value ≠ .error isPush ec) :
  w.apply .commitRead = w.after w.mpx.commitRead
  := by
  rw [World.apply]
  split
  · rename_i hv
    exact absurd hv (h _ _)
  · rfl

end World

/-! ### Commands, replies and deliveries -/

/-- The commands staged that expect a response, in order: the request and the index of the
response in it. -/
def commands : List Event → List (ℕ × ℕ)
  | [] => []
  | .staged id n :: log => (List.range n).map (id, ·) ++ commands log
  | _ :: log => commands log

/-- Who gets a node: the adapter of a request, for the response with some index, or the receive
adapter. -/
inductive Target where
  | request (id index : ℕ)
  | receiver
deriving DecidableEq, Repr

/-- The nodes given to adapters, in order. -/
def deliveries : List Event → List (Target × Node)
  | [] => []
  | .fed id i nd :: log => (.request id i, nd) :: deliveries log
  | .pushed nd :: log => (.receiver, nd) :: deliveries log
  | _ :: log => deliveries log

/-- The number of messages that were finished. -/
def finished : List Event → ℕ
  | [] => 0
  | .finished _ :: log => finished log + 1
  | _ :: log => finished log

/-- The number of replies among messages. -/
def replies (ms : List Message) : ℕ :=
  ms.countP (!·.isPush)

/-- Who should get the nodes of the messages: pushes go to the receive adapter, and the replies
go to the commands in order. -/
def attribution : List (ℕ × ℕ) → List Message → List (Target × Node)
  | _, [] => []
  | cmds, m :: ms =>
      if m.isPush then m.nodes.map (Target.receiver, ·) ++ attribution cmds ms
      else
        match cmds with
        | [] => []
        | (id, i) :: cmds => m.nodes.map (Target.request id i, ·) ++ attribution cmds ms

namespace World

variable {ρ : Type}

/-- The bytes are part of what the server may have sent: it answers no command that was not
staged. -/
def Sendable (ms : List Message) (log : List Event) (bytes : Bytes) : Prop :=
  ∃ n, bytes <+: encodeMessages (ms.take n) ∧ replies (ms.take n) ≤ (commands log).length

instance (ms : List Message) (log : List Event) (bytes : Bytes) :
    Decidable (Sendable ms log bytes) :=
  decidable_of_iff
    (∃ n ≤ ms.length, bytes <+: encodeMessages (ms.take n) ∧
      replies (ms.take n) ≤ (commands log).length) <| by
    constructor
    · rintro ⟨n, -, h⟩
      exact ⟨n, h⟩
    · rintro ⟨n, h⟩
      refine ⟨min n ms.length, Nat.min_le_right _ _, ?_⟩
      rw [← List.take_eq_take_min]
      apply h

/-- When an action follows the discipline of a connection, where `server` gives the messages
that are sent on each connection. -/
def Allowed (server : ℕ → List Message) (w : World ρ) (a : Action ρ) : Prop :=
  w.Possible a ∧
    match a with
    | .prepareWrite | .commitRead => w.up = true
    | .receive chunk => w.up = true → Sendable (server w.conn) w.log (w.received ++ chunk)
    | .reset => w.up = false
    | _ => True

instance (server : ℕ → List Message) (w : World ρ) (a : Action ρ) : Decidable (w.Allowed server a) :=
  match a with
  | .prepareWrite => inferInstanceAs (Decidable (_ ∧ w.up = true))
  | .commitRead => inferInstanceAs (Decidable (_ ∧ w.up = true))
  | .receive chunk =>
      inferInstanceAs (Decidable (_ ∧
        (w.up = true → Sendable (server w.conn) w.log (w.received ++ chunk))))
  | .reset => inferInstanceAs (Decidable (_ ∧ w.up = false))
  | .add _ _ _ | .remove _ | .cancelWaiting | .commitWrite | .connLost =>
      inferInstanceAs (Decidable (_ ∧ True))

/-- A step that follows the discipline of a connection. -/
def Step (server : ℕ → List Message) (w : World ρ) (a : Action ρ) (w' : World ρ) : Prop :=
  w.Allowed server a ∧ w' = w.apply a

end World

/-! ### Logs -/

section Logs

variable {l l' : List Event}

@[simp]
theorem commands_append :
  commands (l ++ l') = commands l ++ commands l'
  := by
  induction l with
  | nil => rfl
  | cons e l ih => cases e <;> simp [commands, ih]

@[simp]
theorem deliveries_append :
  deliveries (l ++ l') = deliveries l ++ deliveries l'
  := by
  induction l with
  | nil => rfl
  | cons e l ih => cases e <;> simp [deliveries, ih]

@[simp]
theorem finished_append :
  finished (l ++ l') = finished l + finished l'
  := by
  induction l with
  | nil => simp [finished]
  | cons e l ih =>
      cases e <;> simp only [List.cons_append, finished, ih]
      omega

/-- Events that are only notifications leave no trace in commands, deliveries and messages. -/
theorem notifications {es : List Event} (h : ∀ e ∈ es, ∃ id ec, e = .notified id ec) :
  commands es = [] ∧ deliveries es = [] ∧ finished es = 0
  := by
  induction es with
  | nil => exact ⟨rfl, rfl, rfl⟩
  | cons e es ih =>
      obtain ⟨id, ec, rfl⟩ := h e List.mem_cons_self
      apply ih fun e' he' => h e' (List.mem_cons_of_mem _ he')

@[simp]
theorem commands_fed (id i : ℕ) (nds : List Node) :
  commands (nds.map (.fed id i)) = [] ∧ finished (nds.map (.fed id i)) = 0 ∧
    deliveries (nds.map (.fed id i)) = nds.map (Target.request id i, ·)
  := by
  induction nds with
  | nil => exact ⟨rfl, rfl, rfl⟩
  | cons nd nds ih => simp [commands, finished, deliveries, ih]

@[simp]
theorem commands_pushed (nds : List Node) :
  commands (nds.map .pushed) = [] ∧ finished (nds.map .pushed) = 0 ∧
    deliveries (nds.map .pushed) = nds.map (Target.receiver, ·)
  := by
  induction nds with
  | nil => exact ⟨rfl, rfl, rfl⟩
  | cons nd nds ih => simp [commands, finished, deliveries, ih]

end Logs

/-! ### The calls of `commit_read` -/

/-- The calls that tell how a message was read.  They give no node to anybody. -/
def Event.isReport : Event → Bool
  | .rejected _ | .finished _ | .notified _ _ => true
  | _ => false

theorem deliveries_of_reports {es : List Event} (h : ∀ b ∈ es, b.isReport = true) :
  deliveries es = []
  := by
  induction es with
  | nil => rfl
  | cons b es ih =>
      have hrest := ih fun b' hb' => h b' (List.mem_cons_of_mem b hb')
      have hfirst := h b List.mem_cons_self
      cases b with
      | staged _ _ | fed _ _ _ | pushed _ => cases hfirst
      | rejected _ | finished _ | notified _ _ => apply hrest

namespace Multiplexer

variable {ρ : Type}

/-- For a push, the nodes are given to the receive adapter, and reports follow. -/
theorem commitPush_events (m : Multiplexer ρ) :
  ∃ es, m.commitPush.events
      = (parse m.parser m.readBuffer m.receiveAdapter m.receiveResponse).nodes.map .pushed ++ es ∧
    ∀ b ∈ es, b.isReport = true
  := by
  rw [commitPush]
  dsimp only
  split
  · exact ⟨[], (List.append_nil _).symm, by simp⟩
  · exact ⟨[], (List.append_nil _).symm, by simp⟩
  · exact ⟨_, rfl, by simp [Event.isReport]⟩
  · exact ⟨_, rfl, by simp [Event.isReport]⟩
  · exact ⟨[], (List.append_nil _).symm, by simp⟩
  · exact ⟨[], (List.append_nil _).symm, by simp⟩

/-- For a response, the nodes are given to the request, and reports follow. -/
theorem commitResponse_events (m : Multiplexer ρ) (e : Elem ρ) (rest : List (Elem ρ)) :
  ∃ es, (m.commitResponse e rest).events
      = (parse m.parser m.readBuffer e.getAdapter e.response).nodes.map (.fed e.id e.index) ++ es ∧
    ∀ b ∈ es, b.isReport = true
  := by
  rw [commitResponse]
  dsimp only
  split
  · exact ⟨[], (List.append_nil _).symm, by simp⟩
  · exact ⟨_, rfl, by simp [Event.isReport, Elem.notifyError, Elem.notifyDone]⟩
  · exact ⟨_, rfl, by simp [Event.isReport, Elem.notifyError, Elem.notifyDone]⟩
  · split
    · exact ⟨_, rfl, by simp [Event.isReport, Elem.notifyDone]⟩
    · exact ⟨_, rfl, by simp [Event.isReport]⟩
  · exact ⟨[], (List.append_nil _).symm, by simp⟩
  · exact ⟨[], (List.append_nil _).symm, by simp⟩

end Multiplexer

/-! ### Attribution -/

section Attribution

variable {cmds cmds' : List (ℕ × ℕ)} {ms ms' : List Message}

theorem replies_append :
  replies (ms ++ ms') = replies ms + replies ms'
  := List.countP_append

theorem replies_cons_push {m : Message} (h : m.isPush = true) :
  replies (m :: ms) = replies ms
  := by
  simp [replies, h]

theorem replies_cons_reply {m : Message} (h : m.isPush = false) :
  replies (m :: ms) = replies ms + 1
  := by
  simp [replies, h]

@[simp]
theorem attribution_nil :
  attribution cmds [] = []
  := by
  simp [attribution]

theorem attribution_push {m : Message} (h : m.isPush = true) :
  attribution cmds (m :: ms) = m.nodes.map (Target.receiver, ·) ++ attribution cmds ms
  := by
  simp [attribution, h]

theorem attribution_reply {m : Message} {id i : ℕ} (h : m.isPush = false) :
  attribution ((id, i) :: cmds) (m :: ms)
    = m.nodes.map (Target.request id i, ·) ++ attribution cmds ms
  := by
  simp [attribution, h]

/-- The attribution of messages does not change with the commands staged after theirs. -/
theorem attribution_commands_append :
  ∀ {ms : List Message} {cmds : List (ℕ × ℕ)}, replies ms ≤ cmds.length →
    attribution (cmds ++ cmds') ms = attribution cmds ms
  | [], _, _ => by rw [attribution_nil, attribution_nil]
  | m :: ms, cmds, h => by
      cases hm : m.isPush with
      | true =>
          rw [replies_cons_push hm] at h
          rw [attribution_push hm, attribution_push hm, attribution_commands_append h]
      | false =>
          rw [replies_cons_reply hm] at h
          obtain _ | ⟨⟨id, i⟩, cmds⟩ := cmds
          · simp at h
          · rw [List.length_cons, Nat.add_le_add_iff_right] at h
            rw [List.cons_append, attribution_reply hm, attribution_reply hm,
              attribution_commands_append h]

/-- The messages after some others are attributed to the commands that are left. -/
theorem attribution_append :
  ∀ {ms : List Message} {cmds : List (ℕ × ℕ)}, replies ms ≤ cmds.length →
    attribution cmds (ms ++ ms') = attribution cmds ms ++ attribution (cmds.drop (replies ms)) ms'
  | [], _, _ => by
      rw [attribution_nil]
      rfl
  | m :: ms, cmds, h => by
      cases hm : m.isPush with
      | true =>
          rw [replies_cons_push hm] at h ⊢
          rw [List.cons_append, attribution_push hm, attribution_push hm, attribution_append h,
            List.append_assoc]
      | false =>
          rw [replies_cons_reply hm] at h ⊢
          obtain _ | ⟨⟨id, i⟩, cmds⟩ := cmds
          · simp at h
          · rw [List.length_cons, Nat.add_le_add_iff_right] at h
            rw [List.cons_append, attribution_reply hm, attribution_reply hm,
              attribution_append h, List.append_assoc, List.drop_succ_cons]

end Attribution

end Redis
