import Mathlib.Data.List.Basic

/-!
# Bounded channels

A channel holds messages in a buffer of bounded size.  A send into a full buffer is blocked until
there is room, and a receive from an empty channel waits for a message.

A `ChannelOps` has the operations of a channel, on states of any type, and what can be seen of a
state: the messages in the buffer, and the messages of the sends that are blocked.  What one may
assume of a channel is its `Contract`.  Whether receives wait cannot be seen, except that a message
may be given to one of them at once.

A `Channel` keeps the contract.
-/

universe u v

/-- How a send ends: the message is given to a receive that waits, it is put into the buffer, or
the send is blocked. -/
inductive Sending where
  | given
  | buffered
  | blocked
deriving DecidableEq, Repr

/-- The operations of a channel for messages in `α`, with states in `C`.  A receive returns a
message if there is one.  If there is none, then `receive` waits, and `tryReceive` does not. -/
structure ChannelOps (α : Type u) (C : Type v) where
  empty : C
  buffer : C → List α
  senders : C → List α
  send : C → α → C × Sending
  receive : C → C × Option α
  tryReceive : C → C × Option α
  cancel : C → C

namespace ChannelOps

variable {α : Type u} {C : Type v}

/-- All messages in a channel, in the order in which they are received. -/
def contents (ops : ChannelOps α C) (c : C) : List α := ops.buffer c ++ ops.senders c

/-- An operation takes the first message out of the channel, if there is one. -/
def Takes (ops : ChannelOps α C) (op : C → C × Option α) : Prop :=
  ∀ c, ops.contents c = (op c).2.toList ++ ops.contents (op c).1 ∧
    (ops.contents c ≠ [] → (op c).2 ≠ none)

/-- What is assumed of a channel with a buffer for `capacity` messages. -/
structure Contract (ops : ChannelOps α C) (capacity : ℕ) : Prop where
  contents_empty : ops.contents ops.empty = []
  /-- The buffer has a limit, and sends are blocked only if it is reached. -/
  buffer_le : ∀ c, (ops.buffer c).length ≤ capacity
  full : ∀ c, ops.senders c ≠ [] → (ops.buffer c).length = capacity
  /-- A message is given to a receive only if there is no other one. -/
  given : ∀ c x, (ops.send c x).2 = .given →
    ops.contents c = [] ∧ ops.contents (ops.send c x).1 = []
  buffered : ∀ c x, (ops.send c x).2 = .buffered → ops.senders c = [] ∧
    ops.buffer (ops.send c x).1 = ops.buffer c ++ [x] ∧ ops.senders (ops.send c x).1 = []
  blocked : ∀ c x, (ops.send c x).2 = .blocked →
    ops.buffer (ops.send c x).1 = ops.buffer c ∧
      ops.senders (ops.send c x).1 = ops.senders c ++ [x]
  receive : ops.Takes ops.receive
  tryReceive : ops.Takes ops.tryReceive
  /-- The sends that are blocked are cancelled, and the messages in the buffer are kept. -/
  buffer_cancel : ∀ c, ops.buffer (ops.cancel c) = ops.buffer c
  senders_cancel : ∀ c, ops.senders (ops.cancel c) = []

namespace Contract

variable {ops : ChannelOps α C} {capacity : ℕ} (h : ops.Contract capacity)

include h

/-- A message that is sent is the last one in the channel, unless it is given to a receive. -/
theorem contents_send (c : C) (x : α) :
  (if (ops.send c x).2 = .given then [x] else []) ++ ops.contents (ops.send c x).1
    = ops.contents c ++ [x]
  := by
  cases hend : (ops.send c x).2 with
  | given =>
      obtain ⟨hnil, hnil'⟩ := h.given c x hend
      rw [if_pos rfl, hnil, hnil']
      rfl
  | buffered =>
      obtain ⟨hnil, hbuffer, hsenders⟩ := h.buffered c x hend
      rw [contents, contents, hbuffer, hsenders, hnil, if_neg (by rintro ⟨⟩)]
      simp
  | blocked =>
      obtain ⟨hbuffer, hsenders⟩ := h.blocked c x hend
      rw [contents, contents, hbuffer, hsenders, if_neg (by rintro ⟨⟩)]
      simp

/-- A send that is not blocked leaves no send blocked. -/
theorem senders_send {c : C} {x : α} (hend : (ops.send c x).2 ≠ .blocked) :
  ops.senders (ops.send c x).1 = []
  := by
  cases hend' : (ops.send c x).2 with
  | given => exact (List.append_eq_nil_iff.mp (h.given c x hend').2).2
  | buffered => exact (h.buffered c x hend').2.2
  | blocked => exact absurd hend' hend

/-- If a message is taken while one send is blocked, then that send has room. -/
theorem senders_take {op : C → C × Option α} (hop : ops.Takes op) {c : C}
    (hone : (ops.senders c).length ≤ 1) :
  ops.senders (op c).1 = []
  := by
  by_contra hblocked
  obtain ⟨htake, hsome⟩ := hop c
  have hfull := h.full _ hblocked
  have hlimit := h.buffer_le c
  have hpos := List.length_pos_iff.mpr hblocked
  have hlength := congrArg List.length htake
  rw [contents, contents, List.length_append, List.length_append, List.length_append] at hlength
  cases hnone : (op c).2 with
  | none =>
      have hnil : ops.contents c = [] := by
        by_contra hne
        exact hsome hne hnone
      have hzero := congrArg List.length hnil
      rw [contents, List.length_append, List.length_nil] at hzero
      omega
  | some x =>
      rw [hnone, Option.toList_some, List.length_singleton] at hlength
      omega

end Contract

end ChannelOps

/-! ### A channel that keeps the contract -/

/-- The messages in order, in the buffer and then of the sends that are blocked, and the number of
the receives that wait.  Nobody waits for a message while there is one. -/
structure Channel (α : Type u) (capacity : ℕ) where
  contents : List α
  receivers : ℕ
  waiting : receivers ≠ 0 → contents = []

namespace Channel

variable {α : Type u} {capacity : ℕ}

/-- A message is sent. -/
def send (c : Channel α capacity) (x : α) : Channel α capacity × Sending :=
  if h : c.receivers ≠ 0 then
    ({ c with receivers := c.receivers - 1, waiting := fun _ => c.waiting h }, .given)
  else
    ({ c with contents := c.contents ++ [x], waiting := fun h' => absurd h' h },
      if c.contents.length < capacity then .buffered else .blocked)

/-- A message is received, if there is one.  The first of the sends that are blocked then has
room. -/
def tryReceive (c : Channel α capacity) : Channel α capacity × Option α :=
  ({ c with contents := c.contents.tail, waiting := fun h => by rw [c.waiting h, List.tail_nil] },
    c.contents.head?)

/-- A message is received, now or when there is one. -/
def receive (c : Channel α capacity) : Channel α capacity × Option α :=
  if h : c.contents = [] then ({ c with receivers := c.receivers + 1, waiting := fun _ => h }, none)
  else c.tryReceive

/-- All operations that are blocked or wait are cancelled. -/
def cancel (c : Channel α capacity) : Channel α capacity where
  contents := c.contents.take capacity
  receivers := 0
  waiting h := absurd rfl h

def ops (α : Type u) (capacity : ℕ) : ChannelOps α (Channel α capacity) where
  empty := ⟨[], 0, fun _ => rfl⟩
  buffer c := c.contents.take capacity
  senders c := c.contents.drop capacity
  send := send
  receive := receive
  tryReceive := tryReceive
  cancel := cancel

@[simp]
theorem contents_ops (c : Channel α capacity) :
  (ops α capacity).contents c = c.contents
  := List.take_append_drop capacity c.contents

theorem takes_tryReceive :
  (ops α capacity).Takes tryReceive
  := by
  intro c
  rw [contents_ops, contents_ops]
  show c.contents = c.contents.head?.toList ++ c.contents.tail ∧ (c.contents ≠ [] → _ ≠ none)
  cases hc : c.contents with
  | nil => simp
  | cons x xs => simp [tryReceive, hc]

theorem takes_receive :
  (ops α capacity).Takes receive
  := by
  intro c
  rw [receive]
  split
  · rename_i hnil
    rw [contents_ops, contents_ops]
    exact ⟨rfl, fun hne => absurd hnil hne⟩
  · exact takes_tryReceive c

theorem send_of_waiting {c : Channel α capacity} (h : c.receivers ≠ 0) (x : α) :
  (c.send x).2 = .given ∧ (c.send x).1.contents = c.contents
  := by
  rw [send, dif_pos h]
  exact ⟨rfl, rfl⟩

theorem send_of_not_waiting {c : Channel α capacity} (h : ¬ c.receivers ≠ 0) (x : α) :
  (c.send x).2 = (if c.contents.length < capacity then .buffered else .blocked) ∧
    (c.send x).1.contents = c.contents ++ [x]
  := by
  rw [send, dif_neg h]
  exact ⟨rfl, rfl⟩

/-- A send that is not given to a receive is blocked if the buffer is full. -/
theorem send_cases (c : Channel α capacity) (x : α) :
  ((c.send x).2 = .given ∧ c.contents = [] ∧ (c.send x).1.contents = []) ∨
    (c.send x).1.contents = c.contents ++ [x] ∧
      ((c.send x).2 = .buffered ∧ c.contents.length < capacity ∨
        (c.send x).2 = .blocked ∧ capacity ≤ c.contents.length)
  := by
  by_cases hwait : c.receivers ≠ 0
  · obtain ⟨hend, hcontents⟩ := send_of_waiting hwait x
    exact .inl ⟨hend, c.waiting hwait, hcontents.trans (c.waiting hwait)⟩
  · obtain ⟨hend, hcontents⟩ := send_of_not_waiting hwait x
    refine .inr ⟨hcontents, ?_⟩
    split at hend
    · exact .inl ⟨hend, by assumption⟩
    · exact .inr ⟨hend, by omega⟩

theorem contract (α : Type u) (capacity : ℕ) :
  (ops α capacity).Contract capacity
  := by
  refine ⟨contents_ops _, fun c => List.length_take_le _ _, ?_, ?_, ?_, ?_, takes_receive,
    takes_tryReceive, ?_, ?_⟩
  · intro c hblocked
    have hlt : capacity < c.contents.length := by
      by_contra hle
      exact hblocked (List.drop_eq_nil_of_le (by omega))
    exact List.length_take_of_le (Nat.le_of_lt hlt)
  · intro c x hend
    obtain ⟨-, hnil, hnil'⟩ | ⟨-, ⟨hend', -⟩ | ⟨hend', -⟩⟩ := c.send_cases x
    · exact ⟨(contents_ops c).trans hnil, (contents_ops _).trans hnil'⟩
    · cases hend.symm.trans hend'
    · cases hend.symm.trans hend'
  · intro c x hend
    obtain ⟨hend', -, -⟩ | ⟨hcontents, ⟨-, hlt⟩ | ⟨hend', -⟩⟩ := c.send_cases x
    · cases hend.symm.trans hend'
    · have hle : (c.contents ++ [x]).length ≤ capacity := by
        rw [List.length_append]
        exact hlt
      refine ⟨List.drop_eq_nil_of_le (Nat.le_of_lt hlt), ?_, ?_⟩
      · show (c.send x).1.contents.take capacity = c.contents.take capacity ++ [x]
        rw [hcontents, List.take_of_length_le hle, List.take_of_length_le (Nat.le_of_lt hlt)]
      · show (c.send x).1.contents.drop capacity = []
        rw [hcontents, List.drop_eq_nil_of_le hle]
    · cases hend.symm.trans hend'
  · intro c x hend
    obtain ⟨hend', -, -⟩ | ⟨hcontents, ⟨hend', -⟩ | ⟨-, hle⟩⟩ := c.send_cases x
    · cases hend.symm.trans hend'
    · cases hend.symm.trans hend'
    · constructor
      · show (c.send x).1.contents.take capacity = c.contents.take capacity
        rw [hcontents, List.take_append_of_le_length hle]
      · show (c.send x).1.contents.drop capacity = c.contents.drop capacity ++ [x]
        rw [hcontents, List.drop_append_of_le_length hle]
  · intro c
    exact List.take_of_length_le (List.length_take_le _ _)
  · intro c
    exact List.drop_eq_nil_of_le (List.length_take_le _ _)

end Channel
