import BoostRedis.Multiplexer.Basic
import Mathlib.Data.List.TakeWhile

/-!
# The queue of requests

The requests that wait are behind those that were sent.  The operations on the queue keep this
order, and leave alone what belongs to the message that is being read.
-/

namespace Redis

open Resp3

variable {ρ : Type}

/-- The queue is made of requests that were sent, followed by requests that wait. -/
structure Split (reqs sent queued : List (Elem ρ)) : Prop where
  eq : reqs = sent ++ queued
  sent_waiting : ∀ e ∈ sent, e.isWaiting = false
  queued_waiting : ∀ e ∈ queued, e.isWaiting = true

/-- What belongs to the message that is being read is the same. -/
structure SameReading (m m' : Multiplexer ρ) : Prop where
  readBuffer : m'.readBuffer = m.readBuffer
  parser : m'.parser = m.parser
  onPush : m'.onPush = m.onPush
  cancelRunCalled : m'.cancelRunCalled = m.cancelRunCalled
  receiveAdapter : m'.receiveAdapter = m.receiveAdapter
  receiveResponse : m'.receiveResponse = m.receiveResponse

/-- Two entries differ at most in their status. -/
structure SameElem (e e' : Elem ρ) : Prop where
  id : e'.id = e.id
  req : e'.req = e.req
  adapter : e'.adapter = e.adapter
  response : e'.response = e.response
  remainingResponses : e'.remainingResponses = e.remainingResponses

namespace SameElem

variable {e e' : Elem ρ}

theorem refl (e : Elem ρ) :
  SameElem e e
  := ⟨rfl, rfl, rfl, rfl, rfl⟩

theorem index (h : SameElem e e') :
  e'.index = e.index
  := by
  rw [Elem.index, Elem.index, h.req, h.remainingResponses]

theorem getAdapter (h : SameElem e e') :
  e'.getAdapter = e.getAdapter
  := by
  rw [Elem.getAdapter, Elem.getAdapter, h.adapter, h.index]

end SameElem

namespace Split

variable {m : Multiplexer ρ} {sent queued : List (Elem ρ)}

/-- If the request at the front was sent, it is the first of those that were sent. -/
theorem sent_cons {e : Elem ρ} {rest : List (Elem ρ)} (h : Split m.reqs sent queued)
    (hreqs : m.reqs = e :: rest) (hwait : e.isWaiting = false) :
  ∃ sent', sent = e :: sent' ∧ rest = sent' ++ queued
  := by
  have heq := h.eq.symm.trans hreqs
  cases sent with
  | nil =>
      have := h.queued_waiting e (by rw [← List.nil_append queued, heq]; apply List.mem_cons_self)
      rw [hwait] at this
      cases this
  | cons x sent' =>
      obtain ⟨rfl, rfl⟩ := List.cons.inj heq
      exact ⟨sent', rfl, rfl⟩

theorem takeWhile_sent (h : Split m.reqs sent queued) :
  m.reqs.takeWhile (!·.isWaiting) = sent ∧ m.reqs.dropWhile (!·.isWaiting) = queued
  := by
  have hsent : ∀ e ∈ sent, (!e.isWaiting) = true := fun e he => by simp [h.sent_waiting e he]
  rw [h.eq, List.takeWhile_append_of_pos hsent, List.dropWhile_append_of_pos hsent]
  cases queued with
  | nil => simp
  | cons e queued => simp [h.queued_waiting e List.mem_cons_self]

theorem filter_waiting (h : Split m.reqs sent queued) :
  m.reqs.filter (!·.isWaiting) = sent ∧ m.reqs.filter Elem.isWaiting = queued
  := by
  rw [h.eq, List.filter_append, List.filter_append]
  constructor
  · rw [List.filter_eq_self.mpr fun e he => by simp [h.sent_waiting e he],
      List.filter_eq_nil_iff.mpr fun e he => by simp [h.queued_waiting e he], List.append_nil]
  · rw [List.filter_eq_nil_iff.mpr fun e he => by simp [h.sent_waiting e he],
      List.filter_eq_self.mpr fun e he => h.queued_waiting e he, List.nil_append]

/-- A new entry without priority is the last one. -/
theorem add_last {e : Elem ρ} (h : e.req.hasHelloPriority = false) :
  (m.add e).reqs = m.reqs ++ [e]
  := by
  rw [Multiplexer.add, h]
  rfl

/-- A new entry with priority is the first one that waits. -/
theorem add_priority (h : Split m.reqs sent queued) {e : Elem ρ} (he : e.isWaiting = true)
    (hpriority : e.req.hasHelloPriority = true) :
  (m.add e).reqs = sent ++ e :: queued
  := by
  have hall : ∀ x ∈ (queued ++ [e]).reverse, x.isWaiting = true := by
    intro x hx
    obtain hx | hx := List.mem_append.mp (List.mem_reverse.mp hx)
    · apply h.queued_waiting x hx
    · obtain rfl := List.mem_singleton.mp hx
      apply he
  have hsent : sent.reverse.takeWhile Elem.isWaiting = [] ∧
      sent.reverse.dropWhile Elem.isWaiting = sent.reverse := by
    cases hs : sent.reverse with
    | nil => exact ⟨rfl, rfl⟩
    | cons x xs =>
        have hx : x ∈ sent := by
          rw [← List.mem_reverse, hs]
          apply List.mem_cons_self
        simp [h.sent_waiting x hx]
  have hback : (m.reqs ++ [e]).reverse = (queued ++ [e]).reverse ++ sent.reverse := by
    rw [h.eq, List.append_assoc, List.reverse_append]
  rw [Multiplexer.add]
  simp only [hback, hpriority, ↓reduceIte]
  rw [List.takeWhile_append_of_pos hall, List.dropWhile_append_of_pos hall, hsent.1, hsent.2]
  simp [Multiplexer.rotateFirst]

/-- A new entry is put among those that wait. -/
theorem add (h : Split m.reqs sent queued) {e : Elem ρ} (he : e.isWaiting = true) :
  ∃ queued', Split (m.add e).reqs sent queued' ∧ queued'.Perm (e :: queued)
  := by
  have hwaiting : ∀ x ∈ e :: queued, x.isWaiting = true := by
    intro x hx
    obtain rfl | hx := List.mem_cons.mp hx
    · apply he
    · apply h.queued_waiting x hx
  have hperm : (queued ++ [e]).Perm (e :: queued) := List.perm_append_singleton e queued
  cases hp : e.req.hasHelloPriority with
  | false =>
      refine ⟨queued ++ [e], ⟨?_, h.sent_waiting, ?_⟩, hperm⟩
      · rw [add_last hp, h.eq, List.append_assoc]
      · intro x hx
        apply hwaiting x (hperm.mem_iff.mp hx)
  | true => exact ⟨e :: queued, ⟨h.add_priority he hp, h.sent_waiting, hwaiting⟩, .refl _⟩

/-- Only an entry that waits is removed. -/
theorem remove (h : Split m.reqs sent queued) (id : ℕ) :
  ∃ queued', Split (m.remove id).1.reqs sent queued' ∧ queued'.Sublist queued
  := by
  rw [Multiplexer.remove]
  split
  · exact ⟨queued, h, .refl queued⟩
  · rename_i e he
    split
    · rename_i hw
      have hsent : ∀ x ∈ sent, ¬ decide (x.id = id) = true := by
        intro x hx hid
        have hfound : sent.find? (·.id = id) = some e := by
          have hsome : (sent.find? (·.id = id)).isSome := List.find?_isSome.mpr ⟨x, hx, hid⟩
          obtain ⟨y, hy⟩ := Option.isSome_iff_exists.mp hsome
          rw [h.eq, List.find?_append, hy] at he
          rw [hy, ← he]
          rfl
        rw [h.sent_waiting e (List.mem_of_find?_eq_some hfound)] at hw
        cases hw
      refine ⟨queued.eraseP (·.id = id), ⟨?_, h.sent_waiting, ?_⟩, List.eraseP_sublist⟩
      · show m.reqs.eraseP (·.id = id) = _
        rw [h.eq, List.eraseP_append_right _ hsent]
      · intro x hx
        apply h.queued_waiting x (List.mem_of_mem_eraseP hx)
    · exact ⟨queued, h, .refl queued⟩

/-- The requests that wait are staged. -/
theorem prepareWrite (h : Split m.reqs sent queued) :
  Split m.prepareWrite.mpx.reqs (sent ++ queued.map Elem.markStaged) [] ∧
    m.prepareWrite.events = queued.map fun e => .staged e.id e.req.expectedResponses
  := by
  obtain ⟨hsent, hqueued⟩ := h.takeWhile_sent
  simp only [Multiplexer.prepareWrite, hsent, hqueued]
  refine ⟨⟨by rw [List.append_nil], ?_, by simp⟩, trivial⟩
  intro e he
  obtain he | he := List.mem_append.mp he
  · apply h.sent_waiting e he
  · obtain ⟨x, -, rfl⟩ := List.mem_map.mp he
    rfl

/-- The requests that wait are cancelled. -/
theorem cancelWaiting (h : Split m.reqs sent queued) :
  Split m.cancelWaiting.mpx.reqs sent []
  := by
  obtain ⟨hsent, -⟩ := h.filter_waiting
  simp only [Multiplexer.cancelWaiting, hsent]
  exact ⟨by rw [List.append_nil], h.sent_waiting, by simp⟩

/-- What becomes of an entry at `commit_write`, if it stays. -/
def written (e : Elem ρ) : Elem ρ :=
  if e.isStaged then e.markWritten else e

theorem sameElem_written (e : Elem ρ) :
  SameElem e (written e)
  := by
  rw [written]
  split
  · exact ⟨rfl, rfl, rfl, rfl, rfl⟩
  · apply SameElem.refl

theorem isWaiting_written (e : Elem ρ) :
  (written e).isWaiting = e.isWaiting
  := by
  rw [written]
  split
  · rename_i h
    simp only [Elem.isStaged, decide_eq_true_eq] at h
    simp [Elem.isWaiting, Elem.markWritten, h]
  · rfl

/-- Requests without responses leave the queue once they are written, all others stay. -/
theorem commitWrite (h : Split m.reqs sent queued) :
  ∃ keep : Elem ρ → Bool, (∀ e, keep e = false → e.req.expectedResponses = 0) ∧
    Split m.commitWrite.mpx.reqs ((sent.map written).filter keep) queued
  := by
  refine ⟨fun e => !(e.isWritten && e.req.expectedResponses == 0), ?_, ?_, ?_, h.queued_waiting⟩
  · intro e he
    simp only [Bool.not_eq_false', Bool.and_eq_true, beq_iff_eq] at he
    apply he.2
  · have hqueued : (queued.map written).filter
        (fun e => !(e.isWritten && e.req.expectedResponses == 0)) = queued := by
      have hsame : queued.map written = queued := by
        apply (List.map_congr_left _).trans (List.map_id queued)
        intro e he
        have := h.queued_waiting e he
        simp only [Elem.isWaiting, decide_eq_true_eq] at this
        simp [written, Elem.isStaged, this]
      rw [hsame]
      apply List.filter_eq_self.mpr
      intro e he
      have := h.queued_waiting e he
      simp only [Elem.isWaiting, decide_eq_true_eq] at this
      simp [Elem.isWritten, this]
    show (m.reqs.map written).filter _ = _
    rw [h.eq, List.map_append, List.filter_append, hqueued]
  · intro e he
    obtain ⟨x, hx, rfl⟩ := List.mem_map.mp (List.mem_of_mem_filter he)
    rw [isWaiting_written]
    apply h.sent_waiting x hx

end Split

theorem sameReading_add (m : Multiplexer ρ) (e : Elem ρ) :
  SameReading m (m.add e)
  := by
  rw [Multiplexer.add]
  cases e.req.hasHelloPriority <;> exact ⟨rfl, rfl, rfl, rfl, rfl, rfl⟩

theorem sameReading_remove (m : Multiplexer ρ) (id : ℕ) :
  SameReading m (m.remove id).1
  := by
  rw [Multiplexer.remove]
  split
  · exact ⟨rfl, rfl, rfl, rfl, rfl, rfl⟩
  · split <;> exact ⟨rfl, rfl, rfl, rfl, rfl, rfl⟩

theorem sameReading_prepareWrite (m : Multiplexer ρ) :
  SameReading m m.prepareWrite.mpx
  := ⟨rfl, rfl, rfl, rfl, rfl, rfl⟩

theorem sameReading_commitWrite (m : Multiplexer ρ) :
  SameReading m m.commitWrite.mpx
  := ⟨rfl, rfl, rfl, rfl, rfl, rfl⟩

theorem sameReading_cancelWaiting (m : Multiplexer ρ) :
  SameReading m m.cancelWaiting.mpx
  := ⟨rfl, rfl, rfl, rfl, rfl, rfl⟩

/-! ### Notifications -/

theorem notified_commitWrite (m : Multiplexer ρ) :
  ∀ e ∈ m.commitWrite.events, ∃ id ec, e = .notified id ec
  := by
  intro e he
  obtain ⟨x, -, rfl⟩ := List.mem_map.mp he
  exact ⟨x.id, x.ec, rfl⟩

theorem notified_cancelWaiting (m : Multiplexer ρ) :
  ∀ e ∈ m.cancelWaiting.events, ∃ id ec, e = .notified id ec
  := by
  intro e he
  obtain ⟨x, -, rfl⟩ := List.mem_map.mp he
  exact ⟨x.id, _, rfl⟩

theorem notified_cancelOnConnLost (m : Multiplexer ρ) :
  ∀ e ∈ m.cancelOnConnLost.events, ∃ id ec, e = .notified id ec
  := by
  intro e he
  rw [Multiplexer.cancelOnConnLost] at he
  split at he
  · cases he
  · obtain ⟨x, -, rfl⟩ := List.mem_map.mp he
    exact ⟨x.id, _, rfl⟩

end Redis
