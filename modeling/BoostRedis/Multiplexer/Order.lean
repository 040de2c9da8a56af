import BoostRedis.Multiplexer.Connection
import BoostRedis.Multiplexer.Entries
import Mathlib.Data.List.Nodup

/-!
# The order of the queue

The operations of the multiplexer are called in any order here, and each of them alone: the
connection need not be lost when `commit_read` fails.  In every state that is reached this way
no entry is in the queue twice, the requests that wait are behind the others (`Orderly`), and
every entry that has left was removed by its owner or notified (`Accounts`).

What an operation does to the queue is said once: all but `add` take entries out, and change
those that stay in nothing that identifies them (`Thins`).
-/

namespace Redis

open Resp3

variable {ρ : Type}

/-! ### Single calls -/

namespace World

/-- The calls that an operation makes. -/
def calls (w : World ρ) : Action ρ → List Event
  | .cancelWaiting => w.mpx.cancelWaiting.events
  | .prepareWrite => w.mpx.prepareWrite.events
  | .commitWrite => w.mpx.commitWrite.events
  | .commitRead => w.mpx.commitRead.events
  | .connLost => w.mpx.cancelOnConnLost.events
  | .add _ _ _ | .remove _ | .receive _ | .reset => []

/-- What an operation does by itself.  Unlike in `apply`, the connection stays when
`commit_read` fails. -/
def operate (w : World ρ) : Action ρ → World ρ
  | .commitRead => w.after w.mpx.commitRead
  | a => w.apply a

/-- A step with single operations in any order. -/
def OpenStep (w : World ρ) (a : Action ρ) (w' : World ρ) : Prop :=
  w.Possible a ∧ w' = w.operate a

theorem operate_log {w : World ρ} {a : Action ρ} (h : a.isReset = false) :
  (w.operate a).log = w.log ++ w.calls a
  := by
  cases a with
  | add _ _ _ | remove _ | receive _ => exact (List.append_nil _).symm
  | cancelWaiting | prepareWrite | commitWrite | commitRead | connLost => rfl
  | reset => cases h

/-- When `commit_read` fails and the connection is lost for it, these are two operations. -/
theorem FreeStep.openRun {w w' : World ρ} {a : Action ρ} (h : w.FreeStep a w') :
  ∃ as, Run OpenStep w as w'
  := by
  obtain ⟨hpossible, rfl⟩ := h
  cases a with
  | commitRead =>
      rw [World.apply]
      split
      · exact ⟨[.commitRead, .connLost], .cons ⟨hpossible, rfl⟩ (.single ⟨trivial, rfl⟩)⟩
      · exact ⟨[.commitRead], .single ⟨hpossible, rfl⟩⟩
  | add _ _ _ | remove _ | receive _ | cancelWaiting | prepareWrite | commitWrite | connLost
  | reset => exact ⟨_, .single ⟨hpossible, rfl⟩⟩

end World

/-! ### Entries that stay -/

/-- An entry stays in the queue: it is the same entry, and waits for no more responses than
before. -/
structure Stays (e e' : Elem ρ) : Prop where
  entry : e'.entry = e.entry
  remaining : e'.remainingResponses ≤ e.remainingResponses

namespace Stays

theorem refl (e : Elem ρ) :
  Stays e e
  := ⟨rfl, le_rfl⟩

theorem id {e e' : Elem ρ} (h : Stays e e') :
  e'.id = e.id
  := congrArg Prod.fst h.entry

theorem req {e e' : Elem ρ} (h : Stays e e') :
  e'.req = e.req
  := congrArg Prod.snd h.entry

theorem markStaged (e : Elem ρ) :
  Stays e e.markStaged
  := ⟨rfl, le_rfl⟩

theorem markWaiting (e : Elem ρ) :
  Stays e e.markWaiting
  := ⟨rfl, le_rfl⟩

theorem written (e : Elem ρ) :
  Stays e (Split.written e)
  := by
  have hsame := Split.sameElem_written e
  exact ⟨by rw [Elem.entry, Elem.entry, hsame.id, hsame.req], hsame.remainingResponses.le⟩

end Stays

/-- Entries are taken out of a queue, and the others stay in their order. -/
def Thins (reqs reqs' : List (Elem ρ)) : Prop :=
  ∃ kept : List (Elem ρ), kept.Sublist reqs ∧ List.Forall₂ Stays kept reqs'

/-- The numbers of the entries, in the order of the queue. -/
def Multiplexer.ids (m : Multiplexer ρ) : List ℕ := m.reqs.map Elem.id

section Thins

variable {reqs reqs' : List (Elem ρ)}

/-- The entries that a predicate keeps stay. -/
theorem Thins.of_filter (reqs : List (Elem ρ)) (keep : Elem ρ → Bool) {f : Elem ρ → Elem ρ}
    (hf : ∀ e, Stays e (f e)) :
  Thins reqs ((reqs.filter keep).map f)
  := by
  refine ⟨reqs.filter keep, List.filter_sublist, ?_⟩
  rw [List.forall₂_map_right_iff, List.forall₂_same]
  intro e _
  apply hf

theorem Thins.of_sublist (h : reqs'.Sublist reqs) :
  Thins reqs reqs'
  := ⟨reqs', h, List.forall₂_same.mpr fun e _ => Stays.refl e⟩

theorem Thins.refl (reqs : List (Elem ρ)) :
  Thins reqs reqs
  := .of_sublist (.refl reqs)

/-- The entries keep their order. -/
theorem Thins.entries (h : Thins reqs reqs') :
  (reqs'.map Elem.entry).Sublist (reqs.map Elem.entry)
  := by
  obtain ⟨kept, hsub, hstays⟩ := h
  have hentries : kept.map Elem.entry = reqs'.map Elem.entry := by
    clear hsub
    induction hstays with
    | nil => rfl
    | cons hs _ ih => rw [List.map_cons, List.map_cons, ih, hs.entry]
  rw [← hentries]
  apply hsub.map

theorem Thins.ids (h : Thins reqs reqs') :
  (reqs'.map Elem.id).Sublist (reqs.map Elem.id)
  := by
  have hids := h.entries.map Prod.fst
  rw [List.map_map, List.map_map] at hids
  apply hids

/-- Every entry that is left was there before. -/
theorem Thins.mem (h : Thins reqs reqs') {e' : Elem ρ} (he' : e' ∈ reqs') :
  ∃ e ∈ reqs, Stays e e'
  := by
  obtain ⟨kept, hsub, hstays⟩ := h
  have hfound : ∃ e ∈ kept, Stays e e' := by
    clear hsub
    induction hstays with
    | nil => cases he'
    | cons hs _ ih =>
        obtain rfl | he' := List.mem_cons.mp he'
        · exact ⟨_, List.mem_cons_self, hs⟩
        · obtain ⟨e, he, hs⟩ := ih he'
          exact ⟨e, List.mem_cons_of_mem _ he, hs⟩
  obtain ⟨e, he, hs⟩ := hfound
  exact ⟨e, hsub.subset he, hs⟩

end Thins

/-! ### What an operation does to the queue -/

/-- What `commit_read` does to the queue: nothing, or the request at the front reads and stays,
where it can be notified of an error only, or it has read its last response and leaves. -/
inductive ReadCase (m : Multiplexer ρ) (r : Effect ρ ReadResult) : Prop where
  | kept : r.mpx.reqs = m.reqs → (∀ id ec, .notified id ec ∉ r.events) → ReadCase m r
  | front {e e' : Elem ρ} {rest : List (Elem ρ)} : m.reqs = e :: rest → e.isWaiting = false →
      r.mpx.reqs = e' :: rest → Stays e e' → e'.isWaiting = false →
      (∀ id ec, .notified id ec ∈ r.events → id = e.id ∧ ec ≠ none) → ReadCase m r
  | left {e : Elem ρ} {rest : List (Elem ρ)} {size : ℕ} : m.reqs = e :: rest →
      e.isWaiting = false → r.mpx.reqs = rest → r.value = .message false size →
      e.remainingResponses = 1 → (e.commitResponse size).remainingResponses = 0 →
      .notified e.id e.ec ∈ r.events →
      (∀ id ec, .notified id ec ∈ r.events → id = e.id) → ReadCase m r

namespace Multiplexer

variable {m : Multiplexer ρ}

theorem readCase_commitResponse {e : Elem ρ} {rest : List (Elem ρ)} (hreqs : m.reqs = e :: rest)
    (hwait : e.isWaiting = false) (hpending : e.remainingResponses ≠ 0) :
  ReadCase m (m.commitResponse e rest)
  := by
  rw [commitResponse]
  generalize parse m.parser m.readBuffer e.getAdapter e.response = r
  have hsame : Stays e { e with response := r.state } := ⟨rfl, le_rfl⟩
  dsimp only
  split
  · exact .front hreqs hwait rfl hsame hwait (by simp)
  · exact .front hreqs hwait rfl ⟨rfl, le_rfl⟩ hwait (by simp [Elem.notifyError, Elem.notifyDone])
  · exact .front hreqs hwait rfl ⟨rfl, le_rfl⟩ hwait (by simp [Elem.notifyError, Elem.notifyDone])
  · split
    · rename_i hzero
      have hlast : e.remainingResponses - 1 = 0 := hzero
      exact .left hreqs hwait rfl rfl (by omega) hzero
        (by simp [Elem.notifyDone, Elem.commitResponse])
        (by simp [Elem.notifyDone, Elem.commitResponse])
    · exact .front hreqs hwait rfl ⟨rfl, Nat.sub_le _ _⟩ hwait (by simp)
  · exact .front hreqs hwait rfl hsame hwait (by simp)
  · exact .front hreqs hwait rfl hsame hwait (by simp)

theorem readCase (m : Multiplexer ρ) :
  ReadCase m m.commitRead
  := by
  obtain hread | ⟨e, rest, hreqs, hwait, hpending, hread⟩ := m.commitRead_cases
  · obtain ⟨hreqs, hnone⟩ := m.commitPush_reqs
    rw [hread]
    apply ReadCase.kept hreqs hnone
  · rw [hread]
    apply readCase_commitResponse hreqs hwait hpending

theorem thins_commitRead (m : Multiplexer ρ) :
  Thins m.reqs m.commitRead.mpx.reqs
  := by
  cases m.readCase with
  | kept hreqs' =>
      rw [hreqs']
      apply Thins.refl
  | front hreqs _ hreqs' hstays =>
      rw [hreqs, hreqs']
      exact ⟨_, .refl _, .cons hstays (List.forall₂_same.mpr fun e _ => Stays.refl e)⟩
  | left hreqs _ hreqs' =>
      rw [hreqs, hreqs']
      apply Thins.of_sublist (List.sublist_cons_self _ _)

theorem thins_remove (m : Multiplexer ρ) (id : ℕ) :
  Thins m.reqs (m.remove id).1.reqs
  := by
  rw [remove]
  split
  · apply Thins.refl
  · split
    · apply Thins.of_sublist List.eraseP_sublist
    · apply Thins.refl

theorem thins_commitWrite (m : Multiplexer ρ) :
  Thins m.reqs m.commitWrite.mpx.reqs
  := by
  show Thins m.reqs ((m.reqs.map Split.written).filter _)
  rw [List.filter_map]
  apply Thins.of_filter _ _ Stays.written

theorem thins_prepareWrite (m : Multiplexer ρ) :
  Thins m.reqs m.prepareWrite.mpx.reqs
  := by
  refine ⟨m.reqs, .refl _, ?_⟩
  have hsame := List.forall₂_same.mpr fun (e : Elem ρ) (_ : e ∈ m.reqs.takeWhile (!·.isWaiting)) =>
    Stays.refl e
  have hstaged := List.forall₂_map_right_iff.mpr (List.forall₂_same.mpr
    fun (e : Elem ρ) (_ : e ∈ m.reqs.dropWhile (!·.isWaiting)) => Stays.markStaged e)
  have hboth : List.Forall₂ Stays
      (m.reqs.takeWhile (!·.isWaiting) ++ m.reqs.dropWhile (!·.isWaiting)) m.prepareWrite.mpx.reqs :=
    List.rel_append hsame hstaged
  rw [List.takeWhile_append_dropWhile] at hboth
  apply hboth

theorem thins_cancelWaiting (m : Multiplexer ρ) :
  Thins m.reqs m.cancelWaiting.mpx.reqs
  := .of_sublist List.filter_sublist

theorem thins_cancelOnConnLost (m : Multiplexer ρ) :
  Thins m.reqs m.cancelOnConnLost.mpx.reqs
  := by
  rw [cancelOnConnLost]
  split
  · apply Thins.refl
  · apply Thins.of_filter _ _ Stays.markWaiting

end Multiplexer

def Action.isAdd : Action ρ → Bool
  | .add _ _ _ => true
  | _ => false

def Action.isConnLost : Action ρ → Bool
  | .connLost => true
  | _ => false

theorem World.lt_nextId_operate {w : World ρ} {a : Action ρ} {id : ℕ} (h : id < w.nextId) :
  id < (w.operate a).nextId
  := by
  cases a with
  | add _ _ _ => exact Nat.lt_succ_of_lt h
  | remove _ | receive _ | cancelWaiting | prepareWrite | commitWrite | commitRead | connLost
  | reset => exact h

/-- Every operation other than `add` takes entries out of the queue at most. -/
theorem World.thins {w : World ρ} {a : Action ρ} (h : a.isAdd = false) :
  Thins w.mpx.reqs (w.operate a).mpx.reqs
  := by
  cases a with
  | add _ _ _ => cases h
  | remove id => apply w.mpx.thins_remove
  | cancelWaiting => apply w.mpx.thins_cancelWaiting
  | prepareWrite => apply w.mpx.thins_prepareWrite
  | commitWrite => apply w.mpx.thins_commitWrite
  | commitRead => apply w.mpx.thins_commitRead
  | connLost => apply w.mpx.thins_cancelOnConnLost
  | receive _ | reset => apply Thins.refl

/-- The operations that change the write buffer. -/
def Action.writes : Action ρ → Bool
  | .prepareWrite | .commitWrite | .reset => true
  | _ => false

/-- `commit_read` neither writes nor cancels. -/
theorem Multiplexer.commitRead_frame (m : Multiplexer ρ) :
  m.commitRead.mpx.writeBuffer = m.writeBuffer ∧
    m.commitRead.mpx.cancelRunCalled = m.cancelRunCalled
  := by
  obtain hread | ⟨e, rest, -, -, -, hread⟩ := m.commitRead_cases
  · rw [hread, commitPush]
    dsimp only
    split <;> exact ⟨rfl, rfl⟩
  · rw [hread, commitResponse]
    dsimp only
    split
    · exact ⟨rfl, rfl⟩
    · exact ⟨rfl, rfl⟩
    · exact ⟨rfl, rfl⟩
    · split <;> exact ⟨rfl, rfl⟩
    · exact ⟨rfl, rfl⟩
    · exact ⟨rfl, rfl⟩

/-- `commit_read` only takes bytes out of the read buffer. -/
theorem Multiplexer.length_readBuffer_commitRead (m : Multiplexer ρ) :
  m.commitRead.mpx.readBuffer.length ≤ m.readBuffer.length
  := by
  have hdrop : ∀ n, (m.readBuffer.drop n).length ≤ m.readBuffer.length := by
    intro n
    rw [List.length_drop]
    apply Nat.sub_le
  obtain hread | ⟨e, rest, -, -, -, hread⟩ := m.commitRead_cases
  · rw [hread, commitPush]
    split
    · exact le_rfl
    · exact le_rfl
    · exact le_rfl
    · apply hdrop
    · exact le_rfl
    · exact le_rfl
  · rw [hread, commitResponse]
    split
    · exact le_rfl
    · exact le_rfl
    · exact le_rfl
    · dsimp only
      split
      · apply hdrop
      · apply hdrop
    · exact le_rfl
    · exact le_rfl

/-- The operations that change the queue and nothing else, apart from the flag that is set when the
connection is lost. -/
def Action.requeues : Action ρ → Bool
  | .add _ _ _ | .remove _ | .cancelWaiting | .connLost => true
  | .prepareWrite | .commitWrite | .receive _ | .commitRead | .reset => false

theorem World.operate_of_requeues (w : World ρ) {a : Action ρ} (h : a.requeues = true) :
  ∃ reqs called, (w.operate a).mpx = { w.mpx with reqs := reqs, cancelRunCalled := called }
  := by
  cases a with
  | add req adapter response =>
      show ∃ reqs called, w.mpx.add _ = _
      rw [Multiplexer.add]
      split
      · exact ⟨_, _, rfl⟩
      · exact ⟨_, _, rfl⟩
  | remove id =>
      show ∃ reqs called, (w.mpx.remove id).1 = _
      rw [Multiplexer.remove]
      split
      · exact ⟨_, _, rfl⟩
      · split
        · exact ⟨_, _, rfl⟩
        · exact ⟨_, _, rfl⟩
  | cancelWaiting => exact ⟨_, _, rfl⟩
  | connLost =>
      show ∃ reqs called, w.mpx.cancelOnConnLost.mpx = _
      rw [Multiplexer.cancelOnConnLost]
      split
      · exact ⟨_, _, rfl⟩
      · exact ⟨_, _, rfl⟩
  | prepareWrite | commitWrite | receive _ | commitRead | reset => cases h

theorem World.writeBuffer_operate {w : World ρ} {a : Action ρ} (h : a.writes = false) :
  (w.operate a).mpx.writeBuffer = w.mpx.writeBuffer
  := by
  cases hqueue : a.requeues with
  | true =>
      obtain ⟨reqs, called, heq⟩ := w.operate_of_requeues hqueue
      rw [heq]
  | false =>
      cases a with
      | receive _ => rfl
      | commitRead => apply w.mpx.commitRead_frame.1
      | prepareWrite | commitWrite | reset => cases h
      | add _ _ _ | remove _ | cancelWaiting | connLost => cases hqueue

/-- `commit_read` leaves the requests that wait behind the others. -/
theorem Split.commitRead {m : Multiplexer ρ} {sent queued : List (Elem ρ)}
    (h : Split m.reqs sent queued) :
  ∃ sent', Split m.commitRead.mpx.reqs sent' queued
  := by
  cases m.readCase with
  | kept hreqs' =>
      use sent
      rw [hreqs']
      apply h
  | @front _ e' _ hreqs hwait hreqs' _ hwait' =>
      obtain ⟨sent', rfl, hrest⟩ := h.sent_cons hreqs hwait
      refine ⟨e' :: sent', ?_, ?_, h.queued_waiting⟩
      · rw [hreqs', hrest, List.cons_append]
      · intro x hx
        obtain rfl | hx := List.mem_cons.mp hx
        · apply hwait'
        · apply h.sent_waiting x (List.mem_cons_of_mem _ hx)
  | left hreqs hwait hreqs' =>
      obtain ⟨sent', rfl, hrest⟩ := h.sent_cons hreqs hwait
      refine ⟨sent', hreqs'.trans hrest, ?_, h.queued_waiting⟩
      intro x hx
      apply h.sent_waiting x (List.mem_cons_of_mem _ hx)

theorem Split.cancelOnConnLost {m : Multiplexer ρ} {sent queued : List (Elem ρ)}
    (h : Split m.reqs sent queued) :
  ∃ sent' queued', Split m.cancelOnConnLost.mpx.reqs sent' queued'
  := by
  rw [Multiplexer.cancelOnConnLost]
  split
  · exact ⟨sent, queued, h⟩
  · refine ⟨[], _, rfl, by simp, ?_⟩
    intro e he
    obtain ⟨x, -, rfl⟩ := List.mem_map.mp he
    rfl

/-- The operations that make requests wait. -/
def Action.queues : Action ρ → Bool
  | .add _ _ _ | .connLost => true
  | _ => false

/-- All operations but two keep the order of the queue, and no other requests wait than before. -/
theorem Split.operate {w : World ρ} {a : Action ρ} {sent queued : List (Elem ρ)}
    (h : Split w.mpx.reqs sent queued) (ha : a.queues = false) :
  ∃ sent' queued', Split (w.operate a).mpx.reqs sent' queued' ∧ queued'.Sublist queued
  := by
  cases a with
  | add _ _ _ | connLost => cases ha
  | remove id =>
      obtain ⟨queued', hsplit, hsub⟩ := h.remove id
      exact ⟨sent, queued', hsplit, hsub⟩
  | cancelWaiting => exact ⟨sent, [], h.cancelWaiting, List.nil_sublist _⟩
  | prepareWrite => exact ⟨_, [], h.prepareWrite.1, List.nil_sublist _⟩
  | commitWrite =>
      obtain ⟨keep, -, hsplit⟩ := h.commitWrite
      exact ⟨_, queued, hsplit, .refl _⟩
  | receive _ | reset => exact ⟨sent, queued, h, .refl _⟩
  | commitRead =>
      obtain ⟨sent', hsplit⟩ := h.commitRead
      exact ⟨sent', queued, hsplit, .refl _⟩

def Action.isPrepareWrite : Action ρ → Bool
  | .prepareWrite => true
  | _ => false

/-- As long as nothing is staged, all requests wait. -/
theorem World.waiting_operate {w : World ρ} {a : Action ρ}
    (h : ∀ e ∈ w.mpx.reqs, e.isWaiting = true) (ha : a.isPrepareWrite = false) :
  ∀ e ∈ (w.operate a).mpx.reqs, e.isWaiting = true
  := by
  have hsplit : Split w.mpx.reqs [] w.mpx.reqs := ⟨rfl, by simp, h⟩
  cases a with
  | add req adapter response =>
      obtain ⟨queued', hsplit', -⟩ := hsplit.add (e := .make w.nextId req adapter response) rfl
      show ∀ e ∈ (w.mpx.add _).reqs, e.isWaiting = true
      rw [hsplit'.eq]
      apply hsplit'.queued_waiting
  | remove id =>
      obtain ⟨queued', hsplit', -⟩ := hsplit.remove id
      show ∀ e ∈ (w.mpx.remove id).1.reqs, e.isWaiting = true
      rw [hsplit'.eq]
      apply hsplit'.queued_waiting
  | cancelWaiting => exact fun e he => h e (List.mem_of_mem_filter he)
  | prepareWrite => cases ha
  | commitWrite =>
      obtain ⟨keep, -, hsplit'⟩ := hsplit.commitWrite
      show ∀ e ∈ w.mpx.commitWrite.mpx.reqs, e.isWaiting = true
      rw [hsplit'.eq]
      apply hsplit'.queued_waiting
  | receive _ | reset => exact h
  | commitRead =>
      show ∀ e ∈ w.mpx.commitRead.mpx.reqs, e.isWaiting = true
      cases w.mpx.readCase with
      | kept hreqs' =>
          rw [hreqs']
          exact h
      | front hreqs hwait | left hreqs hwait =>
          rw [h _ (hreqs ▸ List.mem_cons_self)] at hwait
          cases hwait
  | connLost =>
      show ∀ e ∈ w.mpx.cancelOnConnLost.mpx.reqs, e.isWaiting = true
      rw [Multiplexer.cancelOnConnLost]
      split
      · exact h
      · intro e he
        obtain ⟨x, -, rfl⟩ := List.mem_map.mp he
        rfl

/-! ### Entries and their order in every reachable state -/

/-- What holds of the queue in every state: no entry is in it twice, the requests that wait are
behind the others, and no request waits for more responses than it has commands. -/
structure Orderly (w : World ρ) : Prop where
  nodup : w.mpx.ids.Nodup
  lt_nextId : ∀ id ∈ w.mpx.ids, id < w.nextId
  split : ∃ sent queued, Split w.mpx.reqs sent queued
  bounded : ∀ e ∈ w.mpx.reqs, e.remainingResponses ≤ e.req.expectedResponses

namespace Orderly

variable {w w' : World ρ} {a : Action ρ}

theorem fresh (receiveAdapter : Adapter ρ) (receiveResponse : ρ) :
  Orderly (World.fresh receiveAdapter receiveResponse)
  := ⟨List.nodup_nil, by simp [World.fresh, Multiplexer.ids], ⟨[], [], rfl, by simp, by simp⟩,
    by simp [World.fresh]⟩

/-- No other entry has the number of the front of the queue. -/
theorem front_unique (h : Orderly w) {e : Elem ρ} {rest : List (Elem ρ)}
    (hreqs : w.mpx.reqs = e :: rest) :
  e.id ∉ rest.map Elem.id
  := by
  have hnodup := h.nodup
  rw [Multiplexer.ids, hreqs, List.map_cons, List.nodup_cons] at hnodup
  apply hnodup.1

/-- An operation that takes entries out. -/
theorem thins (h : Orderly w) (hadd : a.isAdd = false) (hnext : (w.operate a).nextId = w.nextId)
    (hsplit : ∃ sent queued, Split (w.operate a).mpx.reqs sent queued) :
  Orderly (w.operate a)
  := by
  have hthins := World.thins (w := w) hadd
  refine ⟨h.nodup.sublist hthins.ids, ?_, hsplit, ?_⟩
  · intro id hid
    rw [hnext]
    apply h.lt_nextId id (hthins.ids.subset hid)
  · intro e' he'
    obtain ⟨e, he, hstays⟩ := hthins.mem he'
    rw [hstays.req]
    apply hstays.remaining.trans (h.bounded e he)

theorem add (h : Orderly w) (req : Request) (adapter : ℕ → Adapter ρ) (response : ρ) :
  Orderly (w.operate (.add req adapter response))
  := by
  obtain ⟨sent, queued, hsplit⟩ := h.split
  obtain ⟨queued', hsplit', -⟩ := hsplit.add (e := .make w.nextId req adapter response) rfl
  have hreqs : (w.operate (.add req adapter response)).mpx.reqs.Perm
      (.make w.nextId req adapter response :: w.mpx.reqs) := Multiplexer.add_perm _
  have hids := hreqs.map Elem.id
  refine ⟨?_, ?_, ⟨sent, queued', hsplit'⟩, ?_⟩
  · apply hids.nodup_iff.mpr
    exact List.nodup_cons.mpr ⟨fun hid => Nat.lt_irrefl _ (h.lt_nextId _ hid), h.nodup⟩
  · intro id hid
    show id < w.nextId + 1
    obtain rfl | hid := List.mem_cons.mp (hids.mem_iff.mp hid)
    · apply Nat.lt_succ_self
    · apply Nat.lt_succ_of_lt (h.lt_nextId id hid)
  · intro e he
    obtain rfl | he := List.mem_cons.mp (hreqs.mem_iff.mp he)
    · exact le_rfl
    · apply h.bounded e he

/-- Every operation. -/
theorem step (h : Orderly w) (a : Action ρ) :
  Orderly (w.operate a)
  := by
  obtain ⟨sent, queued, hsplit⟩ := h.split
  cases ha : a.queues with
  | false =>
      obtain ⟨sent', queued', hsplit', -⟩ := hsplit.operate ha
      cases a with
      | add _ _ _ | connLost => cases ha
      | remove _ | cancelWaiting | prepareWrite | commitWrite | receive _ | commitRead
      | reset => exact h.thins rfl rfl ⟨sent', queued', hsplit'⟩
  | true =>
      cases a with
      | add req adapter response => apply h.add
      | connLost => exact h.thins rfl rfl hsplit.cancelOnConnLost
      | _ => cases ha

theorem run {as : List (Action ρ)} (h : Orderly w) (hrun : Run World.OpenStep w as w') :
  Orderly w'
  := by
  apply hrun.invariant _ h
  rintro w a _ h ⟨-, rfl⟩
  apply h.step

end Orderly

/-! ### Entries that leave -/

/-- What becomes of the entries in an operation.

* An entry leaves the queue only if its owner removes it while it waits, or if it is notified.
* If `commit_read` notifies a request without an error, no response of it is left to read.
* If `commit_write` notifies a request, it is written, and it expects no response.
* The entries that stay keep their order, unless one is added. -/
structure Accounts (w : World ρ) (a : Action ρ) : Prop where
  left : ∀ e ∈ w.mpx.reqs, e.id ∉ (w.operate a).mpx.ids →
    (a = .remove e.id ∧ (w.mpx.remove e.id).2 = true ∧ e.isWaiting = true) ∨
      ∃ ec, .notified e.id ec ∈ w.calls a
  read : a = .commitRead → ∀ id, .notified id none ∈ w.calls a → ∃ e ∈ w.mpx.reqs, e.id = id ∧
    e.remainingResponses = 1 ∧ ∃ size, w.mpx.commitRead.value = .message false size ∧
      (e.commitResponse size).remainingResponses = 0
  written : a = .commitWrite → ∀ id ec, .notified id ec ∈ w.calls a → ∃ e ∈ w.mpx.reqs, e.id = id ∧
    (Split.written e).isWritten = true ∧ e.req.expectedResponses = 0
  order : a.isAdd = false → (w.operate a).mpx.ids.Sublist w.mpx.ids

namespace Multiplexer

variable {m : Multiplexer ρ} {e : Elem ρ}

theorem ids_eq (m : Multiplexer ρ) :
  m.ids = m.entries.map Prod.fst
  := by
  rw [ids, entries, List.map_map]
  rfl

/-- An entry that has left is not among those that a predicate keeps. -/
theorem not_kept {reqs : List (Elem ρ)} (keep : Elem ρ → Bool) {f : Elem ρ → Elem ρ}
    (hf : ∀ e, Stays e (f e)) (he : e ∈ reqs) (hid : e.id ∉ ((reqs.filter keep).map f).map Elem.id) :
  e ∈ reqs.filter (!keep ·)
  := by
  refine List.mem_filter.mpr ⟨he, ?_⟩
  by_contra hkeep
  simp only [Bool.not_eq_eq_eq_not, Bool.not_true, Bool.not_eq_false] at hkeep
  apply hid
  rw [← (hf e).id]
  exact List.mem_map_of_mem (List.mem_map_of_mem (List.mem_filter.mpr ⟨he, hkeep⟩))

/-- An entry is found by its number. -/
theorem find_id (hnodup : m.ids.Nodup) (he : e ∈ m.reqs) :
  m.reqs.find? (·.id = e.id) = some e
  := by
  have hsome : (m.reqs.find? (·.id = e.id)).isSome := List.find?_isSome.mpr ⟨e, he, by simp⟩
  obtain ⟨x, hx⟩ := Option.isSome_iff_exists.mp hsome
  have hid : x.id = e.id := by simpa using List.find?_some hx
  rw [hx, List.inj_on_of_nodup_map hnodup (List.mem_of_find?_eq_some hx) he hid]

/-- `remove` takes out an entry that waits. -/
theorem remove_eq (hnodup : m.ids.Nodup) (he : e ∈ m.reqs) :
  m.remove e.id
    = if e.isWaiting then ({ m with reqs := m.reqs.eraseP (·.id = e.id) }, true) else (m, false)
  := by
  rw [remove, find_id hnodup he]

/-- An entry that `remove` takes out was waiting. -/
theorem removed (hnodup : m.ids.Nodup) (he : e ∈ m.reqs) {id : ℕ} (hid : e.id ∉ (m.remove id).1.ids) :
  e.id = id ∧ (m.remove id).2 = true ∧ e.isWaiting = true
  := by
  have hmem : e.id ∈ m.ids := List.mem_map_of_mem he
  have heid : e.id = id := by
    by_contra hne
    rw [remove] at hid
    split at hid
    · exact hid hmem
    · split at hid
      · exact hid (List.mem_map_of_mem ((List.mem_eraseP_of_neg (by simp [hne])).mpr he))
      · exact hid hmem
  subst heid
  rw [remove_eq hnodup he] at hid ⊢
  split at hid
  · rename_i hwait
    simp [hwait]
  · exact absurd hmem hid

/-- An entry that has left after `commit_read` was notified. -/
theorem left_commitRead (he : e ∈ m.reqs) (hid : e.id ∉ m.commitRead.mpx.ids) :
  ∃ ec, .notified e.id ec ∈ m.commitRead.events
  := by
  have hmem : e.id ∈ m.ids := List.mem_map_of_mem he
  cases m.readCase with
  | kept hreqs' =>
      rw [ids, ← hreqs'] at hmem
      exact absurd hmem hid
  | front hreqs _ hreqs' hstays =>
      have hids : m.commitRead.mpx.ids = m.ids := by
        rw [ids, ids, hreqs, hreqs', List.map_cons, List.map_cons, hstays.id]
      rw [hids] at hid
      exact absurd hmem hid
  | left hreqs _ hreqs' _ _ _ hnotified =>
      rw [hreqs] at he
      obtain rfl | he := List.mem_cons.mp he
      · exact ⟨_, hnotified⟩
      · rw [← hreqs'] at he
        exact absurd (List.mem_map_of_mem he) hid

/-- An entry that has left when the connection was lost was notified. -/
theorem left_cancelOnConnLost (he : e ∈ m.reqs) (hid : e.id ∉ m.cancelOnConnLost.mpx.ids) :
  ∃ ec, .notified e.id ec ∈ m.cancelOnConnLost.events
  := by
  rw [cancelOnConnLost] at hid ⊢
  split at hid
  · exact absurd (List.mem_map_of_mem he) hid
  · rename_i hcalled
    rw [if_neg hcalled]
    exact ⟨_, List.mem_map_of_mem (not_kept _ Stays.markWaiting he hid)⟩

end Multiplexer

namespace Orderly

variable {w : World ρ} {a : Action ρ} {e : Elem ρ}

theorem left (h : Orderly w) (he : e ∈ w.mpx.reqs) (hid : e.id ∉ (w.operate a).mpx.ids) :
  (a = .remove e.id ∧ (w.mpx.remove e.id).2 = true ∧ e.isWaiting = true) ∨
    ∃ ec, .notified e.id ec ∈ w.calls a
  := by
  have hmem : e.id ∈ w.mpx.ids := List.mem_map_of_mem he
  cases a with
  | add req adapter response =>
      have hperm := (Multiplexer.entries_add (m := w.mpx)
        (.make w.nextId req adapter response)).map Prod.fst
      rw [← Multiplexer.ids_eq, List.map_cons, ← Multiplexer.ids_eq] at hperm
      exact absurd (hperm.mem_iff.mpr (List.mem_cons_of_mem _ hmem)) hid
  | remove id =>
      obtain ⟨rfl, hremove, hwait⟩ := Multiplexer.removed h.nodup he hid
      exact .inl ⟨rfl, hremove, hwait⟩
  | cancelWaiting =>
      have hleft := Multiplexer.not_kept (!·.isWaiting) (f := fun e => e) Stays.refl he
        (by rw [List.map_id']; apply hid)
      simp only [Bool.not_not] at hleft
      exact .inr ⟨_, List.mem_map_of_mem hleft⟩
  | prepareWrite =>
      have hids : (w.operate .prepareWrite).mpx.ids = w.mpx.ids := by
        rw [Multiplexer.ids_eq, Multiplexer.ids_eq]
        exact congrArg _ Multiplexer.entries_prepareWrite
      rw [hids] at hid
      exact absurd hmem hid
  | commitWrite =>
      have hleft := Multiplexer.not_kept (fun e => !(e.isWritten && e.req.expectedResponses == 0))
        (f := fun e => e) Stays.refl (List.mem_map_of_mem (f := Split.written) he)
        (by rw [List.map_id', (Stays.written e).id]; apply hid)
      rw [← (Stays.written e).id]
      exact .inr ⟨_, List.mem_map_of_mem hleft⟩
  | receive chunk | reset => exact absurd hmem hid
  | commitRead => exact .inr (Multiplexer.left_commitRead he hid)
  | connLost => exact .inr (Multiplexer.left_cancelOnConnLost he hid)

theorem read {id : ℕ} (hnotified : .notified id none ∈ w.mpx.commitRead.events) :
  ∃ e ∈ w.mpx.reqs, e.id = id ∧ e.remainingResponses = 1 ∧
    ∃ size, w.mpx.commitRead.value = .message false size ∧
      (e.commitResponse size).remainingResponses = 0
  := by
  cases w.mpx.readCase with
  | kept _ hnone => exact absurd hnotified (hnone id none)
  | front _ _ _ _ _ hnotify => exact absurd rfl (hnotify id none hnotified).2
  | @left e rest size hreqs _ _ hvalue hone hzero _ hnotify =>
      refine ⟨e, ?_, (hnotify id none hnotified).symm, hone, size, hvalue, hzero⟩
      rw [hreqs]
      apply List.mem_cons_self

theorem written {id : ℕ} {ec : Option ErrorCode}
    (hnotified : .notified id ec ∈ w.mpx.commitWrite.events) :
  ∃ e ∈ w.mpx.reqs, e.id = id ∧ (Split.written e).isWritten = true ∧ e.req.expectedResponses = 0
  := by
  obtain ⟨x, hx, hev⟩ := List.mem_map.mp hnotified
  obtain ⟨hx, hkeep⟩ := List.mem_filter.mp hx
  obtain ⟨e, he, rfl⟩ := List.mem_map.mp hx
  have hsame := Stays.written e
  have hdone : (Split.written e).isWritten = true ∧ (Split.written e).req.expectedResponses = 0 := by
    simp only [Bool.not_not, Bool.and_eq_true, beq_iff_eq] at hkeep
    apply hkeep
  rw [hsame.req] at hdone
  cases hev
  exact ⟨e, he, hsame.id.symm, hdone⟩

theorem accounts (h : Orderly w) (a : Action ρ) :
  Accounts w a
  := by
  refine ⟨fun e he hid => h.left he hid, ?_, ?_, fun hadd => (World.thins hadd).ids⟩
  · rintro rfl id hnotified
    apply read hnotified
  · rintro rfl id ec hnotified
    apply written hnotified

end Orderly

/-- No request is lost, duplicated or silently dropped, in every run of operations. -/
theorem accounts_of_run {receiveAdapter : Adapter ρ} {receiveResponse : ρ} {as : List (Action ρ)}
    {w : World ρ} (hrun : Run World.OpenStep (.fresh receiveAdapter receiveResponse) as w) :
  w.mpx.ids.Nodup ∧ ∀ a, w.Possible a → Accounts w a
  := by
  have horderly := (Orderly.fresh receiveAdapter receiveResponse).run hrun
  exact ⟨horderly.nodup, fun a _ => horderly.accounts a⟩

/-- A subscription and two commands, one of which is answered. -/
def subscribeAndPing : List (Action Unit) :=
  [.reset,
    .add (Request.push {} (ascii "SUBSCRIBE") [ascii "news"]) (fun _ => accepting) (),
    .add (Request.push {} (ascii "PING") []) (fun _ => accepting) (),
    .prepareWrite, .commitWrite,
    .add (Request.push {} (ascii "PING") []) (fun _ => accepting) (),
    .receive (ascii "+PONG\r\n")]

theorem accounts_of_run_pings :
  (subscribeAndPing.foldl World.apply (.fresh accepting ())).mpx.ids = [1, 2] ∧
    Accounts (subscribeAndPing.foldl World.apply (.fresh accepting ())) .commitRead
  := by
  have hfollows : Run.Follows World.apply World.Possible (.fresh accepting ())
      subscribeAndPing := by
    decide
  obtain ⟨as, hrun⟩ := (Run.of_follows hfollows).refine World.FreeStep.openRun
  exact ⟨by decide, (accounts_of_run hrun).2 .commitRead (by decide)⟩

end Redis
