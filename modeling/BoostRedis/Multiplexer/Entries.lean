import BoostRedis.Multiplexer.Queue
import Mathlib.Data.List.Perm.Basic

/-!
# Entries that leave the queue

Except for `add`, the operations only take entries out of the queue.  The entries that are
notified are taken out, with one exception: an error of `commit_read` notifies the request at
the front, which stays until the connection is lost, and longer if it is kept then.
-/

namespace Redis

open Resp3

variable {ρ : Type}

/-- What identifies an entry: its number and its request. -/
def Elem.entry (e : Elem ρ) : ℕ × Request := (e.id, e.req)

/-- The entries of the queue. -/
def Multiplexer.entries (m : Multiplexer ρ) : List (ℕ × Request) := m.reqs.map Elem.entry

/-- Some entries are taken out, among them all that are notified. -/
def Drops (before after : List (ℕ × Request)) (es : List Event) : Prop :=
  ∃ dropped : List (ℕ × Request), before.Perm (after ++ dropped) ∧
    ∀ id ec, .notified id ec ∈ es → id ∈ dropped.map Prod.fst

theorem Drops.refl {es : List Event} (entries : List (ℕ × Request))
    (hes : ∀ id ec, .notified id ec ∉ es) :
  Drops entries entries es
  := ⟨[], by rw [List.append_nil], fun id ec hmem => absurd hmem (hes id ec)⟩

theorem Drops.subset {before after : List (ℕ × Request)} {es : List Event}
    (h : Drops before after es) :
  after ⊆ before
  := by
  obtain ⟨dropped, hperm, -⟩ := h
  intro x hx
  apply hperm.mem_iff.mpr (List.mem_append_left dropped hx)

/-- The entries that a predicate keeps stay. -/
theorem Drops.of_filter (reqs : List (Elem ρ)) (keep : Elem ρ → Bool) (es : List Event)
    {f : Elem ρ → Elem ρ} (hf : ∀ e, (f e).entry = e.entry)
    (hes : ∀ id ec, .notified id ec ∈ es → ∃ e ∈ reqs, keep e = false ∧ e.id = id) :
  Drops (reqs.map Elem.entry) (((reqs.filter keep).map f).map Elem.entry) es
  := by
  refine ⟨(reqs.filter (!keep ·)).map Elem.entry, ?_, ?_⟩
  · have hmap : ((reqs.filter keep).map f).map Elem.entry = (reqs.filter keep).map Elem.entry := by
      rw [List.map_map]
      apply List.map_congr_left fun e _ => hf e
    rw [hmap, ← List.map_append]
    apply (List.filter_append_perm keep reqs).symm.map
  · intro id ec hmem
    obtain ⟨e, he, hkeep, rfl⟩ := hes id ec hmem
    rw [List.map_map]
    apply List.mem_map.mpr ⟨e, List.mem_filter.mpr ⟨he, by rw [hkeep]; rfl⟩, rfl⟩

namespace Multiplexer

variable {m : Multiplexer ρ}

theorem rotateFirst_perm {α : Type} (l : List α) :
  (rotateFirst l).Perm l
  := by
  cases l with
  | nil => exact .refl []
  | cons x xs => apply List.perm_append_singleton

theorem add_perm (e : Elem ρ) :
  (m.add e).reqs.Perm (e :: m.reqs)
  := by
  have hlast : (m.reqs ++ [e]).Perm (e :: m.reqs) := List.perm_append_singleton e m.reqs
  rw [Multiplexer.add]
  dsimp only
  split
  · refine (List.reverse_perm _).trans (((rotateFirst_perm _).append_right _).trans ?_)
    rw [List.takeWhile_append_dropWhile]
    apply (List.reverse_perm _).trans hlast
  · apply hlast

theorem entries_add (e : Elem ρ) :
  (m.add e).entries.Perm (e.entry :: m.entries)
  := (add_perm e).map Elem.entry

theorem drops_remove (id : ℕ) :
  Drops m.entries (m.remove id).1.entries []
  := by
  rw [Multiplexer.remove]
  split
  · apply Drops.refl _ (by simp)
  · split
    · have hsub : (m.reqs.eraseP (·.id = id)).Sublist m.reqs := List.eraseP_sublist
      obtain ⟨dropped, hperm⟩ := hsub.exists_perm_append
      refine ⟨dropped.map Elem.entry, ?_, by simp⟩
      have := hperm.map Elem.entry
      rw [List.map_append] at this
      apply this
    · apply Drops.refl _ (by simp)

theorem drops_commitWrite :
  Drops m.entries m.commitWrite.mpx.entries m.commitWrite.events
  := by
  have hbefore : m.entries = (m.reqs.map Split.written).map Elem.entry := by
    rw [Multiplexer.entries, List.map_map]
    apply List.map_congr_left
    intro e _
    have hsame := Split.sameElem_written e
    simp only [Elem.entry, Function.comp_apply, hsame.id, hsame.req]
  rw [hbefore]
  have hdrops := Drops.of_filter (m.reqs.map Split.written)
    (fun e => !(e.isWritten && e.req.expectedResponses == 0)) m.commitWrite.events (f := id)
    (fun _ => rfl) ?_
  · rw [List.map_id] at hdrops
    apply hdrops
  · intro id ec hmem
    obtain ⟨e, he, hev⟩ := List.mem_map.mp hmem
    obtain ⟨he, hkeep⟩ := List.mem_filter.mp he
    cases hev
    exact ⟨e, he, by simpa using hkeep, rfl⟩

theorem entries_prepareWrite :
  m.prepareWrite.mpx.entries = m.entries
  := by
  have hmark : Elem.entry ∘ Elem.markStaged = (Elem.entry : Elem ρ → _) := rfl
  simp only [Multiplexer.prepareWrite, Multiplexer.entries, List.map_append, List.map_map, hmark]
  rw [← List.map_append, List.takeWhile_append_dropWhile]

theorem drops_cancelWaiting :
  Drops m.entries m.cancelWaiting.mpx.entries m.cancelWaiting.events
  := by
  have hdrops := Drops.of_filter m.reqs (!·.isWaiting) m.cancelWaiting.events (f := id)
    (fun _ => rfl) ?_
  · rw [List.map_id] at hdrops
    apply hdrops
  · intro id ec hmem
    obtain ⟨e, he, hev⟩ := List.mem_map.mp hmem
    obtain ⟨he, hwait⟩ := List.mem_filter.mp he
    cases hev
    exact ⟨e, he, by simp [hwait], rfl⟩

/-- A request is notified when the connection is lost only if it is not kept. -/
theorem notified_of_lost {id : ℕ} {ec : Option ErrorCode}
    (h : .notified id ec ∈ m.cancelOnConnLost.events) :
  ∃ e ∈ m.reqs, keptOnConnLost e = false ∧ e.id = id
  := by
  rw [Multiplexer.cancelOnConnLost] at h
  split at h
  · cases h
  · obtain ⟨e, he, hev⟩ := List.mem_map.mp h
    obtain ⟨he, hkept⟩ := List.mem_filter.mp he
    cases hev
    exact ⟨e, he, by simpa using hkept, rfl⟩

/-- The requests that are not kept are taken out, whatever was notified before. -/
theorem drops_lost (es : List Event) (hcancel : m.cancelRunCalled = false)
    (hes : ∀ id ec, .notified id ec ∈ es → ∃ e ∈ m.reqs, keptOnConnLost e = false ∧ e.id = id) :
  Drops m.entries m.cancelOnConnLost.mpx.entries (es ++ m.cancelOnConnLost.events)
  := by
  have hreqs : m.cancelOnConnLost.mpx.entries
      = ((m.reqs.filter keptOnConnLost).map Elem.markWaiting).map Elem.entry := by
    rw [Multiplexer.cancelOnConnLost, if_neg (by simp [hcancel])]
    rfl
  rw [hreqs]
  apply Drops.of_filter m.reqs keptOnConnLost _ (f := Elem.markWaiting) (fun _ => rfl)
  intro id ec hmem
  obtain hmem | hmem := List.mem_append.mp hmem
  · apply hes id ec hmem
  · apply notified_of_lost hmem

theorem drops_cancelOnConnLost :
  Drops m.entries m.cancelOnConnLost.mpx.entries m.cancelOnConnLost.events
  := by
  cases hcancel : m.cancelRunCalled with
  | true =>
      rw [Multiplexer.cancelOnConnLost, if_pos hcancel]
      apply Drops.refl _ (by simp)
  | false => apply drops_lost [] hcancel (by simp)

/-! ### Reading -/

/-- The request at the front of the queue, if the next message is a response to it and `parse`
ends with an error. -/
def failing (m : Multiplexer ρ) : Option (Elem ρ) :=
  if m.onPush || m.isNextPush then none
  else
    match m.reqs with
    | [] => none
    | e :: _ =>
        match (parse m.parser m.readBuffer e.getAdapter e.response).status with
        | .failed _ | .rejected _ => some e
        | _ => none

theorem notified_not_fed (id i : ℕ) (nds : List Node) {id' : ℕ} {ec : Option ErrorCode} :
  .notified id' ec ∉ nds.map (Event.fed id i)
  := by
  simp

/-- A push leaves the queue alone and notifies nobody. -/
theorem commitPush_reqs :
  m.commitPush.mpx.reqs = m.reqs ∧ ∀ id ec, .notified id ec ∉ m.commitPush.events
  := by
  rw [commitPush]
  dsimp only
  split <;> simp [onFinishParsing]

/-- The next message is a response: the request at the front was sent and has responses to
read. -/
theorem isNextPush_eq_false :
  m.isNextPush = false ↔ toType (m.readBuffer.headD 0) ≠ .push ∧
    ∃ e rest, m.reqs = e :: rest ∧ e.remainingResponses ≠ 0 ∧ e.isWaiting = false
  := by
  rw [isNextPush]
  cases m.reqs <;> simp

/-- A response is read by the request at the front, which was sent and expects one. -/
theorem commitRead_response (h : (m.onPush || m.isNextPush) = false) :
  ∃ e rest, m.reqs = e :: rest ∧ e.isWaiting = false ∧ e.remainingResponses ≠ 0 ∧
    m.commitRead = m.commitResponse e rest
  := by
  obtain ⟨-, hnext⟩ := Bool.or_eq_false_iff.mp h
  obtain ⟨-, e, rest, hreqs, hpending, hwait⟩ := isNextPush_eq_false.mp hnext
  refine ⟨e, rest, hreqs, hwait, hpending, ?_⟩
  rw [commitRead, h, hreqs]
  rfl

/-- What is read is a push, or a response for the request at the front. -/
theorem commitRead_cases (m : Multiplexer ρ) :
  m.commitRead = m.commitPush ∨
    ∃ e rest, m.reqs = e :: rest ∧ e.isWaiting = false ∧ e.remainingResponses ≠ 0 ∧
      m.commitRead = m.commitResponse e rest
  := by
  cases hpush : m.onPush || m.isNextPush with
  | true =>
      left
      rw [commitRead, if_pos hpush]
  | false =>
      right
      apply commitRead_response hpush

/-- After an error on a response, the request at the front is notified, and stays. -/
theorem commitRead_failing {e : Elem ρ} (h : m.failing = some e) :
  ∃ e' rest, m.reqs = e :: rest ∧ e.isWaiting = false ∧ m.commitRead.mpx.reqs = e' :: rest ∧
    e'.entry = e.entry ∧ e'.status = e.status ∧
    m.commitRead.mpx.cancelRunCalled = m.cancelRunCalled ∧
    (∀ id ec, .notified id ec ∈ m.commitRead.events → id = e.id) ∧
    ∃ ec, m.commitRead.value = .error false ec
  := by
  rw [failing] at h
  split at h
  · cases h
  rename_i hpush
  obtain ⟨e₁, rest, hreqs, hwait, -, hread⟩ := commitRead_response (Bool.not_eq_true _ ▸ hpush)
  rw [hreqs] at h
  rw [hread, commitResponse]
  simp only at h
  split at h
  · rename_i ec hs
    obtain rfl := Option.some.inj h
    simp only [hs]
    refine ⟨_, rest, hreqs, hwait, rfl, rfl, rfl, trivial, ?_, _, rfl⟩
    simp [Elem.notifyError, Elem.notifyDone]
  · rename_i ec hs
    obtain rfl := Option.some.inj h
    simp only [hs]
    refine ⟨_, rest, hreqs, hwait, rfl, rfl, rfl, trivial, ?_, _, rfl⟩
    simp [Elem.notifyError, Elem.notifyDone]
  · cases h

/-- A response without an error: the request at the front is notified if it leaves the queue. -/
theorem drops_commitResponse {e : Elem ρ} {rest : List (Elem ρ)}
    (hfail : ∀ ec, (parse m.parser m.readBuffer e.getAdapter e.response).status ≠ .failed ec)
    (hreject : ∀ ec, (parse m.parser m.readBuffer e.getAdapter e.response).status ≠ .rejected ec) :
  Drops ((e :: rest).map Elem.entry) (m.commitResponse e rest).mpx.entries
    (m.commitResponse e rest).events
  := by
  rw [commitResponse]
  generalize parse m.parser m.readBuffer e.getAdapter e.response = r at hfail hreject ⊢
  dsimp only
  split
  · apply Drops.refl _ (by simp)
  · rename_i ec hs
    exact absurd hs (hfail ec)
  · rename_i ec hs
    exact absurd hs (hreject ec)
  · split
    · refine ⟨[e.entry], (List.perm_append_singleton e.entry _).symm, ?_⟩
      intro id ec hmem
      obtain hmem | hmem := List.mem_append.mp hmem
      · exact absurd hmem (notified_not_fed _ _ _)
      · simp only [Elem.notifyDone, List.mem_cons, List.not_mem_nil, or_false,
          Event.notified.injEq, reduceCtorEq] at hmem
        rw [hmem.1]
        apply List.mem_singleton_self
    · apply Drops.refl _ (by simp)
  · apply Drops.refl _ (by simp)
  · apply Drops.refl _ (by simp)

/-- Unless a response fails, what `commit_read` notifies leaves the queue. -/
theorem drops_commitRead (h : m.failing = none) :
  Drops m.entries m.commitRead.mpx.entries m.commitRead.events
  := by
  cases hpush : m.onPush || m.isNextPush with
  | true =>
      obtain ⟨hreqs, hnone⟩ := m.commitPush_reqs
      rw [commitRead, if_pos hpush, entries, entries, hreqs]
      apply Drops.refl _ hnone
  | false =>
      obtain ⟨e, rest, hreqs, -, -, hread⟩ := commitRead_response hpush
      rw [hread, entries, hreqs]
      simp only [failing, hpush, hreqs, Bool.false_eq_true, ↓reduceIte] at h
      apply drops_commitResponse
      · intro ec hs
        rw [hs] at h
        cases h
      · intro ec hs
        rw [hs] at h
        cases h

theorem entries_commitRead :
  m.commitRead.mpx.entries ⊆ m.entries
  := by
  cases h : m.failing with
  | none => apply (drops_commitRead h).subset
  | some e =>
      obtain ⟨e', rest, hreqs, -, hreqs', hentry, -⟩ := commitRead_failing h
      rw [entries, entries, hreqs, hreqs', List.map_cons, List.map_cons, hentry]
      exact List.Subset.refl _

end Multiplexer

end Redis
