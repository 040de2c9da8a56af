import BoostRedis.Multiplexer.Connection
import BoostRedis.Multiplexer.Entries

/-!
# Requests that were notified

Once its callback was called, the owner of a request may destroy it together with its response.
A request that is notified leaves the queue in the same step, so it is neither sent nor fed
afterwards, with one exception: when `commit_read` fails on a response, the request is notified,
and if it stays when the connection is lost, it is sent again on the next one.
-/

namespace Redis

open Resp3

variable {ρ : Type}

/-! ### Logs -/

/-- The request that is sent or fed. -/
def Event.uses : Event → Option ℕ
  | .staged id _ | .fed id _ _ => some id
  | _ => none

/-- A request that was notified is not used afterwards. -/
def Silent (log : List Event) : Prop :=
  log.Pairwise fun e e' => ∀ id ec, e = .notified id ec → e'.uses ≠ some id

/-- An operation uses some requests of the queue, and notifies some afterwards. -/
def Tidy (ids : List ℕ) (es : List Event) : Prop :=
  ∃ feeds notes, es = feeds ++ notes ∧
    (∀ b ∈ feeds, (∀ id ec, b ≠ .notified id ec) ∧ ∀ id, b.uses = some id → id ∈ ids) ∧
    ∀ b ∈ notes, b.uses = none

section Logs

variable {ids : List ℕ} {es es' : List Event}

theorem Tidy.silent (h : Tidy ids es) :
  Silent es
  := by
  obtain ⟨feeds, notes, rfl, hfeeds, hnotes⟩ := h
  have hunused : ∀ {b id}, b ∈ notes → b.uses ≠ some id := by
    intro b id hb huse
    rw [hnotes b hb] at huse
    cases huse
  refine List.pairwise_append.mpr ⟨?_, ?_, ?_⟩
  · apply List.Pairwise.imp_of_mem (R := fun _ _ => True)
    · intro b _ hb _ _ id ec hnot
      exact absurd hnot ((hfeeds b hb).1 id ec)
    · exact List.pairwise_of_forall fun _ _ => trivial
  · apply List.Pairwise.imp_of_mem (R := fun _ _ => True)
    · intro _ b _ hb _ id ec _
      apply hunused hb
    · exact List.pairwise_of_forall fun _ _ => trivial
  · intro _ _ b hb id ec _
    apply hunused hb

theorem Tidy.mem (h : Tidy ids es) {b : Event} (hb : b ∈ es) {id : ℕ} (huse : b.uses = some id) :
  id ∈ ids
  := by
  obtain ⟨feeds, notes, rfl, hfeeds, hnotes⟩ := h
  obtain hb | hb := List.mem_append.mp hb
  · apply (hfeeds b hb).2 id huse
  · rw [hnotes b hb] at huse
    cases huse

/-- More notifications may follow. -/
theorem Tidy.append (h : Tidy ids es) (hes' : ∀ e ∈ es', ∃ id ec, e = .notified id ec) :
  Tidy ids (es ++ es')
  := by
  obtain ⟨feeds, notes, rfl, hfeeds, hnotes⟩ := h
  refine ⟨feeds, notes ++ es', by rw [List.append_assoc], hfeeds, ?_⟩
  intro b hb
  obtain hb | hb := List.mem_append.mp hb
  · apply hnotes b hb
  · obtain ⟨id, ec, rfl⟩ := hes' b hb
    rfl

theorem tidy_nil (ids : List ℕ) :
  Tidy ids []
  := ⟨[], [], rfl, by simp, by simp⟩

theorem tidy_of_notified (hes : ∀ e ∈ es, ∃ id ec, e = .notified id ec) :
  Tidy ids es
  := by
  have h := (tidy_nil ids).append hes
  rw [List.nil_append] at h
  apply h

end Logs

section Calls

variable {m : Multiplexer ρ}

theorem tidy_prepareWrite :
  Tidy (m.entries.map Prod.fst) m.prepareWrite.events
  := by
  refine ⟨m.prepareWrite.events, [], by rw [List.append_nil], ?_, by simp⟩
  intro b hb
  obtain ⟨e, he, rfl⟩ := List.mem_map.mp hb
  refine ⟨by simp, ?_⟩
  rintro _ ⟨⟩
  rw [Multiplexer.entries, List.map_map]
  apply List.mem_map.mpr ⟨e, List.dropWhile_subset _ he, rfl⟩

theorem uses_of_reports {es : List Event} (h : ∀ b ∈ es, b.isReport = true) :
  ∀ b ∈ es, b.uses = none
  := by
  intro b hb
  have hreport := h b hb
  cases b with
  | staged _ _ | fed _ _ _ | pushed _ => cases hreport
  | rejected _ | finished _ | notified _ _ => rfl

theorem tidy_commitPush (ids : List ℕ) :
  Tidy ids m.commitPush.events
  := by
  obtain ⟨es, hevents, hreports⟩ := m.commitPush_events
  refine ⟨_, es, hevents, ?_, uses_of_reports hreports⟩
  intro b hb
  obtain ⟨nd, -, rfl⟩ := List.mem_map.mp hb
  exact ⟨by simp, by simp [Event.uses]⟩

theorem tidy_commitResponse {ids : List ℕ} {e : Elem ρ} {rest : List (Elem ρ)} (he : e.id ∈ ids) :
  Tidy ids (m.commitResponse e rest).events
  := by
  obtain ⟨es, hevents, hreports⟩ := m.commitResponse_events e rest
  refine ⟨_, es, hevents, ?_, uses_of_reports hreports⟩
  intro b hb
  obtain ⟨nd, -, rfl⟩ := List.mem_map.mp hb
  refine ⟨by simp, ?_⟩
  rintro _ ⟨⟩
  apply he

theorem tidy_commitRead :
  Tidy (m.entries.map Prod.fst) m.commitRead.events
  := by
  obtain hread | ⟨e, rest, hreqs, -, -, hread⟩ := m.commitRead_cases
  · rw [hread]
    apply tidy_commitPush
  · rw [hread]
    apply tidy_commitResponse
    rw [Multiplexer.entries, hreqs]
    apply List.mem_cons_self

end Calls

/-! ### Steps -/

/-- The requests that were notified are not in the queue, and were not used afterwards. -/
structure Quiet (w : World ρ) : Prop where
  nodup : (w.mpx.entries.map Prod.fst).Nodup
  lt_nextId : ∀ id ∈ w.mpx.entries.map Prod.fst, id < w.nextId
  notified : ∀ id ec, .notified id ec ∈ w.past ++ w.log →
    id < w.nextId ∧ id ∉ w.mpx.entries.map Prod.fst
  silent : Silent (w.past ++ w.log)

/-- The condition under which a request leaves the queue when it is notified: if `commit_read`
fails on a response, the request is cancelled as the connection is lost. -/
def World.Dequeues (w : World ρ) : Action ρ → Prop
  | .commitRead => ∀ e ∈ w.mpx.failing,
      e.req.config.cancelIfUnresponded = true ∧ w.mpx.cancelRunCalled = false
  | _ => True

instance (w : World ρ) : DecidablePred w.Dequeues
  | .commitRead => inferInstanceAs (Decidable (∀ e ∈ w.mpx.failing, _))
  | .add _ _ _ | .remove _ | .cancelWaiting | .prepareWrite | .commitWrite | .receive _ | .connLost
  | .reset => inferInstanceAs (Decidable True)

section Steps

variable {w w' : World ρ} {a : Action ρ} {es : List Event}

/-- An operation that takes out what it notifies. -/
theorem Quiet.drops (h : Quiet w) (hnext : w'.nextId = w.nextId)
    (hlog : w'.past ++ w'.log = w.past ++ w.log ++ es)
    (hdrops : Drops w.mpx.entries w'.mpx.entries es) (htidy : Tidy (w.mpx.entries.map Prod.fst) es) :
  Quiet w'
  := by
  obtain ⟨dropped, hperm, hnotified⟩ := hdrops
  have hids := hperm.map Prod.fst
  rw [List.map_append] at hids
  obtain ⟨hnodup, -, hdisjoint⟩ := List.nodup_append.mp (hids.nodup_iff.mp h.nodup)
  have hsub : ∀ id ∈ w'.mpx.entries.map Prod.fst, id ∈ w.mpx.entries.map Prod.fst := by
    intro id hid
    apply hids.mem_iff.mpr (List.mem_append_left _ hid)
  refine ⟨hnodup, ?_, ?_, ?_⟩
  · rw [hnext]
    intro id hid
    apply h.lt_nextId id (hsub id hid)
  · rw [hnext, hlog]
    intro id ec hmem
    obtain hmem | hmem := List.mem_append.mp hmem
    · obtain ⟨hlt, hnot⟩ := h.notified id ec hmem
      exact ⟨hlt, fun hid => hnot (hsub id hid)⟩
    · have hid := hnotified id ec hmem
      refine ⟨h.lt_nextId id (hids.mem_iff.mpr (List.mem_append_right _ hid)), ?_⟩
      intro hid'
      exact hdisjoint id hid' id hid rfl
  · rw [hlog]
    refine List.pairwise_append.mpr ⟨h.silent, htidy.silent, ?_⟩
    rintro _ hmem b hb id ec rfl huse
    exact (h.notified id ec hmem).2 (htidy.mem hb huse)

theorem Quiet.add (h : Quiet w) (req : Request) (adapter : ℕ → Adapter ρ) (response : ρ) :
  Quiet (w.apply (.add req adapter response))
  := by
  have hids : ((w.apply (.add req adapter response)).mpx.entries.map Prod.fst).Perm
      (w.nextId :: w.mpx.entries.map Prod.fst) :=
    (Multiplexer.entries_add (.make w.nextId req adapter response)).map Prod.fst
  refine ⟨?_, ?_, ?_, h.silent⟩
  · rw [hids.nodup_iff, List.nodup_cons]
    exact ⟨fun hid => Nat.lt_irrefl _ (h.lt_nextId _ hid), h.nodup⟩
  · intro id hid
    show id < w.nextId + 1
    obtain rfl | hid := List.mem_cons.mp (hids.mem_iff.mp hid)
    · omega
    · have := h.lt_nextId id hid
      omega
  · intro id ec hmem
    obtain ⟨hlt, hnot⟩ := h.notified id ec hmem
    refine ⟨Nat.lt_succ_of_lt hlt, ?_⟩
    intro hid
    obtain rfl | hid := List.mem_cons.mp (hids.mem_iff.mp hid)
    · exact Nat.lt_irrefl _ hlt
    · exact hnot hid

/-- `commit_read`, with the loss of the connection if it fails. -/
theorem Quiet.commitRead (h : Quiet w) (hdeq : w.Dequeues .commitRead) :
  Quiet (w.apply .commitRead)
  := by
  have hlost := notified_cancelOnConnLost w.mpx.commitRead.mpx
  cases hfail : w.mpx.failing with
  | none =>
      have hdrops := Multiplexer.drops_commitRead hfail
      have hafter : Quiet (w.after w.mpx.commitRead) :=
        h.drops rfl (List.append_assoc _ _ _).symm hdrops tidy_commitRead
      rw [World.apply]
      split
      · exact hafter.drops rfl (List.append_assoc _ _ _).symm Multiplexer.drops_cancelOnConnLost
          (tidy_of_notified hlost)
      · apply hafter
  | some e =>
      obtain ⟨hcancel, hcalled⟩ := hdeq e hfail
      obtain ⟨e', rest, hreqs, hwait, hreqs', hentry, hstatus, hcalled', hnotified, ec, hvalue⟩ :=
        Multiplexer.commitRead_failing hfail
      have hentries : w.mpx.commitRead.mpx.entries = w.mpx.entries := by
        rw [Multiplexer.entries, Multiplexer.entries, hreqs, hreqs', List.map_cons, List.map_cons,
          hentry]
      have hkept : Multiplexer.keptOnConnLost e' = false := by
        have hreq : e'.req = e.req := congrArg Prod.snd hentry
        have hwait' : e'.isWaiting = false := by
          rw [Elem.isWaiting, hstatus]
          apply hwait
        simp [Multiplexer.keptOnConnLost, hwait', hreq, hcancel]
      have hdrops := Multiplexer.drops_lost w.mpx.commitRead.events (hcalled'.trans hcalled) (by
        intro id ec hmem
        refine ⟨e', ?_, hkept, ?_⟩
        · rw [hreqs']
          apply List.mem_cons_self
        · rw [hnotified id ec hmem]
          apply congrArg Prod.fst hentry)
      rw [hentries] at hdrops
      rw [(World.Loses.commitRead hvalue).apply]
      refine h.drops rfl ?_ hdrops (tidy_commitRead.append hlost)
      show w.past ++ (w.log ++ w.mpx.commitRead.events ++ _) = _
      simp only [List.append_assoc]
      rfl

/-- Every operation under this condition. -/
theorem Quiet.step (h : Quiet w) (hdeq : w.Dequeues a) :
  Quiet (w.apply a)
  := by
  have hnothing : w.past ++ w.log = w.past ++ w.log ++ [] := (List.append_nil _).symm
  cases a with
  | add req adapter response => apply h.add
  | remove id => exact h.drops rfl hnothing (Multiplexer.drops_remove id) (tidy_nil _)
  | cancelWaiting =>
      exact h.drops rfl (List.append_assoc _ _ _).symm Multiplexer.drops_cancelWaiting
        (tidy_of_notified (notified_cancelWaiting _))
  | prepareWrite =>
      refine h.drops rfl (List.append_assoc _ _ _).symm ?_ tidy_prepareWrite
      show Drops w.mpx.entries w.mpx.prepareWrite.mpx.entries w.mpx.prepareWrite.events
      rw [Multiplexer.entries_prepareWrite]
      apply Drops.refl
      intro id ec hmem
      obtain ⟨e, -, he⟩ := List.mem_map.mp hmem
      cases he
  | commitWrite =>
      exact h.drops rfl (List.append_assoc _ _ _).symm Multiplexer.drops_commitWrite
        (tidy_of_notified (notified_commitWrite _))
  | receive chunk => exact h.drops rfl hnothing (Drops.refl _ (by simp)) (tidy_nil _)
  | commitRead => apply h.commitRead hdeq
  | connLost =>
      exact h.drops rfl (List.append_assoc _ _ _).symm Multiplexer.drops_cancelOnConnLost
        (tidy_of_notified (notified_cancelOnConnLost _))
  | reset =>
      have hlog : (w.apply .reset).past ++ (w.apply .reset).log = w.past ++ w.log ++ [] := rfl
      exact h.drops rfl hlog (Drops.refl _ (by simp)) (tidy_nil _)

/-- A request that was notified is neither sent nor fed again, in every run in which no request
stays in the queue after `commit_read` has failed on its response. -/
theorem silent_of_run {receiveAdapter : Adapter ρ} {receiveResponse : ρ} {as : List (Action ρ)}
    (hrun : Run (fun w a w' => World.FreeStep w a w' ∧ w.Dequeues a)
      (.fresh receiveAdapter receiveResponse) as w) :
  Silent (w.past ++ w.log)
  := by
  have hstart : Quiet (World.fresh receiveAdapter receiveResponse) :=
    ⟨List.nodup_nil, by simp [World.fresh, Multiplexer.entries], by simp [World.fresh],
      List.Pairwise.nil⟩
  apply (hrun.invariant _ hstart).silent
  rintro w a _ h ⟨⟨-, rfl⟩, hdeq⟩
  apply h.step hdeq

/-- A request whose adapter takes no node is answered.  Another connection is established
afterwards. -/
def refusing (cancelIfUnresponded : Bool) : List (Action Unit) :=
  [.reset,
    .add
      (Request.push { config := { cancelIfUnresponded := cancelIfUnresponded } } (ascii "PING") [])
      (fun _ _ _ => ((), some (.redis .incompatibleSize))) (),
    .prepareWrite, .commitWrite, .receive (ascii "+PONG\r\n"), .commitRead, .reset, .prepareWrite]

theorem silent_of_run_refusing :
  Silent (((refusing true).foldl World.apply (.fresh accepting ())).past ++
    ((refusing true).foldl World.apply (.fresh accepting ())).log)
  := by
  have hfollows : Run.Follows World.apply (fun w a => w.Possible a ∧ w.Dequeues a)
      (.fresh accepting ()) (refusing true) := by
    decide
  exact silent_of_run ((Run.of_follows hfollows).mono fun h => ⟨⟨h.1.1, h.2⟩, h.1.2⟩)

/-- A request that stays when the connection is lost is sent again after it was notified. -/
theorem silent_of_run_fails :
  ¬ ∀ (receiveAdapter : Adapter Unit) (as : List (Action Unit)) (w : World Unit),
    Run World.FreeStep (.fresh receiveAdapter ()) as w → Silent (w.past ++ w.log)
  := by
  intro h
  have hfollows : Run.Follows World.apply World.Possible (.fresh accepting ())
      (refusing false) := by
    decide
  have hsilent := h accepting _ _ (Run.of_follows hfollows)
  have hlog : ((refusing false).foldl World.apply (.fresh accepting ())).past ++
      ((refusing false).foldl World.apply (.fresh accepting ())).log
      = [.staged 0 1, .fed 0 0 ⟨.simpleString, 1, 0, ascii "PONG"⟩,
        .rejected (.redis .incompatibleSize), .notified 0 (some (.redis .incompatibleSize)),
        .staged 0 1] := by
    decide
  rw [hlog] at hsilent
  simp [Silent, Event.uses] at hsilent

end Steps

end Redis
