import BoostRedis.Multiplexer.Delivery
import BoostRedis.Multiplexer.Loss
import BoostRedis.Multiplexer.Writing

/-!
# Requests that are sent again

A request that was sent when the connection is lost is cancelled, or it stays and is sent again on
the next connection.  It is never sent twice, over all connections, exactly if it is to be cancelled
when it is not responded to.
-/

namespace Redis

open Resp3

variable {ρ : Type} {w : World ρ} {a : Action ρ} {id : ℕ}

/-- The requests staged, over all connections. -/
def World.sendings (w : World ρ) : List ℕ := stagings (w.past ++ w.log)

theorem World.sendings_operate (w : World ρ) (a : Action ρ) :
  (w.operate a).sendings = w.sendings ++ stagings (w.calls a)
  := by
  rw [sendings, sendings, ← stagings_append]
  cases hreset : a.isReset with
  | false =>
      have hpast : (w.operate a).past = w.past := by
        cases a with
        | reset => cases hreset
        | _ => rfl
      rw [hpast, operate_log hreset, List.append_assoc]
  | true =>
      cases a with
      | reset => rfl
      | _ => cases hreset

theorem World.sendings_operate_of_ne (w : World ρ) (h : a.isPrepareWrite = false) :
  (w.operate a).sendings = w.sendings
  := by
  rw [sendings_operate, stagings_calls h, List.append_nil]

/-- The entries of the queue were there before, or were added. -/
theorem World.entries_operate {x : ℕ × Request} (hx : x ∈ (w.operate a).mpx.entries) :
  x ∈ w.mpx.entries ∨ x.1 = w.nextId
  := by
  have hother : w.operate a = w.apply a → x ∈ w.mpx.entries ∨ x.1 = w.nextId := by
    intro heq
    rw [heq] at hx
    obtain hx | ⟨req, adapter, response, -, rfl⟩ := World.entries_apply hx
    · exact .inl hx
    · exact .inr rfl
  cases a with
  | commitRead => exact .inl (Multiplexer.entries_commitRead hx)
  | add _ _ _ | remove _ | cancelWaiting | prepareWrite | commitWrite | receive _ | connLost
  | reset => exact hother rfl

/-! ### Requests that are sent once -/

/-- A request that is to be cancelled if it is not responded to was not sent while it waits, and was
sent at most once. -/
structure SentOnce (id : ℕ) (w : World ρ) : Prop where
  governed : Governed w
  issued : id < w.nextId
  config : ∀ req, (id, req) ∈ w.mpx.entries → req.config.cancelIfUnresponded = true
  waiting : ∀ e ∈ w.mpx.reqs, e.id = id → e.isWaiting = true → id ∉ w.sendings
  once : w.sendings.count id ≤ 1

namespace SentOnce

/-- A request that waits after an operation has waited before it: it is not one of those that were
sent and stay when the connection is lost. -/
theorem waited (h : SentOnce id w) {e : Elem ρ} (he : e ∈ (w.operate a).mpx.reqs) (hid : e.id = id)
    (hwait : e.isWaiting = true) :
  ∃ e' ∈ w.mpx.reqs, e'.id = id ∧ e'.isWaiting = true
  := by
  cases hlost : a.isConnLost with
  | false =>
      obtain he | hnew := h.governed.orderly.waiting_of_operate hlost he hwait
      · exact ⟨e, he, hid, hwait⟩
      · exact absurd h.issued (by rw [← hid, hnew]; exact Nat.lt_irrefl _)
  | true =>
      cases a with
      | connLost =>
          cases hup : w.up with
          | true =>
              rw [(h.governed.connLost_eq hup).2.1] at he
              obtain ⟨e', he', rfl⟩ := List.mem_map.mp he
              obtain ⟨he', hkept⟩ := List.mem_filter.mp he'
              have hid : e'.id = id := hid
              have hentry : e'.entry ∈ w.mpx.entries := List.mem_map_of_mem he'
              have hconfig := h.config e'.req (by rw [← hid]; exact hentry)
              refine ⟨e', he', hid, ?_⟩
              rw [Multiplexer.keptOnConnLost, hconfig] at hkept
              by_contra hsent
              rw [if_neg hsent] at hkept
              cases hkept
          | false =>
              obtain ⟨e', he', hstays⟩ := (World.thins (a := .connLost) rfl).mem he
              exact ⟨e', he', hstays.id.symm.trans hid, h.governed.down hup e' he'⟩
      | _ => cases hlost

/-- The requests that wait are staged. -/
theorem prepareWrite (h : SentOnce id w) (hup : w.up = true) :
  SentOnce id (w.operate .prepareWrite)
  := by
  obtain ⟨sent, queued, hsplit⟩ := h.governed.orderly.split
  obtain ⟨hsplit', hevents⟩ := hsplit.prepareWrite
  have hsendings : (w.operate .prepareWrite).sendings = w.sendings ++ queued.map Elem.id := by
    rw [World.sendings_operate, World.calls, hevents, stagings_staged]
  refine ⟨h.governed.operate fun _ => hup, h.issued, ?_, ?_, ?_⟩
  · intro req hreq
    obtain hreq | hnew := World.entries_operate hreq
    · exact h.config req hreq
    · exact absurd h.issued (by rw [show id = w.nextId from hnew]; exact Nat.lt_irrefl _)
  · intro e he _ hwait
    have he : e ∈ w.mpx.prepareWrite.mpx.reqs := he
    rw [hsplit'.eq, List.append_nil] at he
    have hsent := hsplit'.sent_waiting e he
    rw [hwait] at hsent
    cases hsent
  · have hnodup : (queued.map Elem.id).Nodup := by
      have hids := h.governed.orderly.nodup
      rw [Multiplexer.ids, hsplit.eq, List.map_append] at hids
      exact (List.nodup_append.mp hids).2.1
    rw [hsendings, List.count_append]
    by_cases hid : id ∈ queued.map Elem.id
    · obtain ⟨e, he, heid⟩ := List.mem_map.mp hid
      have hreqs : e ∈ w.mpx.reqs := by
        rw [hsplit.eq]
        exact List.mem_append_right _ he
      have hzero := List.count_eq_zero.mpr (h.waiting e hreqs heid (hsplit.queued_waiting e he))
      have hone := List.nodup_iff_count_le_one.mp hnodup id
      omega
    · rw [List.count_eq_zero.mpr hid, Nat.add_zero]
      exact h.once

theorem step (h : SentOnce id w) (ha : w.Disciplined a) :
  SentOnce id (w.operate a)
  := by
  cases hprepare : a.isPrepareWrite with
  | true =>
      cases a with
      | prepareWrite => exact h.prepareWrite ha.2
      | _ => cases hprepare
  | false =>
      have hsendings := w.sendings_operate_of_ne hprepare
      refine ⟨h.governed.operate ha.up, World.lt_nextId_operate h.issued, ?_, ?_, ?_⟩
      · intro req hreq
        obtain hreq | hnew := World.entries_operate hreq
        · exact h.config req hreq
        · exact absurd h.issued (by rw [show id = w.nextId from hnew]; exact Nat.lt_irrefl _)
      · intro e he hid hwait
        obtain ⟨e', he', hid', hwait'⟩ := h.waited he hid hwait
        rw [hsendings]
        exact h.waiting e' he' hid' hwait'
      · rw [hsendings]
        exact h.once

/-- A request is added. -/
theorem add (h : Governed w) (hissued : ∀ id ∈ w.sendings, id < w.nextId) {req : Request}
    {adapter : ℕ → Adapter ρ} {response : ρ} (hconfig : req.config.cancelIfUnresponded = true) :
  SentOnce w.nextId (w.operate (.add req adapter response))
  := by
  have hnot : w.nextId ∉ w.sendings := fun hmem => Nat.lt_irrefl _ (hissued _ hmem)
  have hsendings : (w.operate (.add req adapter response)).sendings = w.sendings :=
    w.sendings_operate_of_ne rfl
  refine ⟨h.operate nofun, Nat.lt_succ_self _, ?_, ?_, ?_⟩
  · intro req' hreq'
    obtain hnew | hold := List.mem_cons.mp ((Multiplexer.entries_add _).mem_iff.mp hreq')
    · obtain rfl : req' = req := congrArg Prod.snd hnew
      exact hconfig
    · have hlt := h.orderly.lt_nextId w.nextId (by
        obtain ⟨e, he, heq⟩ := List.mem_map.mp hold
        exact List.mem_map.mpr ⟨e, he, congrArg Prod.fst heq⟩)
      exact absurd hlt (Nat.lt_irrefl _)
  · rw [hsendings]
    exact fun _ _ _ _ => hnot
  · rw [hsendings, List.count_eq_zero.mpr hnot]
    exact Nat.zero_le 1

end SentOnce

/-- Only requests that were added are sent. -/
theorem Governed.sendings_lt (h : Governed w) (hissued : ∀ id ∈ w.sendings, id < w.nextId) :
  ∀ id ∈ (w.operate a).sendings, id < (w.operate a).nextId
  := by
  intro id hid
  apply World.lt_nextId_operate
  rw [World.sendings_operate] at hid
  obtain hid | hid := List.mem_append.mp hid
  · exact hissued id hid
  · cases hprepare : a.isPrepareWrite with
    | false =>
        rw [stagings_calls hprepare] at hid
        cases hid
    | true =>
        cases a with
        | prepareWrite =>
            obtain ⟨sent, queued, hsplit⟩ := h.orderly.split
            rw [World.calls, hsplit.prepareWrite.2, stagings_staged] at hid
            apply h.orderly.lt_nextId
            rw [Multiplexer.ids, hsplit.eq, List.map_append]
            exact List.mem_append_right _ hid
        | _ => cases hprepare

/-! ### Requests that are sent again -/

/-- A request waits that stays when it is not responded to. -/
structure Stubborn (id : ℕ) (w : World ρ) : Prop where
  governed : Governed w
  waits : ∃ e ∈ w.mpx.reqs, e.id = id ∧ e.isWaiting = true ∧
    e.req.config.cancelIfUnresponded = false

/-- It is sent, the connection is lost, and it waits on the next connection. -/
theorem Stubborn.resend (h : Stubborn id w) (hup : w.up = true) :
  ∃ w', Run World.DisciplinedStep w [.prepareWrite, .connLost, .reset] w' ∧ w'.up = true ∧
    Stubborn id w' ∧ w.sendings.count id < w'.sendings.count id
  := by
  obtain ⟨e, he, hid, hwait, hconfig⟩ := h.waits
  obtain ⟨sent, queued, hsplit⟩ := h.governed.orderly.split
  obtain ⟨hsplit', hevents⟩ := hsplit.prepareWrite
  have hqueued : e ∈ queued := by
    rw [hsplit.eq] at he
    obtain he | he := List.mem_append.mp he
    · rw [hsplit.sent_waiting e he] at hwait
      cases hwait
    · exact he
  have hsent : Governed (w.operate .prepareWrite) := h.governed.operate fun _ => hup
  have hstaged : e.markStaged ∈ (w.operate .prepareWrite).mpx.reqs := by
    show e.markStaged ∈ w.mpx.prepareWrite.mpx.reqs
    rw [hsplit'.eq, List.append_nil]
    exact List.mem_append_right _ (List.mem_map_of_mem hqueued)
  have hkept :
      e.markStaged.markWaiting ∈ ((w.operate .prepareWrite).operate .connLost).mpx.reqs := by
    rw [(hsent.connLost_eq hup).2.1]
    refine List.mem_map_of_mem (List.mem_filter.mpr ⟨hstaged, ?_⟩)
    have hstays : Multiplexer.keptOnConnLost e.markStaged = !e.req.config.cancelIfUnresponded := rfl
    rw [hstays, hconfig]
    rfl
  have hsendings : (((w.operate .prepareWrite).operate .connLost).operate .reset).sendings
      = w.sendings ++ queued.map Elem.id := by
    rw [World.sendings_operate_of_ne _ rfl, World.sendings_operate_of_ne _ rfl,
      World.sendings_operate, World.calls, hevents, stagings_staged]
  have hlost : Governed ((w.operate .prepareWrite).operate .connLost) := by
    apply hsent.operate
    rintro ⟨⟩
  have hreset : Governed (((w.operate .prepareWrite).operate .connLost).operate .reset) := by
    apply hlost.operate
    rintro ⟨⟩
  refine ⟨((w.operate .prepareWrite).operate .connLost).operate .reset,
    .cons ⟨⟨trivial, hup⟩, rfl⟩ (.cons ⟨⟨trivial, trivial⟩, rfl⟩ (.single ⟨⟨trivial, rfl⟩, rfl⟩)),
    rfl, ⟨hreset, _, hkept, hid, rfl, hconfig⟩, ?_⟩
  have hpos : 0 < (queued.map Elem.id).count id := by
    apply List.count_pos_iff.mpr
    rw [← hid]
    exact List.mem_map_of_mem hqueued
  rw [hsendings, List.count_append]
  omega

theorem Stubborn.add (h : Governed w) {req : Request} {adapter : ℕ → Adapter ρ} {response : ρ}
    (hconfig : req.config.cancelIfUnresponded = false) :
  Stubborn w.nextId (w.operate (.add req adapter response))
  := by
  have hmem : Elem.make w.nextId req adapter response ∈
      (w.operate (.add req adapter response)).mpx.reqs :=
    (Multiplexer.add_perm _).mem_iff.mpr List.mem_cons_self
  exact ⟨h.operate nofun, _, hmem, rfl, rfl, hconfig⟩

/-- A connection is established if there is none. -/
theorem Stubborn.connect (h : Stubborn id w) :
  ∃ as w', Run World.DisciplinedStep w as w' ∧ w'.up = true ∧ Stubborn id w'
  := by
  cases hup : w.up with
  | true => exact ⟨[], w, .nil w, hup, h⟩
  | false =>
      exact ⟨[.reset], w.operate .reset, .single ⟨⟨trivial, hup⟩, rfl⟩, rfl,
        h.governed.operate nofun, h.waits⟩

/-- A request is never sent twice, over all connections, exactly if it is to be cancelled when it is
not responded to. -/
theorem sent_once_iff {receiveAdapter : Adapter ρ} {receiveResponse : ρ} {as : List (Action ρ)}
    (hrun : Run World.DisciplinedStep (.fresh receiveAdapter receiveResponse) as w) (req : Request)
    (adapter : ℕ → Adapter ρ) (response : ρ) :
  (∀ as' w', Run World.DisciplinedStep (w.operate (.add req adapter response)) as' w' →
      w'.sendings.count w.nextId ≤ 1) ↔
    req.config.cancelIfUnresponded = true
  := by
  have hgoverned : Governed w := Governed.run hrun
  constructor
  · intro honce
    by_contra hconfig
    have hstubborn : Stubborn w.nextId (w.operate (.add req adapter response)) :=
      Stubborn.add hgoverned (by simpa using hconfig)
    obtain ⟨as₀, w₀, hrun₀, hup₀, h₀⟩ := hstubborn.connect
    obtain ⟨w₁, hrun₁, hup₁, h₁, hlt₁⟩ := h₀.resend hup₀
    obtain ⟨w₂, hrun₂, -, -, hlt₂⟩ := h₁.resend hup₁
    have hle := honce _ w₂ ((hrun₀.trans hrun₁).trans hrun₂)
    omega
  · intro hconfig as' w' hrun'
    have hissued : Governed w ∧ ∀ id ∈ w.sendings, id < w.nextId := by
      apply hrun.invariant (I := fun w => Governed w ∧ ∀ id ∈ w.sendings, id < w.nextId)
      · rintro w a _ ⟨h, hissued⟩ ⟨ha, rfl⟩
        exact ⟨h.operate ha.up, h.sendings_lt hissued⟩
      · exact ⟨Governed.run (.nil _), nofun⟩
    have hend : SentOnce w.nextId w' := by
      apply hrun'.invariant _ (SentOnce.add hgoverned hissued.2 hconfig)
      rintro w a _ h ⟨ha, rfl⟩
      exact h.step ha
    exact hend.once

/-- Nothing was done, and one request is added that is cancelled if it is not responded to, and one
that is not. -/
theorem sent_once_iff_ping :
  (¬ ∃ as' w', Run World.DisciplinedStep
      ((World.fresh accepting ()).operate
        (.add (Request.push {} (ascii "PING") []) (fun _ => accepting) ())) as' w' ∧
      1 < w'.sendings.count 0) ∧
    ∃ as' w', Run World.DisciplinedStep
      ((World.fresh accepting ()).operate
        (.add (Request.push { config := { cancelIfUnresponded := false } } (ascii "PING") [])
          (fun _ => accepting) ())) as' w' ∧
      1 < w'.sendings.count 0
  := by
  have hrun : Run World.DisciplinedStep (World.fresh accepting ()) [] (.fresh accepting ()) :=
    .nil _
  constructor
  · rintro ⟨as', w', hrun', hlt⟩
    have hle := (sent_once_iff hrun (Request.push {} (ascii "PING") []) (fun _ => accepting) ()).mpr
      rfl as' w' hrun'
    exact absurd hlt (Nat.not_lt.mpr hle)
  · have hnot := mt (sent_once_iff hrun
      (Request.push { config := { cancelIfUnresponded := false } } (ascii "PING") [])
      (fun _ => accepting) ()).mp (by decide)
    simp only [not_forall, exists_prop, not_le] at hnot
    exact hnot

end Redis
