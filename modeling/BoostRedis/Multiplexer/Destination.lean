import BoostRedis.Multiplexer.Delivery
import BoostRedis.Multiplexer.Order

/-!
# The destination of a message

When the first byte of a message is seen, `commit_read` decides who gets it: the receive adapter,
or the request at the front of the queue.  The decision is not kept if it is a request, but made
again in each call.  It is the same until the message is complete, whatever is done to the
queue in between.
-/

namespace Redis

open Resp3

variable {ρ : Type}

/-- Who gets the nodes that `commit_read` reads next. -/
def Multiplexer.target (m : Multiplexer ρ) : Target :=
  if m.onPush || m.isNextPush then .receiver
  else
    match m.reqs with
    | e :: _ => .request e.id e.index
    | [] => .receiver

/-- An action that does not end the message that is being read: `commit_read` needs more data,
and the connection is not lost. -/
def World.Continues (w : World ρ) : Action ρ → Prop
  | .commitRead => w.mpx.commitRead.value = .needsMore
  | .connLost | .reset => False
  | _ => True

instance (w : World ρ) (a : Action ρ) : Decidable (w.Continues a) :=
  match a with
  | .commitRead => inferInstanceAs (Decidable (w.mpx.commitRead.value = .needsMore))
  | .connLost | .reset => inferInstanceAs (Decidable False)
  | .add _ _ _ | .remove _ | .receive _ | .cancelWaiting | .prepareWrite | .commitWrite =>
      inferInstanceAs (Decidable True)

def Action.isCommitRead : Action ρ → Bool
  | .commitRead => true
  | _ => false

/-- A step within a message. -/
def World.ReadingStep (w : World ρ) (a : Action ρ) (w' : World ρ) : Prop :=
  w.OpenStep a w' ∧ w.Continues a

/-- The destination is decided: the message is a push, or the response to the request at the
front. -/
structure Decided (m : Multiplexer ρ) : Prop where
  nonempty : m.readBuffer ≠ []
  destination : m.onPush = true ∨ m.isNextPush = false

/-! ### Deliveries -/

/-- The destination of a response is the request at the front. -/
theorem Multiplexer.target_response {m : Multiplexer ρ} {e : Elem ρ} {rest : List (Elem ρ)}
    (hpush : (m.onPush || m.isNextPush) = false) (hreqs : m.reqs = e :: rest) :
  m.target = .request e.id e.index
  := by
  rw [target, hpush, hreqs]
  rfl

/-- What `commit_read` makes of the result of `parse`: the nodes go to the destination, and the
call returns a message if there is one. -/
structure Commits (m : Multiplexer ρ) (r : Parsed ρ) : Prop where
  delivered : deliveries m.commitRead.events = r.nodes.map (m.target, ·)
  needsMore : m.commitRead.value = .needsMore → r.status = .needsMore ∧
    m.commitRead.mpx.parser = r.parser ∧ m.commitRead.mpx.readBuffer = m.readBuffer
  message : ∀ isPush size, m.commitRead.value = .message isPush size → r.status = .done

theorem commits_push {m : Multiplexer ρ} (hpush : (m.onPush || m.isNextPush) = true) :
  Commits m (parse m.parser m.readBuffer m.receiveAdapter m.receiveResponse)
  := by
  have hread : m.commitRead = m.commitPush := by rw [Multiplexer.commitRead, if_pos hpush]
  refine ⟨?_, ?_, ?_⟩
  · obtain ⟨es, hevents, hreports⟩ := m.commitPush_events
    rw [hread, Multiplexer.target, if_pos hpush, hevents, deliveries_append,
      deliveries_of_reports hreports]
    simp
  all_goals
    rw [hread, Multiplexer.commitPush]
    generalize parse m.parser m.readBuffer m.receiveAdapter m.receiveResponse = r
    obtain ⟨q, state, nodes, status⟩ := r
    cases status <;> simp

theorem commits_response {m : Multiplexer ρ} {e : Elem ρ} {rest : List (Elem ρ)}
    (hpush : (m.onPush || m.isNextPush) = false) (hreqs : m.reqs = e :: rest)
    (hread : m.commitRead = m.commitResponse e rest) :
  Commits m (parse m.parser m.readBuffer e.getAdapter e.response)
  := by
  refine ⟨?_, ?_, ?_⟩
  · obtain ⟨es, hevents, hreports⟩ := m.commitResponse_events e rest
    rw [Multiplexer.target_response hpush hreqs, hread, hevents, deliveries_append,
      deliveries_of_reports hreports]
    simp
  all_goals
    rw [hread, Multiplexer.commitResponse]
    generalize parse m.parser m.readBuffer e.getAdapter e.response = r
    obtain ⟨q, state, nodes, status⟩ := r
    cases status <;> dsimp only
    case done => split <;> simp
    all_goals simp

/-- A call of `commit_read` is a call of `parse` with the adapter of the destination. -/
theorem Multiplexer.commits (m : Multiplexer ρ) :
  ∃ adapter t, Commits m (parse m.parser m.readBuffer adapter t)
  := by
  cases hpush : m.onPush || m.isNextPush with
  | true => exact ⟨_, _, commits_push hpush⟩
  | false =>
      obtain ⟨e, rest, hreqs, -, -, hread⟩ := Multiplexer.commitRead_response hpush
      exact ⟨_, _, commits_response hpush hreqs hread⟩

/-- `commit_read` delivers to the destination only. -/
theorem target_commitRead (m : Multiplexer ρ) :
  ∀ d ∈ deliveries m.commitRead.events, d.1 = m.target
  := by
  obtain ⟨adapter, t, hcommits⟩ := m.commits
  rw [hcommits.delivered]
  intro d hd
  obtain ⟨nd, -, rfl⟩ := List.mem_map.mp hd
  rfl

/-- No other operation delivers anything. -/
theorem deliveries_calls {w : World ρ} {a : Action ρ} (h : a.isCommitRead = false) :
  deliveries (w.calls a) = []
  := by
  cases a with
  | add _ _ _ | remove _ | receive _ | reset => rfl
  | cancelWaiting => apply (notifications (notified_cancelWaiting _)).2.1
  | prepareWrite =>
      show deliveries (List.map _ _) = []
      generalize w.mpx.reqs.dropWhile (!·.isWaiting) = reqs
      induction reqs with
      | nil => rfl
      | cons e reqs ih => apply ih
  | commitWrite => apply (notifications (notified_commitWrite _)).2.1
  | commitRead => cases h
  | connLost => apply (notifications (notified_cancelOnConnLost _)).2.1

/-! ### Steps within a message -/

/-- The request at the front, when it was sent and has responses to read, stays there. -/
theorem Orderly.front_operate {w : World ρ} {a : Action ρ} {e : Elem ρ} {rest : List (Elem ρ)}
    (h : Orderly w) (hreqs : w.mpx.reqs = e :: rest) (hpending : e.remainingResponses ≠ 0)
    (hwait : e.isWaiting = false) (hread : a.isCommitRead = false) (ha : w.Continues a) :
  ∃ e' rest', (w.operate a).mpx.reqs = e' :: rest' ∧ SameElem e e' ∧ e'.isWaiting = false
  := by
  obtain ⟨sent, queued, hsplit⟩ := h.split
  obtain ⟨sent, rfl, -⟩ := hsplit.sent_cons hreqs hwait
  -- in most operations the requests that were sent are the same
  have hsame : ∀ {a queued'}, Split (w.operate a).mpx.reqs (e :: sent) queued' →
      ∃ e' rest', (w.operate a).mpx.reqs = e' :: rest' ∧ SameElem e e' ∧ e'.isWaiting = false := by
    intro a queued' hsplit'
    exact ⟨e, sent ++ queued', hsplit'.eq, .refl e, hwait⟩
  cases a with
  | add req adapter response =>
      obtain ⟨queued', hsplit', -⟩ := hsplit.add (e := .make w.nextId req adapter response) rfl
      exact hsame (a := .add req adapter response) hsplit'
  | remove id =>
      obtain ⟨queued', hsplit', -⟩ := hsplit.remove id
      exact hsame (a := .remove id) hsplit'
  | cancelWaiting => exact hsame (a := .cancelWaiting) hsplit.cancelWaiting
  | prepareWrite =>
      have hsplit' := hsplit.prepareWrite.1
      exact ⟨e, _, hsplit'.eq, .refl e, hwait⟩
  | commitWrite =>
      obtain ⟨keep, hkeep, hsplit'⟩ := hsplit.commitWrite
      have hwritten := Split.sameElem_written e
      have hkept : keep (Split.written e) = true := by
        by_contra hnot
        have hzero := hkeep _ (Bool.eq_false_of_not_eq_true hnot)
        have hbound := h.bounded e (by rw [hreqs]; apply List.mem_cons_self)
        rw [hwritten.req] at hzero
        omega
      rw [List.map_cons, List.filter_cons_of_pos hkept] at hsplit'
      exact ⟨_, _, hsplit'.eq, hwritten, (Split.isWaiting_written e).trans hwait⟩
  | receive chunk => exact hsame (a := .receive chunk) hsplit
  | commitRead => cases hread
  | connLost | reset => cases ha

/-- An operation on the queue leaves what is being read alone. -/
theorem World.sameReading_operate {w : World ρ} {a : Action ρ} (hread : a.isCommitRead = false)
    (ha : w.Continues a) :
  (w.operate a).mpx.onPush = w.mpx.onPush ∧ w.mpx.readBuffer <+: (w.operate a).mpx.readBuffer
  := by
  have hsame : ∀ {m : Multiplexer ρ}, SameReading w.mpx m →
      m.onPush = w.mpx.onPush ∧ w.mpx.readBuffer <+: m.readBuffer := by
    intro m h
    exact ⟨h.onPush, by rw [h.readBuffer]⟩
  cases a with
  | add req adapter response => apply hsame (sameReading_add _ _)
  | remove id => apply hsame (sameReading_remove _ _)
  | cancelWaiting => apply hsame (sameReading_cancelWaiting _)
  | prepareWrite => apply hsame (sameReading_prepareWrite _)
  | commitWrite => apply hsame (sameReading_commitWrite _)
  | receive chunk => exact ⟨rfl, List.prefix_append _ _⟩
  | commitRead => cases hread
  | connLost | reset => cases ha

/-- Once the destination is decided, no other operation changes it. -/
theorem Decided.operate {w : World ρ} {a : Action ρ} (h : Decided w.mpx) (horderly : Orderly w)
    (hread : a.isCommitRead = false) (ha : w.Continues a) :
  Decided (w.operate a).mpx ∧ (w.operate a).mpx.target = w.mpx.target
  := by
  obtain ⟨honPush, more, hmore⟩ := World.sameReading_operate hread ha
  have hnonempty : (w.operate a).mpx.readBuffer ≠ [] := by
    rw [← hmore]
    simp [h.nonempty]
  have hhead : (w.operate a).mpx.readBuffer.headD 0 = w.mpx.readBuffer.headD 0 := by
    rw [← hmore]
    cases hbuffer : w.mpx.readBuffer with
    | nil => exact absurd hbuffer h.nonempty
    | cons _ _ => rfl
  cases hpush : w.mpx.onPush with
  | true =>
      rw [hpush] at honPush
      refine ⟨⟨hnonempty, .inl honPush⟩, ?_⟩
      rw [Multiplexer.target, Multiplexer.target, hpush, honPush]
      rfl
  | false =>
      rw [hpush] at honPush
      have hnext : w.mpx.isNextPush = false := by simpa [hpush] using h.destination
      obtain ⟨htype, e, rest, hreqs, hpending, hwait⟩ :=
        Multiplexer.isNextPush_eq_false.mp hnext
      obtain ⟨e', rest', hreqs', hsame, hwait'⟩ :=
        horderly.front_operate hreqs hpending hwait hread ha
      have hnext' : (w.operate a).mpx.isNextPush = false := by
        refine Multiplexer.isNextPush_eq_false.mpr ⟨hhead ▸ htype, e', rest', hreqs', ?_, hwait'⟩
        rw [hsame.remainingResponses]
        apply hpending
      refine ⟨⟨hnonempty, .inr hnext'⟩, ?_⟩
      simp only [Multiplexer.target, hpush, honPush, hnext, hnext', hreqs, hreqs', hsame.id,
        hsame.index]

/-- When `commit_read` needs more data, the destination is decided. -/
theorem Decided.commitRead {m : Multiplexer ρ} (hbuffer : m.readBuffer ≠ [])
    (hmore : m.commitRead.value = .needsMore) :
  Decided m.commitRead.mpx ∧ m.commitRead.mpx.target = m.target
  := by
  cases hpush : m.onPush || m.isNextPush with
  | true =>
      have htarget : m.target = .receiver := by rw [Multiplexer.target, if_pos hpush]
      rw [Multiplexer.commitRead, if_pos hpush, Multiplexer.commitPush] at hmore ⊢
      dsimp only at hmore ⊢
      split at hmore
      · exact ⟨⟨hbuffer, .inl rfl⟩, htarget.symm⟩
      all_goals cases hmore
  | false =>
      obtain ⟨e, rest, hreqs, hwait, hpending, hread⟩ := Multiplexer.commitRead_response hpush
      obtain ⟨-, hnext⟩ := Bool.or_eq_false_iff.mp hpush
      obtain ⟨htype, -⟩ := Multiplexer.isNextPush_eq_false.mp hnext
      rw [Multiplexer.target_response hpush hreqs, hread]
      rw [hread, Multiplexer.commitResponse] at hmore
      rw [Multiplexer.commitResponse]
      dsimp only at hmore ⊢
      split at hmore
      · have hnext' := Multiplexer.isNextPush_eq_false (m := { m with
          onPush := false
          parser := (parse m.parser m.readBuffer e.getAdapter e.response).parser
          reqs := { e with response := (parse m.parser m.readBuffer e.getAdapter e.response).state } ::
            rest }).mpr ⟨htype, _, _, rfl, hpending, hwait⟩
        refine ⟨⟨hbuffer, .inr hnext'⟩, ?_⟩
        rw [Multiplexer.target, hnext']
        rfl
      · cases hmore
      · cases hmore
      · split at hmore <;> cases hmore
      · cases hmore
      · cases hmore

/-! ### Messages -/

/-- The nodes that were given to the destination are those of the message so far: with them, the
parser goes from where it was in the world `w` to where it is in the world `v`, if the bytes are
those of a message. -/
def ReadsOn (w v : World ρ) (nds : List Node) : Prop :=
  w.mpx.readBuffer <+: v.mpx.readBuffer ∧
    ∀ (x : Message) (s : Bytes) (earlier : List Node), v.mpx.readBuffer <+: x.encode ++ s →
      v.mpx.readBuffer.length < 2 ^ 64 → w.mpx.parser.PausedAfter w.mpx.readBuffer earlier →
      v.mpx.parser.PausedAfter v.mpx.readBuffer (earlier ++ nds)

theorem ReadsOn.refl (w : World ρ) :
  ReadsOn w w []
  := by
  refine ⟨List.prefix_rfl, ?_⟩
  intro x s earlier _ _ hpaused
  rw [List.append_nil]
  apply hpaused

theorem ReadsOn.trans {u v w : World ρ} {nds nds' : List Node} (h : ReadsOn u v nds)
    (h' : ReadsOn v w nds') :
  ReadsOn u w (nds ++ nds')
  := by
  refine ⟨h.1.trans h'.1, ?_⟩
  intro x s earlier hpre hlt hpaused
  rw [← List.append_assoc]
  apply h'.2 x s _ hpre hlt
  apply h.2 x s _ (h'.1.trans hpre) (h'.1.length_le.trans_lt hlt) hpaused

/-- `commit_read` needs more data. -/
theorem readsOn_commitRead {w : World ρ} (hmore : w.mpx.commitRead.value = .needsMore) :
  ∃ nds, deliveries w.mpx.commitRead.events = nds.map (w.mpx.target, ·) ∧
    ReadsOn w (w.operate .commitRead) nds
  := by
  obtain ⟨adapter, t, hcommits⟩ := w.mpx.commits
  obtain ⟨hstatus, hparser, hbuffer⟩ := hcommits.needsMore hmore
  refine ⟨_, hcommits.delivered, ?_⟩
  show w.mpx.readBuffer <+: w.mpx.commitRead.mpx.readBuffer ∧ _
  rw [hbuffer]
  refine ⟨List.prefix_rfl, ?_⟩
  intro x s earlier hpre hlt hpaused
  show w.mpx.commitRead.mpx.parser.PausedAfter w.mpx.commitRead.mpx.readBuffer _
  replace hpre : w.mpx.commitRead.mpx.readBuffer <+: x.encode ++ s := hpre
  replace hlt : w.mpx.commitRead.mpx.readBuffer.length < 2 ^ 64 := hlt
  rw [hbuffer] at hpre hlt ⊢
  rw [hparser]
  cases hpaused.goesOn hpre hlt adapter t with
  | needsMore _ hpaused' _ => exact hpaused'
  | done hs _ _ _ => cases hstatus.symm.trans hs
  | rejected hs => cases hstatus.symm.trans hs

/-- The other operations leave the parser alone. -/
theorem World.readsOn_operate {w : World ρ} {a : Action ρ} (hread : a.isCommitRead = false)
    (ha : w.Continues a) :
  ReadsOn w (w.operate a) []
  := by
  obtain ⟨-, hbuffer⟩ := World.sameReading_operate hread ha
  refine ⟨hbuffer, ?_⟩
  intro x s earlier _ _ hpaused
  have hparser : (w.operate a).mpx.parser = w.mpx.parser := by
    cases a with
    | add req adapter response => apply (sameReading_add _ _).parser
    | remove id => apply (sameReading_remove _ _).parser
    | cancelWaiting => apply (sameReading_cancelWaiting _).parser
    | prepareWrite => apply (sameReading_prepareWrite _).parser
    | commitWrite => apply (sameReading_commitWrite _).parser
    | receive chunk => rfl
    | commitRead => cases hread
    | connLost | reset => cases ha
  obtain ⟨chunk, hchunk⟩ := hbuffer
  rw [List.append_nil, hparser, ← hchunk]
  apply hpaused.append

/-- What is delivered within a message goes to its destination. -/
theorem deliveries_of_reading {w v : World ρ} {as : List (Action ρ)} (horderly : Orderly w)
    (hdecided : Decided w.mpx) (hrun : Run World.ReadingStep w as v) :
  v.mpx.target = w.mpx.target ∧ ∃ nds,
    deliveries v.log = deliveries w.log ++ nds.map (w.mpx.target, ·) ∧ ReadsOn w v nds
  := by
  induction hrun with
  | nil w => exact ⟨rfl, [], (List.append_nil _).symm, .refl w⟩
  | @cons w _ v a as hstep _ ih =>
      obtain ⟨⟨hpossible, rfl⟩, ha⟩ := hstep
      have hreset : a.isReset = false := by
        cases a with
        | reset => cases ha
        | _ => rfl
      have hlog : deliveries (w.operate a).log = deliveries w.log ++ deliveries (w.calls a) := by
        rw [World.operate_log hreset, deliveries_append]
      obtain ⟨hdecided', htarget, nds, hcalls, hreads⟩ : Decided (w.operate a).mpx ∧
          (w.operate a).mpx.target = w.mpx.target ∧
          ∃ nds, deliveries (w.calls a) = nds.map (w.mpx.target, ·) ∧
            ReadsOn w (w.operate a) nds := by
        cases hread : a.isCommitRead with
        | false =>
            obtain ⟨hdecided', htarget⟩ := hdecided.operate horderly hread ha
            exact ⟨hdecided', htarget, [], deliveries_calls hread, World.readsOn_operate hread ha⟩
        | true =>
            cases a with
            | commitRead =>
                obtain ⟨hdecided', htarget⟩ := Decided.commitRead hdecided.nonempty ha
                exact ⟨hdecided', htarget, readsOn_commitRead ha⟩
            | _ => cases hread
      obtain ⟨htarget', nds', hdel, hreads'⟩ := ih (horderly.step a) hdecided'
      refine ⟨htarget'.trans htarget, nds ++ nds', ?_, hreads.trans hreads'⟩
      rw [hdel, hlog, hcalls, htarget, List.map_append, List.append_assoc]

/-- A message that is read from its start has been delivered as a whole when the last call of
`commit_read` returns it. -/
theorem ReadsOn.message {w v : World ρ} {nds : List Node} {adapter : Adapter ρ} {t : ρ}
    (h : ReadsOn w v nds)
    (hcommits : Commits v.mpx (parse v.mpx.parser v.mpx.readBuffer adapter t)) {x : Message}
    {s : Bytes} {isPush : Bool} {size : ℕ} (hfresh : w.mpx.parser = .fresh)
    (hpre : v.mpx.readBuffer <+: x.encode ++ s) (hlt : v.mpx.readBuffer.length < 2 ^ 64)
    (hvalue : v.mpx.commitRead.value = .message isPush size) :
  nds ++ (parse v.mpx.parser v.mpx.readBuffer adapter t).nodes = x.nodes
  := by
  have hdone := hcommits.message isPush size hvalue
  have hpaused := h.2 x s [] hpre hlt (by rw [hfresh]; apply Parser.PausedAfter.fresh)
  cases hpaused.goesOn hpre hlt adapter t with
  | done _ hnodes _ _ => exact hnodes
  | needsMore hs _ _ => cases hdone.symm.trans hs
  | rejected hs => cases hdone.symm.trans hs

/-- No operation fills the read buffer beyond the range of `std::size_t`. -/
theorem World.OpenStep.short {w w' : World ρ} {a : Action ρ} (h : w.OpenStep a w')
    (hlt : w.mpx.readBuffer.length < 2 ^ 64) :
  w'.mpx.readBuffer.length < 2 ^ 64
  := by
  obtain ⟨hpossible, rfl⟩ := h
  cases a with
  | add req adapter response => exact (congrArg _ (sameReading_add _ _).readBuffer).trans_lt hlt
  | remove id => exact (congrArg _ (sameReading_remove _ _).readBuffer).trans_lt hlt
  | cancelWaiting => exact (congrArg _ (sameReading_cancelWaiting _).readBuffer).trans_lt hlt
  | prepareWrite => exact (congrArg _ (sameReading_prepareWrite _).readBuffer).trans_lt hlt
  | commitWrite => exact (congrArg _ (sameReading_commitWrite _).readBuffer).trans_lt hlt
  | receive chunk => exact hpossible
  | commitRead => exact w.mpx.length_readBuffer_commitRead.trans_lt hlt
  | connLost =>
      obtain ⟨reqs, called, heq⟩ := w.operate_of_requeues (a := .connLost) rfl
      rw [heq]
      exact hlt
  | reset => exact Nat.two_pow_pos 64

/-- One message has one destination.  In a state that is reached by operations in any order,
`commit_read` is called on a message, and called again, with other operations in between, as
long as it needs more data.  All nodes go to the destination of the first call.  If that call
begins the message and the last one returns it, then these are all nodes of the message. -/
theorem one_destination {receiveAdapter : Adapter ρ} {receiveResponse : ρ} {as : List (Action ρ)}
    {w v : World ρ} (hrun : Run World.OpenStep (.fresh receiveAdapter receiveResponse) as w)
    {as' : List (Action ρ)} (hreading : Run World.ReadingStep w as' v)
    (hfirst : ∀ a ∈ as'.head?, a = .commitRead) :
  ∃ ds, deliveries (v.operate .commitRead).log = deliveries w.log ++ ds ∧
    (∀ d ∈ ds, d.1 = w.mpx.target) ∧
    ∀ (x : Message) (s : Bytes) (isPush : Bool) (size : ℕ), w.mpx.parser = .fresh →
      v.mpx.readBuffer <+: x.encode ++ s → v.mpx.commitRead.value = .message isPush size →
      ds = x.nodes.map (w.mpx.target, ·)
  := by
  have horderly := (Orderly.fresh receiveAdapter receiveResponse).run hrun
  have hlt : v.mpx.readBuffer.length < 2 ^ 64 := by
    apply (hrun.trans (hreading.mono And.left)).invariant (fun h hstep => hstep.short h)
    exact Nat.two_pow_pos 64
  obtain ⟨htarget, nds, hdel, hreads⟩ : v.mpx.target = w.mpx.target ∧ ∃ nds,
      deliveries v.log = deliveries w.log ++ nds.map (w.mpx.target, ·) ∧ ReadsOn w v nds := by
    cases hreading with
    | nil => exact ⟨rfl, [], (List.append_nil _).symm, .refl w⟩
    | cons hstep hrest =>
        obtain ⟨⟨hpossible, rfl⟩, ha⟩ := hstep
        obtain rfl := hfirst _ rfl
        obtain ⟨hdecided, htarget⟩ := Decided.commitRead hpossible.1 ha
        obtain ⟨nds, hcalls, hreads⟩ := readsOn_commitRead ha
        obtain ⟨htarget', nds', hdel, hreads'⟩ :=
          deliveries_of_reading (horderly.step .commitRead) hdecided hrest
        replace htarget : (w.operate .commitRead).mpx.target = w.mpx.target := htarget
        refine ⟨htarget'.trans htarget, nds ++ nds', ?_, hreads.trans hreads'⟩
        rw [hdel, World.operate_log rfl, deliveries_append, htarget, List.map_append,
          ← List.append_assoc, ← hcalls]
        rfl
  obtain ⟨adapter, t, hcommits⟩ := v.mpx.commits
  refine ⟨(nds ++ (parse v.mpx.parser v.mpx.readBuffer adapter t).nodes).map (w.mpx.target, ·),
    ?_, ?_, ?_⟩
  · rw [World.operate_log rfl, deliveries_append, hdel, List.append_assoc, List.map_append, ← htarget,
      ← hcommits.delivered]
    rfl
  · intro d hd
    obtain ⟨nd, -, rfl⟩ := List.mem_map.mp hd
    rfl
  · intro x s isPush size hfresh hpre hvalue
    rw [hreads.message hcommits hfresh hpre hlt hvalue]

/-- A request is sent, and the first bytes of its response arrive before `commit_write`. -/
def answeredEarly : List (Action Unit) :=
  [.reset, .add (Request.push {} (ascii "PING") []) (fun _ => accepting) (), .prepareWrite,
    .receive (ascii "+PO")]

/-- The rest of the response arrives later. -/
def restOfReply : List (Action Unit) :=
  [.commitRead, .add (Request.push {} (ascii "HELLO") [ascii "3"]) (fun _ => accepting) (),
    .commitWrite, .prepareWrite, .receive (ascii "NG\r\n")]

theorem one_destination_early :
  ∃ ds, deliveries ((restOfReply.foldl World.operate
      (answeredEarly.foldl World.apply (.fresh accepting ()))).operate .commitRead).log = [] ++ ds ∧
    (∀ d ∈ ds, d.1 = .request 0 0) ∧ ds = pong.nodes.map (Target.request 0 0, ·)
  := by
  have hfollows : Run.Follows World.apply World.Possible (.fresh accepting ())
      answeredEarly := by
    decide
  obtain ⟨as, hrun⟩ := (Run.of_follows hfollows).refine World.FreeStep.openRun
  have hfollows : Run.Follows World.operate (fun (w : World Unit) a => w.Possible a ∧ w.Continues a)
      (answeredEarly.foldl World.apply (.fresh accepting ())) restOfReply := by
    decide
  obtain ⟨ds, hds, htarget, hwhole⟩ := one_destination hrun
    ((Run.of_follows hfollows).mono fun h => ⟨⟨h.1.1, h.2⟩, h.1.2⟩) (by simp [restOfReply])
  exact ⟨ds, hds, htarget, hwhole pong [] false 7 (by decide) (by decide) (by decide)⟩

end Redis
