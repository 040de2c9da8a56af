import BoostRedis.Resp3.RoundTrip

/-!
# Messages in a stream

A fresh parser that is given part of a stream of messages reads the first message of it, if
that has arrived, and otherwise asks for more data after some of its nodes.  With the adapter
as the only one who can set an error, these are all the cases, also when the bytes of the
message arrive in pieces.
-/

namespace Resp3

/-- The bytes of several messages. -/
def encodeMessages (ms : List Message) : Bytes :=
  ms.flatMap Message.encode

section Parts

variable {σ : Type} {adapter : Adapter σ} {view : Bytes}

/-- If the adapter does not take all nodes of a run, the call of `parse` ends at the one it
refuses. -/
theorem parse_of_run_rejected {p q : Parser} {nds : List Node} {s : σ}
    (h : Run (Parser.Consumes view) p nds q) (ha : adapter.takes nds s = none) :
  (∃ ec, (parse p view adapter s).status = .rejected ec) ∧ (parse p view adapter s).nodes <+: nds
  := by
  induction h generalizing s with
  | nil => cases ha
  | @cons p q r nd nds hc _ ih =>
      rcases hs : adapter nd s with ⟨s', _ | ec⟩
      · simp only [Adapter.takes, hs] at ha
        rw [parse_of_node hc hs]
        obtain ⟨⟨ec, hec⟩, hpre⟩ := ih ha
        exact ⟨⟨ec, hec⟩, (List.prefix_append_right_inj [nd]).mpr hpre⟩
      · rw [parse_of_rejected hc hs]
        exact ⟨⟨ec, rfl⟩, ⟨nds, rfl⟩⟩

/-- How a call of `parse` on a part of a stream that begins with the message `m` ends: the
message is read, more data is needed, or the adapter has set an error. -/
inductive PartOf (m : Message) (view : Bytes) (r : Parsed σ) : Prop where
  | done : r.status = .done → r.nodes = m.nodes → r.parser.consumed = m.encode.length →
      m.encode <+: view → PartOf m view r
  | needsMore : r.status = .needsMore → r.nodes <+: m.nodes → ¬ m.encode <+: view →
      PartOf m view r
  | rejected {ec : ErrorCode} : r.status = .rejected ec → r.nodes <+: m.nodes → PartOf m view r

/-- A view that begins with a whole message. -/
theorem parse_whole (m : Message) (s : Bytes) (h : (m.encode ++ s).length < 2 ^ 64)
    (adapter : Adapter σ) (t : σ) :
  PartOf m (m.encode ++ s) (parse .fresh (m.encode ++ s) adapter t)
  := by
  obtain ⟨q, hq, hd, hc⟩ := run_message m s h
  have hrun := hq.mono Parser.ConsumesFit.toConsumes
  cases ha : adapter.takes m.nodes t with
  | none =>
      obtain ⟨⟨ec, hec⟩, hpre⟩ := parse_of_run_rejected hrun ha
      exact .rejected hec hpre
  | some t' =>
      rw [parse_of_run hrun ha, parse_of_done hd]
      exact .done rfl (List.append_nil _) hc ⟨s, rfl⟩

theorem bulksFit_message (m : Message) (s : Bytes) (h : (m.encode ++ s).length < 2 ^ 64) :
  BulksFit .fresh (m.encode ++ s)
  := by
  obtain ⟨q, hq, hd, -⟩ := run_message m s h
  apply bulksFit_of_run hq hd

/-- The bulks of a part of a stream fit. -/
theorem bulksFit_part {m : Message} {s view : Bytes} (h : view <+: m.encode ++ s)
    (hv : view.length < 2 ^ 64) :
  BulksFit .fresh view
  := by
  obtain ⟨u, rfl⟩ | ⟨u, hu⟩ := List.prefix_or_prefix_of_prefix (List.prefix_append m.encode s) h
  · apply bulksFit_message m u hv
  · have hlen : (m.encode ++ []).length < 2 ^ 64 := by
      rw [List.append_nil]
      apply m.length_lt
    have hfit := bulksFit_message m [] hlen
    rw [List.append_nil, ← hu] at hfit hlen
    apply hfit.of_append u hlen (Parser.fresh_resumable view)

/-- A part of a message that has not arrived as a whole. -/
theorem parse_incomplete {m : Message} {u : Bytes} (h : view ++ u = m.encode) (hu : u ≠ [])
    (adapter : Adapter σ) (t : σ) :
  PartOf m view (parse .fresh view adapter t)
  := by
  have hlen : (view ++ u).length < 2 ^ 64 := by
    rw [h]
    apply m.length_lt
  have hvl := length_lt_of_append hlen
  have hfit : BulksFit .fresh (view ++ u) := by
    rw [h]
    apply bulksFit_part (List.prefix_append m.encode []) m.length_lt
  have hwhole := parse_whole m [] (by rw [List.append_nil]; apply m.length_lt) adapter t
  rw [List.append_nil, ← h, parse_append u adapter t hlen (Parser.fresh_resumable view) hfit]
    at hwhole
  have hnot : ¬ m.encode <+: view := by
    intro hpre
    have := hpre.length_le
    rw [← h, List.length_append] at this
    have := List.length_pos_iff.mpr hu
    omega
  generalize hr : parse .fresh view adapter t = r at hwhole
  obtain ⟨q, hrun, hend⟩ := parse_run .fresh view adapter t
  rw [hr] at hrun hend
  obtain ⟨rp, rs, rn, st⟩ := r
  cases hend with
  | done hd =>
      -- A parser that is done has consumed the message, which is longer than the view.
      cases hwhole with
      | done _ _ hc _ =>
          obtain ⟨-, hq, -⟩ := run_append u hrun hlen (Parser.fresh_resumable view) hfit
          have hle := hq.consumed_le
          simp only [Parsed.resume] at hc
          rw [hc, ← h, List.length_append] at hle
          have := List.length_pos_iff.mpr hu
          omega
      | needsMore hs _ _ => cases hs
      | rejected hs _ => cases hs
  | needsMore _ _ =>
      apply PartOf.needsMore rfl _ hnot
      cases hwhole with
      | done _ hn _ _ =>
          rw [← hn]
          apply List.prefix_append
      | needsMore _ hn _ => apply (List.prefix_append _ _).trans hn
      | rejected _ hn => apply (List.prefix_append _ _).trans hn
  | failed _ _ => cases hwhole with
      | done hs _ _ _ => cases hs
      | needsMore hs _ _ => cases hs
      | rejected hs _ => cases hs
  | faulted _ _ => cases hwhole with
      | done hs _ _ _ => cases hs
      | needsMore hs _ _ => cases hs
      | rejected hs _ => cases hs
  | rejected =>
      cases hwhole with
      | done hs _ _ _ => cases hs
      | needsMore hs _ _ => cases hs
      | rejected hs hn => exact .rejected rfl hn

/-- A call of `parse` on a part of a stream of messages. -/
theorem parse_part {m : Message} {s : Bytes} (h : view <+: m.encode ++ s)
    (hv : view.length < 2 ^ 64) (adapter : Adapter σ) (t : σ) :
  PartOf m view (parse .fresh view adapter t)
  := by
  by_cases hm : m.encode <+: view
  · obtain ⟨u, rfl⟩ := hm
    apply parse_whole m u hv
  · obtain hpre | ⟨u, hu⟩ := List.prefix_or_prefix_of_prefix (List.prefix_append m.encode s) h
    · exact absurd hpre hm
    · apply parse_incomplete hu
      rintro rfl
      rw [List.append_nil] at hu
      exact hm ⟨[], by rw [List.append_nil, hu]⟩

/-- The same after an earlier call that has asked for more data, on what had arrived then. -/
theorem parse_part_resumed {m : Message} {s earlier c : Bytes} (h : earlier ++ c <+: m.encode ++ s)
    (hv : (earlier ++ c).length < 2 ^ 64) (adapter : Adapter σ) (t : σ) {r : Parsed σ}
    (hr : parse .fresh earlier adapter t = r) (hs : r.status = .needsMore) :
  parse .fresh (earlier ++ c) adapter t
      = (parse r.parser (earlier ++ c) adapter r.state).prepend r.nodes ∧
    PartOf m (earlier ++ c) ((parse r.parser (earlier ++ c) adapter r.state).prepend r.nodes)
  := by
  have happend := parse_append c adapter t hv (Parser.fresh_resumable earlier) (bulksFit_part h hv)
  rw [hr, Parsed.resume, hs] at happend
  refine ⟨happend, ?_⟩
  have hpart := parse_part h hv adapter t
  rw [happend] at hpart
  apply hpart

/-! ### Parsers between two calls -/

/-- A result without what the adapter has made of it. -/
def Parsed.forget (r : Parsed σ) : Parsed Unit :=
  ⟨r.parser, (), r.nodes, r.status⟩

/-- What the loop of `parse` reads does not depend on the adapter, unless that sets an error. -/
theorem parseLoop_eq_accepting (n : ℕ) (p : Parser) (t : σ) :
  (∃ ec, (parseLoop adapter view n p t).status = .rejected ec) ∨
    (parseLoop adapter view n p t).forget = parseLoop accepting view n p ()
  := by
  induction n generalizing p t with
  | zero => exact .inr rfl
  | succ n ih =>
      rw [parseLoop, parseLoop]
      split
      · exact .inr rfl
      · split
        · exact .inr rfl
        · exact .inr rfl
        · exact .inr rfl
        · rename_i q nd _
          rcases adapter nd t with ⟨t', _ | ec⟩
          · obtain hrej | heq := ih q t'
            · exact .inl hrej
            · exact .inr (congrArg (·.prepend [nd]) heq)
          · exact .inl ⟨ec, rfl⟩

theorem parse_eq_accepting (p : Parser) (view : Bytes) (adapter : Adapter σ) (t : σ) :
  (∃ ec, (parse p view adapter t).status = .rejected ec) ∨
    (parse p view adapter t).forget = parse p view accepting ()
  := parseLoop_eq_accepting (view.length + 2) p t

/-- The parser has returned some nodes and asked for more data, when it was given the view or the
first part of it. -/
def Parser.PausedAfter (p : Parser) (view : Bytes) (nds : List Node) : Prop :=
  ∃ v c, view = v ++ c ∧ parse .fresh v accepting () = ⟨p, (), nds, .needsMore⟩

/-- The parser has asked for more data, when it was given the view or the first part of it. -/
def Parser.PausedOn (p : Parser) (view : Bytes) : Prop :=
  ∃ nds, p.PausedAfter view nds

/-- How a call of `parse` that goes on with the message `m`, after some nodes of it, ends. -/
inductive GoesOn (m : Message) (view : Bytes) (nds : List Node) (r : Parsed σ) : Prop where
  | done : r.status = .done → nds ++ r.nodes = m.nodes → r.parser.consumed = m.encode.length →
      m.encode <+: view → GoesOn m view nds r
  | needsMore : r.status = .needsMore → r.parser.PausedAfter view (nds ++ r.nodes) →
      ¬ m.encode <+: view → GoesOn m view nds r
  | rejected {ec : ErrorCode} : r.status = .rejected ec → GoesOn m view nds r

namespace Parser.PausedAfter

variable {p : Parser} {nds : List Node}

theorem fresh (view : Bytes) :
  Parser.fresh.PausedAfter view []
  := ⟨[], view, rfl, parse_of_needsMore rfl rfl ()⟩

theorem append (h : p.PausedAfter view nds) (chunk : Bytes) :
  p.PausedAfter (view ++ chunk) nds
  := by
  obtain ⟨v, c, rfl, hparse⟩ := h
  exact ⟨v, c ++ chunk, List.append_assoc v c chunk, hparse⟩

theorem goesOn {m : Message} {s : Bytes} (h : p.PausedAfter view nds)
    (hpre : view <+: m.encode ++ s) (hv : view.length < 2 ^ 64) (adapter : Adapter σ) (t : σ) :
  GoesOn m view nds (parse p view adapter t)
  := by
  obtain ⟨v, c, rfl, hparse⟩ := h
  obtain ⟨hwhole, hpart⟩ := parse_part_resumed hpre hv accepting () hparse rfl
  obtain ⟨ec, hec⟩ | heq := parse_eq_accepting p (v ++ c) adapter t
  · exact .rejected hec
  rw [← heq] at hwhole hpart
  cases hpart with
  | done hs hnodes hconsumed hpre => exact .done hs hnodes hconsumed hpre
  | needsMore hs _ hnot =>
      refine .needsMore hs ⟨v ++ c, [], (List.append_nil _).symm, ?_⟩ hnot
      rw [hwhole, ← show (parse p (v ++ c) adapter t).status = .needsMore from hs]
      rfl
  | rejected hs _ => exact .rejected hs

end Parser.PausedAfter

namespace Parser.PausedOn

variable {p : Parser}

theorem fresh (view : Bytes) :
  Parser.fresh.PausedOn view
  := ⟨[], .fresh view⟩

theorem append (h : p.PausedOn view) (chunk : Bytes) :
  p.PausedOn (view ++ chunk)
  := by
  obtain ⟨nds, h⟩ := h
  exact ⟨nds, h.append chunk⟩

end Parser.PausedOn

end Parts

end Resp3
