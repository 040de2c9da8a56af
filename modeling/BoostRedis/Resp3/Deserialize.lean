import BoostRedis.Resp3.Stream

/-!
# Deserialising a message

`deserialize` reads one message from a string that is there as a whole.  Where `parse` would ask for
more data it asserts that there is a node, and at the end it asserts that nothing is left.  So on a
part of a stream of messages it returns exactly if it is given the first message, without a byte
more or less, and the adapter takes all nodes of it.
-/

namespace Resp3

/-- How a call of `deserialize` ends: it returns with the adapter, the parser or the adapter has set
an error, an assertion is violated, or the program has faulted.  The last case is the bound of the
loop of the model. -/
inductive Deserialized (σ : Type) where
  | returned (state : σ)
  | failed (ec : Error)
  | rejected (ec : ErrorCode)
  | assertion
  | faulted (f : Fault)
  | exhausted
deriving DecidableEq

/-- The loop of `deserialize`, for a bounded number of iterations, and the assertion after it. -/
def deserializeLoop {σ : Type} (adapter : Adapter σ) (data : Bytes) :
    ℕ → Parser → σ → Deserialized σ
  | 0, _, _ => .exhausted
  | n + 1, p, s =>
      if p.done then
        if p.consumed = data.length then .returned s else .assertion
      else
        match p.consume data with
        | .error f => .faulted f
        | .ok (_, .failed ec) => .failed ec
        | .ok (_, .needsMore) => .assertion
        | .ok (q, .node nd) =>
            match adapter nd s with
            | (_, some ec) => .rejected ec
            | (s', none) => deserializeLoop adapter data n q s'

/-- `resp3::detail::deserialize`. -/
def deserialize {σ : Type} (data : Bytes) (adapter : Adapter σ) (s : σ) : Deserialized σ :=
  deserializeLoop adapter data (data.length + 2) .fresh s

section Deserialize

variable {σ : Type} {adapter : Adapter σ} {data : Bytes}

/-- What `deserialize` makes of the result of `parse`. -/
def Parsed.deserialized (r : Parsed σ) (data : Bytes) : Deserialized σ :=
  match r.status with
  | .needsMore => .assertion
  | .done => if r.parser.consumed = data.length then .returned r.state else .assertion
  | .failed ec => .failed ec
  | .rejected ec => .rejected ec
  | .faulted f => .faulted f
  | .exhausted => .exhausted

theorem deserializeLoop_eq (n : ℕ) (p : Parser) (s : σ) :
  deserializeLoop adapter data n p s = (parseLoop adapter data n p s).deserialized data
  := by
  induction n generalizing p s with
  | zero => rfl
  | succ n ih =>
      rw [deserializeLoop, parseLoop]
      split
      · rfl
      · rcases p.consume data with f | ⟨q, _ | nd | ec⟩
        · rfl
        · rfl
        · dsimp only
          rcases adapter nd s with ⟨s', _ | ec⟩
          · exact ih q s'
          · rfl
        · rfl

theorem deserialize_eq (data : Bytes) (adapter : Adapter σ) (s : σ) :
  deserialize data adapter s = (parse .fresh data adapter s).deserialized data
  := deserializeLoop_eq (data.length + 2) .fresh s

/-- On a whole message `deserialize` returns if the adapter takes all nodes of it. -/
theorem deserialize_encode_iff (m : Message) (t t' : σ) :
  deserialize m.encode adapter t = .returned t' ↔ adapter.takes m.nodes t = some t'
  := by
  have hlen : (m.encode ++ []).length < 2 ^ 64 := by
    rw [List.append_nil]
    exact m.length_lt
  obtain ⟨q, hq, hd, hc⟩ := run_message m [] hlen
  rw [List.append_nil] at hq
  have hrun := hq.mono Parser.ConsumesFit.toConsumes
  rw [deserialize_eq]
  cases ha : adapter.takes m.nodes t with
  | none =>
      obtain ⟨⟨ec, hec⟩, -⟩ := parse_of_run_rejected hrun ha
      simp [Parsed.deserialized, hec]
  | some t'' =>
      have hreturned : (parse .fresh m.encode adapter t).deserialized m.encode = .returned t'' := by
        rw [parse_of_run hrun ha, parse_of_done hd]
        exact if_pos hc
      simp [hreturned]

/-- Where `deserialize` returns, it was given the first message of the stream. -/
theorem eq_encode_of_returned {m : Message} {s : Bytes} {t t' : σ}
    (hdata : data <+: m.encode ++ s) (hlen : data.length < 2 ^ 64)
    (h : deserialize data adapter t = .returned t') :
  data = m.encode
  := by
  rw [deserialize_eq, Parsed.deserialized] at h
  cases parse_part hdata hlen adapter t with
  | needsMore hs _ _ =>
      rw [hs] at h
      cases h
  | rejected hs _ =>
      rw [hs] at h
      cases h
  | done hs _ hconsumed hwhole =>
      rw [hs] at h
      dsimp only at h
      split at h
      · rename_i hsize
        exact (hwhole.eq_of_length (hconsumed.symm.trans hsize)).symm
      · cases h

/-- On a part of a stream of messages `deserialize` returns exactly if that is the first message,
and the adapter takes its nodes. -/
theorem deserialize_returned_iff {m : Message} {ms : List Message}
    (hdata : data <+: encodeMessages (m :: ms)) (hlen : data.length < 2 ^ 64)
    (adapter : Adapter σ) (t t' : σ) :
  deserialize data adapter t = .returned t' ↔
    data = m.encode ∧ adapter.takes m.nodes t = some t'
  := by
  constructor
  · intro hreturned
    obtain rfl := eq_encode_of_returned hdata hlen hreturned
    exact ⟨rfl, (deserialize_encode_iff m t t').mp hreturned⟩
  · rintro ⟨rfl, ha⟩
    exact (deserialize_encode_iff m t t').mpr ha

end Deserialize

/-- A number. -/
def seven : Message := ⟨.simple .number (ascii "7"), by decide, by decide, by decide⟩

theorem deserialize_returned_iff_seven :
  deserialize (ascii ":7\r\n") accepting () = .returned () ∧
    ¬ deserialize (ascii ":7\r") accepting () = .returned ()
  := by
  have hwhole : ascii ":7\r\n" <+: encodeMessages [seven] := by decide
  have hpart : ascii ":7\r" <+: encodeMessages [seven] := by decide
  constructor
  · exact (deserialize_returned_iff hwhole (by decide) _ _ _).mpr (by decide)
  · exact mt (deserialize_returned_iff hpart (by decide) _ _ _).mp (by decide)

end Resp3
