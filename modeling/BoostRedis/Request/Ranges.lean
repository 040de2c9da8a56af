import BoostRedis.Request.Wire

/-!
# Ranges of tuples

`push_range` writes the number of bulks into the header of a command before it writes the bulks.
The number comes from `bulk_counter`, and the bulks from `add_bulk_impl`.  Both have a case for
pairs, but only the latter has one for tuples: a tuple is written as one bulk for each component,
and is counted as one.
-/

namespace Redis

open Resp3

namespace Elements

/-- The texts of the elements. -/
def texts : Elements → List Bytes
  | .plain range => range.texts
  | .tuples _ elements => elements.flatMap fun e => e.toList.map Arg.text

/-- Whether `bulk_counter` counts the components of an element. -/
def isCounted : Elements → Bool
  | .plain _ => true
  | .tuples m _ => m = 1

theorem addBulks_eq (es : Elements) (payload : Bytes) :
  es.addBulks payload = payload ++ bulks es.texts
  := by
  cases es with
  | plain range => apply Range.addBulks_eq
  | tuples m elements =>
      rw [addBulks, texts]
      induction elements generalizing payload with
      | nil => apply (List.append_nil payload).symm
      | cons e elements ih =>
          rw [List.foldl_cons, ih, foldl_toBulk, List.append_assoc, ← bulks_append,
            List.flatMap_cons]

/-- The number of texts is the number that is counted, exactly if there is nothing to count or
`bulk_counter` counts the components. -/
theorem length_texts_iff (es : Elements) (h : es.distance ≠ 0) :
  es.bulkCounter * es.distance = es.texts.length ↔ es.isCounted = true
  := by
  cases es with
  | plain range => exact iff_of_true range.length_texts.symm rfl
  | tuples m elements =>
      have htexts : (tuples m elements).texts.length = m * elements.length := by
        rw [texts, List.length_flatMap]
        simp [Nat.mul_comm]
      rw [htexts]
      simp only [bulkCounter, distance, isCounted, decide_eq_true_eq, one_mul] at h ⊢
      constructor
      · intro heq
        exact (Nat.eq_of_mul_eq_mul_right (Nat.pos_of_ne_zero h) (by omega)).symm
      · rintro rfl
        omega

end Elements

/-! ### Calls -/

/-- A call of `push_range`, with a key or without. -/
structure RangeCall where
  cmd : Bytes
  key : Option Bytes
  elements : Elements

namespace RangeCall

/-- The number of bulks that the header of the command declares. -/
def declared (c : RangeCall) : ℕ :=
  (match c.key with
    | some _ => 2
    | none => 1) + c.elements.bulkCounter * c.elements.distance

/-- The bulks that follow the header. -/
def fields (c : RangeCall) : List Bytes := c.cmd :: (c.key.toList ++ c.elements.texts)

end RangeCall

/-- The request after a call of `push_range`. -/
def Request.callRange (r : Request) (c : RangeCall) : Request :=
  match c.key with
  | some key => r.pushElementsKey c.cmd key c.elements
  | none => r.pushElements c.cmd c.elements

/-- A call writes a header, and the bulks. -/
theorem callRange_payload (r : Request) (c : RangeCall) (h : c.elements.distance ≠ 0) :
  (r.callRange c).payload = addHeader r.payload .array c.declared ++ bulks c.fields
  := by
  obtain ⟨cmd, key, es⟩ := c
  have hes : ¬ es.distance = 0 := h
  cases key with
  | some key =>
      simp only [Request.callRange, Request.pushElementsKey, if_neg hes, Request.checkCmd,
        Elements.addBulks_eq, boostRedisToBulk_eq, List.append_assoc, ← bulks_append]
      rfl
  | none =>
      simp only [Request.callRange, Request.pushElements, if_neg hes, Request.checkCmd,
        Elements.addBulks_eq, boostRedisToBulk_eq, List.append_assoc, ← bulks_append]
      rfl

/-- The declared number is the number of bulks exactly if `bulk_counter` counts the components. -/
theorem declared_eq_iff (c : RangeCall) (h : c.elements.distance ≠ 0) :
  c.declared = c.fields.length ↔ c.elements.isCounted = true
  := by
  rw [← c.elements.length_texts_iff h, RangeCall.declared, RangeCall.fields, List.length_cons,
    List.length_append]
  cases c.key <;> simp <;> omega

/-- What should hold of calls of `push_range`: every header declares the bulks that follow it, and
reading the payload gives one array for every call. -/
structure CountsAgree (r : Request) (calls : List RangeCall) : Prop where
  counts : ∀ c ∈ calls, c.declared = c.fields.length
  recovered : readMessages (calls.foldl Request.callRange r.clear).payload.length
      (calls.foldl Request.callRange r.clear).payload
    = some (calls.map fun c => commandNodes c.fields)

/-- If the counts agree, the calls add commands. -/
theorem foldl_callRange (calls : List RangeCall) (r : Request)
    (hne : ∀ c ∈ calls, c.elements.distance ≠ 0)
    (hcounts : ∀ c ∈ calls, c.declared = c.fields.length) :
  (calls.foldl Request.callRange r).payload
    = r.payload ++ (calls.map RangeCall.fields).flatMap fun fields => (commandValue fields).encode
  := by
  induction calls generalizing r with
  | nil => simp
  | cons c calls ih =>
      obtain ⟨hc, hne⟩ := List.forall_mem_cons.mp hne
      obtain ⟨hcount, hcounts⟩ := List.forall_mem_cons.mp hcounts
      have hcommand : (r.callRange c).payload = r.payload ++ (commandValue c.fields).encode := by
        rw [callRange_payload r c hc, hcount]
        simp [commandValue, Value.encode, addHeader, bulks]
      rw [List.foldl_cons, ih _ hne hcounts, hcommand, List.map_cons, List.flatMap_cons,
        List.append_assoc]

/-- The counts agree, and the payload is read as one array for every call, exactly if no call has
tuples of another arity than one. -/
theorem countsAgree_iff (r : Request) (calls : List RangeCall)
    (hne : ∀ c ∈ calls, c.elements.distance ≠ 0)
    (hlen : (calls.foldl Request.callRange r.clear).payload.length < 2 ^ 64) :
  CountsAgree r calls ↔ ∀ c ∈ calls, c.elements.isCounted = true
  := by
  constructor
  · intro h c hc
    apply (declared_eq_iff c (hne c hc)).mp (h.counts c hc)
  · intro h
    have hcounts : ∀ c ∈ calls, c.declared = c.fields.length := by
      intro c hc
      apply (declared_eq_iff c (hne c hc)).mpr (h c hc)
    refine ⟨hcounts, ?_⟩
    rw [foldl_callRange calls r.clear hne hcounts] at hlen ⊢
    have hread := readMessages_commands (calls.map RangeCall.fields) _ le_rfl hlen
    rw [List.map_map] at hread
    apply hread

/-- Pairs, and tuples of one component. -/
theorem countsAgree_pairs :
  CountsAgree {} [⟨ascii "HSET", some (ascii "key"), .plain (.pairs [(.int 1, .int 2)])⟩,
    ⟨ascii "SADD", some (ascii "key"), .tuples 1 [#v[.int 1], #v[.int 2]]⟩]
  := by
  apply (countsAgree_iff {} _ (by decide) (by decide)).mpr
  decide

/-- Tuples of two components: the header declares one bulk too few, and the last bulk is left over
for the next command. -/
theorem countsAgree_fails :
  let call : RangeCall := ⟨ascii "SADD", none, .tuples 2 [#v[.int 1, .int 2]]⟩
  call.declared = 2 ∧ call.fields.length = 3
    ∧ readMessages (Request.callRange {} call).payload.length (Request.callRange {} call).payload
      = some
        [[⟨.array, 2, 0, []⟩, ⟨.blobString, 1, 1, ascii "SADD"⟩, ⟨.blobString, 1, 1, ascii "1"⟩],
          [⟨.blobString, 1, 0, ascii "2"⟩]]
    ∧ ¬ CountsAgree {} [call]
  := by
  intro call
  refine ⟨by decide, by decide, by decide +kernel, ?_⟩
  intro h
  have hcount := h.counts call List.mem_cons_self
  revert hcount
  decide

end Redis
