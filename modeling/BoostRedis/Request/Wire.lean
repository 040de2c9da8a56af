import BoostRedis.Request
import BoostRedis.Resp3.Stream

/-!
# Requests on the wire

The calls that are made on a request, one after the other, are the commands a server reads off
its payload: one array of blob strings for every call, with the name of the command, the key
and the arguments.  A call with an empty range adds nothing.
-/

namespace Redis

open Resp3

/-! ### The commands that are meant -/

/-- The text of an argument, as it is sent. -/
def Arg.text : Arg → Bytes
  | .bytes data => data
  | .int n => toText n

/-- The texts of the elements of a range. -/
def Range.texts : Range → List Bytes
  | .singles elements => elements.map Arg.text
  | .pairs elements => elements.flatMap fun e => [e.1.text, e.2.text]

/-- The fields of the command that a call adds: its name, the key if there is one, and the
arguments.  A call with an empty range adds none. -/
def Call.fields : Call → Option (List Bytes)
  | .push cmd args => some (cmd :: args.map Arg.text)
  | .pushRangeKey cmd key range =>
      if range.texts = [] then none else some (cmd :: key :: range.texts)
  | .pushRange cmd range => if range.texts = [] then none else some (cmd :: range.texts)

/-- The nodes of a command: an array of blob strings. -/
def commandNodes (fields : List Bytes) : List Node :=
  ⟨.array, fields.length, 0, []⟩ :: fields.map fun field => ⟨.blobString, 1, 1, field⟩

/-- The commands that are answered by pushes only. -/
def pushCommands : List Bytes :=
  [ascii "SUBSCRIBE", ascii "PSUBSCRIBE", ascii "UNSUBSCRIBE"]

/-- Reads a view message by message, with a new parser for each, until nothing is left.  There
is no result if a message is not complete, or is refused. -/
def readMessages : ℕ → Bytes → Option (List (List Node))
  | _, [] => some []
  | 0, _ :: _ => none
  | n + 1, c :: view =>
      let r := parse .fresh (c :: view) accepting ()
      if r.status = .done then
        (readMessages n ((c :: view).drop r.parser.consumed)).map (r.nodes :: ·)
      else none

/-! ### The payload -/

/-- The value of a command. -/
def commandValue (fields : List Bytes) : Value :=
  .aggregate .array fields.length (fields.map (.bulk .blobString))

/-- The bytes of several blob strings. -/
def bulks (fields : List Bytes) : Bytes :=
  Value.encodeAll (fields.map (.bulk .blobString))

theorem encodeAll_append (vs ws : List Value) :
  Value.encodeAll (vs ++ ws) = Value.encodeAll vs ++ Value.encodeAll ws
  := by
  induction vs with
  | nil => rfl
  | cons v vs ih => rw [List.cons_append, Value.encodeAll, Value.encodeAll, ih, List.append_assoc]

theorem bulks_append (fields fields' : List Bytes) :
  bulks (fields ++ fields') = bulks fields ++ bulks fields'
  := by
  rw [bulks, List.map_append, encodeAll_append]
  rfl

theorem boostRedisToBulk_eq (payload data : Bytes) :
  boostRedisToBulk payload data = payload ++ bulks [data]
  := by
  simp [boostRedisToBulk, bulks, Value.encodeAll, Value.encode, addBlob, addHeader]

theorem Arg.toBulk_eq (payload : Bytes) (a : Arg) :
  a.toBulk payload = payload ++ bulks [a.text]
  := by
  cases a with
  | bytes data => apply boostRedisToBulk_eq
  | int n => apply boostRedisToBulk_eq

theorem foldl_toBulk (args : List Arg) :
  ∀ payload, args.foldl Arg.toBulk payload = payload ++ bulks (args.map Arg.text)
  := by
  induction args with
  | nil =>
      intro payload
      apply (List.append_nil payload).symm
  | cons a args ih =>
      intro payload
      rw [List.foldl_cons, ih, a.toBulk_eq, List.append_assoc, ← bulks_append]
      rfl

theorem Range.addBulks_eq (range : Range) (payload : Bytes) :
  range.addBulks payload = payload ++ bulks range.texts
  := by
  cases range with
  | singles elements => apply foldl_toBulk
  | pairs elements =>
      induction elements generalizing payload with
      | nil => apply (List.append_nil payload).symm
      | cons e elements ih =>
          simp only [Range.addBulks] at ih ⊢
          rw [List.foldl_cons, ih, Arg.toBulk_eq, Arg.toBulk_eq, List.append_assoc,
            List.append_assoc, ← bulks_append, ← bulks_append]
          rfl

/-- The declared number of bulks is the number of texts. -/
theorem Range.length_texts (range : Range) :
  range.texts.length = range.bulkCounter * range.distance
  := by
  cases range with
  | singles elements => simp [Range.texts, Range.bulkCounter, Range.distance]
  | pairs elements =>
      simp only [Range.texts, Range.bulkCounter, Range.distance, List.length_flatMap]
      induction elements with
      | nil => rfl
      | cons e elements ih =>
          rw [List.map_cons, List.sum_cons, ih]
          simp only [List.length_cons, List.length_nil]
          omega

theorem Range.texts_eq_nil_iff (range : Range) :
  range.texts = [] ↔ range.distance = 0
  := by
  have hpos : range.bulkCounter ≠ 0 := by
    cases range <;> simp [Range.bulkCounter]
  rw [← List.length_eq_zero_iff, range.length_texts, Nat.mul_eq_zero]
  simp [hpos]

theorem hasResponse_iff (cmd : Bytes) :
  hasResponse cmd = true ↔ cmd ∈ pushCommands
  := by
  simp [hasResponse, pushCommands, or_assoc]

/-- What a call does: nothing if it adds no command, and otherwise it appends the bytes of the
command and counts it. -/
theorem call_eq (r : Request) (c : Call) :
  match c.fields with
  | none => r.call c = r
  | some fields =>
      (r.call c).payload = r.payload ++ (commandValue fields).encode ∧
        (r.call c).commands = r.commands + 1 ∧
        (r.call c).expectedResponses
          = r.expectedResponses + if fields.headD [] ∈ pushCommands then 0 else 1
  := by
  have hcheck : ∀ (r : Request) (cmd : Bytes), (r.checkCmd cmd).expectedResponses
      = r.expectedResponses + if cmd ∈ pushCommands then 0 else 1 := by
    intro r cmd
    simp only [Request.checkCmd, hasResponse_iff]
    split <;> rfl
  have hheader : ∀ (fields : List Bytes) (payload : Bytes),
      addHeader payload .array fields.length ++ bulks fields
        = payload ++ (commandValue fields).encode := by
    intro fields payload
    simp [commandValue, Value.encode, addHeader, bulks]
  cases c with
  | push cmd args =>
      refine ⟨?_, rfl, by apply hcheck⟩
      have h := hheader (cmd :: args.map Arg.text) r.payload
      simp only [Request.call, Request.pushArgs, Request.checkCmd, foldl_toBulk,
        boostRedisToBulk_eq, List.append_assoc, ← bulks_append]
      rw [List.length_cons, List.length_map, Nat.add_comm] at h
      apply h
  | pushRangeKey cmd key range =>
      rw [Call.fields]
      by_cases hnil : range.texts = []
      · rw [if_pos hnil, Request.call, Request.pushRangeKey, Request.pushElementsKey]
        exact if_pos (range.texts_eq_nil_iff.mp hnil)
      · have hdist := mt range.texts_eq_nil_iff.mpr hnil
        rw [if_neg hnil, Request.call, Request.pushRangeKey, Request.pushElementsKey,
          Elements.distance, if_neg hdist]
        refine ⟨?_, rfl, by apply hcheck⟩
        have h := hheader (cmd :: key :: range.texts) r.payload
        simp only [Request.checkCmd, Elements.addBulks, Range.addBulks_eq, boostRedisToBulk_eq,
          List.append_assoc, ← bulks_append]
        rw [List.length_cons, List.length_cons, range.length_texts, Nat.add_assoc,
          Nat.add_comm] at h
        apply h
  | pushRange cmd range =>
      rw [Call.fields]
      by_cases hnil : range.texts = []
      · rw [if_pos hnil, Request.call, Request.pushRange, Request.pushElements]
        exact if_pos (range.texts_eq_nil_iff.mp hnil)
      · have hdist := mt range.texts_eq_nil_iff.mpr hnil
        rw [if_neg hnil, Request.call, Request.pushRange, Request.pushElements, Elements.distance,
          if_neg hdist]
        refine ⟨?_, rfl, by apply hcheck⟩
        have h := hheader (cmd :: range.texts) r.payload
        simp only [Request.checkCmd, Elements.addBulks, Range.addBulks_eq, boostRedisToBulk_eq,
          List.append_assoc, ← bulks_append]
        rw [List.length_cons, range.length_texts, Nat.add_comm] at h
        apply h

/-- The request after several calls: the bytes of its commands, and their numbers. -/
theorem foldl_call (calls : List Call) (r : Request) :
  (calls.foldl Request.call r).payload
      = r.payload
        ++ (calls.filterMap Call.fields).flatMap (fun fields => (commandValue fields).encode)
    ∧ (calls.foldl Request.call r).commands = r.commands + (calls.filterMap Call.fields).length
    ∧ (calls.foldl Request.call r).expectedResponses
      = r.expectedResponses
        + (calls.filterMap Call.fields).countP fun fields => fields.headD [] ∉ pushCommands
  := by
  induction calls generalizing r with
  | nil => simp
  | cons c calls ih =>
      obtain ⟨ih1, ih2, ih3⟩ := ih (r.call c)
      have hc := call_eq r c
      rw [List.foldl_cons, ih1, ih2, ih3]
      cases hf : c.fields with
      | none =>
          rw [hf] at hc
          rw [List.filterMap_cons_none hf, hc]
          exact ⟨rfl, rfl, rfl⟩
      | some fields =>
          rw [hf] at hc
          obtain ⟨h1, h2, h3⟩ := hc
          rw [List.filterMap_cons_some hf, h1, h2, h3, List.flatMap_cons, List.length_cons,
            List.countP_cons, List.append_assoc]
          refine ⟨rfl, by omega, ?_⟩
          by_cases hpush : fields.headD [] ∈ pushCommands
          · simp only [hpush, not_true_eq_false, decide_false, Bool.false_eq_true, ↓reduceIte,
              Nat.add_zero]
          · simp only [hpush, not_false_eq_true, decide_true, ↓reduceIte]
            omega

/-! ### Reading the payload -/

theorem wellFormedAll_bulks (fields : List Bytes) :
  Value.wellFormedAll (fields.map (.bulk .blobString)) = true
  := by
  induction fields with
  | nil => rfl
  | cons field fields ih =>
      rw [List.map_cons, Value.wellFormedAll, ih]
      rfl

theorem heightAll_bulks (fields : List Bytes) :
  Value.heightAll (fields.map (.bulk .blobString)) ≤ 1
  := by
  induction fields with
  | nil => apply Nat.zero_le
  | cons field fields ih =>
      rw [List.map_cons, Value.heightAll, Value.height]
      omega

theorem nodesAll_bulks (d : ℕ) (fields : List Bytes) :
  Value.nodesAll d (fields.map (.bulk .blobString))
    = fields.map fun field => ⟨.blobString, 1, d, field⟩
  := by
  induction fields with
  | nil => rfl
  | cons field fields ih =>
      rw [List.map_cons, Value.nodesAll, ih]
      rfl

/-- A command whose bytes can be counted is a message. -/
def commandMessage (fields : List Bytes) (h : (commandValue fields).encode.length < 2 ^ 64) :
    Message where
  value := commandValue fields
  wellFormed := by
    rw [commandValue, Value.wellFormed, wellFormedAll_bulks]
    simp [isAggregate, elementMultiplicity]
  height_le := by
    have := heightAll_bulks fields
    rw [commandValue, Value.height, maxEmbeddedDepth]
    omega
  length_lt := h

theorem nodes_commandMessage (fields : List Bytes)
    (h : (commandValue fields).encode.length < 2 ^ 64) :
  (commandMessage fields h).nodes = commandNodes fields
  := by
  simp only [Message.nodes, commandMessage, commandValue, Value.nodes, nodesAll_bulks]
  rfl

/-- Reading a message at the start of a view, and then the rest. -/
theorem readMessages_succ (m : Message) (s : Bytes) (n : ℕ) (h : (m.encode ++ s).length < 2 ^ 64) :
  readMessages (n + 1) (m.encode ++ s) = (readMessages n s).map (m.nodes :: ·)
  := by
  obtain ⟨q, hq, hd, hc⟩ := run_message m s h
  have hparse : parse .fresh (m.encode ++ s) accepting () = ⟨q, (), m.nodes, .done⟩ := by
    rw [parse_of_run (hq.mono Parser.ConsumesFit.toConsumes) (takes_accepting m.nodes),
      parse_of_done hd]
    simp [Parsed.prepend]
  have hdrop : (m.encode ++ s).drop q.consumed = s := by
    rw [hc, List.drop_left]
  obtain ⟨c, rest, hrest⟩ := List.exists_cons_of_ne_nil (encode_ne_nil m.value)
  have hcons : m.encode ++ s = c :: (rest ++ s) := by
    rw [Message.encode, hrest]
    rfl
  rw [hcons] at hparse hdrop ⊢
  simp only [readMessages, hparse, hdrop, ↓reduceIte]

/-- The bytes of several commands are read message by message. -/
theorem readMessages_commands :
  ∀ (commands : List (List Bytes)) (n : ℕ),
    (commands.flatMap fun fields => (commandValue fields).encode).length ≤ n →
    (commands.flatMap fun fields => (commandValue fields).encode).length < 2 ^ 64 →
    readMessages n (commands.flatMap fun fields => (commandValue fields).encode)
      = some (commands.map commandNodes)
  | [], n, _, _ => by cases n <;> rfl
  | fields :: commands, n, hn, hlen => by
      rw [List.flatMap_cons] at hn hlen ⊢
      have hsum := hlen
      rw [List.length_append] at hn hsum
      have hcmd : (commandValue fields).encode.length < 2 ^ 64 := by omega
      have hpos := List.length_pos_iff.mpr (encode_ne_nil (commandValue fields))
      obtain ⟨n, rfl⟩ : ∃ n', n = n' + 1 := ⟨n - 1, by omega⟩
      have hread := readMessages_succ (commandMessage fields hcmd) _ n hlen
      rw [nodes_commandMessage,
        readMessages_commands commands n (by omega) (by omega)] at hread
      apply hread

/-- What is sent is what was pushed: reading the payload of a request message by message gives
one array of blob strings for every call that adds a command, and the counters of the request
count the commands, and those that are answered by a response. -/
theorem readMessages_payload (r : Request) (calls : List Call)
    (hlen : (calls.foldl Request.call r.clear).payload.length < 2 ^ 64) :
  readMessages (calls.foldl Request.call r.clear).payload.length
      (calls.foldl Request.call r.clear).payload
    = some ((calls.filterMap Call.fields).map commandNodes) ∧
  (calls.foldl Request.call r.clear).commands = (calls.filterMap Call.fields).length ∧
  (calls.foldl Request.call r.clear).expectedResponses
    = (calls.filterMap Call.fields).countP fun fields => fields.headD [] ∉ pushCommands
  := by
  obtain ⟨hpayload, hcommands, hexpected⟩ := foldl_call calls r.clear
  rw [hcommands, hexpected]
  rw [hpayload] at hlen ⊢
  refine ⟨?_, Nat.zero_add _, Nat.zero_add _⟩
  apply readMessages_commands _ _ le_rfl hlen

/-- A command with an integer, one with a range of pairs, one with an empty range, and one that
is answered by a push. -/
theorem readMessages_payload_pairs :
  let calls : List Call := [.push (ascii "GET") [.int (-4)],
    .pushRangeKey (ascii "HSET") (ascii "key") (.pairs [(.bytes (ascii "a\r\n"), .int 1)]),
    .pushRange (ascii "DEL") (.singles []), .pushRange (ascii "SUBSCRIBE") (.singles [.int 7])]
  readMessages (calls.foldl Request.call (Request.clear {})).payload.length
      (calls.foldl Request.call (Request.clear {})).payload
    = some ((calls.filterMap Call.fields).map commandNodes) ∧
  (calls.foldl Request.call (Request.clear {})).commands = (calls.filterMap Call.fields).length ∧
  (calls.foldl Request.call (Request.clear {})).expectedResponses
    = (calls.filterMap Call.fields).countP fun fields => fields.headD [] ∉ pushCommands
  := readMessages_payload {} _ (by decide)

end Redis
