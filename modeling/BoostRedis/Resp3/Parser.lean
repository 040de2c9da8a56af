import BoostRedis.General.Decimal
import BoostRedis.General.Separator
import BoostRedis.Resp3.Type

/-!
# The RESP3 parser

`Parser` is the state of `resp3::parser`: a stack of element counters with the index of its
top, the length and type of the bulk that is expected, and the number of bytes consumed.
`Parser.consume` reads one header, and the bulk after it if there is one, and `parse` repeats
it until the message is done, giving every node to an adapter.

Numbers of type `std::size_t` are natural numbers, reduced modulo `2 ^ 64` where the source
can wrap around.  What the source leaves undefined, or ends in `std::terminate`, is a `Fault`.
-/

namespace Resp3

/-- What ends the program or leaves its behaviour undefined: an `std::out_of_range` leaving
the `noexcept` function `parser::consume`, an access to `sizes_` past its end, and the access
`commit_elem` makes after decrementing a `depth_` that is zero. -/
inductive Fault where
  | outOfRange
  | sizesIndex (i : ℕ)
  | depthWrap
deriving DecidableEq, Repr

/-! ### Operations of the standard library -/

/-- Subtraction of `std::size_t`. -/
def subSize (m n : ℕ) : ℕ :=
  (m + (2 ^ 64 - n)) % 2 ^ 64

/-- The decrement of an `std::size_t`. -/
def predSize (n : ℕ) : ℕ :=
  subSize n 1

/-- `string_view::at`. -/
def charAt (view : Bytes) (pos : ℕ) : Except Fault UInt8 :=
  match view[pos]? with
  | some c => .ok c
  | none => .error .outOfRange

/-- `string_view::substr`, which cuts the count at the end of the view. -/
def substr (view : Bytes) (pos count : ℕ) : Except Fault Bytes :=
  if pos ≤ view.length then .ok ((view.drop pos).take count) else .error .outOfRange

/-- `string_view::find` of the separator `"\r\n"`, at or after a position. -/
def findSep (view : Bytes) (pos : ℕ) : Option ℕ :=
  (Separator.find 13 10 (view.drop pos)).map (pos + ·)

/-- `std::from_chars` into an `std::size_t`, as `to_int` calls it: the longest run of digits
at the start, refused if it is empty or its value does not fit.  What follows the digits is
not looked at. -/
def toInt (sv : Bytes) : Option ℕ :=
  let run := Decimal.digitRun sv
  if run = [] then none
  else if Decimal.value run < 2 ^ 64 then some (Decimal.value run) else none

/-! ### The state of the parser -/

/-- The state of `resp3::parser`.  The first entry of `sizes` is the sentinel. -/
structure Parser where
  depth : ℕ
  sizes : Vector ℕ 6
  bulkLength : ℕ
  bulk : DataType
  consumed : ℕ
deriving DecidableEq, Repr

/-- The entry of `sizes` at the bottom of the stack. -/
def sentinelSize (sizes : Vector ℕ 6) : ℕ := sizes[0]

/-- The deepest stack the parser supports, `max_embedded_depth`. -/
def maxEmbeddedDepth : ℕ := 5

namespace Parser

/-- The state after `reset`, which is also the initial one. -/
def fresh : Parser where
  depth := 0
  sizes := #v[2, 0, 0, 0, 0, 0]
  bulkLength := 2 ^ 64 - 1
  bulk := .invalid
  consumed := 0

/-- `parser::reset`. -/
def reset (_ : Parser) : Parser := fresh

/-- Whether a bulk is expected next. -/
def bulkExpected (p : Parser) : Bool :=
  p.bulk ≠ .invalid

/-- Whether the parser is done with the current message. -/
def done (p : Parser) : Bool :=
  p.depth = 0 ∧ p.bulk = .invalid ∧ p.consumed ≠ 0

/-- The buffer growth the reader asks for, given its own hint. -/
def getSuggestedBufferGrowth (p : Parser) (hint : ℕ) : ℕ :=
  if p.bulkExpected then
    if hint < (p.bulkLength + 2) % 2 ^ 64 then (p.bulkLength + 2) % 2 ^ 64 else hint
  else hint

/-- The assignment `sizes_[i] = n`. -/
def setSize (p : Parser) (i n : ℕ) : Except Fault Parser :=
  if h : i < 6 then .ok { p with sizes := p.sizes.set i n } else .error (.sizesIndex i)

/-- The loop of `commit_elem`: as long as the counter at the top is zero, the top is popped
and the counter below it decremented. -/
def unwind : ℕ → Vector ℕ 6 → Except Fault (ℕ × Vector ℕ 6)
  | 0, sizes => if sentinelSize sizes = 0 then .error .depthWrap else .ok (0, sizes)
  | d + 1, sizes =>
      if h : d + 1 < 6 then
        if sizes[d + 1] = 0 then unwind d (sizes.set d (predSize sizes[d]))
        else .ok (d + 1, sizes)
      else .error (.sizesIndex (d + 1))

/-- `parser::commit_elem`: counts one element as read. -/
def commitElem (p : Parser) : Except Fault Parser :=
  if h : p.depth < 6 then
    (unwind p.depth (p.sizes.set p.depth (predSize p.sizes[p.depth]))).map
      fun r => { p with depth := r.1, sizes := r.2 }
  else .error (.sizesIndex p.depth)

/-- The branch of `consume_impl` for the part of a streamed string.  A part of length zero
ends the string: the counter at the top is set to one and then counted down. -/
def consumePart (p : Parser) (elem : Bytes) : Except Fault (Parser × Except Error Node) :=
  match toInt elem with
  | none => .ok (p, .error .notANumber)
  | some 0 =>
      match setSize { p with bulkLength := 0 } p.depth 1 with
      | .error f => .error f
      | .ok q =>
          (commitElem { q with bulk := .invalid }).map
            fun q => (q, .ok ⟨.streamedStringPart, 1, p.depth, []⟩)
  | some (n + 1) =>
      .ok ({ p with bulkLength := n + 1, bulk := .streamedStringPart }, .ok {})

/-- The branch of `consume_impl` for bulk headers.  A length of `?` starts a streamed
string, which is read as an aggregate of the largest size there is. -/
def consumeBulkHeader (p : Parser) (t : DataType) (elem : Bytes) :
    Except Fault (Parser × Except Error Node) :=
  match charAt elem 0 with
  | .error f => .error f
  | .ok c =>
      if c = 63 then
        (setSize { p with depth := p.depth + 1 } (p.depth + 1) (2 ^ 64 - 1)).map
          fun q => (q, .ok ⟨.streamedString, 0, p.depth + 1, []⟩)
      else
        match toInt elem with
        | none => .ok (p, .error .notANumber)
        | some n => .ok ({ p with bulkLength := n, bulk := t }, .ok {})

/-- The part of `consume_impl` that returns the line itself as a node. -/
def consumeSimple (p : Parser) (t : DataType) (elem : Bytes) :
    Except Fault (Parser × Except Error Node) :=
  p.commitElem.map fun q => (q, .ok ⟨t, 1, p.depth, elem⟩)

/-- The branch of `consume_impl` for aggregates. -/
def consumeAggregate (p : Parser) (t : DataType) (elem : Bytes) :
    Except Fault (Parser × Except Error Node) :=
  match toInt elem with
  | none => .ok (p, .error .notANumber)
  | some 0 => p.commitElem.map fun q => (q, .ok ⟨t, 0, p.depth, []⟩)
  | some (n + 1) =>
      if p.depth = maxEmbeddedDepth then .ok (p, .error .exceeedsMaxNestedDepth)
      else
        (setSize { p with depth := p.depth + 1 } (p.depth + 1)
            ((n + 1) * elementMultiplicity t % 2 ^ 64)).map
          fun q => (q, .ok ⟨t, n + 1, p.depth, []⟩)

/-- `parser::consume_impl`: acts on one header line, given its type and its content. -/
def consumeImpl (p : Parser) (t : DataType) (elem : Bytes) :
    Except Fault (Parser × Except Error Node) :=
  match t with
  | .streamedStringPart => p.consumePart elem
  | .blobError | .verbatimString | .blobString => p.consumeBulkHeader t elem
  | .boolean =>
      match elem with
      | [] => .ok (p, .error .emptyField)
      | c :: _ =>
          if c ≠ 102 ∧ c ≠ 116 then .ok (p, .error .unexpectedBoolValue)
          else p.consumeSimple t elem
  | .doublean | .bigNumber | .number =>
      match elem with
      | [] => .ok (p, .error .emptyField)
      | _ :: _ => p.consumeSimple t elem
  | .simpleError | .simpleString | .null => p.consumeSimple t elem
  | .push | .set | .array | .attribute | .map => p.consumeAggregate t elem
  | .streamedString | .invalid => .ok (p, .error .invalidDataType)

/-- What `parser::consume` reports: it needs more data, it has a node, or `ec` is set. -/
inductive Outcome where
  | needsMore
  | node (nd : Node)
  | failed (ec : Error)
deriving DecidableEq, Repr

/-- The second half of `parser::consume`: reads the bulk that is expected. -/
def consumeBulk (p : Parser) (view : Bytes) : Except Fault (Parser × Outcome) :=
  let span := (p.bulkLength + 2) % 2 ^ 64
  if subSize view.length p.consumed < span then .ok (p, .needsMore)
  else
    match substr view p.consumed p.bulkLength with
    | .error f => .error f
    | .ok bulkView =>
        (commitElem { p with bulk := .invalid }).map fun q =>
          ({ q with consumed := p.consumed + span }, .node ⟨p.bulk, 1, p.depth, bulkView⟩)

/-- The first half of `parser::consume`: reads a header line that ends at `pos`, and goes on
to the bulk if the header announces one. -/
def consumeLine (p : Parser) (view : Bytes) (pos : ℕ) : Except Fault (Parser × Outcome) :=
  match charAt view p.consumed with
  | .error f => .error f
  | .ok c =>
      match substr view (p.consumed + 1) (subSize (subSize pos 1) p.consumed) with
      | .error f => .error f
      | .ok content =>
          match p.consumeImpl (toType c) content with
          | .error f => .error f
          | .ok (q, .error ec) => .ok (q, .failed ec)
          | .ok (q, .ok ret) =>
              if q.bulkExpected then consumeBulk { q with consumed := pos + 2 } view
              else .ok ({ q with consumed := pos + 2 }, .node ret)

/-- `parser::consume`: reads one header, and its bulk if it has one. -/
def consume (p : Parser) (view : Bytes) : Except Fault (Parser × Outcome) :=
  if p.bulkExpected then p.consumeBulk view
  else
    match findSep view p.consumed with
    | none => .ok (p, .needsMore)
    | some pos => p.consumeLine view pos

end Parser

/-! ### The parse loop -/

/-- An adapter with state `σ`: what it does with a node, and the error it sets, if any. -/
abbrev Adapter (σ : Type) := Node → σ → σ × Option ErrorCode

/-- How a call of `parse` ends: more data is needed, the message is done, the parser or the
adapter has set an error, or the program has faulted.  The last case is the bound of the loop
of the model, which is never reached. -/
inductive Status where
  | needsMore
  | done
  | failed (ec : Error)
  | rejected (ec : ErrorCode)
  | faulted (f : Fault)
  | exhausted
deriving DecidableEq, Repr

/-- The result of a call of `parse`: the parser and the adapter afterwards, the nodes the
adapter was given, and how the call ended. -/
structure Parsed (σ : Type) where
  parser : Parser
  state : σ
  nodes : List Node
  status : Status

/-- A result with more nodes in front. -/
def Parsed.prepend {σ : Type} (r : Parsed σ) (nodes : List Node) : Parsed σ :=
  { r with nodes := nodes ++ r.nodes }

/-- The loop of `parse`, for a bounded number of iterations. -/
def parseLoop {σ : Type} (adapter : Adapter σ) (view : Bytes) : ℕ → Parser → σ → Parsed σ
  | 0, p, s => ⟨p, s, [], .exhausted⟩
  | n + 1, p, s =>
      if p.done then ⟨p, s, [], .done⟩
      else
        match p.consume view with
        | .error f => ⟨p, s, [], .faulted f⟩
        | .ok (q, .failed ec) => ⟨q, s, [], .failed ec⟩
        | .ok (q, .needsMore) => ⟨q, s, [], .needsMore⟩
        | .ok (q, .node nd) =>
            match adapter nd s with
            | (s', some ec) => ⟨q, s', [nd], .rejected ec⟩
            | (s', none) => (parseLoop adapter view n q s').prepend [nd]

/-- `resp3::parse`: consumes the view until the message is done, more data is needed or an
error is set. -/
def parse {σ : Type} (p : Parser) (view : Bytes) (adapter : Adapter σ) (s : σ) : Parsed σ :=
  parseLoop adapter view (view.length + 2) p s

/-- The adapter that accepts every node. -/
def accepting : Adapter Unit := fun _ s => (s, none)

end Resp3
