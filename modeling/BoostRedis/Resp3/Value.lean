import BoostRedis.General.Decimal
import BoostRedis.Resp3.Parser

/-!
# RESP3 values and their encoding

`Value` is a RESP3 value, as a server sends it, and `Value.encode` its bytes, put together by
the functions the library itself serializes with.  `Value.nodes` is the traversal in pre-order
that a parser is meant to report, and `Value.height` the number of entries the value needs on
the depth stack of the parser.
-/

namespace Resp3

/-! ### Serialization -/

/-- The separator, `parser::sep`. -/
def sep : Bytes := [13, 10]

/-- `add_separator`. -/
def addSeparator (payload : Bytes) : Bytes :=
  payload ++ sep

/-- `add_header`. -/
def addHeader (payload : Bytes) (t : DataType) (size : ℕ) : Bytes :=
  payload ++ [toCode t] ++ Decimal.numeral size ++ sep

/-- `add_blob`. -/
def addBlob (payload : Bytes) (blob : Bytes) : Bytes :=
  payload ++ blob ++ sep

/-- `boost_redis_to_bulk`. -/
def boostRedisToBulk (payload : Bytes) (data : Bytes) : Bytes :=
  payload ++ [toCode .blobString] ++ Decimal.numeral data.length ++ sep ++ data ++ sep

/-! ### Values -/

/-- A RESP3 value: a line of a simple type, a bulk, a streamed string in parts, or an aggregate
with its declared size and its elements.  The elements of a map or an attribute are its keys
and values, in turn. -/
inductive Value where
  | simple (t : DataType) (content : Bytes)
  | bulk (t : DataType) (blob : Bytes)
  | streamed (parts : List Bytes)
  | aggregate (t : DataType) (size : ℕ) (elements : List Value)

/-- Whether a simple type can have a content: no separator in it, something in a number, and a
boolean that starts with `t` or `f`. -/
def simpleContent (t : DataType) (content : Bytes) : Bool :=
  decide (¬ sep <:+: content) &&
    match t with
    | .simpleString | .simpleError | .null => true
    | .number | .doublean | .bigNumber => decide (content ≠ [])
    | .boolean => decide (content.head? = some 116 ∨ content.head? = some 102)
    | _ => false

/-- The types whose content is a bulk. -/
def isBulk : DataType → Bool
  | .blobString | .blobError | .verbatimString => true
  | _ => false

/-- The bytes of one part of a streamed string. -/
def encodePart (part : Bytes) : Bytes :=
  addBlob (addHeader [] .streamedStringPart part.length) part

namespace Value

mutual

/-- Whether the types, the contents and the sizes of a value fit together. -/
def wellFormed : Value → Bool
  | .simple t content => simpleContent t content
  | .bulk t _ => isBulk t
  | .streamed parts => parts.all (· ≠ [])
  | .aggregate t size elements =>
      isAggregate t && elements.length = size * elementMultiplicity t && wellFormedAll elements

/-- Whether every value of a list is well formed. -/
def wellFormedAll : List Value → Bool
  | [] => true
  | v :: vs => v.wellFormed && wellFormedAll vs

end

mutual

/-- The bytes of a value. -/
def encode : Value → Bytes
  | .simple t content => addSeparator (toCode t :: content)
  | .bulk t blob => addBlob (addHeader [] t blob.length) blob
  | .streamed parts =>
      addSeparator [toCode .blobString, 63] ++ parts.flatMap encodePart ++
        addHeader [] .streamedStringPart 0
  | .aggregate t size elements => addHeader [] t size ++ encodeAll elements

/-- The bytes of several values. -/
def encodeAll : List Value → Bytes
  | [] => []
  | v :: vs => v.encode ++ encodeAll vs

end

mutual

/-- The nodes of a value at a given depth, in pre-order. -/
def nodes (depth : ℕ) : Value → List Node
  | .simple t content => [⟨t, 1, depth, content⟩]
  | .bulk t blob => [⟨t, 1, depth, blob⟩]
  | .streamed parts =>
      ⟨.streamedString, 0, depth + 1, []⟩ ::
        (parts ++ [[]]).map fun part => ⟨.streamedStringPart, 1, depth + 1, part⟩
  | .aggregate t size elements => ⟨t, size, depth, []⟩ :: nodesAll (depth + 1) elements

/-- The nodes of several values. -/
def nodesAll (depth : ℕ) : List Value → List Node
  | [] => []
  | v :: vs => v.nodes depth ++ nodesAll depth vs

end

mutual

/-- The number of entries a value needs on the depth stack. -/
def height : Value → ℕ
  | .simple _ _ | .bulk _ _ => 0
  | .streamed _ => 1
  | .aggregate _ _ elements => heightAll elements

/-- The number of entries that the elements of an aggregate need, with the one of the
aggregate itself.  An empty aggregate needs none. -/
def heightAll : List Value → ℕ
  | [] => 0
  | v :: vs => max (v.height + 1) (heightAll vs)

end

/-- The type of the first node of a value. -/
def dataType : Value → DataType
  | .simple t _ | .bulk t _ | .aggregate t _ _ => t
  | .streamed _ => .streamedString

/-- A value has a first node, of its type. -/
theorem exists_nodes_eq_cons (depth : ℕ) (v : Value) :
  ∃ nd nds, v.nodes depth = nd :: nds ∧ nd.dataType = v.dataType
  := by
  cases v with
  | simple | bulk | streamed | aggregate => exact ⟨_, _, rfl, rfl⟩

end Value

/-- A message: a well-formed value that fits on the depth stack of the parser, and whose bytes
can be counted by an `std::size_t`. -/
structure Message where
  value : Value
  wellFormed : value.wellFormed = true
  height_le : value.height ≤ maxEmbeddedDepth
  length_lt : value.encode.length < 2 ^ 64

namespace Message

/-- The bytes of a message. -/
def encode (m : Message) : Bytes := m.value.encode

/-- The nodes of a message. -/
def nodes (m : Message) : List Node := m.value.nodes 0

/-- Whether a message is a push. -/
def isPush (m : Message) : Bool := m.value.dataType = .push

end Message

end Resp3
