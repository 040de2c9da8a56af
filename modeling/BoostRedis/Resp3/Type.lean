import Mathlib.Data.Nat.Notation

/-!
# RESP3 data types, nodes and error codes

The wire types of RESP3 with their codes, the nodes a reply is delivered as, and the error
codes the client reports.
-/

namespace Resp3

/-- A string of bytes, `std::string` and `std::string_view` in the source. -/
abbrev Bytes := List UInt8

/-- The bytes of an ASCII text. -/
def ascii (s : String) : Bytes :=
  s.toList.map fun c => UInt8.ofNat c.toNat

/-- RESP3 data types, `resp3::type` in the source. -/
inductive DataType where
  | array
  | push
  | set
  | map
  | attribute
  | simpleString
  | simpleError
  | number
  | doublean
  | boolean
  | bigNumber
  | null
  | blobError
  | verbatimString
  | blobString
  | streamedString
  | streamedStringPart
  | invalid
deriving DecidableEq, Repr

/-- Whether the data type is an aggregate. -/
def isAggregate : DataType → Bool
  | .array | .push | .set | .map | .attribute => true
  | _ => false

/-- The number of elements one unit of an aggregate's size stands for: two for maps and
attributes, one for all other types. -/
def elementMultiplicity : DataType → ℕ
  | .map | .attribute => 2
  | _ => 1

theorem elementMultiplicity_pos (t : DataType) :
  0 < elementMultiplicity t
  := by
  cases t <;> decide

/-- The wire code of a type.  The types without a code hit an assertion in the source,
which answers with a blank when assertions are off. -/
def toCode : DataType → UInt8
  | .blobError => 33
  | .verbatimString => 61
  | .blobString => 36
  | .streamedStringPart => 59
  | .simpleError => 45
  | .number => 58
  | .doublean => 44
  | .boolean => 35
  | .bigNumber => 40
  | .simpleString => 43
  | .null => 95
  | .push => 62
  | .set => 126
  | .array => 42
  | .attribute => 124
  | .map => 37
  | .streamedString | .invalid => 32

/-- The type of a wire code. -/
def toType (c : UInt8) : DataType :=
  if c = 33 then .blobError
  else if c = 61 then .verbatimString
  else if c = 36 then .blobString
  else if c = 59 then .streamedStringPart
  else if c = 45 then .simpleError
  else if c = 58 then .number
  else if c = 44 then .doublean
  else if c = 35 then .boolean
  else if c = 40 then .bigNumber
  else if c = 43 then .simpleString
  else if c = 95 then .null
  else if c = 62 then .push
  else if c = 126 then .set
  else if c = 42 then .array
  else if c = 124 then .attribute
  else if c = 37 then .map
  else .invalid

/-- The types that have a wire code are read back from it. -/
theorem toType_toCode {t : DataType} (hs : t ≠ .streamedString) :
  toType (toCode t) = t
  := by
  revert hs
  cases t <;> decide

example : (ascii "!=$;-:,#(+_>~*|%").map toType
    = [.blobError, .verbatimString, .blobString, .streamedStringPart, .simpleError, .number,
      .doublean, .boolean, .bigNumber, .simpleString, .null, .push, .set, .array, .attribute,
      .map] := by
  decide

/-- A node of the response tree, `basic_node` in the source.  A default node is what the
parser returns when it has no node yet. -/
structure Node where
  dataType : DataType := .invalid
  aggregateSize : ℕ := 0
  depth : ℕ := 0
  value : Bytes := []
deriving DecidableEq, Repr

/-- The library's own errors, `redis::error` in the source. -/
inductive Error where
  | invalidDataType
  | notANumber
  | exceeedsMaxNestedDepth
  | unexpectedBoolValue
  | emptyField
  | expectsResp3SimpleType
  | expectsResp3Aggregate
  | expectsResp3Map
  | expectsResp3Set
  | nestedAggregateNotSupported
  | resp3SimpleError
  | resp3BlobError
  | incompatibleSize
  | notADouble
  | resp3Null
  | notConnected
  | resolveTimeout
  | connectTimeout
  | pongTimeout
  | sslHandshakeTimeout
  | syncReceivePushFailed
  | incompatibleNodeDepth
  | resp3Hello
deriving DecidableEq, Repr

/-- An error code that is set: one of the library, the `operation_aborted` of Asio, or the
value of some other category, which a user's adapter may report. -/
inductive ErrorCode where
  | redis (e : Error)
  | operationAborted
  | foreign (value : ℕ)
deriving DecidableEq, Repr

end Resp3
