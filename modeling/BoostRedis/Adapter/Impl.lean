import BoostRedis.Resp3.Parser
import Mathlib.Data.List.Basic

/-!
# Adapters of the supported types

An adapter is given the nodes of a reply one after the other, and puts them into a response.
Here are the adapters of simple types and of the containers, `*_impl` in the source, over the
conversion of a node to an element, `boost_redis_from_bulk`.

A container is the list of its elements in the order of insertion.  The order in which an
associative container iterates is not modelled, and neither is the capacity of a vector, except
that no more can be reserved than the container can hold.
-/

namespace Redis

open Resp3

/-- How a call of an adapter may fail to return: `value` of a result that holds an error throws a
`system_error`, `at` and `reserve` throw, an assertion fails, an iterator that points to no element
is used, an array is accessed past its end, or an `int` is counted past its greatest value. -/
inductive Thrown where
  | systemError
  | outOfRange
  | lengthError
  | assertion
  | badIterator
  | badIndex
  | overflow
deriving DecidableEq, Repr

/-- What a call of an adapter leaves, if it returns: its state, and the error it sets, if any. -/
abbrev Fed (σ : Type) := Except Thrown (σ × Option ErrorCode)

/-! ### Elements -/

/-- A type that a node is converted to: its initial value `T{}` and `boost_redis_from_bulk`. -/
class FromBulk (T : Type) where
  initial : T
  fromBulk : Node → T → T × Option ErrorCode

/-- A string: the value of the node is appended. -/
instance : FromBulk Bytes where
  initial := []
  fromBulk nd s := (s ++ nd.value, none)

/-- A boolean: whether the value of the node begins with `t`.  The source reads the first byte
unchecked, so if the value is empty it reads what stands behind it, or a null pointer.  Here an empty
value is not `t`. -/
instance : FromBulk Bool where
  initial := false
  fromBulk nd _ := (nd.value.headD 0 = 116, none)

/-- The least value of an integer type. -/
def minValue (signed : Bool) (width : ℕ) : ℤ := if signed then -2 ^ (width - 1) else 0

/-- The greatest value of an integer type. -/
def maxValue (signed : Bool) (width : ℕ) : ℤ :=
  if signed then 2 ^ (width - 1) - 1 else 2 ^ width - 1

/-- An integer type, with or without a sign. -/
structure Integral (signed : Bool) (width : ℕ) where
  value : ℤ
  min_le : minValue signed width ≤ value
  le_max : value ≤ maxValue signed width
deriving DecidableEq

/-- The integer zero. -/
def Integral.zero (signed : Bool) (width : ℕ) : Integral signed width where
  value := 0
  min_le := by
    rw [minValue]
    split <;> simp
  le_max := by
    rw [maxValue]
    split <;> linarith [one_le_pow₀ (n := width - 1) (one_le_two (α := ℤ)),
      one_le_pow₀ (n := width) (one_le_two (α := ℤ))]

/-- The number at the start of a text, as `std::from_chars` reads it: a minus, for a type with a
sign, and digits.  What comes after them is left alone. -/
def fromChars (signed : Bool) (text : Bytes) : Option ℤ :=
  let negative := signed && text.head? = some 45
  let run := Decimal.digitRun (if negative then text.drop 1 else text)
  if run = [] then none
  else some (if negative then -Decimal.value run else Decimal.value run)

/-- An integer: it is left as it is if the node is no number, or one that does not fit. -/
instance {signed : Bool} {width : ℕ} : FromBulk (Integral signed width) where
  initial := .zero signed width
  fromBulk nd i :=
    match fromChars signed nd.value with
    | none => (i, some (.redis .notANumber))
    | some z =>
        if h : minValue signed width ≤ z ∧ z ≤ maxValue signed width then (⟨z, h.1, h.2⟩, none)
        else (i, some (.redis .notANumber))

/-- A floating-point type, over what `std::from_chars` reads for it. -/
@[reducible]
def floatingPoint {D : Type} (zero : D) (fromChars : Bytes → Option D) : FromBulk D where
  initial := zero
  fromBulk nd d :=
    match fromChars nd.value with
    | none => (d, some (.redis .notADouble))
    | some d => (d, none)

/-- An optional: a null leaves it as it is. -/
instance {T : Type} [FromBulk T] : FromBulk (Option T) where
  initial := none
  fromBulk nd op :=
    if nd.dataType ≠ .null then
      let (t, ec) := FromBulk.fromBulk nd (FromBulk.initial : T)
      (some t, ec)
    else (op, none)

/-! ### Containers -/

/-- An adapter that fills a value of type `V`, with the members it has. -/
structure Impl (V : Type) where
  State : Type
  initial : V
  start : State
  onValueAvailable : State → State
  feed : Node → V × State → Fed (V × State)

/-- Whether a key can be in an associative container more than once. -/
inductive Multiplicity where
  | unique
  | multi
deriving DecidableEq, Repr

/-- The iterator `current_` of `map_impl`. -/
inductive Cursor where
  | singular
  | stop
  | at (i : ℕ)
deriving DecidableEq, Repr

section Containers

variable {T K V : Type} [FromBulk T] [FromBulk K] [DecidableEq K] [FromBulk V]

/-- `simple_impl`. -/
def simpleImpl (T : Type) [FromBulk T] : Impl T where
  State := Unit
  initial := FromBulk.initial
  start := ()
  onValueAvailable s := s
  feed nd s :=
    if isAggregate nd.dataType then .ok (s, some (.redis .expectsResp3SimpleType))
    else
      let (t, ec) := FromBulk.fromBulk nd s.1
      .ok ((t, ()), ec)

/-- The insertion of a key.  The hint does not matter for what is inserted. -/
def insertKey (mult : Multiplicity) (k : K) (keys : List K) : List K :=
  match mult with
  | .unique => if k ∈ keys then keys else keys ++ [k]
  | .multi => keys ++ [k]

/-- `set_impl`, for sets and multisets.  Its state tells whether `hint_` has been set. -/
def setImpl (mult : Multiplicity) (K : Type) [FromBulk K] [DecidableEq K] : Impl (List K) where
  State := Bool
  initial := []
  start := false
  onValueAvailable _ := true
  feed nd s :=
    if isAggregate nd.dataType then
      .ok (s, if nd.dataType ≠ .set then some (.redis .expectsResp3Set) else none)
    else if nd.aggregateSize ≠ 1 then .error .assertion
    else if nd.depth < 1 then .ok (s, some (.redis .expectsResp3Set))
    else if s.2 = false then .error .badIterator
    else
      let (k, ec) := FromBulk.fromBulk nd (FromBulk.initial : K)
      .ok ((insertKey mult k s.1, true), ec)

/-- The insertion of a key with an initial value, and where it is. -/
def insertPair (mult : Multiplicity) (k : K) (pairs : List (K × V)) : List (K × V) × ℕ :=
  match mult, pairs.findIdx? (·.1 = k) with
  | .unique, some i => (pairs, i)
  | _, _ => (pairs ++ [(k, FromBulk.initial)], pairs.length)

/-- `map_impl`, for maps and multimaps, with `current_` and `on_key_`. -/
def mapImpl (mult : Multiplicity) (K V : Type) [FromBulk K] [DecidableEq K] [FromBulk V] :
    Impl (List (K × V)) where
  State := Cursor × Bool
  initial := []
  start := (.singular, true)
  onValueAvailable s := (.stop, s.2)
  feed nd s :=
    let (pairs, current, onKey) := s
    if isAggregate nd.dataType then
      .ok (s, if elementMultiplicity nd.dataType ≠ 2 then some (.redis .expectsResp3Map) else none)
    else if nd.aggregateSize ≠ 1 then .error .assertion
    else if nd.depth < 1 then .ok (s, some (.redis .expectsResp3Map))
    else if onKey then
      if current = .singular then .error .badIterator
      else
        let (k, ec) := FromBulk.fromBulk nd (FromBulk.initial : K)
        let (pairs, i) := insertPair mult k pairs
        .ok ((pairs, .at i, false), ec)
    else
      match current with
      | .singular | .stop => .error .badIterator
      | .at i =>
          let (v, ec) := FromBulk.fromBulk nd (FromBulk.initial : V)
          .ok ((pairs.modify i fun p => (p.1, v), current, true), ec)

/-- `vector_impl`, for vectors with at most `maxSize` elements. -/
def vectorImpl (maxSize : ℕ) (T : Type) [FromBulk T] : Impl (List T) where
  State := Unit
  initial := []
  start := ()
  onValueAvailable s := s
  feed nd s :=
    if isAggregate nd.dataType then
      if maxSize < (s.1.length + elementMultiplicity nd.dataType * nd.aggregateSize) % 2 ^ 64 then
        .error .lengthError
      else .ok (s, none)
    else
      let (t, ec) := FromBulk.fromBulk nd (FromBulk.initial : T)
      .ok ((s.1 ++ [t], ()), ec)

/-- The greatest `int`. -/
def intMax : ℤ := 2 ^ 31 - 1

/-- `array_impl`, for arrays of `n` elements, with `i_`, which is an `int`. -/
def arrayImpl (n : ℕ) (T : Type) [FromBulk T] : Impl (List T) where
  State := ℤ
  initial := List.replicate n FromBulk.initial
  start := -1
  onValueAvailable s := s
  feed nd s :=
    let (elements, i) := s
    if isAggregate nd.dataType then
      if i ≠ -1 then .ok (s, some (.redis .nestedAggregateNotSupported))
      else if elements.length ≠ nd.aggregateSize * elementMultiplicity nd.dataType % 2 ^ 64 then
        .ok (s, some (.redis .incompatibleSize))
      else .ok ((elements, i + 1), none)
    else if i = -1 then .ok (s, some (.redis .expectsResp3Aggregate))
    else if nd.aggregateSize ≠ 1 then .error .assertion
    else
      match elements[i.toNat]? with
      | none => .error .outOfRange
      | some t =>
          let (t, ec) := FromBulk.fromBulk nd t
          if i = intMax then .error .overflow else .ok ((elements.set i.toNat t, i + 1), ec)

/-- `list_impl`, for lists and deques. -/
def listImpl (T : Type) [FromBulk T] : Impl (List T) where
  State := Unit
  initial := []
  start := ()
  onValueAvailable s := s
  feed nd s :=
    if isAggregate nd.dataType then .ok (s, none)
    else if nd.aggregateSize ≠ 1 then .error .assertion
    else if nd.depth < 1 then .ok (s, some (.redis .expectsResp3Aggregate))
    else
      let (t, ec) := FromBulk.fromBulk nd (FromBulk.initial : T)
      .ok ((s.1 ++ [t], ()), ec)

end Containers

end Redis
