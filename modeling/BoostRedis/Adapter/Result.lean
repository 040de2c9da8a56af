import BoostRedis.Adapter.Impl
import Mathlib.Data.Fin.Tuple.Basic
import Mathlib.Logic.Function.Basic

/-!
# Adapters of results and responses

A result holds a value or the error that was received in its place.  A `ResultAdapter` fills one
result, over an adapter for its value.  A `ResponseAdapter` fills the results of a response, one
for each command of a request.

An adapter of a tuple has an adapter for each element.  Here the elements are a family over
`Fin n`, in which the type of an element depends on its index.
-/

namespace Redis

open Resp3

/-- An error received in place of a value, `adapter::error`. -/
structure RespError where
  dataType : DataType
  diagnostic : Bytes
deriving DecidableEq, Repr

/-- A value or an error, `adapter::result`. -/
abbrev Result (V : Type) := Except RespError V

/-- An adapter that fills a result: the result when it is constructed, the adapter for a result,
`adapt`, and what the adapter does with a node. -/
structure ResultAdapter where
  Response : Type
  State : Type
  fresh : Response
  adapt : Response → Except Thrown State
  feed : Node → State → Fed State
  response : State → Response

/-- The members of a wrapper, and the result it points to. -/
structure WrapperState (V S : Type) where
  result : Result V
  impl : S
  calledOnce : Bool := false

/-- The error that a node is. -/
def RespError.ofNode (nd : Node) : RespError := ⟨nd.dataType, nd.value⟩

/-- The types of errors. -/
def isErrorType : DataType → Bool
  | .simpleError | .blobError => true
  | _ => false

/-! ### Results -/

/-- `wrapper<result<T>>`.  An error, or a null, is stored if it is the first node. -/
def wrapper {V : Type} (impl : Impl V) : ResultAdapter where
  Response := Result V
  State := WrapperState V impl.State
  fresh := .ok impl.initial
  adapt
    | .error _ => .error .systemError
    | .ok _ => .ok { result := .ok impl.initial, impl := impl.onValueAvailable impl.start }
  feed nd s :=
    match s.result with
    | .error _ => .ok (s, none)
    | .ok v =>
        if !s.calledOnce && (isErrorType nd.dataType || nd.dataType = .null) then
          .ok ({ s with result := .error (.ofNode nd), calledOnce := true }, none)
        else
          (impl.feed nd (v, s.impl)).map fun ((v, t), ec) =>
            ({ result := .ok v, impl := t, calledOnce := true }, ec)
  response s := s.result

/-- `wrapper<result<std::optional<T>>>`.  An error is stored wherever it is, and a null leaves
the result empty if it is the first node. -/
def optionalWrapper {V : Type} (impl : Impl V) : ResultAdapter where
  Response := Result (Option V)
  State := WrapperState (Option V) impl.State
  fresh := .ok none
  adapt r := .ok { result := r, impl := impl.start }
  feed nd s :=
    match s.result with
    | .error _ => .ok (s, none)
    | .ok o =>
        if isErrorType nd.dataType then .ok ({ s with result := .error (.ofNode nd) }, none)
        else if !s.calledOnce && nd.dataType = .null then .ok ({ s with calledOnce := true }, none)
        else
          let start :=
            match o with
            | none => (impl.initial, impl.onValueAvailable s.impl)
            | some v => (v, s.impl)
          (impl.feed nd start).map fun ((v, t), ec) =>
            ({ result := .ok (some v), impl := t, calledOnce := true }, ec)
  response s := s.result

/-- `general_simple`. -/
def generalSimple : ResultAdapter where
  Response := Result Node
  State := Result Node
  fresh := .ok {}
  adapt := .ok
  feed nd s :=
    if isErrorType nd.dataType then .ok (.error (.ofNode nd), none)
    else
      match s with
      | .error _ => .error .systemError
      | .ok _ => .ok (.ok nd, none)
  response s := s

/-- `general_aggregate`. -/
def generalAggregate : ResultAdapter where
  Response := Result (List Node)
  State := Result (List Node)
  fresh := .ok []
  adapt := .ok
  feed nd s :=
    if isErrorType nd.dataType then .ok (.error (.ofNode nd), none)
    else
      match s with
      | .error _ => .error .systemError
      | .ok nds => .ok (.ok (nds ++ [nd]), none)
  response s := s

/-- The error that is set for a response that is ignored. -/
def ignoredError (nd : Node) : Option ErrorCode :=
  match nd.dataType with
  | .simpleError => some (.redis .resp3SimpleError)
  | .blobError => some (.redis .resp3BlobError)
  | .null => some (.redis .resp3Null)
  | _ => none

/-- `adapter::ignore`. -/
def ignoreResult : ResultAdapter where
  Response := Unit
  State := Unit
  fresh := ()
  adapt := .ok
  feed nd s := .ok (s, ignoredError nd)
  response s := s

/-! ### Tuples -/

section Tuples

/-- `assigner`: the adapters of the elements, the last one first. -/
def assign : {n : ℕ} → (elements : Fin n → ResultAdapter) → (∀ k, (elements k).Response) →
    Except Thrown (∀ k, (elements k).State)
  | 0, _, _ => .ok fun k => k.elim0
  | _ + 1, elements, r =>
      match assign (fun k => elements k.succ) fun k => r k.succ with
      | .error t => .error t
      | .ok rest => ((elements 0).adapt (r 0)).map fun first => Fin.cons first rest

/-- A node is given to the adapter with some index. -/
def visit {n : ℕ} (elements : Fin n → ResultAdapter) (k : Fin n) (nd : Node)
    (s : ∀ k, (elements k).State) : Fed (∀ k, (elements k).State) :=
  ((elements k).feed nd (s k)).map fun (t, ec) => (Function.update s k t, ec)

/-- The members of `static_aggregate_adapter`. -/
structure TupleState {n : ℕ} (elements : Fin n → ResultAdapter) where
  i : ℕ := 0
  aggregateSize : ℕ := 0
  adapters : ∀ k, (elements k).State

variable {n : ℕ} {elements : Fin n → ResultAdapter}

/-- `static_aggregate_adapter::count`. -/
def TupleState.count (s : TupleState elements) (nd : Node) : TupleState elements :=
  let aggregateSize :=
    if nd.depth = 1 && isAggregate nd.dataType then
      elementMultiplicity nd.dataType * nd.aggregateSize % 2 ^ 64
    else s.aggregateSize
  if aggregateSize = 0 then { s with i := s.i + 1, aggregateSize := 0 }
  else { s with aggregateSize := aggregateSize - 1 }

/-- `static_aggregate_adapter`.  No error is ever stored as the result itself. -/
def staticAggregateAdapter {n : ℕ} (elements : Fin n → ResultAdapter) : ResultAdapter where
  Response := Result (∀ k, (elements k).Response)
  State := TupleState elements
  fresh := .ok fun k => (elements k).fresh
  adapt
    | .error _ => .error .systemError
    | .ok r => (assign elements r).map fun adapters => { adapters := adapters }
  feed nd s :=
    if nd.depth = 0 then
      let size := nd.aggregateSize * elementMultiplicity nd.dataType % 2 ^ 64
      .ok (s, if size ≠ n then some (.redis .incompatibleSize) else none)
    else if h : s.i < n then
      (visit elements ⟨s.i, h⟩ nd s.adapters).map fun (adapters, ec) =>
        (TupleState.count { s with adapters := adapters } nd, ec)
    else .error .badIndex
  response s := .ok fun k => (elements k).response (s.adapters k)

end Tuples

/-! ### Responses -/

/-- An adapter that fills a response.  It is given the index of the command that a node
answers. -/
structure ResponseAdapter where
  Response : Type
  State : Type
  fresh : Response
  adapt : Response → Except Thrown State
  feed : ℕ → Node → State → Fed State
  response : State → Response

/-- `static_adapter`, for `response<Ts...>`. -/
def staticAdapter {n : ℕ} (elements : Fin n → ResultAdapter) : ResponseAdapter where
  Response := ∀ k, (elements k).Response
  State := ∀ k, (elements k).State
  fresh k := (elements k).fresh
  adapt := assign elements
  feed i nd s := if h : i < n then visit elements ⟨i, h⟩ nd s else .error .assertion
  response s k := (elements k).response (s k)

/-- `vector_adapter`, for `generic_response`. -/
def vectorAdapter : ResponseAdapter where
  Response := generalAggregate.Response
  State := generalAggregate.State
  fresh := generalAggregate.fresh
  adapt := generalAggregate.adapt
  feed _ := generalAggregate.feed
  response := generalAggregate.response

/-- `ignore_adapter`. -/
def ignoreAdapter : ResponseAdapter where
  Response := Unit
  State := Unit
  fresh := ()
  adapt := .ok
  feed _ nd s := .ok (s, ignoredError nd)
  response s := s

namespace ResponseAdapter

variable (A : ResponseAdapter)

/-- The response as a request holds it, newly adapted. -/
def start : Except Thrown A.State := A.adapt A.fresh

/-- The adapter that a request is added with.  After a call that has not returned nothing
happens any more. -/
def toAdapter (i : ℕ) : Adapter (Except Thrown A.State)
  | _, .error t => (.error t, none)
  | nd, .ok s =>
      match A.feed i nd s with
      | .error t => (.error t, none)
      | .ok (s, ec) => (.ok s, ec)

/-- The response object, unless a call has not returned. -/
def value (s : Except Thrown A.State) : Except Thrown A.Response := s.map A.response

end ResponseAdapter

end Redis
