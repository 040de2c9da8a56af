import BoostRedis.Resp3.Value

/-!
# Requests

A request is a pipeline of commands: their bytes, how many there are, and how many responses
the server sends to them.  A command is added by `push`, with arguments that are given one by
one, or by `push_range`, with the elements of a range, with or without a key before them.
-/

namespace Redis

open Resp3

/-- The options of a request, `request::config`, with their defaults. -/
structure Config where
  cancelOnConnectionLost : Bool := true
  cancelIfNotConnected : Bool := false
  cancelIfUnresponded : Bool := true
  helloWithPriority : Bool := true
deriving DecidableEq, Repr

/-- The state of a `request`. -/
structure Request where
  config : Config := {}
  payload : Bytes := []
  commands : ℕ := 0
  expectedResponses : ℕ := 0
  hasHelloPriority : Bool := false
deriving DecidableEq, Repr

/-- `detail::has_response`: the commands whose answer is a push, so that no response is
expected. -/
def hasResponse (cmd : Bytes) : Bool :=
  cmd = ascii "SUBSCRIBE" || cmd = ascii "PSUBSCRIBE" || cmd = ascii "UNSUBSCRIBE"

namespace Request

/-- `request::check_cmd`. -/
def checkCmd (r : Request) (cmd : Bytes) : Request where
  config := r.config
  payload := r.payload
  commands := r.commands + 1
  expectedResponses := if hasResponse cmd then r.expectedResponses else r.expectedResponses + 1
  hasHelloPriority := if cmd = ascii "HELLO" then r.config.helloWithPriority else r.hasHelloPriority

/-- `request::clear`. -/
def clear (r : Request) : Request where
  config := r.config

end Request

/-! ### Arguments -/

/-- `std::to_string` of an integer. -/
def toText (n : ℤ) : Bytes :=
  if n < 0 then 45 :: Decimal.numeral n.natAbs else Decimal.numeral n.natAbs

/-- An argument of a command. -/
inductive Arg where
  | bytes (data : Bytes)
  | int (n : ℤ)
deriving DecidableEq, Repr

/-- `boost_redis_to_bulk` of an argument. -/
def Arg.toBulk (payload : Bytes) : Arg → Bytes
  | .bytes data => boostRedisToBulk payload data
  | .int n => boostRedisToBulk payload (toText n)

/-- A range of arguments, or of pairs of arguments. -/
inductive Range where
  | singles (elements : List Arg)
  | pairs (elements : List (Arg × Arg))

namespace Range

/-- The number of elements, `std::distance`. -/
def distance : Range → ℕ
  | .singles elements => elements.length
  | .pairs elements => elements.length

/-- The number of bulks of one element, `bulk_counter`. -/
def bulkCounter : Range → ℕ
  | .singles _ => 1
  | .pairs _ => 2

/-- The loop of `push_range`, with `add_bulk` of every element. -/
def addBulks (payload : Bytes) : Range → Bytes
  | .singles elements => elements.foldl Arg.toBulk payload
  | .pairs elements =>
      elements.foldl (fun payload e => Arg.toBulk (Arg.toBulk payload e.1) e.2) payload

end Range

/-- The elements of a range: arguments, pairs of arguments, or tuples with `m` components. -/
inductive Elements where
  | plain (range : Range)
  | tuples (m : ℕ) (elements : List (Vector Arg m))

namespace Elements

/-- The number of elements, `std::distance`. -/
def distance : Elements → ℕ
  | .plain range => range.distance
  | .tuples _ elements => elements.length

/-- The number of bulks of one element, `bulk_counter`.  There is no case for tuples. -/
def bulkCounter : Elements → ℕ
  | .plain range => range.bulkCounter
  | .tuples _ _ => 1

/-- The loop of `push_range`, with `add_bulk` of every element. -/
def addBulks (payload : Bytes) : Elements → Bytes
  | .plain range => range.addBulks payload
  | .tuples _ elements =>
      elements.foldl (fun payload e => e.toList.foldl Arg.toBulk payload) payload

end Elements

/-! ### Commands -/

namespace Request

/-- `request::push`, for a command and arguments of any type. -/
def pushArgs (r : Request) (cmd : Bytes) (args : List Arg) : Request :=
  let payload := addHeader r.payload .array (1 + args.length)
  let payload := boostRedisToBulk payload cmd
  let payload := args.foldl Arg.toBulk payload
  checkCmd { r with payload := payload } cmd

/-- `request::push` with arguments that are strings. -/
def push (r : Request) (cmd : Bytes) (args : List Bytes) : Request :=
  r.pushArgs cmd (args.map .bytes)

/-- `request::push_range` with a key. -/
def pushElementsKey (r : Request) (cmd key : Bytes) (es : Elements) : Request :=
  if es.distance = 0 then r
  else
    let payload := addHeader r.payload .array (2 + es.bulkCounter * es.distance)
    let payload := boostRedisToBulk payload cmd
    let payload := boostRedisToBulk payload key
    checkCmd { r with payload := es.addBulks payload } cmd

/-- `request::push_range` without a key. -/
def pushElements (r : Request) (cmd : Bytes) (es : Elements) : Request :=
  if es.distance = 0 then r
  else
    let payload := addHeader r.payload .array (1 + es.bulkCounter * es.distance)
    let payload := boostRedisToBulk payload cmd
    checkCmd { r with payload := es.addBulks payload } cmd

/-- `request::push_range` with a key, for arguments or pairs of arguments. -/
def pushRangeKey (r : Request) (cmd key : Bytes) (range : Range) : Request :=
  r.pushElementsKey cmd key (.plain range)

/-- `request::push_range` without a key, for arguments or pairs of arguments. -/
def pushRange (r : Request) (cmd : Bytes) (range : Range) : Request :=
  r.pushElements cmd (.plain range)

end Request

/-- A call that adds a command to a request. -/
inductive Call where
  | push (cmd : Bytes) (args : List Arg)
  | pushRangeKey (cmd key : Bytes) (range : Range)
  | pushRange (cmd : Bytes) (range : Range)

/-- The request after a call. -/
def Request.call (r : Request) : Call → Request
  | .push cmd args => r.pushArgs cmd args
  | .pushRangeKey cmd key range => r.pushRangeKey cmd key range
  | .pushRange cmd range => r.pushRange cmd range

end Redis
