import Mathlib.Algebra.Order.Ring.Rat
import Pincaster.SlipMap
import Pincaster.CQueue
import Pincaster.Lib.Decimal
import Pincaster.Geometry
/-!
# Requests — the requests, the operations and the state of the main thread

The records of `http_server.h` as far as the request path reads them.  `Dimension` is the arithmetic of the
coordinates: `float` and what `strtod` reads.
-/
namespace Pincaster

open Lib (Bytes bytes cstr strchr isspace caseEq ncaseEq strtol strtoul)

/-- What the code does with a coordinate.  `strtod` gives the number and `endptr`, and `none` when `endptr` is the
start. -/
class Dimension (D : Type) where
  ofInt : Int → D
  lt : D → D → Bool
  le : D → D → Bool
  eq : D → D → Bool
  strtod : Bytes → Option (D × Bytes)

/-- Exact coordinates, which are read from decimal numbers without an exponent: the instance of the runs on fixed inputs. -/
instance : Dimension ℚ where
  ofInt n := n
  lt a b := a < b
  le a b := a ≤ b
  eq a b := a = b
  strtod := Lib.strtodDecimal

/-- **Coordinates are compared as numbers.** -/
class ExactDimension (D : Type) [LinearOrder D] [Dimension D] : Prop where
  lt_eq (a b : D) : Dimension.lt a b = decide (a < b)
  le_eq (a b : D) : Dimension.le a b = decide (a ≤ b)
  eq_eq (a b : D) : Dimension.eq a b = decide (a = b)

instance : ExactDimension ℚ := ⟨fun _ _ => rfl, fun _ _ => rfl, fun _ _ => rfl⟩

variable {D : Type}

/-! ## Operations -/

/-- The bytes of a key, the terminating NUL included. -/
abbrev Key := Bytes

/-- `new_key_from_c_string`, which asserts that the string is not empty. -/
def newKeyFromCString (ckey : Bytes) : Option Key := if 0 < (cstr ckey).length then some (cstr ckey ++ [0]) else none

structure RecordsPutOp (D : Type) where
  layerName : Key
  key : Key
  position : Position2D D
  positionSet : Bool
  properties : Option SlipMap
  specialProperties : Option SlipMap
  expiresAt : Int

structure SearchOptions (D : Type) where
  radius : D
  limit : Nat
  epsilon : D
  withProperties : Bool
  withContent : Bool
  withLinks : Bool

inductive OpBody (D : Type) where
  | systemPing
  | layersCreate (layerName : Key)
  | layersDelete (layerName : Key)
  | layersIndex
  | recordsPut (op : RecordsPutOp D)
  | recordsGet (layerName key : Key) (withLinks : Bool)
  | recordsDelete (layerName key : Key)
  | searchNearby (layerName : Key) (position : Position2D D) (options : SearchOptions D)
  | searchInRect (layerName : Key) (rect : Rectangle2D D) (options : SearchOptions D)
  | searchInKeys (layerName pattern : Key) (options : SearchOptions D)

structure Op (D : Type) where
  fakeReq : Bool
  opTid : Nat
  body : OpBody D

/-- The operations that change the store. -/
def OpBody.mutates : OpBody D → Bool
  | .layersCreate _ | .layersDelete _ | .recordsPut _ | .recordsDelete _ _ => true
  | _ => false

/-! ## Requests -/

def EVHTTP_REQ_GET : Nat := 1
def EVHTTP_REQ_POST : Nat := 2
def EVHTTP_REQ_PUT : Nat := 8
def EVHTTP_REQ_DELETE : Nat := 16

def HTTP_OK : Int := 200
def HTTP_NOCONTENT : Int := 204
def HTTP_NOTMODIFIED : Int := 304
def HTTP_BADREQUEST : Int := 400
def HTTP_NOTFOUND : Int := 404
def HTTP_SERVUNAVAIL : Int := 503

/-- A request: `type` is its verb, and `replies` are the statuses sent for it so far. -/
structure EvhttpRequest where
  type : Nat
  inputBuffer : Bytes
  replies : List Int

def evhttpSendReply (req : EvhttpRequest) (code : Int) : EvhttpRequest := { req with replies := req.replies ++ [code] }

/-- The journal, of bytes or of records.  `dbLogFd` is the file behind the descriptor, `none` for a descriptor of -1, and
`dbLogOffset` its file offset; the file is open for appending, so that a write leaves the offset at the end. -/
structure DBLog (α : Type) where
  dbLogFileName : Option Bytes
  dbLogFd : Option (List α)
  dbLogOffset : Nat
  logBuffer : List α
  journalBufferSize : Nat
  fsyncPeriod : Int
  journalRewriteProcess : Option Nat
  offsetBeforeFork : Option Nat
  lastTs : Int

/-- The state of the main thread.  `slavesOut` is what the active slaves were sent, and `rewriteReplies` are the replies it
published itself, those that say that a rewrite has started, by their `op_tid`. -/
structure HttpHandlerContext (D : Type) where
  now : Int
  opTid : Nat
  cqueue : CQueue (Op D)
  dbLog : DBLog UInt8
  encodedApiBaseUri : Bytes
  shouldExit : Bool
  thrWorkers : Bool
  loopExit : Bool
  activeSlaves : Nat
  slavesOut : Bytes
  rewriteReplies : List Nat

/-- What a domain handler leaves: the number it returns, the context, the request and `*write_to_log`. -/
structure HandlerResult (D : Type) where
  ret : Int
  context : HttpHandlerContext D
  req : EvhttpRequest
  writeToLog : Bool

/-- The end of every branch of a handler that queues an operation: a new `op_tid`, the push under the lock of the queue,
and `HTTP_SERVUNAVAIL` when it is full. -/
def queueOp (context : HttpHandlerContext D) (req : EvhttpRequest) (fakeReq : Bool) (body : OpBody D)
    (writeToLog : Bool) : Option (HandlerResult D) := do
  let opTid := context.opTid + 1
  let (cqueue, ret) ← pushCqueue context.cqueue ⟨fakeReq, opTid, body⟩
  if ret ≠ 0 then some ⟨HTTP_SERVUNAVAIL, { context with opTid, cqueue }, req, false⟩
  else some ⟨0, { context with opTid, cqueue }, req, writeToLog⟩

/-- `skip_spaces`. -/
def skipSpaces (str : Bytes) : Bytes := str.dropWhile isspace

/-- `BINVAL_IS_EQUAL_TO_CONST_STRING`. -/
def binvalIsEqualToConstString (bv s : Bytes) : Bool := bv.length = s.length && ncaseEq bv s s.length

end Pincaster
