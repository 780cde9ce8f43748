import Pincaster.Requests
import Pincaster.QueryParser
/-!
# DomainRecords — `domain_records.c`: the requests on records

What `handle_domain_records` reads in the URI, the options and the body of a request, and the operation it queues.
-/
namespace Pincaster

open Lib (Bytes bytes cstr strchr strtol strtoul)

variable {D : Type} [Dimension D]

def INT_PROPERTY_COMMON_PREFIX : UInt8 := 95
def INT_PROPERTY_EXPIRES_AT : Bytes := bytes "_expires_at"
def INT_PROPERTY_POSITION : Bytes := bytes "_loc"
def PROPERTIES_DEFAULT_SLIP_MAP_BUFFER_SIZE : Nat := 32

/-- `(time_t)` of an `unsigned long`. -/
def toTimeT (n : Nat) : Int := Int.bmod n (2 ^ 64)

/-- The branch of `records_put_opt_parse_cb` for `_loc`. -/
def parsePosition (putOp : RecordsPutOp D) (value : Bytes) : Int × RecordsPutOp D :=
  let svalue := skipSpaces (cstr value)
  match if svalue = [] then none else strchr svalue 44 with
  | none => (-1, putOp)
  | some (svalue, sep) =>
    let sep := skipSpaces sep
    if sep = [] then (-1, putOp)
    else match Dimension.strtod svalue with
      | none => (-1, putOp)
      | some (latitude, _) => match Dimension.strtod sep with
        | none => (-1, putOp)
        | some (longitude, _) => (0, { putOp with position := ⟨latitude, longitude⟩, positionSet := true })

/-- The branch of `records_put_opt_parse_cb` for `_expires_at`. -/
def parseExpiresAt (putOp : RecordsPutOp D) (value : Bytes) : Int × RecordsPutOp D :=
  let svalue := skipSpaces (cstr value)
  if svalue = [] then (0, { putOp with expiresAt := 0 })
  else
    let (expiresAt, endptr) := strtoul 10 svalue
    (if endptr = svalue then -1 else 0, { putOp with expiresAt := toTimeT expiresAt })

/-- A property goes to a map made when the first one comes; what `replace_entry_in_slip_map` returns is not looked at.
The inner `none` is a map that could not be made. -/
def putProperty (properties : Option SlipMap) (key value : Bytes) : Option (Option SlipMap) := do
  let slipMap ← match properties with
    | none => newSlipMap PROPERTIES_DEFAULT_SLIP_MAP_BUFFER_SIZE
    | some slipMap => some (some slipMap)
  match slipMap with
  | none => some none
  | some slipMap => (replaceEntryInSlipMap slipMap key value).map (fun r => some r.1)

def recordsPutOptParseCb (putOp : RecordsPutOp D) (key value : Bytes) : Option (Int × RecordsPutOp D) :=
  if binvalIsEqualToConstString key INT_PROPERTY_POSITION then some (parsePosition putOp value)
  else if binvalIsEqualToConstString key INT_PROPERTY_EXPIRES_AT then some (parseExpiresAt putOp value)
  else match key with
    | [] => none
    | c :: _ =>
      if c = INT_PROPERTY_COMMON_PREFIX then
        (putProperty putOp.specialProperties key value).map (fun
          | none => (-1, putOp)
          | some slipMap => (0, { putOp with specialProperties := some slipMap }))
      else
        (putProperty putOp.properties key value).map (fun
          | none => (-1, putOp)
          | some slipMap => (0, { putOp with properties := some slipMap }))

def recordsOptParseCb (withLinks : Bool) (key value : Bytes) : Option (Int × Bool) :=
  let svalue := skipSpaces (cstr value)
  if svalue = [] then some (0, withLinks)
  else if binvalIsEqualToConstString key (bytes "links") then
    let (v, endptr) := strtol 10 svalue
    if endptr = svalue then some (-1, withLinks) else some (0, v > 0)
  else some (0, withLinks)

/-- How every branch of `handle_domain_records` starts: the name of the layer and the key, or a status. -/
def recordsUri (uri : Bytes) : Option (Except Int (Key × Key)) :=
  match strchr uri 47 with
  | none => some (.error HTTP_NOTFOUND)
  | some (layer, sep) => do
    let layerName ← newKeyFromCString layer
    if sep = [] then some (.error HTTP_NOTFOUND) else (newKeyFromCString sep).map (fun key => .ok (layerName, key))

/-- `query_parse` of the options, when there are some. -/
def parseOpts {σ : Type} (opts : Option Bytes) (cb : σ → Bytes → Bytes → Option (Int × σ)) (context : σ) :
    Option (Int × σ) :=
  match opts with
  | none => some (0, context)
  | some opts => queryParse opts cb context

/-- The operation of a PUT before its body is read. -/
def recordsPutOp (layerName key : Key) : RecordsPutOp D where
  layerName
  key
  position := ⟨Dimension.ofInt (-1), Dimension.ofInt (-1)⟩
  positionSet := false
  properties := none
  specialProperties := none
  expiresAt := 0

def recordsGet (context : HttpHandlerContext D) (req : EvhttpRequest) (opts : Option Bytes) (fakeReq : Bool)
    (layerName key : Key) : Option (HandlerResult D) := do
  let (ret, withLinks) ← parseOpts opts recordsOptParseCb false
  if ret ≠ 0 then some ⟨HTTP_BADREQUEST, context, req, false⟩
  else queueOp context req fakeReq (.recordsGet layerName key withLinks) false

/-- A PUT adds a NUL to its body and reads it as a C string. -/
def recordsPut (context : HttpHandlerContext D) (req : EvhttpRequest) (fakeReq : Bool) (layerName key : Key) :
    Option (HandlerResult D) := do
  let req := { req with inputBuffer := req.inputBuffer ++ [0] }
  let (ret, putOp) ← queryParse req.inputBuffer recordsPutOptParseCb (recordsPutOp layerName key)
  if ret ≠ 0 then some ⟨HTTP_BADREQUEST, { context with opTid := context.opTid + 1 }, req, false⟩
  else queueOp context req fakeReq (.recordsPut putOp) true

def handleDomainRecords (req : EvhttpRequest) (context : HttpHandlerContext D) (uri : Bytes) (opts : Option Bytes)
    (fakeReq : Bool) : Option (HandlerResult D) :=
  if req.type = EVHTTP_REQ_GET ∨ req.type = EVHTTP_REQ_PUT ∨ req.type = EVHTTP_REQ_DELETE then do
    match ← recordsUri uri with
    | .error ret => some ⟨ret, context, req, false⟩
    | .ok (layerName, key) =>
      if req.type = EVHTTP_REQ_GET then recordsGet context req opts fakeReq layerName key
      else if req.type = EVHTTP_REQ_PUT then recordsPut context req fakeReq layerName key
      else queueOp context req fakeReq (.recordsDelete layerName key) true
  else some ⟨HTTP_NOTFOUND, context, req, false⟩

end Pincaster
