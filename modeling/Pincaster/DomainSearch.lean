import Pincaster.DomainRecords
/-!
# DomainSearch — `domain_search.c`: the search requests
-/
namespace Pincaster

open Lib (Bytes bytes cstr strchr caseEq strtol strtoul)

variable {D : Type} [Dimension D]

def DEFAULT_SEARCH_LIMIT : Nat := 250

/-- An option that is a number; `none` is the `-1` of the callback. -/
def optNumber {α : Type} (read : Bytes → α × Bytes) (svalue : Bytes) : Option α :=
  let (v, endptr) := read svalue
  if endptr = svalue then none else some v

def searchOptParseCb (context : SearchOptions D) (key value : Bytes) : Option (Int × SearchOptions D) :=
  let svalue := skipSpaces (cstr value)
  let store {α : Type} (v : Option α) (set : α → SearchOptions D) : Option (Int × SearchOptions D) :=
    match v with
    | none => some (-1, context)
    | some v => some (0, set v)
  if svalue = [] then some (0, context)
  else if binvalIsEqualToConstString key (bytes "radius") then
    store ((Dimension.strtod svalue).bind (fun (radius, _) =>
      if Dimension.lt radius (Dimension.ofInt 0 : D) then none else some radius)) (fun radius => { context with radius })
  else if binvalIsEqualToConstString key (bytes "limit") then
    store ((optNumber (strtoul 10) svalue).bind (fun limit => if limit ≤ 0 then none else some limit))
      (fun limit => { context with limit })
  else if binvalIsEqualToConstString key (bytes "epsilon") then
    store ((Dimension.strtod svalue).bind (fun (epsilon, _) =>
      if Dimension.le epsilon (Dimension.ofInt 0 : D) then none else some epsilon))
      (fun epsilon => { context with epsilon })
  else if binvalIsEqualToConstString key (bytes "properties") then
    store (optNumber (strtoul 10) svalue) (fun v => { context with withProperties := v ≠ 0 })
  else if binvalIsEqualToConstString key (bytes "content") then
    store (optNumber (strtoul 10) svalue) (fun v => { context with withContent := v ≠ 0 })
  else if binvalIsEqualToConstString key (bytes "links") then
    store (optNumber (strtol 10) svalue) (fun v => { context with withLinks := v > 0 })
  else some (0, context)

/-- `untangle_rect`: the latitudes are not exchanged, the larger one is only read and written back. -/
def untangleRect (rect : Rectangle2D D) : Rectangle2D D :=
  let rect :=
    if Dimension.lt rect.edge1.latitude rect.edge0.latitude then
      let tmp := rect.edge0.latitude
      let rect := { rect with edge0 := { rect.edge0 with latitude := rect.edge1.latitude } }
      { rect with edge0 := { rect.edge0 with latitude := tmp } }
    else rect
  if Dimension.lt rect.edge1.longitude rect.edge0.longitude then
    let tmp := rect.edge0.longitude
    let rect := { rect with edge0 := { rect.edge0 with longitude := rect.edge1.longitude } }
    { rect with edge1 := { rect.edge1 with longitude := tmp } }
  else rect

/-- One coordinate of a query up to its comma, and what follows the comma. -/
def queryCoordinate (query : Bytes) : Option (D × Bytes) := do
  let (value, sep) ← if query = [] then none else strchr query 44
  let sep := skipSpaces sep
  if sep = [] then none
  else (Dimension.strtod value).map (fun (d, _) => (d, sep))

/-- The position a search is about. -/
def nearbyQuery (query : Bytes) : Option (Position2D D) := do
  let (latitude, sep) ← queryCoordinate query
  let (longitude, _) ← Dimension.strtod sep
  some ⟨latitude, longitude⟩

/-- The rectangle a search is about. -/
def inRectQuery (query : Bytes) : Option (Rectangle2D D) := do
  let (latitude0, query) ← queryCoordinate query
  let (longitude0, query) ← queryCoordinate query
  let (latitude1, query) ← queryCoordinate query
  let (longitude1, _) ← Dimension.strtod query
  some ⟨⟨latitude0, longitude0⟩, ⟨latitude1, longitude1⟩⟩

/-- Queues the search when its query could be read; `op_tid` is taken before the query is read. -/
def queueSearch (context : HttpHandlerContext D) (req : EvhttpRequest) (fakeReq : Bool) (body : Option (OpBody D)) :
    Option (HandlerResult D) :=
  match body with
  | none => some ⟨HTTP_BADREQUEST, { context with opTid := context.opTid + 1 }, req, false⟩
  | some body => queueOp context req fakeReq body false

def searchOp (context : HttpHandlerContext D) (req : EvhttpRequest) (fakeReq : Bool) (layerName : Key)
    (searchType query : Bytes) (options : SearchOptions D) : Option (HandlerResult D) :=
  if caseEq searchType (bytes "nearby") then
    queueSearch context req fakeReq ((nearbyQuery query).map (.searchNearby layerName · options))
  else if caseEq searchType (bytes "in_rect") then
    queueSearch context req fakeReq
      ((inRectQuery query).map (fun rect => .searchInRect layerName (untangleRect rect) options))
  else if caseEq searchType (bytes "keys") then
    if query = [] then some ⟨HTTP_BADREQUEST, context, req, false⟩
    else (newKeyFromCString query).bind (fun pattern =>
      queueOp context req fakeReq (.searchInKeys layerName pattern options) false)
  else some ⟨HTTP_NOTFOUND, context, req, false⟩

def handleDomainSearch (req : EvhttpRequest) (context : HttpHandlerContext D) (uri : Bytes) (opts : Option Bytes)
    (fakeReq : Bool) : Option (HandlerResult D) :=
  if req.type ≠ EVHTTP_REQ_GET then some ⟨HTTP_NOTFOUND, context, req, false⟩
  else match strchr uri 47 with
    | none => some ⟨HTTP_NOTFOUND, context, req, false⟩
    | some ([], _) => some ⟨HTTP_SERVUNAVAIL, context, req, false⟩
    | some (layer, sep) => do
      let layerName ← newKeyFromCString layer
      match strchr sep 47 with
      | none => some ⟨HTTP_NOTFOUND, context, req, false⟩
      | some (_, []) => some ⟨HTTP_NOTFOUND, context, req, false⟩
      | some (searchType, query) => do
        let (ret, options) ← parseOpts opts searchOptParseCb
          ⟨Dimension.ofInt 0, DEFAULT_SEARCH_LIMIT, Dimension.ofInt (-1), true, true, false⟩
        if ret ≠ 0 then some ⟨HTTP_BADREQUEST, context, req, false⟩
        else searchOp context req fakeReq layerName searchType query options

end Pincaster
