import Pincaster.DomainRecords
/-!
# DomainLayers — `domain_layers.c`: the requests on layers
-/
namespace Pincaster

open Lib (Bytes bytes)

variable {D : Type}

/-- A layer is created and deleted by its name, which is what is left of the URI. -/
def layersUri (context : HttpHandlerContext D) (req : EvhttpRequest) (uri : Bytes) (fakeReq : Bool)
    (body : Key → OpBody D) : Option (HandlerResult D) :=
  if uri = [] then some ⟨HTTP_NOTFOUND, context, req, false⟩
  else do
    let layerName ← newKeyFromCString uri
    queueOp context req fakeReq (body layerName) true

def handleDomainLayers (req : EvhttpRequest) (context : HttpHandlerContext D) (uri : Bytes) (fakeReq : Bool) :
    Option (HandlerResult D) :=
  if req.type = EVHTTP_REQ_GET then
    if uri = bytes "index" then queueOp context req fakeReq .layersIndex false
    else some ⟨HTTP_NOTFOUND, context, req, false⟩
  else if req.type = EVHTTP_REQ_POST then layersUri context req uri fakeReq .layersCreate
  else if req.type = EVHTTP_REQ_DELETE then layersUri context req uri fakeReq .layersDelete
  else some ⟨HTTP_NOTFOUND, context, req, false⟩

end Pincaster
