import Pincaster.DomainLayers
import Pincaster.DomainSearch
import Pincaster.DomainSystem
/-!
# HttpServer — `http_server.c`: from the URI of a request to its handler

`evhttp_decode_uri` is the one of libevent.  URIs are C strings, here without their NUL.
-/
namespace Pincaster

open Lib (Bytes bytes cstr strchr caseEq isxdigit strtol)

variable {D : Type} [Dimension D]

def MAX_URI_LEN : Nat := 10000

/-- `evhttp_decode_uri_internal`: a plus is a space once a question mark was seen. -/
def evhttpDecodeUriInternal : Bool → Bytes → Bytes
  | _, [] => []
  | decodePlus, c :: uri =>
    if c = 63 then c :: evhttpDecodeUriInternal true uri
    else if c = 43 ∧ decodePlus then 32 :: evhttpDecodeUriInternal decodePlus uri
    else if c = 37 then
      match uri with
      | h :: l :: uri' =>
        if isxdigit h ∧ isxdigit l then
          UInt8.ofInt (strtol 16 [h, l]).1 :: evhttpDecodeUriInternal decodePlus uri'
        else c :: evhttpDecodeUriInternal decodePlus (h :: l :: uri')
      | uri => c :: evhttpDecodeUriInternal decodePlus uri
    else c :: evhttpDecodeUriInternal decodePlus uri

def evhttpDecodeUri (uri : Bytes) : Bytes := evhttpDecodeUriInternal false uri

/-- `extract_opts`: the URI before its question mark, and what stands behind it. -/
def extractOpts (decodedUri : Bytes) : Bytes × Option Bytes :=
  match strchr decodedUri 63 with
  | none => (cstr decodedUri, none)
  | some (uri, opts) => (uri, if opts = [] then none else some opts)

/-- What `process_api_request` finds in a URI: the domain, the part of the URI for its handler and the options. -/
structure ApiUri where
  domain : Bytes
  uriPart : Bytes
  opts : Option Bytes
  deriving DecidableEq

/-- The URI up to its extension; `none` when it is too short, too long or has another extension. -/
def stripExt (decodedUri : Bytes) : Option (Bytes × Bytes) :=
  let ext := bytes ".json"
  let stem := decodedUri.take (decodedUri.length - ext.length)
  let tail := decodedUri.drop (decodedUri.length - ext.length)
  if decodedUri.length ≤ ext.length ∨ decodedUri.length > MAX_URI_LEN ∨ ¬ caseEq tail ext then none
  else some (stem, tail)

/-- Without a slash, the part for the handler is what stands behind the dot of the extension. -/
def apiUri (encodedUri : Bytes) : Option ApiUri := do
  let (decodedUri, opts) := extractOpts (evhttpDecodeUri encodedUri)
  let (stem, tail) ← stripExt decodedUri
  match strchr stem 47 with
  | some (domain, uriPart) => some ⟨domain, uriPart, opts⟩
  | none => some ⟨stem, tail.tail, opts⟩

/-- The handler of a domain; the inner `none` stands for the end of the table of domains. -/
def domainHandler (req : EvhttpRequest) (context : HttpHandlerContext D) (u : ApiUri) (fakeReq : Bool)
    (fork : Option Nat) : Option (Option (HandlerResult D)) :=
  if caseEq (bytes "records") u.domain then (handleDomainRecords req context u.uriPart u.opts fakeReq).map some
  else if caseEq (bytes "search") u.domain then (handleDomainSearch req context u.uriPart u.opts fakeReq).map some
  else if caseEq (bytes "layers") u.domain then (handleDomainLayers req context u.uriPart fakeReq).map some
  else if caseEq (bytes "system") u.domain then
    (handleDomainSystem req context u.uriPart fakeReq fork).map some
  else some none

/-- The request asks for a rewrite. -/
def AsksRewrite (req : EvhttpRequest) (u : ApiUri) : Prop :=
  caseEq (bytes "system") u.domain = true ∧ req.type = EVHTTP_REQ_POST ∧ caseEq u.uriPart (bytes "rewrite") = true

instance (req : EvhttpRequest) (u : ApiUri) : Decidable (AsksRewrite req u) := inferInstanceAs (Decidable (_ ∧ _))

/-- The request asks for a shutdown. -/
def AsksShutdown (req : EvhttpRequest) (u : ApiUri) : Prop :=
  caseEq (bytes "system") u.domain = true ∧ req.type = EVHTTP_REQ_POST ∧ caseEq u.uriPart (bytes "shutdown") = true

instance (req : EvhttpRequest) (u : ApiUri) : Decidable (AsksShutdown req u) := inferInstanceAs (Decidable (_ ∧ _))

theorem caseEq_trans {a b c : Bytes} (h : caseEq a b = true) (h' : caseEq b c = true) : caseEq a c = true := by
  simp only [caseEq, decide_eq_true_eq] at h h' ⊢
  exact h.trans h'

theorem caseEq_symm {a b : Bytes} (h : caseEq a b = true) : caseEq b a = true := by
  simp only [caseEq, decide_eq_true_eq] at h ⊢
  exact h.symm

/-- A domain has one name of the table only. -/
theorem not_caseEq_domain {name : Bytes} {domain : Bytes} (hsystem : caseEq (bytes "system") domain = true)
    (hname : caseEq name (bytes "system") = false) : ¬ caseEq name domain = true := fun h =>
  Bool.false_ne_true (hname.symm.trans (caseEq_trans h (caseEq_symm hsystem)))

theorem domainHandler_system {req : EvhttpRequest} {context : HttpHandlerContext D} {u : ApiUri} {fakeReq : Bool}
    {fork : Option Nat} (hsystem : caseEq (bytes "system") u.domain = true) :
    domainHandler req context u fakeReq fork = (handleDomainSystem req context u.uriPart fakeReq fork).map some := by
  unfold domainHandler
  rw [if_neg (not_caseEq_domain hsystem (by decide)), if_neg (not_caseEq_domain hsystem (by decide)),
    if_neg (not_caseEq_domain hsystem (by decide)), if_pos hsystem]

/-- The end of a request that has no handler or whose handler returned a status. -/
def sendError (context : HttpHandlerContext D) (req : EvhttpRequest) (fakeReq : Bool) (status : Int) :
    Int × HttpHandlerContext D × EvhttpRequest :=
  (-1, context, if fakeReq then req else evhttpSendReply req status)

/-- What `process_api_request` does with the result of the handler. -/
def endApiRequest (uri : Bytes) (fakeReq : Bool) (r : HandlerResult D) : Int × HttpHandlerContext D × EvhttpRequest :=
  if r.ret ≠ 0 then sendError r.context r.req fakeReq r.ret
  else if ¬ fakeReq ∧ r.writeToLog then
    (0, (addToDbLog r.context r.req.type uri r.req.inputBuffer true).1, r.req)
  else (0, r.context, r.req)

def processApiRequest (context : HttpHandlerContext D) (uri : Bytes) (req : EvhttpRequest) (fakeReq : Bool)
    (fork : Option Nat) : Option (Int × HttpHandlerContext D × EvhttpRequest) :=
  match apiUri (uri.drop context.encodedApiBaseUri.length) with
  | none => some (sendError context req fakeReq HTTP_NOTFOUND)
  | some u => (domainHandler req context u fakeReq fork).map (fun
    | none => sendError context req fakeReq HTTP_NOTFOUND
    | some r => endApiRequest uri fakeReq r)

end Pincaster
