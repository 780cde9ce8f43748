import Pincaster.DbLog
/-!
# DomainSystem — `domain_system.c`: the system requests

`fork` is a parameter: the process id of the child, or `none` when there is none.
-/
namespace Pincaster

open Lib (Bytes bytes caseEq)

variable {α D : Type}

def startWorkers (context : HttpHandlerContext D) : Option (HttpHandlerContext D) :=
  if context.thrWorkers then none else some { context with shouldExit := false, thrWorkers := true }

/-- The workers are joined: each of them ends the operation it is at, and takes no other one. -/
def stopWorkers (context : HttpHandlerContext D) : HttpHandlerContext D :=
  { context with shouldExit := true, thrWorkers := false }

/-- The journal after the fork: what stands behind `offsetBeforeFork` will be copied behind the dump of the child. -/
def forkDbLog (dbLog : DBLog α) (child : Nat) : DBLog α :=
  { dbLog with journalRewriteProcess := some child, offsetBeforeFork := some dbLog.dbLogOffset }

/-- `system_rewrite_after_fork_cb`, with the dump that the child has written.  The offset of the new descriptor is 0
unless something was copied. -/
def systemRewriteAfterForkCb (dump : List α) (dbLog : DBLog α) : Option (DBLog α) := do
  let file ← dbLog.dbLogFd
  let offset ← dbLog.offsetBeforeFork
  let recent := file.drop offset
  some { dbLog with
    journalRewriteProcess := none, dbLogFd := some (dump ++ recent)
    dbLogOffset := if recent.length ≤ 0 then 0 else dump.length + recent.length }

def handleSpecialOpSystemRewrite (context : HttpHandlerContext D) (fakeReq : Bool) (fork : Option Nat) :
    Option (Int × HttpHandlerContext D) :=
  let dbLog := context.dbLog
  if fakeReq ∨ dbLog.dbLogFileName = none ∨ dbLog.dbLogFd = none then some (HTTP_NOCONTENT, context)
  else if dbLog.journalRewriteProcess ≠ none then some (HTTP_NOTMODIFIED, context)
  else
    let context := stopWorkers context
    let dbLog := flushDbLog dbLog true
    match fork with
    | none => some (HTTP_SERVUNAVAIL, { context with dbLog })
    | some child =>
      (startWorkers { context with dbLog := forkDbLog dbLog child }).map (fun context =>
        (0, { context with rewriteReplies := context.rewriteReplies ++ [context.opTid] }))

def handleDomainSystem (req : EvhttpRequest) (context : HttpHandlerContext D) (uri : Bytes) (fakeReq : Bool)
    (fork : Option Nat) : Option (HandlerResult D) :=
  if caseEq uri (bytes "ping") then queueOp context req fakeReq .systemPing false
  else if req.type = EVHTTP_REQ_POST ∧ caseEq uri (bytes "shutdown") then
    let dbLog := { context.dbLog with journalRewriteProcess := none }
    some ⟨0, { context with dbLog, loopExit := true }, evhttpSendReply req HTTP_OK, false⟩
  else if req.type = EVHTTP_REQ_POST ∧ caseEq uri (bytes "rewrite") then
    (handleSpecialOpSystemRewrite { context with opTid := context.opTid + 1 } fakeReq fork).map
      (fun (ret, context) => ⟨ret, context, req, false⟩)
  else some ⟨HTTP_NOTFOUND, context, req, false⟩

end Pincaster
