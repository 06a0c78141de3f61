import MilterGuard.SessionState
import MilterGuard.AttachmentScanner

/-!
The attachment policy: a finding is rejected, and an inspection that fails gets
the action configured for its kind of failure.
-/
namespace MilterGuard.AttachmentPolicy

open Procedures ByteStrings MessageBuffer ArchiveBudgets AttachmentScanner
open SessionState (Action)

/-- The settings of AttachmentsConfig that decide about failed inspections. -/
structure FailureActions where
  encryptedArchiveAction : Bytes
  unscannableAction : Bytes
  invalidMIMEAction : Bytes

/-- attachmentPolicyService; without a scanner the policy is disabled. -/
structure AttachmentPolicyService where
  cfg : FailureActions
  scanner : Option Scanner

structure AttachmentPolicyResult where
  handled : Bool
  cancelled : Bool
  ipStrike : Bool
  proposed : Action
  path : Bytes
  detection : Bytes
  err : Option Bytes
  rejectMessage : Bytes
  deriving DecidableEq

def unhandled : AttachmentPolicyResult := ⟨false, false, false, .accept, [], [], none, []⟩

def invalidMIMERejectMessage : Bytes :=
  ascii ("Message rejected because it has an invalid MIME structure " ++
    "and cannot be safely inspected")

def attachmentConfiguredAction (value : Bytes) : Action :=
  if value = ascii "reject" then .reject
  else if value = ascii "tempfail" then .tempfail
  else .accept

def invalidMIMEConfiguredAction (value : Bytes) : Action :=
  if value = ascii "accept" then .accept else .reject

def attachmentErrorPath (path : Bytes) : Bytes :=
  if trimSpace path ≠ [] then path else ascii "message"

def invalidMIME (cfg : FailureActions) (path err : Bytes) : AttachmentPolicyResult :=
  ⟨true, false, false, invalidMIMEConfiguredAction cfg.invalidMIMEAction, path,
    ascii "invalid MIME structure", some err, invalidMIMERejectMessage⟩

def incomplete (actionName path err : Bytes) : AttachmentPolicyResult :=
  ⟨true, false, false, attachmentConfiguredAction actionName, path,
    ascii "attachment inspection incomplete", some err, []⟩

/-- The mapping of a scan result to the configured action. -/
def evaluateScan (cfg : FailureActions) (bodyTruncated : Bool) :
    ScanResult → AttachmentPolicyResult
  | .finding found => ⟨true, false, true, .reject, found.path, found.detection, none, []⟩
  | .failure e =>
    if e.malformed then invalidMIME cfg (attachmentErrorPath e.path) e.text
    else if e.encrypted then
      incomplete cfg.encryptedArchiveAction (attachmentErrorPath e.path) e.text
    else incomplete cfg.unscannableAction (attachmentErrorPath e.path) e.text
  | .clear =>
    if bodyTruncated then
      incomplete cfg.unscannableAction (ascii "message")
        (ascii "message body was truncated before attachment inspection completed")
    else unhandled

/-- The scan of a message by its first MIME header fields. -/
def scanMessage (s : Scanner) (ctx : Context) (msg : Message) :
    Outcome Event ScanState ScanResult :=
  scanContext s ctx (firstHeader s.text.table msg (ascii "Content-Type"))
    (firstHeader s.text.table msg (ascii "Content-Transfer-Encoding"))
    (firstHeader s.text.table msg (ascii "Content-Disposition")) msg.body

/-- The result of evaluate; `expired` is the cause when the context ends before a
scan slot is free. -/
def evaluate (p : AttachmentPolicyService) (expired : Option Bytes) (ctx : Context)
    (msg : Message) : AttachmentPolicyResult :=
  match p.scanner with
  | none => unhandled
  | some s =>
    if msg.mimeHeadersTruncated then
      invalidMIME p.cfg (ascii "message")
        (ascii "structural MIME header exceeds the safe parsing limit")
    else
      match expired with
      | some err => { unhandled with handled := true, cancelled := true, err := some err }
      | none => evaluateScan p.cfg msg.bodyTruncated (scanMessage s ctx msg).value

end MilterGuard.AttachmentPolicy
