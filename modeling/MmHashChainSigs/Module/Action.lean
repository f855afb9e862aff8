import MmHashChainSigs.Module.Worker

/-!
# The rsyslog action

`doAction`: the payload is built from the message, signed, and the structured
data of the message is replaced.
-/

namespace MmHashChainSigs.Module

open MmHashChainSigs.Foundation
open MmHashChainSigs.Common

variable {ossl : OpenSSL}

/--
What rsyslog hands over.  The fields of the header are C strings, absent where
the accessor returns `NULL`; `sd` and `msg` come with their lengths.
-/
structure SyslogMsg where
  pri : UInt32
  ts : Option Bytes
  host : Option Bytes
  app : Option Bytes
  procid : Option Bytes
  msgid : Option Bytes
  sd : Option Bytes
  msg : Bytes
  deriving DecidableEq, Repr

structure ActionFaults where
  stripped : Bool := false
  cleaned : Bool := false
  payload : Bool := false
  newSd : Bool := false
  core : SignFaults := {}

inductive RsRet where
  | ok
  | suspended
  | outOfMemory
  deriving DecidableEq, Repr

def nilValue : Bytes := ascii "-"

def syslogHeader (msg : SyslogMsg) : SyslogHeader where
  pri := msg.pri
  ts := some (cString (msg.ts.getD nilValue))
  host := msg.host.map cString
  app := msg.app.map cString
  procid := msg.procid.map cString
  msgid := some (cString (msg.msgid.getD nilValue))

def clientSd (msg : SyslogMsg) : Bytes :=
  match msg.sd with
  | none => []
  | some sd => if sd = nilValue then [] else sd

def strippedSd (faults : ActionFaults) (sd : Bytes) : Except RsRet Bytes :=
  if sd = [] then .ok []
  else if faults.stripped then .error .outOfMemory
  else
    match hcsStripAllSd sd hcsSdId (sd.length + 1) with
    | none => .error .outOfMemory
    | some (text, _) =>
        match hcsStripAllSd text hcsSdHdrId (sd.length + 1) with
        | none => .error .outOfMemory
        | some (text, _) => .ok text

/-- `cleaned_sd`: the header element and what is left of the client's data. -/
def cleanedSd (faults : ActionFaults) (msg : SyslogMsg) :
    Except RsRet Bytes :=
  match hcsFormatSdHdr (syslogHeader msg) Common.Limits.hcsSdHdrMaxLen with
  | none => .error .suspended
  | some hdr =>
      match strippedSd faults (clientSd msg) with
      | .error ret => .error ret
      | .ok text =>
          if faults.cleaned then .error .outOfMemory else .ok (hdr ++ text)

/-- What the core wrote, the payload it signed, and the line that is stored. -/
structure Emission where
  sd : Bytes
  payload : Bytes
  line : Bytes
  deriving DecidableEq, Repr

structure ActionCall (ossl : OpenSSL) where
  wrkr : Worker ossl
  stateFile : Option Bytes
  ret : RsRet
  newSd : Option Bytes
  emission : Option Emission
  steps : List ChainStep

def storedLine (newSd : Bytes) (msg : SyslogMsg) : Bytes := newSd ++ msg.msg

/-- `MsgSetStructuredData` takes the new data up to its first NUL byte. -/
def doAction (faults : ActionFaults) (wrkr : Worker ossl)
    (stateFile : Option Bytes) (msg : SyslogMsg) : ActionCall ossl :=
  match cleanedSd faults msg with
  | .error ret => ⟨wrkr, stateFile, ret, none, none, []⟩
  | .ok cleaned =>
      if faults.payload then ⟨wrkr, stateFile, .outOfMemory, none, none, []⟩
      else
        let payload := cleaned ++ msg.msg
        let (call, stateFile) := mmhashchainsigsProcessMsg faults.core wrkr
          stateFile payload Common.Limits.hcsSdWithCertMaxLen
        match call.sd with
        | none => ⟨call.wrkr, stateFile, .suspended, none, none, call.steps⟩
        | some sd =>
            if faults.newSd then
              ⟨call.wrkr, stateFile, .outOfMemory, none, none, call.steps⟩
            else
              let newSd := cString (sd ++ cleaned)
              ⟨call.wrkr, stateFile, .ok, some newSd,
                some ⟨sd, payload, storedLine newSd msg⟩, call.steps⟩

end MmHashChainSigs.Module
