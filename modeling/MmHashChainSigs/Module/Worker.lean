import MmHashChainSigs.Common.Format

/-!
# The signing core

`hashchain.c`, `signer.c` and the part of `mmhashchainsigs.c` that does not
depend on rsyslog.  A call returns the worker, the element it wrote, and the
steps it took on the chain.
-/

namespace MmHashChainSigs.Module

open MmHashChainSigs.Foundation
open MmHashChainSigs.Common

/-! ## The chain -/

theorem zeroBuffer_length (alg : HcsHashAlg) :
    (List.replicate (hcsHashLen alg) (0 : UInt8)).length = hcsHashLen alg :=
  List.length_replicate

/-- `current` holds the bytes of its buffer that count. -/
structure HashchainCtx where
  alg : HcsHashAlg := .sha256
  current : Bytes := List.replicate (hcsHashLen alg) 0
  seq : UInt64 := 0
  msgCount : UInt64 := 0
  current_length : current.length = hcsHashLen alg := by
    first | exact zeroBuffer_length _ | simp
  deriving DecidableEq, Repr

/--
What happens to a chain: it starts from the root, the saved digest and position
are copied in, a string is hashed to absorb a payload, or a digest is handed to
`signer_sign`.
-/
inductive ChainStep where
  | init
  | restore
  | update (alg : HcsHashAlg) (input payload : Bytes)
  | sign (alg : HcsHashAlg) (digest : Bytes)
  deriving DecidableEq, Repr

variable (ossl : OpenSSL)

/-- The context, zeroed first, and whether the digest of the root succeeded. -/
def hashchainInit (fails : Bool) (alg : HcsHashAlg) : HashchainCtx × Bool :=
  let ctx : HashchainCtx := { alg := alg, seq := 1 }
  match (hcsChainInitHash ossl fails alg).attach with
  | none => (ctx, false)
  | some iv =>
      ({ ctx with current := iv.1
                  current_length := hcsChainInitHash_length ossl iv.2 }, true)

def chainHashInput (ctx : HashchainCtx) (msg : Bytes) : Bytes :=
  ctx.current ++ uint64ToBe ctx.seq ++ msg

def updateStep (ctx : HashchainCtx) (msg : Bytes) : ChainStep :=
  .update ctx.alg (chainHashInput ctx msg) msg

def signStep (ctx : HashchainCtx) : ChainStep := .sign ctx.alg ctx.current

def hashchainUpdate (fails : Bool) (ctx : HashchainCtx) (msg : Bytes) :
    Option HashchainCtx :=
  (hcsHashChain ossl fails ctx.alg ctx.current ctx.seq msg).attach.map
    fun next =>
      { ctx with current := next.1
                 current_length := hcsHashChain_length ossl next.2
                 seq := ctx.seq + 1, msgCount := ctx.msgCount + 1 }

def hashchainResetCount (ctx : HashchainCtx) : HashchainCtx :=
  { ctx with msgCount := 0 }

/-! ## The signer -/

/-- `certDer` is filled by the first `signer_get_cert_der`. -/
structure SignerCtx where
  privkey : ossl.Pkey
  cert : Option ossl.X509 := none
  certDer : Option Bytes := none
  pubkeyFp : Bytes
  pubkeyFp_length : pubkeyFp.length = Common.Limits.hcsHashLen

/-- A key file that others may read is refused, and so is an unreadable one. -/
def checkPrivkeyPerms (path : Bytes) : Bool :=
  ossl.worldReadable path = some false

/-- `fails` is a failing call that the files do not account for. -/
def signerInit (fails : Bool) (privkeyPath : Bytes) :
    Option (SignerCtx ossl) :=
  if ¬ checkPrivkeyPerms ossl privkeyPath then none
  else do
    let privkey ← hcsLoadPrivateKey ossl privkeyPath
    let fp ← (hcsPubkeyFingerprint ossl fails privkey).attach
    some { privkey := privkey, pubkeyFp := fp.1
           pubkeyFp_length := hcsPubkeyFingerprint_length ossl fp.2 }

def signerInitX509 (fails : Bool) (privkeyPath certPath : Bytes) :
    Option (SignerCtx ossl) :=
  if ¬ checkPrivkeyPerms ossl privkeyPath then none
  else do
    let privkey ← hcsLoadPrivateKey ossl privkeyPath
    let cert ← hcsLoadX509Cert ossl certPath
    let _ ← hcsX509GetPubkey ossl cert
    if ¬ ossl.checkPrivateKey cert privkey then none
    else
      let fp ← (hcsPubkeyFingerprint ossl fails privkey).attach
      some { privkey := privkey, cert := some cert, pubkeyFp := fp.1
             pubkeyFp_length := hcsPubkeyFingerprint_length ossl fp.2 }

variable {ossl} in
def signerGetCertDer (fails : Bool) (signer : SignerCtx ossl) :
    Option (Bytes × SignerCtx ossl) :=
  signer.cert.bind fun cert =>
    match signer.certDer with
    | some der => some (der, signer)
    | none =>
        let der := ossl.i2dX509 cert
        if fails ∨ der = [] then none
        else some (der, { signer with certDer := some der })

/-! ## The worker -/

/-- `statefiledir` tells whether a directory for the state file is set. -/
structure Instance where
  privkeyPath : Bytes
  certPath : Option Bytes := none
  statefiledir : Bool := false
  signInterval : UInt32 := 1024
  embedcert : Bool := false
  hashAlg : HcsHashAlg := .sha256
  deriving DecidableEq, Repr

/-- `chainHash` is the whole buffer; `hash_len` belongs to the algorithm. -/
structure SavedState where
  hashAlg : HcsHashAlg := .sha256
  chainHash : Bytes := List.replicate Common.Limits.hcsHashMaxLen 0
  seq : UInt64 := 0
  sigSeqFrom : UInt64 := 0
  pubkeyFp : Bytes := List.replicate Common.Limits.hcsHashLen 0
  chainHash_length : chainHash.length = Common.Limits.hcsHashMaxLen := by simp
  deriving DecidableEq, Repr

def SavedState.hashLen (state : SavedState) : Nat := hcsHashLen state.hashAlg

def restoredChain (state : SavedState) : HashchainCtx where
  alg := state.hashAlg
  current := state.chainHash.take state.hashLen
  seq := state.seq
  msgCount := 0
  current_length := by
    rw [List.length_take, state.chainHash_length]
    exact Nat.min_eq_left (hcsHashLen_le _)

structure Worker where
  inst : Instance
  chain : HashchainCtx := {}
  signer : Option (SignerCtx ossl) := none
  pendingState : Option SavedState := none
  sigSeqFrom : UInt64 := 0
  isFirst : Bool := false

/--
The primitives that fail during one call, and the nonces of its signatures.
The names in `final` belong to `mmhashchainsigs_process_final`.
-/
structure SignFaults where
  signerInit : Bool := false
  chainInit : Bool := false
  finalInit : Bool := false
  finalHash : Bool := false
  finalSign : Bool := false
  finalReset : Bool := false
  finalNonce : Nat := 0
  unlink : Bool := false
  hashChain : Bool := false
  sign : Bool := false
  nonce : Nat := 0
  certDer : Bool := false
  certAlloc : Bool := false

/--
The worker after a call, and what is in the buffer: nothing after an error, an
empty text when there was nothing to write.
-/
structure SignCall where
  wrkr : Worker ossl
  sd : Option Bytes
  steps : List ChainStep

variable {ossl}

variable (ossl) in
def loadSigner (fails : Bool) (inst : Instance) : Option (SignerCtx ossl) :=
  match inst.certPath with
  | some certPath => signerInitX509 ossl fails inst.privkeyPath certPath
  | none => signerInit ossl fails inst.privkeyPath

def mmhashchainsigsInit (faults : SignFaults) (wrkr : Worker ossl) :
    Worker ossl × List ChainStep :=
  match loadSigner ossl faults.signerInit wrkr.inst with
  | none => (wrkr, [])
  | some signer =>
      match hashchainInit ossl faults.chainInit wrkr.inst.hashAlg with
      | (chain, false) => ({ wrkr with chain := chain }, [.init])
      | (chain, true) =>
          ({ wrkr with chain := chain, signer := some signer
                       sigSeqFrom := 1, isFirst := true }, [.init])

/-- The room behind the element, `int` arithmetic passed on as `size_t`. -/
def certRoom (bufLen sdLen : Nat) : Nat :=
  ((toInt bufLen - sdLen) % 2 ^ 64).toNat

/-- The certificate element behind an INIT element, if one can be written. -/
def appendCert (faults : SignFaults) (wrkr : Worker ossl)
    (signer : SignerCtx ossl) (sd : Bytes) (bufLen : Nat) :
    Worker ossl × Bytes :=
  if ¬ wrkr.inst.embedcert then (wrkr, sd)
  else
    match signerGetCertDer faults.certDer signer with
    | none => (wrkr, sd)
    | some (der, signer) =>
        ({ wrkr with signer := some signer },
          sd ++ (hcsFormatSdCert faults.certAlloc der
            (certRoom bufLen sd.length)).getD [])

/-- `mmhashchainsigs_process_msg` from the update of the worker's chain on. -/
def processEntry (faults : SignFaults) (wrkr : Worker ossl)
    (signer : SignerCtx ossl) (payload : Bytes) (bufLen : Nat) :
    SignCall ossl :=
  match hashchainUpdate ossl faults.hashChain wrkr.chain payload with
  | none => ⟨wrkr, none, []⟩
  | some chain =>
      let update := updateStep wrkr.chain payload
      let wrkr := { wrkr with chain := chain }
      let seq := chain.seq - 1
      if wrkr.isFirst then
        let wrkr := { wrkr with isFirst := false }
        match hcsFormatSdInit seq chain.current signer.pubkeyFp bufLen with
        | none => ⟨wrkr, none, [update]⟩
        | some sd =>
            let (wrkr, sd) := appendCert faults wrkr signer sd bufLen
            ⟨wrkr, some sd, [update]⟩
      else if wrkr.inst.signInterval.toUInt64 ≤ chain.msgCount then
        match hcsSign ossl faults.sign faults.nonce signer.privkey
          chain.current with
        | none => ⟨wrkr, none, [update, signStep chain]⟩
        | some sig =>
            ⟨{ wrkr with sigSeqFrom := seq + 1
                         chain := hashchainResetCount chain },
              hcsFormatSdSig seq chain.current wrkr.sigSeqFrom seq sig bufLen,
              [update, signStep chain]⟩
      else ⟨wrkr, hcsFormatSdMsg seq chain.current bufLen, [update]⟩

/-- The two negative results of `mmhashchainsigs_process_final`. -/
inductive FinalError where
  | failed
  | keyMismatch
  deriving DecidableEq, Repr

structure FinalCall (ossl : OpenSSL) where
  wrkr : Worker ossl
  ret : Except FinalError Bytes
  steps : List ChainStep

/-- The worker is initialized where this is called, with `signer`. -/
def mmhashchainsigsProcessFinal (faults : SignFaults) (wrkr : Worker ossl)
    (signer : SignerCtx ossl) (state : SavedState) (payload : Bytes)
    (bufLen : Nat) : FinalCall ossl :=
  if signer.pubkeyFp ≠ state.pubkeyFp then ⟨wrkr, .error .keyMismatch, []⟩
  else if state.hashAlg ≠ wrkr.inst.hashAlg then
    ⟨wrkr, .error .keyMismatch, []⟩
  else
    let reset := (hashchainInit ossl faults.finalReset wrkr.inst.hashAlg).1
    match hashchainInit ossl faults.finalInit state.hashAlg with
    | (chain, false) => ⟨{ wrkr with chain := chain }, .error .failed, [.init]⟩
    | (_, true) =>
        -- the fresh context, of which the saved hash and position overwrite all
        let chain := restoredChain state
        match hashchainUpdate ossl faults.finalHash chain payload with
        | none =>
            ⟨{ wrkr with chain := reset }, .error .failed,
              [.init, .restore, .init]⟩
        | some next =>
            let seq := next.seq - 1
            let steps := [.init, .restore, updateStep chain payload,
              signStep next, .init]
            match hcsSign ossl faults.finalSign faults.finalNonce
              signer.privkey next.current with
            | none => ⟨{ wrkr with chain := reset }, .error .failed, steps⟩
            | some sig =>
                let wrkr := { wrkr with
                  chain := reset, isFirst := true, sigSeqFrom := 1 }
                match hcsFormatSdSig seq next.current state.sigSeqFrom seq
                  sig bufLen with
                | none => ⟨wrkr, .error .failed, steps⟩
                | some sd => ⟨wrkr, .ok sd, steps⟩

/-- `mmhashchainsigs_delete_state`, where a state file can exist at all. -/
def deleteState (faults : SignFaults) (wrkr : Worker ossl)
    (stateFile : Option Bytes) : Option Bytes :=
  if wrkr.inst.statefiledir ∧ ¬ faults.unlink then none else stateFile

def readyWorker (faults : SignFaults) (wrkr : Worker ossl) :
    Worker ossl × List ChainStep :=
  if wrkr.signer.isSome then (wrkr, []) else mmhashchainsigsInit faults wrkr

/-- The attempt to finish the chain of the pending state, which is forgotten. -/
def finalCall (faults : SignFaults) (wrkr : Worker ossl)
    (signer : SignerCtx ossl) (state : SavedState) (payload : Bytes)
    (bufLen : Nat) : FinalCall ossl :=
  mmhashchainsigsProcessFinal faults { wrkr with pendingState := none } signer
    state payload bufLen

def mmhashchainsigsProcessMsg (faults : SignFaults) (wrkr : Worker ossl)
    (stateFile : Option Bytes) (payload : Bytes) (bufLen : Nat) :
    SignCall ossl × Option Bytes :=
  let (wrkr, started) := readyWorker faults wrkr
  match wrkr.signer with
  | none => (⟨wrkr, none, started⟩, stateFile)
  | some signer =>
      match wrkr.pendingState with
      | none =>
          let entry := processEntry faults wrkr signer payload bufLen
          ({ entry with steps := started ++ entry.steps }, stateFile)
      | some state =>
          let final := finalCall faults wrkr signer state payload bufLen
          let stateFile := deleteState faults final.wrkr stateFile
          match final.ret with
          | .ok sd => (⟨final.wrkr, some sd, started ++ final.steps⟩, stateFile)
          | .error _ =>
              let entry := processEntry faults final.wrkr signer payload bufLen
              ({ entry with
                steps := started ++ final.steps ++ entry.steps }, stateFile)

def mmhashchainsigsFinalSign (faults : SignFaults) (wrkr : Worker ossl)
    (bufLen : Nat) : SignCall ossl :=
  match wrkr.signer with
  | none => ⟨wrkr, some [], []⟩
  | some signer =>
      if wrkr.chain.msgCount = 0 then ⟨wrkr, some [], []⟩
      else
        match hashchainUpdate ossl faults.hashChain wrkr.chain [] with
        | none => ⟨wrkr, none, []⟩
        | some chain =>
            let steps := [updateStep wrkr.chain [], signStep chain]
            let wrkr := { wrkr with chain := chain }
            let seq := chain.seq - 1
            match hcsSign ossl faults.sign faults.nonce signer.privkey
              chain.current with
            | none => ⟨wrkr, none, steps⟩
            | some sig =>
                match hcsFormatSdSig seq chain.current wrkr.sigSeqFrom seq sig
                  bufLen with
                | none => ⟨wrkr, none, steps⟩
                | some sd =>
                    ⟨{ wrkr with sigSeqFrom := seq + 1
                                 chain := hashchainResetCount chain },
                      some sd, steps⟩

end MmHashChainSigs.Module
