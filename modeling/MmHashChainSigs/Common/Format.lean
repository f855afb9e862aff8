import MmHashChainSigs.Common.Crypto
import MmHashChainSigs.Foundation.Search

/-!
# The structured-data record format

`hcs_format.c`: the elements written into a log line, and the searches that
find, parse and remove them again.  An output buffer is a capacity; a function
that returns `-1` returns `none`.
-/

namespace MmHashChainSigs.Common

open MmHashChainSigs.Foundation

namespace Limits

def hcsB64SigLen : Nat := 200
def hcsSdMaxLen : Nat := 512
def hcsSdHdrMaxLen : Nat := 1024
def hcsSdCertMaxLen : Nat := 3072
def hcsSdWithCertMaxLen : Nat := hcsSdMaxLen + hcsSdCertMaxLen
def hcsCertDerMax : Nat := 4096

end Limits

def hcsChainIv : Bytes := ascii "MMHASHCHAINSIGS_CHAIN_INIT_V1"

def hcsSdId : Bytes := ascii "mmhashchainsigs@32473"
def hcsSdHdrId : Bytes := ascii "mmhashchainsigs-hdr@32473"
def hcsSdCertId : Bytes := ascii "mmhashchainsigs-cert@32473"

def sdPrefix (sdId : Bytes) : Bytes := ascii "[" ++ sdId ++ ascii " "

theorem findSub_sdPrefix {sdId : Bytes} (hid : 91 ∉ sdId) {before : Bytes}
    (hbefore : ¬ sdPrefix sdId <:+: before) (rest : Bytes) :
    findSub (sdPrefix sdId) (before ++ (sdPrefix sdId ++ rest)) =
      some (before, sdPrefix sdId ++ rest) := by
  have hcons : sdPrefix sdId = 91 :: (sdId ++ ascii " ") := rfl
  rw [hcons] at hbefore ⊢
  apply findSub_append _ hbefore
  rw [List.mem_append, not_or]
  exact ⟨hid, by decide⟩

def quoteByte : UInt8 := 34
def backslashByte : UInt8 := 92
def bracketByte : UInt8 := 93

/-- What `snprintf` leaves in a buffer of `cap` bytes when all of it fits. -/
def fits (cap : Nat) (text : Bytes) : Option Bytes :=
  if text.length < cap then some text else none

theorem fits_eq_some {cap : Nat} {text out : Bytes} :
    fits cap text = some out ↔ text.length < cap ∧ out = text := by
  unfold fits
  split_ifs with h <;> simp [h, eq_comm]

/-! ## Digest of the chain root and the binary encodings -/

def hcsChainInitHash (ossl : OpenSSL) (fails : Bool) (alg : HcsHashAlg) :
    Option Bytes :=
  if fails then none else some (ossl.digest alg hcsChainIv)

theorem hcsChainInitHash_length (ossl : OpenSSL) {fails : Bool}
    {alg : HcsHashAlg} {iv : Bytes}
    (h : hcsChainInitHash ossl fails alg = some iv) :
    iv.length = hcsHashLen alg := by
  unfold hcsChainInitHash at h
  split_ifs at h
  cases h
  exact ossl.digest_length _ _

def hcsHexEncode (bytes : Bytes) : Bytes := hexText bytes

/-- One `%2x` for every two characters, each from where the pair starts. -/
def hexPairs : Nat → Bytes → Option Bytes
  | 0, _ => some []
  | n + 1, text => do
      let b ← scanHexByte (cString text)
      let rest ← hexPairs n (text.drop 2)
      some (b :: rest)

def hcsHexDecode (text : Bytes) (outLen : Nat) : Option Bytes :=
  if text.length % 2 ≠ 0 ∨ outLen < text.length / 2 then none
  else hexPairs (text.length / 2) text

def hexWritten : Nat → Bytes → Bytes
  | 0, _ => []
  | n + 1, text =>
      match scanHexByte (cString text) with
      | none => []
      | some b => b :: hexWritten n (text.drop 2)

def overlay (buffer written : Bytes) : Bytes :=
  (written ++ buffer.drop written.length).take buffer.length

theorem overlay_length (buffer written : Bytes) :
    (overlay buffer written).length = buffer.length := by
  simp only [overlay, List.length_take, List.length_append, List.length_drop]
  omega

theorem overlay_of_length {buffer written : Bytes}
    (h : written.length = buffer.length) : overlay buffer written = written := by
  simp [overlay, ← h]

def hcsB64Encode (bytes : Bytes) (outLen : Nat) : Option Bytes :=
  fits outLen (Base64.encode bytes)

/--
The bytes the block decoder writes, and how many of them count.  The text is
one whose length fits the `int` that the decoder takes.
-/
def hcsB64Decode (ossl : OpenSSL) (text : Bytes) : Option (Bytes × Nat) :=
  (ossl.decodeBlock text).map fun out =>
    (out, out.length - Base64.trailingPad text)

/-! ## Records -/

inductive HcsSdType where
  | msg
  | init
  | sig
  | continue
  | other (code : UInt8)
  deriving DecidableEq, Repr

def HcsSdType.ofByte (code : UInt8) : HcsSdType :=
  if code = 0 then .msg
  else if code = 73 then .init
  else if code = 83 then .sig
  else if code = 67 then .continue
  else .other code

/--
The parsed fields.  `signature` holds the bytes the decoder wrote, of which the
first `sigLen` are the signature.
-/
structure HcsSdRecord where
  type : HcsSdType := .msg
  seq : UInt64 := 0
  chainHash : Bytes := []
  chainHashLen : Nat := 0
  pubkeyFp : Bytes := List.replicate Limits.hcsHashLen 0
  hasPubkeyFp : Bool := false
  seqFrom : UInt64 := 0
  seqTo : UInt64 := 0
  signature : Bytes := []
  sigLen : Nat := 0
  hasSignature : Bool := false
  deriving DecidableEq, Repr

/-! ## Writing elements -/

def sdNumber (n : UInt64) : Bytes := decimal n.toNat

def sdInitText (letter : String) (seq : UInt64) (chainHash pubkeyFp : Bytes) :
    Bytes :=
  sdPrefix hcsSdId ++ ascii "t=\"" ++ ascii letter ++ ascii "\" q=\"" ++
    sdNumber seq ++ ascii "\" h=\"" ++ hcsHexEncode chainHash ++
    ascii "\" f=\"" ++ hcsHexEncode pubkeyFp ++ ascii "\"]"

def hcsFormatSdInit (seq : UInt64) (chainHash pubkeyFp : Bytes)
    (bufLen : Nat) : Option Bytes :=
  if Limits.hcsHashMaxLen < chainHash.length then none
  else fits bufLen (sdInitText "I" seq chainHash pubkeyFp)

def hcsFormatSdContinue (seq : UInt64) (chainHash pubkeyFp : Bytes)
    (bufLen : Nat) : Option Bytes :=
  if Limits.hcsHashMaxLen < chainHash.length then none
  else fits bufLen (sdInitText "C" seq chainHash pubkeyFp)

def sdMsgText (seq : UInt64) (chainHash : Bytes) : Bytes :=
  sdPrefix hcsSdId ++ ascii "q=\"" ++ sdNumber seq ++ ascii "\" h=\"" ++
    hcsHexEncode chainHash ++ ascii "\"]"

def hcsFormatSdMsg (seq : UInt64) (chainHash : Bytes) (bufLen : Nat) :
    Option Bytes :=
  if Limits.hcsHashMaxLen < chainHash.length then none
  else fits bufLen (sdMsgText seq chainHash)

def sdSigText (seq : UInt64) (chainHash : Bytes) (seqFrom seqTo : UInt64)
    (s : Bytes) : Bytes :=
  sdPrefix hcsSdId ++ ascii "t=\"S\" q=\"" ++ sdNumber seq ++
    ascii "\" h=\"" ++ hcsHexEncode chainHash ++ ascii "\" qf=\"" ++
    sdNumber seqFrom ++ ascii "\" qt=\"" ++ sdNumber seqTo ++
    ascii "\" s=\"" ++ s ++ ascii "\"]"

def hcsFormatSdSig (seq : UInt64) (chainHash : Bytes)
    (seqFrom seqTo : UInt64) (signature : Bytes) (bufLen : Nat) :
    Option Bytes :=
  if Limits.hcsHashMaxLen < chainHash.length then none
  else do
    let s ← hcsB64Encode signature (Limits.hcsB64SigLen + 4)
    fits bufLen (sdSigText seq chainHash seqFrom seqTo s)

def sdCertText (b64 : Bytes) : Bytes :=
  sdPrefix hcsSdCertId ++ ascii "cert=\"" ++ b64 ++ ascii "\"]"

/-- `fails` is the allocation of the base64 buffer. -/
def hcsFormatSdCert (fails : Bool) (der : Bytes) (bufLen : Nat) :
    Option Bytes :=
  if Limits.hcsCertDerMax < der.length then none
  else if fails then none
  else do
    let b64 ← hcsB64Encode der ((der.length + 2) / 3 * 4 + 4)
    fits bufLen (sdCertText b64)

def mustEscape (c : UInt8) : Bool :=
  c = backslashByte || c = quoteByte || c = bracketByte

/-- PARAM-VALUE escaping into a buffer of `cap` bytes, `j` of them written. -/
def sdEscapeParam (cap : Nat) : Nat → Bytes → Option Bytes
  | j, [] => if cap ≤ j then none else some []
  | j, c :: text =>
      if mustEscape c then
        if cap ≤ j + 2 then none
        else (sdEscapeParam cap (j + 2) text).map (backslashByte :: c :: ·)
      else if cap ≤ j + 1 then none
      else (sdEscapeParam cap (j + 1) text).map (c :: ·)

/-- The six header fields; an absent string counts as empty. -/
structure SyslogHeader where
  pri : UInt32
  ts : Option Bytes
  host : Option Bytes
  app : Option Bytes
  procid : Option Bytes
  msgid : Option Bytes
  deriving DecidableEq, Repr

def hcsFormatSdHdr (hdr : SyslogHeader) (bufLen : Nat) : Option Bytes := do
  let ts ← sdEscapeParam 80 0 (hdr.ts.getD [])
  let host ← sdEscapeParam 520 0 (hdr.host.getD [])
  let app ← sdEscapeParam 136 0 (hdr.app.getD [])
  let procid ← sdEscapeParam 136 0 (hdr.procid.getD [])
  let msgid ← sdEscapeParam 136 0 (hdr.msgid.getD [])
  fits bufLen
    (sdPrefix hcsSdHdrId ++ ascii "pri=\"" ++ decimal hdr.pri.toNat ++
      ascii "\" ts=\"" ++ ts ++ ascii "\" host=\"" ++ host ++
      ascii "\" app=\"" ++ app ++ ascii "\" procid=\"" ++ procid ++
      ascii "\" msgid=\"" ++ msgid ++ ascii "\"]")

/-! ## Parsing elements -/

/--
The text up to the closing quote, escapes kept, and the text behind that
quote; `none` when the quote is never closed.
-/
def sdParamValue : Bytes → Option (Bytes × Bytes)
  | [] => none
  | c :: text =>
      if c = quoteByte then some ([], text)
      else if c = backslashByte then
        match text with
        | [] => none
        | d :: text =>
            (sdParamValue text).map fun split => (c :: d :: split.1, split.2)
      else (sdParamValue text).map fun split => (c :: split.1, split.2)

@[simp] theorem sdParamValue_quote (text : Bytes) :
    sdParamValue (quoteByte :: text) = some ([], text) := by
  cases text <;> simp [sdParamValue]

theorem sdParamValue_cons {c : UInt8} (hquote : c ≠ quoteByte)
    (hback : c ≠ backslashByte) (text : Bytes) :
    sdParamValue (c :: text) =
      (sdParamValue text).map fun split => (c :: split.1, split.2) := by
  cases text <;> simp [sdParamValue, hquote, hback]

/-- `sd_get_param` from one position on; `boundary` is a start or a blank. -/
def sdGetParamFrom (key : Bytes) : Bool → Bytes → Option Bytes
  | _, [] => none
  | boundary, c :: body =>
      if boundary ∧ key ++ ascii "=\"" <+: c :: body then
        (sdParamValue ((c :: body).drop (key.length + 2))).map Prod.fst
      else sdGetParamFrom key (c = 32) body

def sdGetParam (body : Bytes) (key : String) : Option Bytes :=
  sdGetParamFrom (ascii key) true body

/-- Whether the call succeeds, and the bytes that `out` has afterwards. -/
def sdExtractHex (body : Bytes) (key : String) (outLen : Nat) (out : Bytes) :
    Bool × Bytes :=
  match sdGetParam body key with
  | none => (false, out)
  | some v =>
      if v.length ≠ outLen * 2 ∨ 2 * Limits.hcsHashMaxLen + 1 ≤ v.length then
        (false, out)
      else
        ((hcsHexDecode v outLen).isSome, overlay out (hexWritten outLen v))

def sdExtractChainHash (body : Bytes) : Option Bytes := do
  let v ← sdGetParam body "h"
  let alg ← hcsHashAlgFromHexLen v.length
  if 2 * Limits.hcsHashMaxLen + 1 ≤ v.length then none
  else hcsHexDecode v (hcsHashLen alg)

/-- Whether the call succeeds, and the value `*out` has afterwards. -/
def sdExtractUint64 (body : Bytes) (key : String) (out : UInt64) :
    Bool × UInt64 :=
  match sdGetParam body key with
  | none => (false, out)
  | some v =>
      if v.length = 0 ∨ 20 < v.length then (false, out)
      else
        let (n, rest) := strtoull (cString v)
        (rest = [], n)

def sdType (body : Bytes) : HcsSdType :=
  match sdGetParam body "t" with
  | some [c] => .ofByte c
  | _ => .msg

def sdParseBody (ossl : OpenSSL) (body : Bytes) : Option HcsSdRecord := do
  let (found, seq) := sdExtractUint64 body "q" 0
  if ¬ found then none
  else
    let hash ← sdExtractChainHash body
    let fp := sdExtractHex body "f" Limits.hcsHashLen
      (List.replicate Limits.hcsHashLen 0)
    let record : HcsSdRecord :=
      { type := sdType body
        seq := seq
        chainHash := hash
        chainHashLen := hash.length
        pubkeyFp := fp.2
        hasPubkeyFp := fp.1
        seqFrom := (sdExtractUint64 body "qf" 0).2
        seqTo := (sdExtractUint64 body "qt" 0).2 }
    match sdGetParam body "s" with
    | none => some record
    | some v =>
        if Limits.hcsB64SigLen + 4 ≤ v.length then none
        else do
          let (written, len) ← hcsB64Decode ossl v
          some { record with
            signature := written, sigLen := len, hasSignature := true }

def hcsParseSd (ossl : OpenSSL) (sd : Bytes) : Option HcsSdRecord :=
  if sd.length < (sdPrefix hcsSdId).length + 1 ∨
      ¬ sdPrefix hcsSdId <+: sd ∨ sd.getLast? ≠ some bracketByte then none
  else sdParseBody ossl (sd.drop (sdPrefix hcsSdId).length).dropLast

/-! ## Removing elements -/

/-- `sd_scan_element`: the text behind the element, empty if it never ends. -/
def sdScanElement : Bool → Bytes → Bytes
  | _, [] => []
  | false, c :: text =>
      if c = quoteByte then sdScanElement true text
      else if c = bracketByte then text
      else sdScanElement false text
  | true, c :: text =>
      if c = quoteByte then sdScanElement false text
      else if c = backslashByte then
        match text with
        | [] => []
        | _ :: text => sdScanElement true text
      else sdScanElement true text

/--
The loop of `hcs_strip_all_sd`: the bytes kept and whether an element was
removed.  Every round consumes a byte, so the length of the text is fuel enough.
-/
def stripAllFrom (elementPrefix : Bytes) (outCap : Nat) :
    Nat → Nat → Bytes → Option (Bytes × Bool)
  | _, j, [] => if outCap ≤ j then none else some ([], false)
  | 0, _, _ :: _ => none
  | fuel + 1, j, c :: src =>
      if elementPrefix <+: c :: src then
        (stripAllFrom elementPrefix outCap fuel j
          (sdScanElement false ((c :: src).drop elementPrefix.length))).map
          fun out => (out.1, true)
      else if outCap ≤ j + 1 then none
      else (stripAllFrom elementPrefix outCap fuel (j + 1) src).map
        fun out => (c :: out.1, out.2)

def hcsStripAllSd (src sdId : Bytes) (outCap : Nat) : Option (Bytes × Bool) :=
  if 80 ≤ (sdPrefix sdId).length then none
  else stripAllFrom (sdPrefix sdId) outCap src.length 0 src

/--
The scan of `hcs_strip_sd_from_line`.  It returns the text behind the element;
`none` when a quote is open at the end of the line, where the loop steps one
byte past the line.
-/
def sdScanLine : Bool → Bytes → Option Bytes
  | false, [] => some []
  | true, [] => none
  | false, c :: text =>
      if c = quoteByte then sdScanLine true text
      else if c = bracketByte then some text
      else sdScanLine false text
  | true, c :: text =>
      if c = quoteByte then sdScanLine false text
      else if c = backslashByte then
        match text with
        | [] => none
        | _ :: text => sdScanLine true text
      else sdScanLine true text

@[simp] theorem sdScanLine_quote (text : Bytes) :
    sdScanLine true (quoteByte :: text) = sdScanLine false text := by
  cases text <;> simp [sdScanLine]

theorem sdScanLine_quoted {c : UInt8} (hquote : c ≠ quoteByte)
    (hback : c ≠ backslashByte) (text : Bytes) :
    sdScanLine true (c :: text) = sdScanLine true text := by
  cases text <;> simp [sdScanLine, hquote, hback]

inductive StripError where
  | rejected
  | overrun
  deriving DecidableEq, Repr

/--
The element is searched, handed to `parse` and cut out.  `next` is the byte
stored behind the line: an element whose scan left the line is handed over with
it, and the length of the rest then wraps around.
-/
def stripSdFromLine {ρ : Type} (parse : Bytes → Option ρ) (line : Bytes)
    (next : UInt8) (msgBufLen : Nat) : Except StripError (Int × Bytes × ρ) :=
  match findSub (sdPrefix hcsSdId) line with
  | none => .error .rejected
  | some (before, rest) =>
      match sdScanLine false (rest.drop (sdPrefix hcsSdId).length) with
      | some after =>
          match parse (rest.take (rest.length - after.length)) with
          | none => .error .rejected
          | some out =>
              if msgBufLen ≤ before.length + after.length then
                .error .rejected
              else .ok (toInt (before.length + after.length),
                before ++ after, out)
      | none =>
          match parse (rest ++ [next]) with
          | none => .error .rejected
          | some _ =>
              if before = [] ∨ msgBufLen ≤ before.length - 1 then
                .error .rejected
              else .error .overrun

def hcsStripSdFromLine (ossl : OpenSSL) (line : Bytes) (next : UInt8)
    (msgBufLen : Nat) : Except StripError (Int × Bytes × HcsSdRecord) :=
  stripSdFromLine (hcsParseSd ossl) line next msgBufLen

/-- The three results of `hcs_extract_and_strip_cert_sd`: -1, 0 and 1. -/
inductive CertStrip where
  | failed
  | absent (msg : Bytes)
  | stripped (msg der : Bytes) (derLen : Nat)
  deriving DecidableEq, Repr

def hcsExtractAndStripCertSd (ossl : OpenSSL) (src : Bytes)
    (msgBufCap : Nat) : CertStrip :=
  match findSub (sdPrefix hcsSdCertId) src with
  | none => if msgBufCap ≤ src.length then .failed else .absent src
  | some (before, rest) =>
      let key := ascii "cert=\""
      let p := rest.drop (sdPrefix hcsSdCertId).length
      if p.length ≤ key.length ∨ ¬ key <+: p then .failed
      else
        match sdParamValue (p.drop key.length) with
        | some (v, c :: after) =>
            if c ≠ bracketByte then .failed
            else
              match hcsB64Decode ossl v with
              | none => .failed
              | some (der, derLen) =>
                  if msgBufCap ≤ before.length + after.length then .failed
                  else .stripped (before ++ after) der derLen
        | _ => .failed

end MmHashChainSigs.Common
