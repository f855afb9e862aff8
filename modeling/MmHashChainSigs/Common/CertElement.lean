import MmHashChainSigs.Common.RoundTrip
import MmHashChainSigs.Foundation.Buffer

/-!
# The certificate element

`hcs_extract_and_strip_cert_sd` once more, with its buffers: the message may be
stripped into a buffer of its own or where it stands.  Both ways it is the
function of the texts, and it undoes `hcs_format_sd_cert`.
-/

namespace MmHashChainSigs.Common

open MmHashChainSigs.Foundation

/-! ## Buffers -/

/-- The source and the message buffer, which may be one. -/
inductive MsgBuf where
  | same (mem : Bytes) (srcLen : Nat) (hlen : srcLen ≤ mem.length)
  | separate (src buf : Bytes)

def MsgBuf.src : MsgBuf → Bytes
  | .same mem srcLen _ => mem.take srcLen
  | .separate src _ => src

def MsgBuf.buf : MsgBuf → Bytes
  | .same mem _ _ => mem
  | .separate _ buf => buf

/--
The return value and what the call leaves in the message buffer, in the output
lengths and in the buffer of the certificate.
-/
structure CertStripCall where
  ret : Int
  buf : Bytes
  msgLen : Nat := 0
  der : Bytes := []
  derLen : Nat := 0
  deriving DecidableEq, Repr

def MsgBuf.copyFront (msg : MsgBuf) (text : Bytes) : Bytes :=
  match msg with
  | .same mem _ _ => mem
  | .separate _ buf => writeAt buf 0 text

def hcsExtractAndStripCertSdBuf (ossl : OpenSSL) (msg : MsgBuf)
    (msgBufCap : Nat) : CertStripCall :=
  match findSub (sdPrefix hcsSdCertId) msg.src with
  | none =>
      if msgBufCap ≤ msg.src.length then { ret := -1, buf := msg.buf }
      else
        { ret := 0
          buf := writeAt (msg.copyFront msg.src) msg.src.length [0]
          msgLen := msg.src.length }
  | some (before, rest) =>
      let key := ascii "cert=\""
      let p := rest.drop (sdPrefix hcsSdCertId).length
      if p.length ≤ key.length ∨ ¬ key <+: p then
        { ret := -1, buf := msg.buf }
      else
        match sdParamValue (p.drop key.length) with
        | some (v, c :: after) =>
            if c ≠ bracketByte then { ret := -1, buf := msg.buf }
            else
              match hcsB64Decode ossl v with
              | none => { ret := -1, buf := msg.buf }
              | some (der, derLen) =>
                  let total := before.length + after.length
                  if msgBufCap ≤ total then
                    { ret := -1, buf := msg.buf, der := der, derLen := derLen }
                  else
                    let front := msg.copyFront before
                    let both := writeAt front before.length after
                    { ret := 1, buf := writeAt both total [0]
                      msgLen := total, der := der, derLen := derLen }
        | _ => { ret := -1, buf := msg.buf }

def CertStripCall.result (call : CertStripCall) : CertStrip :=
  if call.ret = 1 then
    .stripped (call.buf.take call.msgLen) call.der call.derLen
  else if call.ret = 0 then .absent (call.buf.take call.msgLen)
  else .failed

/-! ## Both ways are one function -/

variable {ossl : OpenSSL}

theorem MsgBuf.take_copyFront {msg : MsgBuf} {front back : Bytes}
    (hsrc : msg.src = front ++ back)
    (hroom : front.length ≤ msg.buf.length) :
    (msg.copyFront front).length = msg.buf.length ∧
      (msg.copyFront front).take front.length = front := by
  cases msg with
  | same mem srcLen hlen =>
      have hfront : mem.take front.length = front := by
        have hle : front.length ≤ srcLen := by
          have hlength := congrArg List.length hsrc
          simp only [MsgBuf.src, List.length_take, List.length_append]
            at hlength
          omega
        have htake := congrArg (List.take front.length) hsrc
        simp only [MsgBuf.src, List.take_take, List.take_left] at htake
        rwa [Nat.min_eq_left hle] at htake
      exact ⟨rfl, hfront⟩
  | separate src buf =>
      have hwrite : 0 + front.length ≤ buf.length := by
        rw [Nat.zero_add]
        exact hroom
      refine ⟨?_, ?_⟩
      · exact writeAt_length hwrite
      · have htake := @take_writeAt_end _ buf front 0 (Nat.zero_le _)
        simpa [MsgBuf.copyFront] using htake

theorem hcsExtractAndStripCertSdBuf_result {msg : MsgBuf} {msgBufCap : Nat}
    (hroom : msgBufCap ≤ msg.buf.length) :
    (hcsExtractAndStripCertSdBuf ossl msg msgBufCap).result =
      hcsExtractAndStripCertSd ossl msg.src msgBufCap := by
  unfold hcsExtractAndStripCertSdBuf hcsExtractAndStripCertSd
  cases hfind : findSub (sdPrefix hcsSdCertId) msg.src with
  | none =>
      simp only
      split_ifs with hcap
      · rfl
      · obtain ⟨hlen, htake⟩ := @MsgBuf.take_copyFront msg msg.src []
          (by simp) (by omega)
        have hfits : msg.src.length ≤ (msg.copyFront msg.src).length := by
          omega
        simp only [CertStripCall.result, take_writeAt (Nat.le_refl _) hfits,
          htake]
        rfl
  | some split =>
      obtain ⟨before, rest⟩ := split
      obtain ⟨hsrc, -⟩ := findSub_some hfind
      simp only
      split_ifs with hkey
      · rfl
      · generalize sdParamValue _ = value
        rcases value with _ | ⟨v, _ | ⟨c, after⟩⟩
        · rfl
        · rfl
        · simp only
          generalize hcsB64Decode ossl v = decoded
          cases decoded with
          | none =>
              simp only
              split_ifs
              · rfl
              · rfl
          | some out =>
              obtain ⟨der, derLen⟩ := out
              simp only
              split_ifs with hbracket hcap
              · rfl
              · rfl
              · obtain ⟨hlen, htake⟩ := msg.take_copyFront hsrc (by omega)
                have hfits : before.length + after.length ≤
                    (msg.copyFront before).length := by omega
                have hboth := @take_writeAt_end _ (msg.copyFront before)
                  after before.length (by omega)
                rw [htake] at hboth
                have hend : before.length + after.length ≤
                    (writeAt (msg.copyFront before) before.length
                      after).length := by
                  rw [writeAt_length hfits]
                  exact hfits
                simp only [CertStripCall.result,
                  take_writeAt (Nat.le_refl _) hend, hboth, if_true]

theorem hcsExtractAndStripCertSdBuf_fits {msg : MsgBuf} {msgBufCap : Nat}
    (hroom : msgBufCap ≤ msg.buf.length) :
    (hcsExtractAndStripCertSdBuf ossl msg msgBufCap).buf.length =
        msg.buf.length ∧
      (hcsExtractAndStripCertSdBuf ossl msg msgBufCap).msgLen ≤
        msg.buf.length := by
  unfold hcsExtractAndStripCertSdBuf
  cases hfind : findSub (sdPrefix hcsSdCertId) msg.src with
  | none =>
      simp only
      split_ifs with hcap
      · exact ⟨rfl, Nat.zero_le _⟩
      · obtain ⟨hlen, -⟩ := @MsgBuf.take_copyFront msg msg.src []
          (by simp) (by omega)
        have hfits : msg.src.length + [(0 : UInt8)].length ≤
            (msg.copyFront msg.src).length := by
          rw [hlen, List.length_singleton]
          omega
        refine ⟨(writeAt_length hfits).trans hlen, ?_⟩
        dsimp only
        omega
  | some split =>
      obtain ⟨before, rest⟩ := split
      obtain ⟨hsrc, -⟩ := findSub_some hfind
      simp only
      split_ifs with hkey
      · exact ⟨rfl, Nat.zero_le _⟩
      · generalize sdParamValue _ = value
        rcases value with _ | ⟨v, _ | ⟨c, after⟩⟩
        · exact ⟨rfl, Nat.zero_le _⟩
        · exact ⟨rfl, Nat.zero_le _⟩
        · simp only
          generalize hcsB64Decode ossl v = decoded
          cases decoded with
          | none =>
              simp only
              split_ifs
              · exact ⟨rfl, Nat.zero_le _⟩
              · exact ⟨rfl, Nat.zero_le _⟩
          | some out =>
              simp only
              split_ifs with hbracket hcap
              · exact ⟨rfl, Nat.zero_le _⟩
              · exact ⟨rfl, Nat.zero_le _⟩
              · obtain ⟨hlen, -⟩ := msg.take_copyFront hsrc (by omega)
                have hboth := @writeAt_length _ (msg.copyFront before) after
                  before.length (by omega)
                have hfits : before.length + after.length +
                    [(0 : UInt8)].length ≤ (writeAt (msg.copyFront before)
                      before.length after).length := by
                  rw [hboth, hlen, List.length_singleton]
                  omega
                refine ⟨((writeAt_length hfits).trans hboth).trans hlen, ?_⟩
                dsimp only
                omega

theorem hcsExtractAndStripCertSdBuf_keeps (mem : Bytes) {srcLen : Nat}
    (hlen : srcLen ≤ mem.length) (msgBufCap : Nat)
    (hret : (hcsExtractAndStripCertSdBuf ossl (.same mem srcLen hlen)
      msgBufCap).ret ≠ 1) :
    (hcsExtractAndStripCertSdBuf ossl (.same mem srcLen hlen)
      msgBufCap).buf.take srcLen = mem.take srcLen := by
  revert hret
  have hsrc : (MsgBuf.same mem srcLen hlen).src.length = srcLen := by
    simp [MsgBuf.src, hlen]
  unfold hcsExtractAndStripCertSdBuf
  cases findSub (sdPrefix hcsSdCertId) (MsgBuf.same mem srcLen hlen).src with
  | none =>
      simp only
      split_ifs with hcap
      · exact fun _ => rfl
      · intro _
        rw [hsrc]
        exact take_writeAt (Nat.le_refl _) hlen
  | some split =>
      simp only
      split_ifs with hkey
      · exact fun _ => rfl
      · generalize sdParamValue _ = value
        rcases value with _ | ⟨v, _ | ⟨c, after⟩⟩
        · exact fun _ => rfl
        · exact fun _ => rfl
        · simp only
          generalize hcsB64Decode ossl v = decoded
          cases decoded with
          | none =>
              simp only
              split_ifs
              · exact fun _ => rfl
              · exact fun _ => rfl
          | some out =>
              simp only
              split_ifs
              · exact fun _ => rfl
              · exact fun _ => rfl
              · exact fun hret => absurd rfl hret

/-! ## Stripping undoes formatting -/

theorem hcsFormatSdCert_some {fails : Bool} {der element : Bytes} {cap : Nat}
    (h : hcsFormatSdCert fails der cap = some element) :
    element = sdCertText (Base64.encode der) := by
  unfold hcsFormatSdCert at h
  split_ifs at h
  simp only [Option.bind_eq_bind, Option.bind_eq_some_iff, hcsB64Encode] at h
  obtain ⟨b64, hb64, htext⟩ := h
  rw [(fits_eq_some.mp htext).2, (fits_eq_some.mp hb64).2]

theorem hcsExtractAndStripCertSd_value {ossl : OpenSSL}
    {before value after : Bytes} (hbefore : ¬ sdPrefix hcsSdCertId <:+: before)
    (hvalue : sdParamValue (value ++ quoteByte :: bracketByte :: after) =
      some (value, bracketByte :: after)) {der : Bytes} {derLen : Nat}
    (hdecode : hcsB64Decode ossl value = some (der, derLen)) {msgBufCap : Nat}
    (hcap : before.length + after.length < msgBufCap) :
    hcsExtractAndStripCertSd ossl (before ++ (sdCertText value ++ after))
        msgBufCap = .stripped (before ++ after) der derLen := by
  have hfind := findSub_sdPrefix (by decide) hbefore
    (ascii "cert=\"" ++ (value ++ quoteByte :: bracketByte :: after))
  have hline : before ++ (sdCertText value ++ after) =
      before ++ (sdPrefix hcsSdCertId ++ (ascii "cert=\"" ++
        (value ++ quoteByte :: bracketByte :: after))) := by
    simp [sdCertText, ascii, quoteByte, bracketByte]
  have hkey : ¬ ((ascii "cert=\"" ++ (value ++
        quoteByte :: bracketByte :: after)).length ≤
          (ascii "cert=\"").length ∨
      ¬ ascii "cert=\"" <+: ascii "cert=\"" ++ (value ++
        quoteByte :: bracketByte :: after)) := by
    rw [not_or, not_not]
    refine ⟨?_, List.prefix_append _ _⟩
    simp only [List.length_append, List.length_cons]
    omega
  rw [hline]
  unfold hcsExtractAndStripCertSd
  simp only [hfind, List.drop_left, if_neg hkey, hvalue, ne_eq,
    not_true_eq_false, if_false, hdecode, if_neg (Nat.not_le.mpr hcap)]

theorem hcsExtractAndStripCertSd_certText (ossl : OpenSSL) (der : Bytes)
    {before : Bytes} (hbefore : ¬ sdPrefix hcsSdCertId <:+: before)
    (after : Bytes) {msgBufCap : Nat}
    (hcap : before.length + after.length < msgBufCap) :
    hcsExtractAndStripCertSd ossl
        (before ++ (sdCertText (Base64.encode der) ++ after)) msgBufCap =
      .stripped (before ++ after)
        (der ++ List.replicate (Base64.padLength der.length) 0) der.length :=
  hcsExtractAndStripCertSd_value hbefore
    (sdParamValue_plain (plain_encode der) (bracketByte :: after))
    (hcsB64Decode_encode ossl der) hcap

theorem CertStripCall.of_stripped {call : CertStripCall} {msg der : Bytes}
    {derLen : Nat} (h : call.result = .stripped msg der derLen) :
    call.ret = 1 ∧ call.buf.take call.msgLen = msg ∧ call.der = der ∧
      call.derLen = derLen := by
  unfold CertStripCall.result at h
  split_ifs at h with hret
  cases h
  exact ⟨hret, rfl, rfl, rfl⟩

/--
The element gives back its certificate and leaves the text around it, in a
buffer of its own or in place; a call in place that strips nothing changes
nothing.
-/
theorem cert_round_trip (ossl : OpenSSL) (fails : Bool) (der element : Bytes)
    (bufLen : Nat) (hformat : hcsFormatSdCert fails der bufLen = some element)
    (before after : Bytes) (hbefore : ¬ sdPrefix hcsSdCertId <:+: before)
    (msgBufCap : Nat) (hcap : before.length + after.length < msgBufCap)
    (msg : MsgBuf) (hsrc : msg.src = before ++ (element ++ after))
    (hroom : msgBufCap ≤ msg.buf.length) :
    (let call := hcsExtractAndStripCertSdBuf ossl msg msgBufCap
     call.ret = 1 ∧ call.derLen = der.length ∧
      call.der.take call.derLen = der ∧
      call.msgLen = before.length + after.length ∧
      call.buf.take call.msgLen = before ++ after) ∧
    ∀ (mem : Bytes) (srcLen : Nat) (hlen : srcLen ≤ mem.length) (cap : Nat),
      (hcsExtractAndStripCertSdBuf ossl (.same mem srcLen hlen) cap).ret ≠ 1 →
      (hcsExtractAndStripCertSdBuf ossl (.same mem srcLen hlen)
        cap).buf.take srcLen = mem.take srcLen := by
  refine ⟨?_, fun mem srcLen hlen cap hret =>
    hcsExtractAndStripCertSdBuf_keeps mem hlen cap hret⟩
  obtain rfl := hcsFormatSdCert_some hformat
  have hresult := @hcsExtractAndStripCertSdBuf_result ossl _ _ hroom
  rw [hsrc, hcsExtractAndStripCertSd_certText ossl der hbefore after hcap]
    at hresult
  obtain ⟨hret, hmsg, hder, hderLen⟩ := CertStripCall.of_stripped hresult
  obtain ⟨hbuf, hmsgLen⟩ :=
    @hcsExtractAndStripCertSdBuf_fits ossl _ _ hroom
  refine ⟨hret, hderLen, ?_, ?_, hmsg⟩
  · rw [hder, hderLen, List.take_left]
  · have hlength := congrArg List.length hmsg
    rw [List.length_take, hbuf, Nat.min_eq_left hmsgLen,
      List.length_append] at hlength
    exact hlength

theorem cert_round_trip_sample :
    (let call := hcsExtractAndStripCertSdBuf sampleOpenSSL
      (.same ([97, 98] ++ (sdCertText (Base64.encode [1, 2]) ++ [99]) ++ [0])
        ([97, 98] ++ (sdCertText (Base64.encode [1, 2]) ++ [99])).length
        (by simp)) 40
     call.ret = 1 ∧ call.derLen = ([1, 2] : Bytes).length ∧
      call.der.take call.derLen = [1, 2] ∧
      call.msgLen = ([97, 98] : Bytes).length + ([99] : Bytes).length ∧
      call.buf.take call.msgLen = [97, 98] ++ [99]) ∧
    ∀ (mem : Bytes) (srcLen : Nat) (hlen : srcLen ≤ mem.length) (cap : Nat),
      (hcsExtractAndStripCertSdBuf sampleOpenSSL (.same mem srcLen hlen)
        cap).ret ≠ 1 →
      (hcsExtractAndStripCertSdBuf sampleOpenSSL (.same mem srcLen hlen)
        cap).buf.take srcLen = mem.take srcLen :=
  cert_round_trip sampleOpenSSL false [1, 2]
    (sdCertText (Base64.encode [1, 2])) 64 (by decide +kernel) [97, 98] [99]
    (by decide +kernel) 40 (by decide) _
    (by simp only [MsgBuf.src]; exact List.take_left) (by decide +kernel)

end MmHashChainSigs.Common
