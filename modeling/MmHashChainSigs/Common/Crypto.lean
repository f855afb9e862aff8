import MmHashChainSigs.Common.Libc
import MmHashChainSigs.Foundation.Base64

/-!
# Cryptographic primitives

`hcs_crypto.c` over an interface to OpenSSL.  Digests, keys, certificates and
the block decoder are what the interface says they are; which call fails is
told by a separate flag, so that every pattern of failures is a run.
-/

namespace MmHashChainSigs.Common

open MmHashChainSigs.Foundation

namespace Limits

def hcsHashLen : Nat := 32
def hcsHashMaxLen : Nat := 64
def hcsSigMaxLen : Nat := 144

end Limits

inductive HcsHashAlg where
  | sha256
  | sha384
  | sha512
  deriving DecidableEq, Repr

def hcsHashLen : HcsHashAlg → Nat
  | .sha256 => 32
  | .sha384 => 48
  | .sha512 => 64

def hcsHashName : HcsHashAlg → Bytes
  | .sha256 => ascii "sha256"
  | .sha384 => ascii "sha384"
  | .sha512 => ascii "sha512"

def toLower (c : UInt8) : UInt8 := if 65 ≤ c ∧ c ≤ 90 then c + 32 else c

def hcsHashFromName (name : Bytes) : Option HcsHashAlg :=
  if name.map toLower = ascii "sha256" then some .sha256
  else if name.map toLower = ascii "sha384" then some .sha384
  else if name.map toLower = ascii "sha512" then some .sha512
  else none

def hcsHashAlgFromHexLen : Nat → Option HcsHashAlg
  | 64 => some .sha256
  | 96 => some .sha384
  | 128 => some .sha512
  | _ => none

@[simp] theorem hcsHashFromName_hcsHashName (alg : HcsHashAlg) :
    hcsHashFromName (hcsHashName alg) = some alg := by
  cases alg <;> decide

@[simp] theorem hcsHashAlgFromHexLen_hcsHashLen (alg : HcsHashAlg) :
    hcsHashAlgFromHexLen (hcsHashLen alg * 2) = some alg := by
  cases alg <;> rfl

theorem hcsHashAlgFromHexLen_eq_some {n : Nat} {alg : HcsHashAlg} :
    hcsHashAlgFromHexLen n = some alg ↔ n = hcsHashLen alg * 2 := by
  constructor
  · intro h
    unfold hcsHashAlgFromHexLen at h
    split at h <;> cases h <;> rfl
  · rintro rfl
    exact hcsHashAlgFromHexLen_hcsHashLen alg

theorem hcsHashLen_injective : Function.Injective hcsHashLen := by
  intro first second h
  cases first <;> cases second <;> first | rfl | cases h

theorem hcsHashLen_pos (alg : HcsHashAlg) : 0 < hcsHashLen alg := by
  cases alg <;> decide

theorem hcsHashLen_le (alg : HcsHashAlg) :
    hcsHashLen alg ≤ Limits.hcsHashMaxLen := by
  cases alg <;> decide

/-! ## The OpenSSL interface -/

inductive KeyId where
  | ed25519
  | ec
  | other
  deriving DecidableEq, Repr

/--
What the code takes from OpenSSL and from the files it loads keys from.  A
signature may depend on a nonce; `verifyCert` returns the error string of a
rejected certificate; `decodeBlock` is `EVP_DecodeBlock`, three bytes for every
four symbols, and inverts padded base64 up to the padding bytes.
-/
structure OpenSSL where
  Pkey : Type
  X509 : Type
  Store : Type
  digest : HcsHashAlg → Bytes → Bytes
  digest_length : ∀ alg data, (digest alg data).length = hcsHashLen alg
  pkeyId : Pkey → KeyId
  groupName : Pkey → Option Bytes
  rawPublicKey : Pkey → Option Bytes
  pubKeyParam : Pkey → Option Bytes
  digestSign : Pkey → Option HcsHashAlg → Bytes → Nat → Bytes
  digestSign_length : ∀ key md data nonce,
    (digestSign key md data nonce).length ≤ Limits.hcsSigMaxLen
  digestVerify : Pkey → Option HcsHashAlg → Bytes → Bytes → Int
  decodeBlock : Bytes → Option Bytes
  decodeBlock_encode : ∀ bytes, decodeBlock (Base64.encode bytes) =
    some (bytes ++ List.replicate (Base64.padLength bytes.length) 0)
  decodeBlock_length : ∀ text out, decodeBlock text = some out →
    ∃ symbols, symbols <:+: text ∧ symbols.length % 4 = 0 ∧
      out.length = 3 * (symbols.length / 4)
  worldReadable : Bytes → Option Bool
  readPrivateKey : Bytes → Option Pkey
  readPubkey : Bytes → Option Pkey
  readX509 : Bytes → Option X509
  readStore : Bytes → Option Bytes → Option Store
  d2iX509 : Bytes → Option X509
  i2dX509 : X509 → Bytes
  x509GetPubkey : X509 → Option Pkey
  checkPrivateKey : X509 → Pkey → Bool
  verifyCert : Store → X509 → Option Bytes

variable (ossl : OpenSSL)

/-! ## Digests -/

def uint64ToBe (n : UInt64) : Bytes :=
  [(n >>> 56).toUInt8, (n >>> 48).toUInt8, (n >>> 40).toUInt8,
   (n >>> 32).toUInt8, (n >>> 24).toUInt8, (n >>> 16).toUInt8,
   (n >>> 8).toUInt8, n.toUInt8]

@[simp] theorem uint64ToBe_length (n : UInt64) :
    (uint64ToBe n).length = 8 := rfl

theorem uint64ToBe_injective : Function.Injective uint64ToBe := by
  intro m n h
  simp only [uint64ToBe, List.cons.injEq, and_true,
    ← UInt8.toNat_inj, UInt64.toNat_toUInt8, UInt64.toNat_shiftRight] at h
  obtain ⟨h7, h6, h5, h4, h3, h2, h1, h0⟩ := h
  have hm := m.toNat_lt
  have hn := n.toNat_lt
  simp [Nat.shiftRight_eq_div_pow] at h7 h6 h5 h4 h3 h2 h1 h0
  apply UInt64.toNat_inj.mp
  omega

/-- The digest of `prev || be64(seq) || msg`, or `none` when a call fails. -/
def hcsHashChain (fails : Bool) (alg : HcsHashAlg) (prev : Bytes)
    (seq : UInt64) (msg : Bytes) : Option Bytes :=
  if fails then none
  else some (ossl.digest alg
    (prev.take (hcsHashLen alg) ++ uint64ToBe seq ++ msg))

theorem hcsHashChain_length {fails : Bool} {alg : HcsHashAlg} {prev : Bytes}
    {seq : UInt64} {msg next : Bytes}
    (h : hcsHashChain ossl fails alg prev seq msg = some next) :
    next.length = hcsHashLen alg := by
  unfold hcsHashChain at h
  split_ifs at h
  cases h
  exact ossl.digest_length _ _

/-! ## Keys -/

def ecCurveBits (key : ossl.Pkey) : Nat :=
  match ossl.groupName key with
  | none => 0
  | some group =>
      if group = ascii "prime256v1" ∨ group = ascii "P-256" ∨
        group = ascii "secp256r1" then 256
      else if group = ascii "secp384r1" ∨ group = ascii "P-384" then 384
      else if group = ascii "secp521r1" ∨ group = ascii "P-521" then 521
      else 0

def keyIsSupported (key : ossl.Pkey) : Bool :=
  match ossl.pkeyId key with
  | .ed25519 => true
  | .ec => ecCurveBits ossl key ≠ 0
  | .other => false

def hcsLoadPrivateKey (path : Bytes) : Option ossl.Pkey :=
  (ossl.readPrivateKey path).filter (keyIsSupported ossl)

def hcsLoadPublicKey (path : Bytes) : Option ossl.Pkey :=
  (ossl.readPubkey path).filter (keyIsSupported ossl)

def hcsLoadX509Cert (path : Bytes) : Option ossl.X509 := ossl.readX509 path

def hcsX509GetPubkey (cert : ossl.X509) : Option ossl.Pkey :=
  (ossl.x509GetPubkey cert).filter (keyIsSupported ossl)

def hcsX509FromDer (der : Bytes) : Option ossl.X509 := ossl.d2iX509 der

def pickMd (key : ossl.Pkey) : Option (Option HcsHashAlg) :=
  match ossl.pkeyId key with
  | .ed25519 => some none
  | .ec =>
      match ecCurveBits ossl key with
      | 256 => some (some .sha256)
      | 384 => some (some .sha384)
      | 521 => some (some .sha512)
      | _ => none
  | .other => none

def hcsSign (fails : Bool) (nonce : Nat) (key : ossl.Pkey) (data : Bytes) :
    Option Bytes :=
  match pickMd ossl key with
  | none => none
  | some md => if fails then none else some (ossl.digestSign key md data nonce)

theorem hcsSign_length {fails : Bool} {nonce : Nat} {key : ossl.Pkey}
    {data sig : Bytes} (h : hcsSign ossl fails nonce key data = some sig) :
    sig.length ≤ Limits.hcsSigMaxLen := by
  unfold hcsSign at h
  split at h
  · cases h
  · split_ifs at h
    cases h
    exact ossl.digestSign_length _ _ _ _

/-- Zero for a valid signature, one for an invalid one, negative on error. -/
def hcsVerify (fails : Bool) (key : ossl.Pkey) (data sig : Bytes) : Int :=
  match pickMd ossl key with
  | none => -1
  | some md =>
      if fails then -1
      else if ossl.digestVerify key md data sig = 1 then 0
      else if ossl.digestVerify key md data sig = 0 then 1
      else -1

def hcsPubkeyFingerprint (fails : Bool) (key : ossl.Pkey) : Option Bytes :=
  if fails then none
  else
    match ossl.pkeyId key with
    | .ed25519 => (ossl.rawPublicKey key).map (ossl.digest .sha256)
    | .ec => (ossl.pubKeyParam key).map (ossl.digest .sha256)
    | .other => none

theorem hcsPubkeyFingerprint_length {fails : Bool} {key : ossl.Pkey}
    {fp : Bytes} (h : hcsPubkeyFingerprint ossl fails key = some fp) :
    fp.length = Limits.hcsHashLen := by
  unfold hcsPubkeyFingerprint at h
  split_ifs at h
  split at h
  · obtain ⟨data, -, rfl⟩ := Option.map_eq_some_iff.mp h
    exact ossl.digest_length _ _
  · obtain ⟨data, -, rfl⟩ := Option.map_eq_some_iff.mp h
    exact ossl.digest_length _ _
  · cases h

/-! ## A computable instance -/

/-- The low bytes of the text read as a number in base 257. -/
def sampleDigest (alg : HcsHashAlg) (data : Bytes) : Bytes :=
  (List.range (hcsHashLen alg)).map fun i =>
    UInt8.ofNat (data.foldl (fun n c => 257 * n + c.toNat + 1) 1 / 256 ^ i)

/--
An instance of the interface.  A certificate is its key, a store the list of
certificates it trusts, one for each byte of the path of the bundle, and a
signature the signed bytes themselves.
-/
def sampleOpenSSL : OpenSSL where
  Pkey := Bytes
  X509 := Bytes
  Store := List Bytes
  digest := sampleDigest
  digest_length alg data := by simp [sampleDigest]
  pkeyId _ := .ed25519
  groupName _ := none
  rawPublicKey key := some key
  pubKeyParam key := some key
  digestSign _ _ data _ := data.take Limits.hcsSigMaxLen
  digestSign_length key md data nonce := by simp
  digestVerify _ _ data sig := if sig = data then 1 else 0
  decodeBlock := Base64.decodeBlock
  decodeBlock_encode := Base64.decodeBlock_encode
  decodeBlock_length text out h :=
    ⟨text, List.infix_rfl, Base64.decodeBlock_length h⟩
  worldReadable _ := some false
  readPrivateKey path := some path
  readPubkey path := some path
  readX509 path := some path
  readStore bundle _ := some (bundle.map fun c => [c])
  d2iX509 der := some der
  i2dX509 cert := cert
  x509GetPubkey cert := some cert
  checkPrivateKey cert key := cert = key
  verifyCert store cert :=
    if cert ∈ store then none
    else some (ascii "unable to get local issuer certificate")

end MmHashChainSigs.Common
