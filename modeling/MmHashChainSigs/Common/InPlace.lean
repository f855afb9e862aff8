import MmHashChainSigs.Common.CertElement
import MmHashChainSigs.Common.StripAll

/-!
# Stripping in place

`hcs_strip_all_sd` once more, with its buffers.  The write position never
overtakes the read position, so a shared buffer still holds the part of the
source that has not been read.
-/

namespace MmHashChainSigs.Common

open MmHashChainSigs.Foundation

/-! ## The loop on buffers -/

/-- `out[pos] = c`, which is seen in the source if the buffers are one. -/
def MsgBuf.store (msg : MsgBuf) (pos : Nat) (c : UInt8) : MsgBuf :=
  match msg with
  | .same mem srcLen hlen =>
      .same (mem.set pos c) srcLen (by simpa using hlen)
  | .separate src buf => .separate src (buf.set pos c)

structure StripAllCall where
  ret : Int
  removed : Option Bool
  buf : Bytes
  written : Nat
  deriving DecidableEq, Repr

/-- Every round but the last reads a byte of the source. -/
def stripAllBufFrom (elementPrefix : Bytes) (outCap : Nat) :
    Nat → MsgBuf → Nat → Nat → Bool → StripAllCall
  | 0, msg, _, j, _ => ⟨-1, none, msg.buf, j⟩
  | fuel + 1, msg, i, j, any =>
      match msg.src.drop i with
      | [] =>
          if outCap ≤ j then ⟨-1, none, msg.buf, j⟩
          else ⟨toInt j, some any, (msg.store j 0).buf, j⟩
      | c :: text =>
          if elementPrefix <+: c :: text then
            stripAllBufFrom elementPrefix outCap fuel msg
              (sdScanElementPos false (i + elementPrefix.length)
                ((c :: text).drop elementPrefix.length)) j true
          else if outCap ≤ j + 1 then ⟨-1, none, msg.buf, j⟩
          else
            stripAllBufFrom elementPrefix outCap fuel (msg.store j c) (i + 1)
              (j + 1) any

def hcsStripAllSdBuf (msg : MsgBuf) (sdId : Bytes) (outCap : Nat) :
    StripAllCall :=
  if 80 ≤ (sdPrefix sdId).length then ⟨-1, none, msg.buf, 0⟩
  else
    stripAllBufFrom (sdPrefix sdId) outCap (msg.src.length + 1) msg 0 0 false

def StripAllCall.output (call : StripAllCall) : Bytes :=
  call.buf.take (if call.removed.isSome then call.written + 1
    else call.written)

/-! ## Stores -/

@[simp] theorem MsgBuf.store_buf (msg : MsgBuf) (pos : Nat) (c : UInt8) :
    (msg.store pos c).buf = msg.buf.set pos c := by
  cases msg <;> rfl

theorem MsgBuf.take_store {msg : MsgBuf} {pos : Nat}
    (hpos : pos < msg.buf.length) (c : UInt8) :
    (msg.store pos c).buf.take (pos + 1) = msg.buf.take pos ++ [c] := by
  rw [store_buf, List.take_add_one, List.getElem?_set_self hpos,
    List.take_set_of_le (Nat.le_refl pos)]
  rfl

theorem MsgBuf.store_src {msg : MsgBuf} {i pos : Nat} (h : pos < i)
    (c : UInt8) : (msg.store pos c).src.drop i = msg.src.drop i := by
  cases msg with
  | same mem srcLen hlen =>
      change ((mem.set pos c).take srcLen).drop i = (mem.take srcLen).drop i
      rw [List.take_set, List.drop_set_of_lt h]
  | separate src buf => rfl

/-! ## The read and the write position -/

structure PositionsFit (msg : MsgBuf) (outCap i j : Nat) : Prop where
  behind : j ≤ i
  room : outCap ≤ msg.buf.length
  inside : j < outCap ∨ j = 0

structure StripsTo (call : StripAllCall) (outCap : Nat) (kept out : Bytes)
    (removed : Bool) : Prop where
  ret : call.ret =
    if kept.length + out.length < outCap then toInt (kept.length + out.length)
    else -1
  removed : call.removed =
    if kept.length + out.length < outCap then some removed else none
  written : call.written =
    if kept.length + out.length < outCap then kept.length + out.length
    else outCap - 1
  bytes : call.buf.take call.written = (kept ++ out).take call.written
  terminated : kept.length + out.length < outCap →
    call.buf[kept.length + out.length]? = some 0

theorem behindElement_drop {sdId src : Bytes} {i : Nat}
    (h : StartsElement sdId (src.drop i)) :
    i ≤ sdScanElementPos false (i + (sdPrefix sdId).length)
        ((src.drop i).drop (sdPrefix sdId).length) ∧
      src.drop (sdScanElementPos false (i + (sdPrefix sdId).length)
        ((src.drop i).drop (sdPrefix sdId).length)) =
          behindElement sdId (src.drop i) := by
  obtain ⟨hsuffix, hpos⟩ := sdScanElementPos_ends false
    (i + (sdPrefix sdId).length) ((src.drop i).drop (sdPrefix sdId).length)
  have hlong := h.length_le
  have hless := hsuffix.length_le
  have hsrc : behindElement sdId (src.drop i) <:+ src :=
    (behindElement_suffix sdId _).trans (List.drop_suffix _ _)
  have hdrop := List.suffix_iff_eq_drop.mp hsrc
  unfold behindElement at hdrop ⊢
  rw [List.length_drop, sdPrefix_length] at hlong
  rw [List.length_drop, List.length_drop, sdPrefix_length] at hpos hless
  rw [sdPrefix_length] at hdrop ⊢
  refine ⟨by omega, ?_⟩
  rw [hdrop]
  congr 1
  omega

theorem MsgBuf.drop_cons {msg : MsgBuf} {i : Nat} {c : UInt8} {text : Bytes}
    (h : msg.src.drop i = c :: text) : msg.src.drop (i + 1) = text := by
  rw [← List.tail_drop, h]
  rfl

theorem PositionsFit.next {msg : MsgBuf} {outCap i j : Nat}
    (h : PositionsFit msg outCap i j) (hcap : ¬ outCap ≤ j + 1) (c : UInt8) :
    PositionsFit (msg.store j c) outCap (i + 1) (j + 1) := by
  constructor
  · have := h.behind
    omega
  · rw [MsgBuf.store_buf, List.length_set]
    exact h.room
  · omega

theorem StripsTo.shift {call : StripAllCall} {outCap : Nat}
    {kept out : Bytes} {c : UInt8} {removed : Bool}
    (h : StripsTo call outCap (kept ++ [c]) out removed) :
    StripsTo call outCap kept (c :: out) removed := by
  have hlen : (kept ++ [c]).length + out.length =
      kept.length + (c :: out).length := by
    simp only [List.length_append, List.length_cons, List.length_nil]
    omega
  obtain ⟨hret, hremoved, hwritten, hbytes, hterminated⟩ := h
  rw [hlen] at hret hremoved hwritten hterminated
  rw [List.append_assoc, List.singleton_append] at hbytes
  exact ⟨hret, hremoved, hwritten, hbytes, hterminated⟩

theorem stripsTo_full {buf kept out : Bytes} {outCap j : Nat}
    (hkept : kept = buf.take j) (hlen : kept.length = j)
    (hfull : outCap ≤ j + out.length) (hj : j = outCap - 1)
    (removed : Bool) :
    StripsTo ⟨-1, none, buf, j⟩ outCap kept out removed := by
  have hno : ¬ kept.length + out.length < outCap := by omega
  constructor
  · rw [if_neg hno]
  · rw [if_neg hno]
  · rw [if_neg hno]
    exact hj
  · change buf.take j = (kept ++ out).take j
    rw [List.take_append_of_le_length (Nat.le_of_eq hlen.symm), hkept,
      List.take_take, Nat.min_self]
  · exact fun h => absurd h hno

theorem stripAllBufFrom_leavesOut {sdId text out : Bytes}
    (h : LeavesOut sdId text out) {msg : MsgBuf} {i j outCap fuel : Nat}
    (htext : msg.src.drop i = text) (hfuel : text.length < fuel)
    (hfit : PositionsFit msg outCap i j) (any : Bool) :
    StripsTo (stripAllBufFrom (sdPrefix sdId) outCap fuel msg i j any) outCap
      (msg.buf.take j) out (any || decide (out.length < text.length)) := by
  induction h generalizing msg i j fuel any with
  | nil hnot =>
      have hroom := hfit.room
      have hinside := hfit.inside
      have hkept : (msg.buf.take j).length = j := by
        rw [List.length_take]
        omega
      obtain ⟨fuel, rfl⟩ := Nat.exists_eq_succ_of_ne_zero
        (Nat.ne_zero_of_lt hfuel)
      unfold stripAllBufFrom
      rw [htext]
      simp only
      by_cases hcap : outCap ≤ j
      · rw [if_pos hcap]
        apply stripsTo_full rfl hkept (by simpa using hcap) (by omega)
      · rw [if_neg hcap]
        have hlt : (msg.buf.take j).length + ([] : Bytes).length < outCap := by
          rw [hkept, List.length_nil]
          omega
        have hbuf : j < msg.buf.length := by omega
        constructor
        · rw [if_pos hlt, hkept]
          simp only [List.length_nil, Nat.add_zero]
        · rw [if_pos hlt]
          simp
        · rw [if_pos hlt, hkept]
          simp only [List.length_nil, Nat.add_zero]
        · rw [MsgBuf.store_buf, List.append_nil, List.take_take, Nat.min_self,
            List.take_set_of_le (Nat.le_refl j)]
        · intro _
          rw [hkept, MsgBuf.store_buf]
          exact List.getElem?_set_self hbuf
  | @take c text out hnot hrest ih =>
      have hroom := hfit.room
      have hinside := hfit.inside
      have hkept : (msg.buf.take j).length = j := by
        rw [List.length_take]
        omega
      obtain ⟨fuel, rfl⟩ := Nat.exists_eq_succ_of_ne_zero
        (Nat.ne_zero_of_lt hfuel)
      rw [List.length_cons] at hfuel
      unfold stripAllBufFrom
      rw [htext]
      simp only
      rw [if_neg (show ¬ sdPrefix sdId <+: c :: text from
        fun hstarts => hnot (starts_elementAt.mpr hstarts))]
      by_cases hcap : outCap ≤ j + 1
      · rw [if_pos hcap]
        apply stripsTo_full rfl hkept _ (by omega)
        rw [List.length_cons]
        omega
      · rw [if_neg hcap]
        have hnext : (msg.store j c).src.drop (i + 1) = text := by
          rw [MsgBuf.store_src (by have := hfit.behind; omega)]
          exact MsgBuf.drop_cons htext
        have hfuel' : text.length < fuel := by omega
        have hstrips := ih hnext hfuel' (hfit.next hcap c) any
        rw [MsgBuf.take_store (by omega)] at hstrips
        have hflag : decide ((c :: out).length < (c :: text).length) =
            decide (out.length < text.length) := by
          simp only [List.length_cons, Nat.add_lt_add_iff_right]
        rw [hflag]
        exact hstrips.shift
  | @skip text rest out hpart hrest ih =>
      obtain ⟨hstarts, rfl⟩ := elementAt_iff.mp hpart
      obtain ⟨fuel, rfl⟩ := Nat.exists_eq_succ_of_ne_zero
        (Nat.ne_zero_of_lt hfuel)
      have hshorter := behindElement_length hstarts
      have hless := LeavesOut.length_le hrest
      obtain ⟨hahead, hbehind⟩ := behindElement_drop
        (show StartsElement sdId (msg.src.drop i) by rwa [htext])
      rw [htext] at hahead hbehind
      have hfit' : PositionsFit msg outCap
          (sdScanElementPos false (i + (sdPrefix sdId).length)
            (text.drop (sdPrefix sdId).length)) j :=
        ⟨hfit.behind.trans hahead, hfit.room, hfit.inside⟩
      have hfuel' : (behindElement sdId text).length < fuel := by omega
      have hstrips := ih hbehind hfuel' hfit' true
      rw [show (any || decide (out.length < text.length)) = true by
        simp only [Bool.or_eq_true, decide_eq_true_eq]
        omega]
      cases text with
      | nil => exact absurd hshorter (Nat.not_lt_zero _)
      | cons c text =>
          unfold stripAllBufFrom
          rw [htext]
          simp only
          rw [if_pos (show sdPrefix sdId <+: c :: text from hstarts)]
          exact hstrips

/-! ## One array or two -/

theorem hcsStripAllSdBuf_stripsTo {msg : MsgBuf} {sdId out : Bytes}
    (hid : (sdPrefix sdId).length < 80) (h : LeavesOut sdId msg.src out)
    {outCap : Nat} (hroom : outCap ≤ msg.buf.length) :
    StripsTo (hcsStripAllSdBuf msg sdId outCap) outCap [] out
      (decide (out.length < msg.src.length)) := by
  unfold hcsStripAllSdBuf
  rw [if_neg (Nat.not_le.mpr hid)]
  exact stripAllBufFrom_leavesOut h List.drop_zero (Nat.lt_succ_self _)
    ⟨Nat.le_refl 0, hroom, .inr rfl⟩ false

theorem hcsStripAllSdBuf_result (msg : MsgBuf) (sdId : Bytes) {outCap : Nat}
    (hroom : outCap ≤ msg.buf.length) :
    match hcsStripAllSd msg.src sdId outCap with
    | none => (hcsStripAllSdBuf msg sdId outCap).ret = -1 ∧
        (hcsStripAllSdBuf msg sdId outCap).removed = none
    | some (out, removed) =>
        (hcsStripAllSdBuf msg sdId outCap).ret = toInt out.length ∧
          (hcsStripAllSdBuf msg sdId outCap).removed = some removed ∧
          (hcsStripAllSdBuf msg sdId outCap).output = out ++ [0] := by
  by_cases hid : (sdPrefix sdId).length < 80
  · obtain ⟨out, hout⟩ := exists_leavesOut sdId msg.src
    obtain ⟨hret, hremoved, hwritten, hbytes, hterminated⟩ :=
      hcsStripAllSdBuf_stripsTo hid hout hroom
    rw [hcsStripAllSd_leavesOut hid hout]
    simp only [List.length_nil, Nat.zero_add, List.nil_append]
      at hret hremoved hwritten hbytes hterminated
    by_cases hcap : out.length < outCap
    · rw [if_pos hcap] at hret hremoved hwritten ⊢
      refine ⟨hret, hremoved, ?_⟩
      unfold StripAllCall.output
      rw [hwritten, List.take_length] at hbytes
      rw [hremoved, Option.isSome_some, if_pos rfl, hwritten,
        List.take_add_one, hbytes, hterminated hcap]
      rfl
    · rw [if_neg hcap] at hret hremoved ⊢
      exact ⟨hret, hremoved⟩
  · rw [Nat.not_lt] at hid
    unfold hcsStripAllSd hcsStripAllSdBuf
    rw [if_pos hid, if_pos hid]
    exact ⟨rfl, rfl⟩

def StripAllCall.seen (call : StripAllCall) : Int × Option Bool × Bytes :=
  (call.ret, call.removed, call.output)

theorem hcsStripAllSdBuf_seen {msg msg' : MsgBuf} (hsrc : msg.src = msg'.src)
    (sdId : Bytes) {outCap : Nat} (hroom : outCap ≤ msg.buf.length)
    (hroom' : outCap ≤ msg'.buf.length) :
    (hcsStripAllSdBuf msg sdId outCap).seen =
      (hcsStripAllSdBuf msg' sdId outCap).seen := by
  by_cases hid : (sdPrefix sdId).length < 80
  · obtain ⟨out, hout⟩ := exists_leavesOut sdId msg.src
    have hstrips := hcsStripAllSdBuf_stripsTo hid hout hroom
    rw [hsrc] at hout
    have hstrips' := hcsStripAllSdBuf_stripsTo hid hout hroom'
    rw [← hsrc] at hstrips'
    have hwritten : (hcsStripAllSdBuf msg sdId outCap).written =
        (hcsStripAllSdBuf msg' sdId outCap).written := by
      rw [hstrips.written, hstrips'.written]
    have hremoved : (hcsStripAllSdBuf msg sdId outCap).removed =
        (hcsStripAllSdBuf msg' sdId outCap).removed := by
      rw [hstrips.removed, hstrips'.removed]
    have hbytes : (hcsStripAllSdBuf msg sdId outCap).buf.take
        (hcsStripAllSdBuf msg' sdId outCap).written =
        (hcsStripAllSdBuf msg' sdId outCap).buf.take
          (hcsStripAllSdBuf msg' sdId outCap).written := by
      rw [← hwritten, hstrips.bytes, hwritten, hstrips'.bytes]
    unfold StripAllCall.seen StripAllCall.output
    rw [hstrips.ret, hstrips'.ret, hremoved, hwritten]
    congr 2
    by_cases hcap : ([] : Bytes).length + out.length < outCap
    · rw [hstrips'.removed, if_pos hcap, Option.isSome_some, if_pos rfl,
        List.take_add_one, List.take_add_one, hbytes]
      have hend := hstrips'.written
      rw [if_pos hcap] at hend
      rw [hend, hstrips.terminated hcap, hstrips'.terminated hcap]
    · rw [hstrips'.removed, if_neg hcap]
      exact hbytes
  · unfold hcsStripAllSdBuf
    rw [if_pos (Nat.not_lt.mp hid), if_pos (Nat.not_lt.mp hid)]
    rfl

theorem toInt_ne_neg_one {n : Nat} (h : n < 2 ^ 32 - 1) : toInt n ≠ -1 := by
  unfold toInt
  intro hneg
  have hcast : Int.bmod (n : Int) (2 ^ 32) % (2 ^ 32 : Nat) =
      (n : Int) % (2 ^ 32 : Nat) := Int.bmod_emod
  rw [hneg] at hcast
  omega

/--
In place or with an output of its own, the call returns the same, stores the
same flag and writes the same bytes; with room for the source it fails for a
long identifier only.
-/
theorem strip_in_place (mem buf : Bytes) (srcLen outCap : Nat) (sdId : Bytes)
    (hlen : srcLen ≤ mem.length) (hmem : outCap ≤ mem.length)
    (hbuf : outCap ≤ buf.length) :
    (hcsStripAllSdBuf (.same mem srcLen hlen) sdId outCap).seen =
        (hcsStripAllSdBuf (.separate (mem.take srcLen) buf) sdId
          outCap).seen ∧
      (sdId.length ≤ 77 → srcLen + 1 ≤ outCap → srcLen < 2 ^ 32 - 1 →
        (hcsStripAllSdBuf (.same mem srcLen hlen) sdId outCap).ret ≠ -1) := by
  have hsrc : (MsgBuf.same mem srcLen hlen).src =
      (MsgBuf.separate (mem.take srcLen) buf).src := rfl
  have hroom : outCap ≤ (MsgBuf.same mem srcLen hlen).buf.length := hmem
  refine ⟨hcsStripAllSdBuf_seen hsrc sdId hroom hbuf, ?_⟩
  intro hid hcap hshort
  have hprefix : (sdPrefix sdId).length < 80 := by
    rw [sdPrefix_length]
    omega
  obtain ⟨out, hout⟩ :=
    exists_leavesOut sdId (MsgBuf.same mem srcLen hlen).src
  have hless : out.length ≤ (mem.take srcLen).length :=
    LeavesOut.length_le hout
  rw [List.length_take] at hless
  have hstrips := hcsStripAllSdBuf_stripsTo hprefix hout hroom
  rw [hstrips.ret, List.length_nil, Nat.zero_add, if_pos (by omega)]
  exact toInt_ne_neg_one (by omega)

theorem strip_in_place_sample :
    (hcsStripAllSdBuf (.same (ascii "[x b]c" ++ [0]) 6 (by decide)) [120]
        7).seen =
      (hcsStripAllSdBuf (.separate ((ascii "[x b]c" ++ [0]).take 6)
        (List.replicate 7 0)) [120] 7).seen :=
  (strip_in_place (ascii "[x b]c" ++ [0]) (List.replicate 7 0) 6 7 [120]
    (by decide) (by decide) (by decide)).1

theorem strip_long_id_fails :
    (hcsStripAllSdBuf (.same [0] 0 (by decide)) (List.replicate 78 97)
      1).ret = -1 := by
  decide +kernel

end MmHashChainSigs.Common
