import Mathlib

/-!
# Writing into a buffer

`writeAt buf pos data` is the buffer once `data` is copied to position `pos`,
whatever part of the same buffer `data` was read from.
-/

namespace MmHashChainSigs.Foundation

variable {α : Type}

def writeAt (buf : List α) (pos : Nat) (data : List α) : List α :=
  buf.take pos ++ (data ++ buf.drop (pos + data.length))

variable {buf data : List α} {pos : Nat}

theorem writeAt_length (h : pos + data.length ≤ buf.length) :
    (writeAt buf pos data).length = buf.length := by
  simp only [writeAt, List.length_append, List.length_take, List.length_drop]
  omega

theorem take_writeAt {n : Nat} (hn : n ≤ pos) (h : pos ≤ buf.length) :
    (writeAt buf pos data).take n = buf.take n := by
  have htake : n ≤ (buf.take pos).length := by
    rw [List.length_take]
    omega
  rw [writeAt, List.take_append_of_le_length htake, List.take_take]
  congr 1
  omega

theorem take_writeAt_end (h : pos ≤ buf.length) :
    (writeAt buf pos data).take (pos + data.length) =
      buf.take pos ++ data := by
  have hlen : (buf.take pos ++ data).length = pos + data.length := by
    rw [List.length_append, List.length_take]
    omega
  rw [writeAt, ← List.append_assoc, ← hlen, List.take_left]

end MmHashChainSigs.Foundation
