/-!
# Fixed-size memories

A memory chip of the machine is a vector of bytes: its size is part of its type, so an index that
is in range stays in range whatever is written.

* `Memory n` — `n` bytes; `Memory.filled` has the same byte everywhere.
* `Memory.ofImage` — a chip programmed from an image of any length: what does not fit is dropped,
  what is missing reads as zero.

Principal results: `getElem_ofImage` — the content of a programmed chip, byte by byte.
-/

set_option autoImplicit false

namespace DotMatrix

/-- `n` bytes of memory. -/
abbrev Memory (n : Nat) := Vector UInt8 n

namespace Memory

/-- A memory that holds the same byte everywhere. -/
def filled (n : Nat) (b : UInt8) : Memory n := Vector.replicate n b

/-- A memory of zeros. -/
def zero (n : Nat) : Memory n := filled n 0

/-- A memory programmed from an image: bytes past the end of the memory are dropped, bytes past the
end of the image are zero. -/
def ofImage (n : Nat) (image : List UInt8) : Memory n :=
  let bytes := image.toArray
  Vector.ofFn fun i : Fin n => bytes[i.val]?.getD 0

/-- Writes bytes from an offset on; those past the end of the memory are dropped. -/
def overwrite {n : Nat} (m : Memory n) (offset : Nat) : List UInt8 → Memory n
  | [] => m
  | b :: bs => overwrite (m.setIfInBounds offset b) (offset + 1) bs

theorem getElem_filled {n : Nat} (b : UInt8) (i : Nat) (h : i < n) : (filled n b)[i] = b := by
  simp [filled]

theorem getElem_ofImage {n : Nat} (image : List UInt8) (i : Nat) (h : i < n) :
    (ofImage n image)[i] = image[i]?.getD 0 := by
  simp [ofImage]

end Memory

end DotMatrix
