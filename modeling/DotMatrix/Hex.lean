/-!
# Hexadecimal text

* `Hex.word` — a word the way messages write addresses and opcodes: `0x` and four upper-case digits.
-/

set_option autoImplicit false

namespace DotMatrix

namespace Hex

/-- The upper-case digit of a number below 16; of a larger number, that of its low four bits. -/
def digit (n : Nat) : Char := (Nat.digitChar (n % 16)).toUpper

/-- A word as `0x` and four digits. -/
def word (w : UInt16) : String :=
  String.ofList ['0', 'x', digit (w.toNat / 4096), digit (w.toNat / 256), digit (w.toNat / 16),
    digit w.toNat]

end Hex

end DotMatrix
