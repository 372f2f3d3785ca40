import DotMatrix.Video.Basic

/-!
# The memory map

Every address of the 16-bit bus belongs to one piece of hardware, at an offset that is in range for
it, or to none.

* `Region` — the pieces of hardware; `Region.ofAddr` is the map.
* The boot ROM has no region of its own: while it is mapped it answers reads of the first 256
  addresses in place of the cartridge, see `DotMatrix.Bus.read`.
-/

set_option autoImplicit false

namespace DotMatrix

/-- What an address of the bus names. -/
inductive Region where
  /-- Cartridge ROM. -/
  | rom (i : Fin 0x8000)
  /-- Video memory. -/
  | vram (i : Fin 0x2000)
  /-- External RAM, on the cartridge. -/
  | eram (i : Fin 0x2000)
  /-- Work RAM, also through its echo. -/
  | wram (i : Fin 0x2000)
  /-- The sprite table. -/
  | oam (i : Fin 0xA0)
  /-- A register of the video unit. -/
  | control (r : VideoRegister)
  /-- The latch that unmaps the boot ROM. -/
  | bootLatch
  /-- Zero-page RAM. -/
  | zram (i : Fin 0x80)
  /-- Nothing is connected. -/
  | unmapped
  deriving DecidableEq, Repr

namespace Region

/-- Addresses from 0xFEA0 to 0xFF7F: the registers of the video unit, the latch, and gaps. -/
def ofControlAddr (addr : UInt16) : Region :=
  if addr = 0xFF50 then bootLatch
  else match VideoRegister.ofAddr? addr with
    | some r => control r
    | none => unmapped

/-- The region of an address. -/
def ofAddr (addr : UInt16) : Region :=
  if h : addr.toNat < 0x8000 then rom ⟨addr.toNat, h⟩
  else if h : addr.toNat < 0xA000 then vram ⟨addr.toNat - 0x8000, by omega⟩
  else if h : addr.toNat < 0xC000 then eram ⟨addr.toNat - 0xA000, by omega⟩
  else if h : addr.toNat < 0xE000 then wram ⟨addr.toNat - 0xC000, by omega⟩
  else if h : addr.toNat < 0xFE00 then wram ⟨addr.toNat - 0xE000, by omega⟩
  else if h : addr.toNat < 0xFEA0 then oam ⟨addr.toNat - 0xFE00, by omega⟩
  else if addr.toNat < 0xFF80 then ofControlAddr addr
  else zram ⟨addr.toNat - 0xFF80, by have := addr.toNat_lt; omega⟩

end Region

end DotMatrix
