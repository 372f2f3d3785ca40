import DotMatrix.Bus.Region

/-!
# The address bus

Everything that an address can reach: memories, the video unit and the boot ROM, which hides the
first 256 bytes of the cartridge until a program unmaps it.

* `Bus` — the hardware on the bus; `Bus.reset` clears the RAM and keeps the images.
* `Bus.read`, `Bus.write` — one byte; `Bus.read16`, `Bus.write16` — two, low byte first.
* `Bus.transferSprites` — a write to the DMA register copies a page into the sprite table.
* `Bus.page` — the same page read as a whole.
-/

set_option autoImplicit false

namespace DotMatrix

/-- The hardware on the bus. -/
structure Bus where
  /-- The boot ROM answers at the first 256 addresses. -/
  bootMapped : Bool
  boot : Memory 0x100
  rom : Memory 0x8000
  /-- External RAM.  Its size belongs to the cartridge; 8 KB unless a host changes it. -/
  eram : Array UInt8
  wram : Memory 0x2000
  zram : Memory 0x80
  video : Video

namespace Bus

/-- Size of external RAM after power on. -/
def eramSize : Nat := 0x2000

/-- The bus after power on, with empty images. -/
def powerOn : Bus where
  bootMapped := true
  boot := Memory.zero 0x100
  rom := Memory.zero 0x8000
  eram := Array.replicate eramSize 0
  wram := Memory.zero 0x2000
  zram := Memory.zero 0x80
  video := Video.powerOn

/-- Switches power off and on again: RAM and video unit are cleared, the images stay. -/
def reset (b : Bus) : Bus :=
  { b with
    bootMapped := true
    eram := Array.replicate eramSize 0
    wram := Memory.zero 0x2000
    zram := Memory.zero 0x80
    video := Video.powerOn }

/-- Inserts a cartridge with the given image. -/
def loadRom (b : Bus) (image : List UInt8) : Bus := { b with rom := Memory.ofImage 0x8000 image }

/-- Installs a boot ROM with the given image. -/
def loadBoot (b : Bus) (image : List UInt8) : Bus := { b with boot := Memory.ofImage 0x100 image }

/-- Changes the size of external RAM; new bytes are zero. -/
def resizeEram (b : Bus) (n : Nat) : Bus :=
  { b with eram := b.eram.take n ++ Array.replicate (n - b.eram.size) 0 }

/-- Reads a byte from a region. -/
def readRegion (b : Bus) : Region → UInt8
  | .rom i =>
    if h : i.val < 0x100 then if b.bootMapped then b.boot[i.val] else b.rom.get i else b.rom.get i
  | .vram i => b.video.readMemory i
  | .eram i => b.eram[i.val]?.getD 0xFF
  | .wram i => b.wram.get i
  | .oam i => b.video.readSprites i.val
  | .control r => b.video.readRegister r
  | .bootLatch => 0xFF
  | .zram i => b.zram.get i
  | .unmapped => 0xFF

/-- Reads a byte. -/
def read (b : Bus) (addr : UInt16) : UInt8 := b.readRegion (Region.ofAddr addr)

/-- Stores a byte in the sprite table. -/
def writeSprites (b : Bus) (i : Nat) (v : UInt8) : Bus :=
  { b with video := b.video.writeSprites i v }

/-- Address of byte `i` of a page. -/
def pageAddr (page : UInt8) (i : Nat) : UInt16 := UInt16.ofNat (page.toNat * 256 + i)

/-- The first 160 bytes of a page. -/
def page (b : Bus) (p : UInt8) : SpriteTable := Vector.ofFn fun i => b.read (pageAddr p i.val)

/-- Copies the first 160 bytes of a page into the sprite table, one after the other.  The page is
recorded in the DMA register before the first byte is read. -/
def transferSprites (b : Bus) (p : UInt8) : Bus :=
  Fin.foldl 160 (fun b i => b.writeSprites i.val (b.read (pageAddr p i.val)))
    { b with video := b.video.writeRegister .dma p }

/-- Writes a byte to a region.  ROM and unmapped addresses ignore writes; the latch unmaps the boot
ROM for good when anything but zero is written. -/
def writeRegion (b : Bus) (region : Region) (v : UInt8) : Bus :=
  match region with
  | .rom _ => b
  | .vram i => { b with video := b.video.writeMemory i v }
  | .eram i => { b with eram := b.eram.setIfInBounds i.val v }
  | .wram i => { b with wram := b.wram.set i.val v }
  | .oam i => b.writeSprites i.val v
  | .control .dma => b.transferSprites v
  | .control r => { b with video := b.video.writeRegister r v }
  | .bootLatch => if v = 0 then b else { b with bootMapped := false }
  | .zram i => { b with zram := b.zram.set i.val v }
  | .unmapped => b

/-- Writes a byte. -/
def write (b : Bus) (addr : UInt16) (v : UInt8) : Bus := b.writeRegion (Region.ofAddr addr) v

/-- The word of a low and a high byte. -/
def word (lo hi : UInt8) : UInt16 := UInt16.ofNat (lo.toNat + 256 * hi.toNat)

/-- The low byte of a word. -/
def lowByte (w : UInt16) : UInt8 := UInt8.ofNat w.toNat

/-- The high byte of a word. -/
def highByte (w : UInt16) : UInt8 := UInt8.ofNat (w.toNat / 256)

theorem toNat_word (lo hi : UInt8) : (word lo hi).toNat = lo.toNat + 256 * hi.toNat := by
  have := lo.toNat_lt
  have := hi.toNat_lt
  simp only [word, UInt16.toNat_ofNat']
  omega

theorem lowByte_word (lo hi : UInt8) : lowByte (word lo hi) = lo := by
  have := lo.toNat_lt
  apply UInt8.toNat.inj
  simp only [lowByte, UInt8.toNat_ofNat', toNat_word]
  omega

theorem highByte_word (lo hi : UInt8) : highByte (word lo hi) = hi := by
  have := lo.toNat_lt
  have := hi.toNat_lt
  apply UInt8.toNat.inj
  simp only [highByte, UInt8.toNat_ofNat', toNat_word]
  omega

theorem word_bytes (w : UInt16) : word (lowByte w) (highByte w) = w := by
  have := w.toNat_lt
  apply UInt16.toNat.inj
  rw [toNat_word]
  simp only [lowByte, highByte, UInt8.toNat_ofNat']
  omega

/-- Reads two bytes, the low one first. -/
def read16 (b : Bus) (addr : UInt16) : UInt16 := word (b.read addr) (b.read (addr + 1))

/-- Writes two bytes, the low one first. -/
def write16 (b : Bus) (addr : UInt16) (w : UInt16) : Bus :=
  (b.write addr (lowByte w)).write (addr + 1) (highByte w)

/-- Reads consecutive bytes; addresses wrap around. -/
def readBytes (b : Bus) (addr : UInt16) (n : Nat) : List UInt8 :=
  (List.range n).map fun i => b.read (addr + UInt16.ofNat i)

/-- Writes consecutive bytes in order; addresses wrap around. -/
def writeBytes (b : Bus) (addr : UInt16) : List UInt8 → Bus
  | [] => b
  | v :: vs => (b.write addr v).writeBytes (addr + 1) vs

end Bus

end DotMatrix
