import DotMatrix.Proofs.Checked.Video
import DotMatrix.Proofs.Footprint
import DotMatrix.Proofs.MemoryMap

/-!
# The address bus, with all checks

An address is compared with the bounds of the regions one after the other; the offset in a region is the
difference to its first address.

* `Checked.read`, `Checked.write` — one byte; `Checked.read16`, `Checked.write16` — two.
* `Checked.transferSprites` — a transfer to the sprite table.
* `Checked.word`, `Checked.highByte` — words from bytes and bytes of words.

Principal results: `Checked.read_eq`, `Checked.write_eq` — while external RAM has its size, no address
fails a check.
-/

set_option autoImplicit false

namespace DotMatrix

namespace Checked

/-- The word of a low and a high byte. -/
def word (lo hi : UInt8) : Checked UInt16 :=
  return UInt16.ofNat ((← Width.word.shiftLeft hi.toNat 8) ||| lo.toNat)

/-- The high byte of a word. -/
def highByte (w : UInt16) : Checked UInt8 := return UInt8.ofNat (← Width.word.shiftRight w.toNat 8)

/-- Reads a byte. -/
def read (b : Bus) (addr : UInt16) : Checked UInt8 := do
  let a := addr.toNat
  if a < 0x100 ∧ b.bootMapped then fetch b.boot a
  else if a < 0x8000 then fetch b.rom a
  else if a < 0xA000 then readMemory b.video (UInt16.ofNat (← Width.word.sub a 0x8000))
  else if a < 0xC000 then fetchAt b.eram (← Width.word.sub a 0xA000)
  else if a < 0xE000 then fetch b.wram (← Width.word.sub a 0xC000)
  else if a < 0xFE00 then fetch b.wram (← Width.word.sub a 0xE000)
  else if a < 0xFEA0 then return b.video.readSprites (← Width.word.sub a 0xFE00)
  else if 0xFF40 ≤ a ∧ a < 0xFF4C then return b.video.readAddr addr
  else if 0xFF80 ≤ a then fetch b.zram (← Width.word.sub a 0xFF80)
  else return 0xFF

/-- Copies the first 160 bytes of a page into the sprite table. -/
def transferSprites (b : Bus) (p : UInt8) : Checked Bus := do
  let source ← Width.word.shiftLeft p.toNat 8
  loop 0 160 { b with video := b.video.writeAddr 0xFF46 p } fun b i => do
    return b.writeSprites i (← read b (UInt16.ofNat source + UInt16.ofNat i))

/-- Writes a byte. -/
def write (b : Bus) (addr : UInt16) (v : UInt8) : Checked Bus := do
  let a := addr.toNat
  if a < 0x8000 then return b
  else if a < 0xA000 then
    let video ← writeMemory b.video (UInt16.ofNat (← Width.word.sub a 0x8000)) v
    return { b with video := video }
  else if a < 0xC000 then
    return { b with eram := ← storeAt b.eram (← Width.word.sub a 0xA000) v }
  else if a < 0xE000 then return { b with wram := ← store b.wram (← Width.word.sub a 0xC000) v }
  else if a < 0xFE00 then return { b with wram := ← store b.wram (← Width.word.sub a 0xE000) v }
  else if a < 0xFEA0 then return b.writeSprites (← Width.word.sub a 0xFE00) v
  else if a = 0xFF46 then transferSprites b v
  else if 0xFF40 ≤ a ∧ a < 0xFF4C then return { b with video := b.video.writeAddr addr v }
  else if a = 0xFF50 then
    return if v ≠ 0 ∧ b.bootMapped then { b with bootMapped := false } else b
  else if 0xFF80 ≤ a then return { b with zram := ← store b.zram (← Width.word.sub a 0xFF80) v }
  else return b

/-- Reads two bytes, the low one first. -/
def read16 (b : Bus) (addr : UInt16) : Checked UInt16 := do
  let lo ← read b addr
  word lo (← read b (addr + 1))

/-- Writes two bytes, the low one first. -/
def write16 (b : Bus) (addr w : UInt16) : Checked Bus := do
  let b ← write b addr (Bus.lowByte w)
  write b (addr + 1) (← highByte w)

/-! ## No check fails -/

theorem word_eq (lo hi : UInt8) : word lo hi = .ok (Bus.word lo hi) := by
  have hlo := lo.toNat_lt
  have hhi := hi.toNat_lt
  have hshift : hi.toNat <<< 8 % Width.word.limit = hi.toNat <<< 8 := by
    rw [Nat.shiftLeft_eq]
    exact Nat.mod_eq_of_lt (by simp only [Width.limit]; omega)
  rw [word, Width.shiftLeft_ok (by decide), ok_bind, hshift, ← Nat.shiftLeft_add_eq_or_of_lt hlo,
    Nat.shiftLeft_eq, Bus.word, Nat.mul_comm, Nat.add_comm]
  rfl

theorem highByte_eq (w : UInt16) : highByte w = .ok (Bus.highByte w) := by
  rw [highByte, Width.shiftRight_ok (by decide), ok_bind, Nat.shiftRight_eq_div_pow]
  rfl

variable {b : Bus}

theorem offset_of_serves {addr : UInt16} {i : Fin 0x2000} (h : (Region.vram i).Serves addr.toNat) :
    Video.offset (UInt16.ofNat (addr.toNat - 0x8000)) = i := by
  have hi := i.isLt
  simp only [Region.Serves] at h
  apply Fin.ext
  simp only [Video.offset, h, Nat.add_sub_cancel_left, UInt16.toNat_ofNat']
  omega

theorem register_of_serves {addr : UInt16} {p : VideoRegister}
    (h : (Region.control p).Serves addr.toNat) : VideoRegister.ofAddr? addr = some p :=
  VideoRegister.ofAddr?_eq_some_iff.2 (UInt16.toNat_inj.1 h)

/-- **Every address can be read.** -/
theorem read_eq (h : b.eram.size = Bus.eramSize) (addr : UInt16) :
    read b addr = .ok (b.read addr) := by
  -- where the region lies decides which of the comparisons come out
  have hserves := Region.serves_ofAddr addr
  have hspans := hserves.spans
  unfold read Bus.read
  simp only
  generalize Region.ofAddr addr = region at hserves hspans ⊢
  cases region with
  | rom i =>
    simp only [Region.Serves] at hserves
    by_cases hboot : addr.toNat < 0x100 ∧ b.bootMapped = true
    · rw [if_pos hboot, fetch_ok _ hboot.1]
      simp only [Bus.readRegion, ← hserves, hboot, dif_pos, if_pos]
    · rw [if_neg hboot, if_pos (by omega), fetch_ok _ (by omega)]
      simp only [Bus.readRegion, get_eq_getElem, ← hserves]
      split
      · rw [if_neg fun hmapped => hboot ⟨‹_›, hmapped⟩]
      · rfl
  | vram i =>
    have hoffset := offset_of_serves hserves
    simp only [Region.Serves] at hserves
    repeat rw [if_neg (by omega)]
    rw [if_pos (by omega), Width.sub_ok (by omega), ok_bind, readMemory_eq, hoffset]
    rfl
  | eram i =>
    have hsize : b.eram.size = 0x2000 := h
    simp only [Region.Serves] at hserves
    repeat rw [if_neg (by omega)]
    rw [if_pos (by omega), Width.sub_ok (by omega), ok_bind, fetchAt_ok (by omega)]
    simp only [Bus.readRegion, hserves, Nat.add_sub_cancel_left]
    rw [Array.getElem?_eq_getElem (by omega)]
    rfl
  | wram i =>
    simp only [Region.Serves] at hserves
    repeat rw [if_neg (by omega)]
    rcases hserves with hserves | ⟨hserves, hlt⟩
    · rw [if_pos (by omega), Width.sub_ok (by omega), ok_bind, fetch_ok _ (by omega)]
      simp only [Bus.readRegion, get_eq_getElem, hserves, Nat.add_sub_cancel_left]
    · rw [if_neg (by omega), if_pos hlt, Width.sub_ok (by omega), ok_bind, fetch_ok _ (by omega)]
      simp only [Bus.readRegion, get_eq_getElem, hserves, Nat.add_sub_cancel_left]
  | oam i =>
    simp only [Region.Serves] at hserves
    repeat rw [if_neg (by omega)]
    rw [if_pos (by omega), Width.sub_ok (by omega), ok_bind, hserves, Nat.add_sub_cancel_left]
    rfl
  | control p =>
    have hregister := register_of_serves hserves
    simp only [Region.Spans] at hspans
    repeat rw [if_neg (by omega)]
    rw [if_pos hspans, Video.readAddr, hregister]
    rfl
  | bootLatch =>
    simp only [Region.Serves] at hserves
    repeat rw [if_neg (by omega)]
    rfl
  | zram i =>
    have hi := i.isLt
    simp only [Region.Serves] at hserves
    repeat rw [if_neg (by omega)]
    rw [if_pos (by omega), Width.sub_ok (by omega), ok_bind, fetch_ok _ (by omega)]
    simp only [Bus.readRegion, get_eq_getElem, hserves, Nat.add_sub_cancel_left]
  | unmapped =>
    simp only [Region.Spans] at hspans
    repeat rw [if_neg (by omega)]
    rfl

theorem transferSprites_eq (h : b.eram.size = Bus.eramSize) (p : UInt8) :
    transferSprites b p = .ok (b.transferSprites p) := by
  have hp := p.toNat_lt
  have hpage : p.toNat <<< 8 % Width.word.limit = p.toNat * 256 := by
    rw [Nat.shiftLeft_eq]
    exact Nat.mod_eq_of_lt (by simp only [Width.limit]; omega)
  have hstart : ({ b with video := b.video.writeAddr 0xFF46 p } : Bus)
      = { b with video := b.video.writeRegister .dma p } := rfl
  rw [transferSprites, Width.shiftLeft_ok (by decide), ok_bind, hpage, hstart]
  refine loop_eq_foldl_of_inv (fun b => b.eram.size = Bus.eramSize) (fun b h i => ?_) h
  have haddr : UInt16.ofNat (p.toNat * 256) + UInt16.ofNat i.val = Bus.pageAddr p i.val :=
    (UInt16.ofNat_add _ _).symm
  rw [read_eq h, haddr]
  exact ⟨rfl, (b.touched_writeSprites i.val _).eram_size.trans h⟩

/-- Whether the boot ROM was mapped before makes no difference to what the latch leaves. -/
theorem latch_eq (b : Bus) (v : UInt8) :
    (if v ≠ 0 ∧ b.bootMapped then { b with bootMapped := false } else b) =
      if v = 0 then b else { b with bootMapped := false } := by
  by_cases hv : v = 0
  · rw [if_pos hv, if_neg fun h => h.1 hv]
  · rw [if_neg hv]
    cases hmapped : b.bootMapped with
    | true => rw [if_pos ⟨hv, rfl⟩]
    | false => rw [if_neg fun h => Bool.false_ne_true h.2, ← hmapped]

/-- **Every address can be written to.** -/
theorem write_eq (h : b.eram.size = Bus.eramSize) (addr : UInt16) (v : UInt8) :
    write b addr v = .ok (b.write addr v) := by
  have hserves := Region.serves_ofAddr addr
  have hspans := hserves.spans
  unfold write Bus.write
  simp only
  generalize Region.ofAddr addr = region at hserves hspans ⊢
  cases region with
  | rom i =>
    have hi := i.isLt
    simp only [Region.Serves] at hserves
    rw [if_pos (by omega)]
    rfl
  | vram i =>
    have hoffset := offset_of_serves hserves
    have hi := i.isLt
    simp only [Region.Serves] at hserves
    rw [if_neg (by omega), if_pos (by omega), Width.sub_ok (by omega), ok_bind, writeMemory_eq,
      hoffset, ok_bind]
    rfl
  | eram i =>
    have hsize : b.eram.size = 0x2000 := h
    have hi := i.isLt
    simp only [Region.Serves] at hserves
    repeat rw [if_neg (by omega)]
    rw [if_pos (by omega), Width.sub_ok (by omega), ok_bind, storeAt_ok (by omega), ok_bind]
    simp only [Bus.writeRegion, hserves, Nat.add_sub_cancel_left]
    rw [Array.setIfInBounds_def, dif_pos (by omega)]
    rfl
  | wram i =>
    have hi := i.isLt
    simp only [Region.Serves] at hserves
    repeat rw [if_neg (by omega)]
    rcases hserves with hserves | ⟨hserves, hlt⟩
    · rw [if_pos (by omega), Width.sub_ok (by omega), ok_bind, store_ok _ (by omega), ok_bind]
      simp only [Bus.writeRegion, hserves, Nat.add_sub_cancel_left]
      rfl
    · rw [if_neg (by omega), if_pos hlt, Width.sub_ok (by omega), ok_bind, store_ok _ (by omega),
        ok_bind]
      simp only [Bus.writeRegion, hserves, Nat.add_sub_cancel_left]
      rfl
  | oam i =>
    have hi := i.isLt
    simp only [Region.Serves] at hserves
    repeat rw [if_neg (by omega)]
    rw [if_pos (by omega), Width.sub_ok (by omega), ok_bind, hserves, Nat.add_sub_cancel_left]
    rfl
  | control p =>
    have hregister := register_of_serves hserves
    simp only [Region.Spans] at hspans
    repeat rw [if_neg (by omega)]
    have hdma : addr.toNat = 0xFF46 ↔ p = .dma := by
      rw [hserves]
      cases p <;> decide
    by_cases hp : p = .dma
    · rw [if_pos (hdma.2 hp), transferSprites_eq h, hp]
      rfl
    · rw [if_neg fun e => hp (hdma.1 e), if_pos hspans, Video.writeAddr, hregister]
      cases p with
      | dma => exact absurd rfl hp
      | _ => rfl
  | bootLatch =>
    simp only [Region.Serves] at hserves
    repeat rw [if_neg (by omega)]
    rw [if_pos hserves, latch_eq]
    rfl
  | zram i =>
    have hi := i.isLt
    simp only [Region.Serves] at hserves
    repeat rw [if_neg (by omega)]
    rw [if_pos (by omega), Width.sub_ok (by omega), ok_bind, store_ok _ (by omega), ok_bind]
    simp only [Bus.writeRegion, hserves, Nat.add_sub_cancel_left]
    rfl
  | unmapped =>
    simp only [Region.Spans] at hspans
    repeat rw [if_neg (by omega)]
    rfl

theorem read16_eq (h : b.eram.size = Bus.eramSize) (addr : UInt16) :
    read16 b addr = .ok (b.read16 addr) := by
  rw [read16, read_eq h, ok_bind, read_eq h, ok_bind, word_eq]
  rfl

theorem write16_eq (h : b.eram.size = Bus.eramSize) (addr w : UInt16) :
    write16 b addr w = .ok (b.write16 addr w) := by
  rw [write16, write_eq h, ok_bind, highByte_eq, ok_bind,
    write_eq ((b.touched_write addr _).eram_size.trans h)]
  rfl

end Checked

end DotMatrix
