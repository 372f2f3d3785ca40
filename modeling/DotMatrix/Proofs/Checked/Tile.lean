import DotMatrix.Proofs.Checked.Basic
import DotMatrix.Proofs.Coherence

/-!
# Tiles, with all checks

The positions of tiles, of tile rows and of map entries are calculated from bytes of video memory and
from registers.  Whatever these hold, the positions exist and the calculations fit.

* `Checked.layerBit`, `Checked.tileNumber`, `Checked.mapOffset`, `Checked.paletteShade` — switches, tiles,
  map entries and palettes.
* `Checked.decodeRow`, `Checked.decodeTiles` — decoding one row of a tile, or all of them.
* `Checked.planeColor`, `Checked.tileBytes` — points of a tile map, and bitmaps.

Each has a theorem that says of which calculation without checks it has the result.
-/

set_option autoImplicit false

namespace DotMatrix

namespace Checked

/-- A bit of the register that switches the layers. -/
def layerBit (r : Registers) (bit : Nat) : Checked Bool :=
  return decide ((← Width.byte.shiftRight r.lcdc.toNat bit) % 2 = 1)

/-- The tile that a map entry names. -/
def tileNumber (entry : UInt8) (unsigned : Bool) : Checked Nat :=
  if unsigned then return entry.toNat
  else return toIndex (← SignedWidth.word.add 256 (signedByte entry))

/-- Offset in a tile map of the entry for a point. -/
def mapOffset (x y : UInt8) : Checked Nat := do
  let row ← Width.byte.shiftRight y.toNat 3
  let column ← Width.byte.shiftRight x.toNat 3
  Width.index.add (← Width.index.shiftLeft row 5) column

/-- The shade that a palette gives to a colour. -/
def paletteShade (palette : UInt8) (c : Color) : Checked Shade := do
  let shifted ← Width.byte.shiftRight palette.toNat (← Width.byte.mul c.val 2)
  return ⟨shifted % 4, Nat.mod_lt _ (Nat.succ_pos 3)⟩

/-- The colour of a column of a tile row. -/
def rowColor (lo hi : UInt8) (x : Nat) : Checked Color := do
  let bit ← Width.index.sub 7 x
  let low ← Width.byte.shiftRight lo.toNat bit
  let high ← Width.byte.shiftRight hi.toNat bit
  twoBits (low % 2 ||| (← Width.byte.shiftLeft (high % 2) 1))

/-- Decodes the tile row that a byte of video memory belongs to. -/
def decodeRow (vram : VideoMemory) (cache : TileCache) (i : Nat) : Checked TileCache := do
  let base := 2 * (i / 2)
  let lo ← fetch vram base
  let hi ← fetch vram (← Width.index.add base 1)
  let tile ← Width.index.mul (base / 16) 64
  let first ← Width.index.add tile (← Width.index.mul (base % 16 / 2) 8)
  loop 0 8 cache fun cache x => do
    store cache (← Width.index.add first x) (← rowColor lo hi x)

/-- Decodes all tiles. -/
def decodeTiles (vram : VideoMemory) (cache : TileCache) : Checked TileCache :=
  loop 0 3072 cache fun cache r => decodeRow vram cache (2 * r)

/-- A pixel of a decoded tile. -/
def tilePixel (cache : TileCache) (tile x y : Nat) : Checked Color := do
  let row ← Width.index.add (← Width.index.mul tile 64) (← Width.index.mul y 8)
  fetch cache (← Width.index.add row x)

/-- Where a tile map begins. -/
def mapBase (second : Bool) : Nat := if second then 0x1C00 else 0x1800

/-- The colour of a point of the plane of the tile map that begins at `base`. -/
def planeColor (v : Video) (base : Nat) (x y : UInt8) : Checked Color := do
  let entry ← fetch v.vram (← Width.index.add base (← mapOffset x y))
  let tile ← tileNumber entry (← layerBit v.regs 4)
  tilePixel v.tiles tile (x.toNat % 8) (y.toNat % 8)

/-- The bitmap of the tile that a map entry names. -/
def tileBytes (v : Video) (entry : UInt8) : Checked (List UInt8) := do
  let first ← Width.index.mul (← tileNumber entry (← layerBit v.regs 4)) 16
  return (← slice v.vram first (← Width.index.add first 16)).toList

/-! ## No check fails -/

theorem layerBit_eq (r : Registers) {bit : Nat} (h : bit < 8) :
    layerBit r bit = .ok (r.lcdc.toNat.testBit bit) := by
  rw [layerBit, Width.shiftRight_ok h, ok_bind, Nat.testBit_eq_decide_div_mod_eq,
    Nat.shiftRight_eq_div_pow]
  rfl

theorem tileNumber_eq (entry : UInt8) (unsigned : Bool) :
    tileNumber entry unsigned = .ok (Tile.number entry unsigned).val := by
  have hlt := entry.toNat_lt
  cases unsigned with
  | true => rfl
  | false =>
    have hsum : tileNumber entry false = .ok (toIndex (256 + signedByte entry)) := by
      rw [tileNumber, if_neg Bool.false_ne_true, SignedWidth.add_ok]
      · rfl
      · simp only [SignedWidth.bound, signedByte]
        split <;> omega
    rw [hsum, toIndex_of_nonneg (by unfold signedByte; split <;> omega)
      (by unfold signedByte; split <;> omega), Tile.number, if_neg Bool.false_ne_true]
    unfold signedByte
    split
    · exact congrArg _ (show (256 + (entry.toNat : Int)).toNat = 256 + entry.toNat by omega)
    · exact congrArg _ (show (256 + ((entry.toNat : Int) - 256)).toNat = entry.toNat by omega)

theorem mapOffset_eq (x y : UInt8) : mapOffset x y = .ok (Tile.mapOffset x y).val := by
  have hx := x.toNat_lt
  have hy := y.toNat_lt
  have hrow : y.toNat >>> 3 = y.toNat / 8 := Nat.shiftRight_eq_div_pow _ 3
  have hcolumn : x.toNat >>> 3 = x.toNat / 8 := Nat.shiftRight_eq_div_pow _ 3
  have hline : (y.toNat / 8) <<< 5 % Width.index.limit = y.toNat / 8 * 32 := by
    rw [Nat.shiftLeft_eq]
    exact Nat.mod_eq_of_lt (by simp only [Width.limit]; omega)
  rw [mapOffset, Width.shiftRight_ok (by decide), ok_bind, Width.shiftRight_ok (by decide), ok_bind,
    Width.shiftLeft_ok (by decide), ok_bind, hrow, hcolumn, hline,
    Width.add_ok (by simp only [Width.limit]; omega)]
  rfl

theorem paletteShade_eq (palette : UInt8) (c : Color) :
    paletteShade palette c = .ok (Palette.shade palette c) := by
  have hc := c.isLt
  rw [paletteShade, Width.mul_ok (by simp only [Width.limit]; omega), ok_bind,
    Width.shiftRight_ok (by simp only [Width.bits]; omega), Nat.mul_comm]
  rfl

theorem rowColor_eq (lo hi : UInt8) (x : Fin 8) :
    rowColor lo hi x.val = .ok (Tile.rowColor lo hi x) := by
  have hor : ∀ m n : Nat, m % 2 ||| (n % 2) <<< 1 % Width.byte.limit = m % 2 + 2 * (n % 2) := by
    intro m n
    rcases Nat.mod_two_eq_zero_or_one m with hm | hm <;>
      rcases Nat.mod_two_eq_zero_or_one n with hn | hn <;> rw [hm, hn] <;> rfl
  rw [rowColor, Width.sub_ok (by omega), ok_bind,
    Width.shiftRight_ok (by simp only [Width.bits]; omega), ok_bind,
    Width.shiftRight_ok (by simp only [Width.bits]; omega), ok_bind,
    Width.shiftLeft_ok (by decide), ok_bind, hor, twoBits_ok (by omega)]
  rfl

theorem decodeRow_eq (vram : VideoMemory) (cache : TileCache) {i : Nat} (hi : i < 0x1800) :
    decodeRow vram cache i =
      .ok (cache.refresh ⟨i / 2, by omega⟩ (Tile.planes vram ⟨i / 2, by omega⟩).1
        (Tile.planes vram ⟨i / 2, by omega⟩).2) := by
  rw [decodeRow, fetch_ok vram (by omega), ok_bind,
    Width.add_ok (by simp only [Width.limit]; omega), ok_bind, fetch_ok vram (by omega), ok_bind,
    Width.mul_ok (by simp only [Width.limit]; omega), ok_bind,
    Width.mul_ok (by simp only [Width.limit]; omega), ok_bind,
    Width.add_ok (by simp only [Width.limit]; omega), ok_bind]
  refine loop_eq_foldl (fun cache x => ?_) cache
  have hfirst : 2 * (i / 2) / 16 * 64 + 2 * (i / 2) % 16 / 2 * 8 + x.val = 8 * (i / 2) + x.val := by
    omega
  rw [Width.add_ok (by simp only [Width.limit]; omega), ok_bind, rowColor_eq, ok_bind, hfirst,
    store_ok cache (by omega)]
  rfl

/-- **Decoding all tiles decodes all tiles**, whatever they were before. -/
theorem decodeTiles_eq (vram : VideoMemory) (cache : TileCache) :
    decodeTiles vram cache = .ok (Tile.decode vram) := by
  have hrow : ∀ (cache : TileCache) (r : Fin 3072), decodeRow vram cache (2 * r.val) =
      .ok (cache.refresh r (Tile.planes vram r).1 (Tile.planes vram r).2) := by
    intro cache r
    have hr : (⟨2 * r.val / 2, by omega⟩ : TileRow) = r := Fin.ext (by simp only; omega)
    rw [decodeRow_eq vram cache (by omega), hr]
  rw [decodeTiles, loop_eq_foldl hrow, Fin.foldl_eq_finRange_foldl]
  exact congrArg _ (Tile.refreshRows_finRange vram cache)

theorem tilePixel_eq (cache : TileCache) (tile : Fin 384) (x y : Fin 8) :
    tilePixel cache tile.val x.val y.val = .ok (cache.pixel tile x y) := by
  have hindex : tile.val * 64 + y.val * 8 + x.val = 64 * tile.val + 8 * y.val + x.val := by omega
  rw [tilePixel, Width.mul_ok (by simp only [Width.limit]; omega), ok_bind,
    Width.mul_ok (by simp only [Width.limit]; omega), ok_bind,
    Width.add_ok (by simp only [Width.limit]; omega), ok_bind,
    Width.add_ok (by simp only [Width.limit]; omega), ok_bind, hindex, fetch_ok cache (by omega)]
  rfl

theorem planeColor_eq (v : Video) (second : Bool) (x y : UInt8) :
    planeColor v (mapBase second) x y = .ok (v.planeColor second x y) := by
  have hcell := (Tile.mapOffset x y).isLt
  have hbase : mapBase second = 0x1800 ∨ mapBase second = 0x1C00 := by
    cases second
    · exact .inl rfl
    · exact .inr rfl
  rw [planeColor, mapOffset_eq, ok_bind, Width.add_ok (by simp only [Width.limit]; omega), ok_bind,
    fetch_ok v.vram (by omega), ok_bind, layerBit_eq _ (by decide), ok_bind, tileNumber_eq, ok_bind]
  refine (tilePixel_eq v.tiles _ ⟨x.toNat % 8, by omega⟩ ⟨y.toNat % 8, by omega⟩).trans ?_
  cases second <;> rfl

theorem tileBytes_eq (v : Video) (entry : UInt8) : tileBytes v entry = .ok (v.tileBytes entry) := by
  have htile := (Tile.number entry v.regs.tilesUnsigned).isLt
  have hbit : layerBit v.regs 4 = .ok v.regs.tilesUnsigned := layerBit_eq _ (by decide)
  rw [tileBytes, hbit, ok_bind, tileNumber_eq, ok_bind,
    Width.mul_ok (by simp only [Width.limit]; omega), ok_bind,
    Width.add_ok (by simp only [Width.limit]; omega), ok_bind,
    slice_ok v.vram (Nat.le_add_right _ 16) (by omega), ok_bind]
  refine congrArg Except.ok (List.ext_getElem ?_ fun k hk _ => ?_)
  · simp only [Array.length_toList, Array.size_extract, Vector.size_toArray, Video.length_tileBytes]
    omega
  · simp [Video.tileBytes, Nat.mul_comm]

end Checked

end DotMatrix
