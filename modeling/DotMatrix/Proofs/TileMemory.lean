import DotMatrix.Video.Basic

/-!
# Tiles in video memory

The decoded tiles say again what sixteen bytes of video memory say for each tile.

* `Video.byteAt` — the bytes of a tile: two to each row, one for each bit of a colour.
* `Video.memoryColor` — the colour at a row and a column of a tile, read from these bytes.

Principal results: `Video.Coherent.pixel` — what the decoded tiles hold, bit by bit;
`Video.memoryColor_eq` — the decoded tiles have the colours that video memory has.
-/

set_option autoImplicit false

namespace DotMatrix

namespace Video

/-- Byte `k` of the sixteen bytes of a tile. -/
def byteAt (v : Video) (tile : Fin 384) (k : Fin 16) : UInt8 :=
  v.vram.get ⟨16 * tile.val + k.val, by omega⟩

/-- The colour at a row and a column of a tile: a bit from each of two bytes of video memory. -/
def memoryColor (v : Video) (tile row col : Int) : Color :=
  let plane (k : Int) : Nat := (v.vram[(16 * tile + 2 * row + k).toNat]?.getD 0).toNat
  let bit := (7 - col).toNat
  ⟨((plane 0).testBit bit).toNat + 2 * ((plane 1).testBit bit).toNat, by
    have := Bool.toNat_le ((plane 0).testBit bit)
    have := Bool.toNat_le ((plane 1).testBit bit)
    omega⟩

variable {v : Video}

/-- **The bits of a decoded pixel.**  The even byte of its row has the low bit and the odd one the
high bit, and the leftmost column is in bit 7. -/
theorem Coherent.pixel (hv : v.Coherent) (tile : Fin 384) (x y : Fin 8) :
    (v.tiles.pixel tile x y).val =
      ((v.byteAt tile ⟨2 * y.val, by omega⟩).toNat.testBit (7 - x.val)).toNat +
        2 * ((v.byteAt tile ⟨2 * y.val + 1, by omega⟩).toNat.testBit (7 - x.val)).toNat := by
  have hindex : 64 * tile.val + 8 * y.val + x.val = 8 * (8 * tile.val + y.val) + x.val := by
    omega
  have hlow : 16 * tile.val + 2 * y.val = 2 * (8 * tile.val + y.val) := by omega
  have hhigh : 16 * tile.val + (2 * y.val + 1) = 2 * (8 * tile.val + y.val) + 1 := by omega
  have hpixel : v.tiles.pixel tile x y =
      Tile.rowColor (Tile.planes v.vram ⟨8 * tile.val + y.val, by omega⟩).1
        (Tile.planes v.vram ⟨8 * tile.val + y.val, by omega⟩).2 x := by
    rw [show v.tiles = Tile.decode v.vram from hv]
    exact (getElem_congr_idx hindex).trans
      (Tile.getElem_decode v.vram ⟨8 * tile.val + y.val, by omega⟩ x)
  simp only [hpixel, Tile.rowColor, Tile.planes, byteAt, hlow, hhigh, Nat.toNat_testBit,
    Nat.shiftRight_eq_div_pow]
  rfl

/-- The decoded tiles have the colours that video memory has. -/
theorem memoryColor_eq (hv : v.Coherent) (tile : Fin 384) (x y : Fin 8) :
    v.memoryColor tile.val y.val x.val = v.tiles.pixel tile x y := by
  have hbyte : ∀ k : Fin 16,
      v.vram[16 * tile.val + k.val]?.getD 0 = v.byteAt tile k := by
    intro k
    rw [Vector.getElem?_eq_getElem (by omega)]
    rfl
  have hlow : (16 * (tile.val : Int) + 2 * y.val + 0).toNat = 16 * tile.val + 2 * y.val := by
    omega
  have hhigh : (16 * (tile.val : Int) + 2 * y.val + 1).toNat =
      16 * tile.val + (2 * y.val + 1) := by
    omega
  have hbit : (7 - (x.val : Int)).toNat = 7 - x.val := by omega
  apply Fin.ext
  rw [hv.pixel]
  simp only [memoryColor, hlow, hhigh, hbit]
  rw [hbyte ⟨2 * y.val, by omega⟩, hbyte ⟨2 * y.val + 1, by omega⟩]

end Video

end DotMatrix
