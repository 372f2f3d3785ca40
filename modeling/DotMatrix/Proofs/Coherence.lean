import DotMatrix.Proofs.Backdrop
import DotMatrix.Proofs.Reachable

/-!
# Decoded tiles

The decoded tiles are kept beside video memory: writes bring them up to date row by row, switching on
clears them, saved machines do not have them and restoring decodes them all.  Nothing that a host or
a program does takes them away from video memory.

* `Tile.bitmapColor` — a pixel of a bitmap of two bytes to a row.
* `Machine.Attainable` — the machines that calls and inputs of any kind lead to.

Principal result: `Machine.tiles_attainable` — what the tiles of attainable machines are.
-/

set_option autoImplicit false

namespace DotMatrix

namespace Tile

/-! ## Bitmaps -/

/-- The colour at column `x` of row `y` in a bitmap of two bytes to a row, the leftmost column in
bit 7. -/
def bitmapColor (bytes : List UInt8) (x y : Nat) : Nat :=
  ((bytes.getD (2 * y) 0).toNat.testBit (7 - x)).toNat +
    2 * ((bytes.getD (2 * y + 1) 0).toNat.testBit (7 - x)).toNat

end Tile

namespace Video

variable {v : Video}

theorem length_tileBytes (v : Video) (entry : UInt8) : (v.tileBytes entry).length = 16 := by
  rw [tileBytes, List.length_map, List.length_finRange]

theorem getD_tileBytes (v : Video) (entry : UInt8) (k : Fin 16) :
    (v.tileBytes entry).getD k.val 0 =
      v.byteAt (Tile.number entry v.regs.tilesUnsigned) k := by
  have hk : k.val < (v.tileBytes entry).length := by
    rw [length_tileBytes]
    exact k.isLt
  rw [← List.getElem_eq_getD (h := hk)]
  simp only [tileBytes, List.getElem_map, List.getElem_finRange]
  rfl

/-- The bitmap of an entry decodes to the tile that the entry names. -/
theorem Coherent.pixel_tileBytes (hv : v.Coherent) (entry : UInt8) (x y : Fin 8) :
    (v.tiles.pixel (Tile.number entry v.regs.tilesUnsigned) x y).val =
      Tile.bitmapColor (v.tileBytes entry) x.val y.val := by
  rw [hv.pixel, Tile.bitmapColor, getD_tileBytes v entry ⟨2 * y.val, by omega⟩,
    getD_tileBytes v entry ⟨2 * y.val + 1, by omega⟩]

/-- A point of a plane is read from the bitmap of the entry that covers it. -/
theorem Coherent.planeColor_tileBytes (hv : v.Coherent) (second : Bool) (x y : UInt8) :
    (v.planeColor second x y).val =
      Tile.bitmapColor (v.tileBytes (v.mapEntry second x.toNat y.toNat))
        (x.toNat % 8) (y.toNat % 8) := by
  rw [planeColor_mapEntry, hv.pixel_tileBytes]

end Video

/-! ## Attainable machines -/

namespace Machine

/-- Machines that a host can come to from new ones by its calls and by restoring any bytes,
whether they are accepted or refused. -/
inductive Attainable : Machine → Prop
  | create (config : Config) : Attainable (create config)
  | call {m : Machine} (h : Attainable m) (c : HostCall) : Attainable (m.perform c)
  | restore {m : Machine} (h : Attainable m) (input : List UInt8) :
    Attainable (m.afterRestore input)

theorem Intact.afterRestore {m : Machine} (h : m.Intact) (input : List UInt8) :
    (m.afterRestore input).Intact := by
  cases hr : m.restore input with
  | ok m' =>
    rw [afterRestore_of_ok hr]
    exact (intact_of_restore hr).1
  | error e =>
    rw [afterRestore_of_error hr]
    exact h

/-- **Attainable machines are intact.** -/
theorem Attainable.intact {m : Machine} (h : Attainable m) : m.Intact := by
  induction h with
  | create config => exact intact_reset _
  | call _ c ih => exact ih.perform c
  | restore _ input ih => exact ih.afterRestore input

/-- **The tiles of attainable machines.**  Each pixel has its two bits from video memory; decoding
all tiles again, row by row, changes neither machine nor tiles; and whatever the registers, the bitmap
of an entry has the pixels that the planes show for this entry. -/
theorem tiles_attainable {m : Machine} (h : Attainable m) :
    (∀ (tile : Fin 384) (x y : Fin 8),
      (m.bus.video.tiles.pixel tile x y).val =
        ((m.bus.video.vram.get ⟨16 * tile.val + 2 * y.val, by omega⟩).toNat.testBit
          (7 - x.val)).toNat +
        2 * ((m.bus.video.vram.get ⟨16 * tile.val + 2 * y.val + 1, by omega⟩).toNat.testBit
          (7 - x.val)).toNat) ∧
      m.perform .decodeTiles = m ∧
      Tile.refreshRows m.bus.video.vram (List.finRange 3072) m.bus.video.tiles =
        m.bus.video.tiles ∧
      ∀ (regs : Registers) (v : Video), v = { m.bus.video with regs := regs } →
        (∀ entry, (v.tileBytes entry).length = 16 ∧ ∀ x y : Fin 8,
          (v.tiles.pixel (Tile.number entry v.regs.tilesUnsigned) x y).val =
            Tile.bitmapColor (v.tileBytes entry) x.val y.val) ∧
        ∀ (second : Bool) (x y : UInt8),
          (v.planeColor second x y).val =
            Tile.bitmapColor (v.tileBytes (v.mapEntry second x.toNat y.toNat))
              (x.toNat % 8) (y.toNat % 8) := by
  have hv : m.bus.video.Coherent := h.intact.tiles
  refine ⟨hv.pixel, ?_, ?_, ?_⟩
  · show m.withVideo m.bus.video.decodeTiles = m
    rw [hv.decodeTiles_eq]
    rfl
  · rw [Tile.refreshRows_finRange]
    exact hv.symm
  · rintro regs v rfl
    -- registers have no part in what the tiles and video memory hold
    have hregs : Video.Coherent { m.bus.video with regs := regs } := hv
    exact ⟨fun entry => ⟨Video.length_tileBytes _ entry, hregs.pixel_tileBytes entry⟩,
      hregs.planeColor_tileBytes⟩

/-- A machine whose program pushed the registers B and C to tile 1, and that then refused an input. -/
def pushedTile : Machine :=
  ((((create { bootRom := some [0x31, 0x12, 0x80, 0x01, 0x0F, 0x80, 0xC5] }).perform
    .step).perform .step).perform .step).afterRestore [0x44]

theorem tiles_pushedTile :
    Attainable pushedTile ∧ (pushedTile.bus.video.tiles.pixel 1 0 0).val = 2 ∧
      (pushedTile.bus.video.tiles.pixel 1 4 0).val = 1 := by
  have h : Attainable pushedTile :=
    ((((Attainable.create _).call _).call _).call _).restore _
  have hbits := (tiles_attainable h).1
  refine ⟨h, ?_, ?_⟩
  · rw [hbits]
    decide +kernel
  · rw [hbits]
    decide +kernel

end Machine

end DotMatrix
