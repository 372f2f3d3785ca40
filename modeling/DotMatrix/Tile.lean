import DotMatrix.Memory

/-!
# Tiles, tile maps and palettes

Pictures are made of 384 tiles of 8x8 pixels.  A pixel has a colour number of two bits, and a
palette register maps the four colour numbers to the four shades of the screen.

* `Color`, `Shade` — two-bit numbers; `Palette.shade` looks a colour up in a palette register.
* `Tile.number` — the tile that a byte of a tile map names, under either addressing mode.
* `Tile.mapOffset` — the map entry that covers a point of the 256x256 plane.
* `Tile.rowColor` — a pixel of a tile row from its two bit planes; `Tile.decode` decodes a whole
  tile memory, `TileCache.refresh` decodes a single row again, and `Tile.refreshRows` several.

Principal results: `Tile.decode_set`, `Tile.decode_set_map` — after a byte of video memory changed,
decoding one row again decodes all tiles; `Tile.refreshRows_finRange` — decoding row by row decodes
all tiles, whatever they were before.

Tile rows are numbered through all tiles: row `y` of tile `t` is row `8 * t + y`.  It occupies bytes
`2 * r` and `2 * r + 1` of video memory and pixels `8 * r` to `8 * r + 7` of the decoded tiles.
-/

set_option autoImplicit false

namespace DotMatrix

/-- A colour number, before the palette. -/
abbrev Color := Fin 4

/-- A shade of the screen: 0 is white, 3 is black. -/
abbrev Shade := Fin 4

/-- The colour number at which a sprite is transparent and background and window are behind every
sprite. -/
def Color.clear : Color := 0

/-- The lightest shade. -/
def Shade.white : Shade := 0

/-- The shade that a palette register gives to a colour number: two bits per colour, colour 0 in
the low bits. -/
def Palette.shade (palette : UInt8) (c : Color) : Shade :=
  Fin.ofNat 4 (palette.toNat >>> (2 * c.val))

/-- The brightness of a shade on a scale from 0 (black) to 255 (white). -/
def Shade.intensity (s : Shade) : UInt8 := UInt8.ofNat (255 - s.val * 85)

/-- Video memory: the rows of all tiles, then two tile maps. -/
abbrev VideoMemory := Memory 0x2000

/-- A tile row, counted through all 384 tiles. -/
abbrev TileRow := Fin 3072

/-- The colour number of every pixel of every tile, tile by tile and row by row. -/
abbrev TileCache := Vector Color 24576

namespace Tile

/-- The tile that a map entry names.  Unsigned addressing counts from tile 0; signed addressing
takes the entry as a two's-complement offset from tile 256. -/
def number (entry : UInt8) (unsigned : Bool) : Fin 384 :=
  if unsigned then ⟨entry.toNat, by have := entry.toNat_lt; omega⟩
  else if h : entry.toNat < 128 then ⟨256 + entry.toNat, by omega⟩
  else ⟨entry.toNat, by have := entry.toNat_lt; omega⟩

/-- Offset in video memory of the sixteen bytes of the tile that a map entry names. -/
def dataOffset (entry : UInt8) (unsigned : Bool) : Nat := 16 * (number entry unsigned).val

/-- Offset in a tile map of the entry for point `(x, y)`: 32 entries to the line, one for each
eight pixels. -/
def mapOffset (x y : UInt8) : Fin 0x400 :=
  ⟨y.toNat / 8 * 32 + x.toNat / 8, by have := x.toNat_lt; have := y.toNat_lt; omega⟩

/-- The colour of column `x` of a tile row: one bit from each plane, the leftmost column in
bit 7. -/
def rowColor (lo hi : UInt8) (x : Fin 8) : Color :=
  ⟨lo.toNat >>> (7 - x.val) % 2 + 2 * (hi.toNat >>> (7 - x.val) % 2), by omega⟩

/-- The low and high planes of a tile row, as stored in video memory. -/
def planes (vram : VideoMemory) (r : TileRow) : UInt8 × UInt8 :=
  (vram[2 * r.val], vram[2 * r.val + 1])

/-- All tiles decoded. -/
def decode (vram : VideoMemory) : TileCache :=
  Vector.ofFn fun i =>
    let r : TileRow := ⟨i.val / 8, by omega⟩
    rowColor (planes vram r).1 (planes vram r).2 ⟨i.val % 8, by omega⟩

/-- A pixel of a tile, read from the bytes of video memory. -/
def pixel (vram : VideoMemory) (tile : Fin 384) (x y : Fin 8) : Color :=
  let p := planes vram ⟨8 * tile.val + y.val, by omega⟩
  rowColor p.1 p.2 x

theorem getElem_decode (vram : VideoMemory) (r : TileRow) (x : Fin 8) :
    (decode vram)[8 * r.val + x.val] = rowColor (planes vram r).1 (planes vram r).2 x := by
  have hr : (8 * r.val + x.val) / 8 = r.val := by omega
  have hx : (8 * r.val + x.val) % 8 = x.val := by omega
  simp [decode, hr, hx]

end Tile

namespace TileCache

/-- No tile has anything but colour 0. -/
def blank : TileCache := Vector.replicate 24576 0

/-- Decodes one tile row again, from its two planes. -/
def refresh (cache : TileCache) (r : TileRow) (lo hi : UInt8) : TileCache :=
  Fin.foldl 8 (fun c x => c.set (8 * r.val + x.val) (Tile.rowColor lo hi x)) cache

/-- The pixel at column `x` of row `y` of a tile. -/
def pixel (cache : TileCache) (tile : Fin 384) (x y : Fin 8) : Color :=
  cache[64 * tile.val + 8 * y.val + x.val]

/-- The pixel at a position that may lie outside the tile, or outside all tiles: the cache is
addressed as one row of pixels, and there is no pixel beyond its end. -/
def pixel? (cache : TileCache) (tile x y : Nat) : Option Color :=
  cache[64 * tile + 8 * y + x]?

/-- The first `k` pixels of a row after they were decoded again. -/
theorem getElem_foldl_set (cache : TileCache) (r : TileRow) (f : Fin 8 → Color) (k : Nat)
    (hk : k ≤ 8) (i : Nat) (hi : i < 24576) :
    (Fin.foldl k (fun c (x : Fin k) => c.set (8 * r.val + x.val) (f ⟨x.val, by omega⟩)) cache)[i] =
      if h : 8 * r.val ≤ i ∧ i < 8 * r.val + k then f ⟨i - 8 * r.val, by omega⟩ else cache[i] := by
  induction k with
  | zero =>
    rw [dif_neg (by omega), Fin.foldl_zero]
  | succ k ih =>
    rw [Fin.foldl_succ_last]
    simp only [Fin.val_castSucc, Fin.val_last, Vector.getElem_set]
    rw [ih (by omega)]
    by_cases hlast : 8 * r.val + k = i
    · subst hlast
      rw [if_pos rfl, dif_pos (by omega)]
      simp
    · rw [if_neg hlast]
      by_cases hk' : 8 * r.val ≤ i ∧ i < 8 * r.val + k
      · rw [dif_pos hk', dif_pos (by omega)]
      · rw [dif_neg hk', dif_neg (by omega)]

theorem getElem_refresh (cache : TileCache) (r : TileRow) (lo hi : UInt8) (i : Nat)
    (h : i < 24576) :
    (cache.refresh r lo hi)[i] =
      if h : i / 8 = r.val then Tile.rowColor lo hi ⟨i % 8, by omega⟩ else cache[i] := by
  unfold refresh
  rw [getElem_foldl_set cache r (Tile.rowColor lo hi) 8 (by omega) i h]
  by_cases hr : i / 8 = r.val
  · rw [dif_pos hr, dif_pos (by omega)]
    congr 1
    apply Fin.ext
    show i - 8 * r.val = i % 8
    omega
  · rw [dif_neg hr, dif_neg (by omega)]

end TileCache

namespace Tile

theorem planes_set_of_ne (vram : VideoMemory) (i : Fin 0x2000) (b : UInt8) (r : TileRow)
    (h : i.val / 2 ≠ r.val) : planes (vram.set i.val b) r = planes vram r := by
  unfold planes
  rw [Vector.getElem_set_ne (by omega) (by omega) (by omega),
    Vector.getElem_set_ne (by omega) (by omega) (by omega)]

/-- A byte of a tile belongs to one tile row: decoding that row again decodes them all. -/
theorem decode_set (vram : VideoMemory) (i : Fin 0x2000) (b : UInt8) (r : TileRow)
    (h : i.val / 2 = r.val) :
    decode (vram.set i.val b) =
      (decode vram).refresh r (planes (vram.set i.val b) r).1 (planes (vram.set i.val b) r).2 := by
  apply Vector.ext
  intro k hk
  rw [TileCache.getElem_refresh]
  by_cases hr : k / 8 = r.val
  · rw [dif_pos hr]
    have e : (⟨k / 8, by omega⟩ : TileRow) = r := Fin.ext hr
    simp only [decode, Vector.getElem_ofFn, e]
  · rw [dif_neg hr]
    simp only [decode, Vector.getElem_ofFn]
    rw [planes_set_of_ne vram i b ⟨k / 8, by omega⟩ (by rw [h]; exact fun e => hr e.symm)]

/-- The tile maps have no decoded form. -/
theorem decode_set_map (vram : VideoMemory) (i : Fin 0x2000) (b : UInt8) (h : 0x1800 ≤ i.val) :
    decode (vram.set i.val b) = decode vram := by
  apply Vector.ext
  intro k hk
  simp only [decode, Vector.getElem_ofFn]
  rw [planes_set_of_ne vram i b ⟨k / 8, by omega⟩ (by show i.val / 2 ≠ k / 8; omega)]

theorem decode_zero : decode (Memory.zero 0x2000) = TileCache.blank := by
  apply Vector.ext
  intro k hk
  simp only [decode, planes, Memory.zero, Memory.getElem_filled, Vector.getElem_ofFn,
    TileCache.blank, Vector.getElem_replicate, rowColor]
  simp

/-! ## Decoding row by row -/

/-- The tiles after some of their rows were decoded again. -/
def refreshRows (vram : VideoMemory) (rows : List TileRow) (cache : TileCache) : TileCache :=
  rows.foldl (fun c r => c.refresh r (planes vram r).1 (planes vram r).2) cache

/-- A pixel of a row that was decoded again is that of video memory, and so it stays. -/
theorem getElem_refreshRows (vram : VideoMemory) (rows : List TileRow) (cache : TileCache) (i : Nat)
    (hi : i < 24576)
    (h : (∃ r ∈ rows, r.val = i / 8) ∨ cache[i] = (decode vram)[i]) :
    (refreshRows vram rows cache)[i] = (decode vram)[i] := by
  induction rows generalizing cache with
  | nil =>
    rcases h with ⟨r, hr, -⟩ | h
    · exact absurd hr List.not_mem_nil
    · exact h
  | cons r rows ih =>
    rw [refreshRows, List.foldl_cons, ← refreshRows]
    apply ih
    rw [TileCache.getElem_refresh]
    by_cases hr : i / 8 = r.val
    · right
      have he : (⟨i / 8, by omega⟩ : TileRow) = r := Fin.ext hr
      rw [dif_pos hr]
      simp only [decode, Vector.getElem_ofFn, he]
    · rw [dif_neg hr]
      rcases h with ⟨q, hq, hrow⟩ | h
      · rcases List.mem_cons.1 hq with rfl | hq
        · exact absurd hrow.symm hr
        · exact .inl ⟨q, hq, hrow⟩
      · exact .inr h

/-- **Decoding row by row decodes all tiles**, whatever they were before. -/
theorem refreshRows_finRange (vram : VideoMemory) (cache : TileCache) :
    refreshRows vram (List.finRange 3072) cache = decode vram := by
  apply Vector.ext
  intro i hi
  exact getElem_refreshRows _ _ _ i hi (.inl ⟨⟨i / 8, by omega⟩, List.mem_finRange _, rfl⟩)

end Tile

end DotMatrix
