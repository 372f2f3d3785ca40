import DotMatrix.Proofs.Footprint
import DotMatrix.Proofs.Painting
import DotMatrix.Proofs.TileMemory

/-!
# Background and window

What a line shows before sprites, said without decoded tiles: from the bytes of video memory, column
by column.

* `Video.WindowShown`, `Video.InWindow` — whether the window is on the line, and on a column of it.
* `Video.mapEntry`, `Video.entryTile` — the byte of a tile map for a point of its plane, and the tile
  that the byte names.
* `Video.mapColor` — the colour of a point of the plane that a tile map describes.
* `Video.layerColor`, `Video.layerShade` — colour and shade of a column of the current line.

Principal result: `Video.drawLine_layers` — a line is drawn with exactly these, and drawing it changes
nothing but its row of the picture and the line of the window.
-/

set_option autoImplicit false

namespace DotMatrix

namespace Video

/-! ## The definition -/

section Definition

variable (v : Video) (px : Fin 160)

/-- The window is shown on the current line. -/
def WindowShown : Prop :=
  v.regs.lcdc.toNat.testBit 5 = true ∧ v.regs.wy.toNat ≤ v.regs.ly.toNat ∧ v.regs.wx.toNat ≤ 166

instance : Decidable v.WindowShown := inferInstanceAs (Decidable (_ ∧ _ ∧ _))

/-- The column of the screen on which the window begins, which may lie left of the screen. -/
def windowLeft : Int := v.regs.wx.toNat - 7

def InWindow : Prop := v.WindowShown ∧ v.windowLeft ≤ px.val

instance : Decidable (v.InWindow px) := inferInstanceAs (Decidable (_ ∧ _))

/-- The entry of one of the two tile maps for a point of its plane: 32 entries to a row, each for a
square of eight by eight points. -/
def mapEntry (second : Bool) (x y : Int) : UInt8 :=
  v.vram[((if second then 0x1C00 else 0x1800) + 32 * (y / 8) + x / 8).toNat]?.getD 0

/-- The tile that an entry names: counted from tile 0, or as a signed number from tile 256. -/
def entryTile (entry : UInt8) : Int :=
  if v.regs.lcdc.toNat.testBit 4 then entry.toNat else 256 + (entry.toNat : Int).bmod 256

def mapColor (second : Bool) (x y : Int) : Color :=
  v.memoryColor (v.entryTile (v.mapEntry second x y)) (y % 8) (x % 8)

/-- The colour of a column of the current line before sprites. -/
def layerColor : Color :=
  if v.InWindow px then
    v.mapColor (v.regs.lcdc.toNat.testBit 6) (px.val - v.windowLeft) v.windowLine.toNat
  else if v.regs.lcdc.toNat.testBit 0 then
    v.mapColor (v.regs.lcdc.toNat.testBit 3) ((v.regs.scx.toNat + px.val) % 256)
      ((v.regs.scy.toNat + v.regs.ly.toNat) % 256)
  else Color.clear

/-- The shade of a column before sprites.  Where there is neither window nor background the palette
has no part in it. -/
def layerShade : Shade :=
  if v.InWindow px ∨ v.regs.lcdc.toNat.testBit 0 = true then
    Palette.shade v.regs.bgp (v.layerColor px)
  else Shade.white

end Definition

/-! ## Tile maps -/

section Maps

variable {v : Video}

theorem entryTile_eq (v : Video) (entry : UInt8) :
    v.entryTile entry = (Tile.number entry v.regs.tilesUnsigned).val := by
  have hlt := entry.toNat_lt
  unfold entryTile Tile.number Registers.tilesUnsigned
  split
  · rfl
  · rw [Int.bmod_def]
    split
    · rw [dif_pos (by omega)]
      simp only
      omega
    · rw [dif_neg (by omega)]
      simp only
      omega

/-- A point of a plane is a pixel of the tile that the entry for it names. -/
theorem planeColor_mapEntry (v : Video) (second : Bool) (x y : UInt8) :
    v.planeColor second x y =
      v.tiles.pixel (Tile.number (v.mapEntry second x.toNat y.toNat) v.regs.tilesUnsigned)
        ⟨x.toNat % 8, Nat.mod_lt _ (Nat.succ_pos 7)⟩
        ⟨y.toNat % 8, Nat.mod_lt _ (Nat.succ_pos 7)⟩ := by
  have hx := x.toNat_lt
  have hy := y.toNat_lt
  have hcell : (Tile.mapOffset x y).val = y.toNat / 8 * 32 + x.toNat / 8 := rfl
  have hread : ∀ (base : Nat) (h : base + (Tile.mapOffset x y).val < 0x2000),
      v.vram[((base : Int) + 32 * ((y.toNat : Int) / 8) + (x.toNat : Int) / 8).toNat]?.getD 0 =
        v.vram[base + (Tile.mapOffset x y).val] := by
    intro base h
    have hindex : ((base : Int) + 32 * ((y.toNat : Int) / 8) + (x.toNat : Int) / 8).toNat =
        base + (Tile.mapOffset x y).val := by omega
    rw [hindex, Vector.getElem?_eq_getElem h]
    rfl
  have hlow := hread 0x1800 (by omega)
  have hhigh := hread 0x1C00 (by omega)
  unfold mapEntry
  cases second
  · exact congrArg (v.tiles.pixel · _ _) (congrArg (Tile.number · _) hlow.symm)
  · exact congrArg (v.tiles.pixel · _ _) (congrArg (Tile.number · _) hhigh.symm)

/-- A point of a plane has the colour that video memory gives it. -/
theorem planeColor_eq (hv : v.Coherent) (second : Bool) (x y : UInt8) :
    v.planeColor second x y = v.mapColor second x.toNat y.toNat := by
  unfold mapColor
  rw [planeColor_mapEntry, entryTile_eq]
  exact (memoryColor_eq hv _ ⟨x.toNat % 8, by omega⟩ ⟨y.toNat % 8, by omega⟩).symm

end Maps

/-! ## Columns -/

section Columns

variable {v : Video}

theorem windowShows_iff (v : Video) : v.regs.windowShows = true ↔ v.WindowShown := by
  have h166 : (166 : UInt8).toNat = 166 := rfl
  simp only [Registers.windowShows, Registers.windowEnabled, Bool.and_eq_true, decide_eq_true_eq,
    UInt8.le_iff_toNat_le, h166, and_assoc]
  rfl

theorem inWindow_iff (v : Video) (px : Fin 160) :
    (v.regs.windowShows && decide (v.regs.wx.toNat ≤ px.val + 7)) = true ↔ v.InWindow px := by
  rw [Bool.and_eq_true, windowShows_iff, decide_eq_true_eq]
  unfold InWindow windowLeft
  refine and_congr_right fun _ => ?_
  omega

/-- The backdrop of a column is what video memory says. -/
theorem backdrop_eq (hv : v.Coherent) (px : Fin 160) :
    v.backdrop px = ⟨v.layerColor px, v.layerShade px⟩ := by
  have hpx := px.isLt
  unfold backdrop layerShade layerColor
  by_cases hin : v.InWindow px
  · -- the point of the window lies at most 166 columns from its left edge, so it does not wrap
    have hleft : v.regs.wx.toNat ≤ px.val + 7 :=
      of_decide_eq_true (Bool.and_eq_true_iff.1 ((inWindow_iff v px).2 hin)).2
    have hx : ((UInt8.ofNat (px.val + 7 - v.regs.wx.toNat)).toNat : Int) =
        px.val - v.windowLeft := by
      rw [UInt8.toNat_ofNat']
      unfold windowLeft
      omega
    rw [if_pos ((inWindow_iff v px).2 hin), if_pos hin, if_pos (.inl hin), planeColor_eq hv, hx]
    rfl
  · rw [if_neg (mt (inWindow_iff v px).1 hin), if_neg hin]
    by_cases hon : v.regs.lcdc.toNat.testBit 0 = true
    · have hx : ((v.regs.scx + UInt8.ofNat px.val).toNat : Int) =
          (v.regs.scx.toNat + px.val) % 256 := by
        rw [UInt8.toNat_add, UInt8.toNat_ofNat']
        omega
      have hy : ((v.regs.scy + v.regs.ly).toNat : Int) =
          (v.regs.scy.toNat + v.regs.ly.toNat) % 256 := by
        rw [UInt8.toNat_add]
        omega
      rw [if_pos (show v.regs.backgroundEnabled = true from hon), if_pos hon, if_pos (.inr hon),
        planeColor_eq hv, hx, hy]
      rfl
    · rw [if_neg (show ¬ v.regs.backgroundEnabled = true from hon), if_neg hon,
        if_neg (not_or.2 ⟨hin, hon⟩)]

theorem get_backdropRow (hv : v.Coherent) (px : Fin 160) :
    v.backdropRow.get px = ⟨v.layerColor px, v.layerShade px⟩ := by
  rw [← backdrop_eq hv]
  simp [backdropRow, get_eq_getElem]

/-- Without sprites a column is seen as it lies. -/
theorem get_lineShades_of_off (hv : v.Coherent) (hoff : v.regs.lcdc.toNat.testBit 1 = false)
    (px : Fin 160) : v.lineShades.get px = v.layerShade px := by
  have hdisabled : ¬ v.regs.spritesEnabled = true := by
    rw [Registers.spritesEnabled, hoff]
    exact Bool.false_ne_true
  rw [lineShades, if_neg hdisabled, get_eq_getElem, Vector.getElem_map, ← get_eq_getElem,
    get_backdropRow hv]

end Columns

/-! ## Lines -/

theorem toNat_intensity (s : Shade) : s.intensity.toNat = 255 - 85 * s.val := by
  have hs := s.isLt
  unfold Shade.intensity
  rw [UInt8.toNat_ofNat']
  omega

/-- **A line without its sprites.**  Sprites are painted over a row that has the colours and shades of
video memory; a line without sprites is that row in opaque greys.  No other row is painted, and
besides the picture only the line of the window changes, which goes on when the window is shown. -/
theorem drawLine_layers {v : Video} (hv : v.Coherent) (hline : v.regs.ly.toNat < 144) :
    (∀ px, v.backdropRow.get px = ⟨v.layerColor px, v.layerShade px⟩) ∧
      (v.regs.lcdc.toNat.testBit 1 = false → ∀ px, ∃ grey : UInt8,
        grey.toNat = 255 - 85 * (v.layerShade px).val ∧
          v.drawLine.frame.pixel ⟨v.regs.ly.toNat, hline⟩ px = [grey, grey, grey, 0xFF]) ∧
      (∀ i : Fin 92160, i.val / 640 ≠ v.regs.ly.toNat →
        v.drawLine.frame.get i = v.frame.get i) ∧
      v.drawLine =
        { v with
          frame := v.drawLine.frame
          windowLine := if v.WindowShown then v.windowLine + 1 else v.windowLine } := by
  have hframe : v.drawLine.frame = v.frame.drawRow ⟨v.regs.ly.toNat, hline⟩ v.lineShades := by
    rw [frame_drawLine, dif_pos hline]
  refine ⟨get_backdropRow hv, ?_, ?_, ?_⟩
  · intro hoff px
    refine ⟨(v.layerShade px).intensity, toNat_intensity _, ?_⟩
    rw [pixel_drawLine, if_pos rfl, get_lineShades_of_off hv hoff]
    rfl
  · intro i hi
    rw [hframe, Frame.get_drawRow_of_ne _ _ _ hi]
  · rw [hframe, drawLine, dif_pos hline]
    by_cases hw : v.WindowShown
    · rw [if_pos hw, if_pos ((windowShows_iff v).2 hw)]
    · rw [if_neg hw, if_neg (mt (windowShows_iff v).1 hw)]

/-- A window whose first four columns lie left of the screen, with the last of the tiles that signed
entries name below tile 256 in its corner, and no background. -/
def windowCorner : Video :=
  ((((((powerOn.writeMemory 0x0FF0 0xFF).writeMemory 0x1C00 0xFF).writeRegister .lcdc
    0x60).writeRegister .wx 3).writeRegister .bgp 0xE4).writeRegister .scx 0xFF)

theorem coherent_windowCorner : windowCorner.Coherent :=
  ((((((Poked.refl.memory 0x0FF0 0xFF).memory 0x1C00 0xFF).register .lcdc 0x60).register .wx
    3).register .bgp 0xE4).register .scx 0xFF).coherent coherent_powerOn

/-- The last four columns of the corner tile are seen, and the next tile after them. -/
theorem drawLine_windowCorner :
    windowCorner.Coherent ∧ windowCorner.regs.ly.toNat < 144 ∧
      windowCorner.drawLine.frame.pixel 0 3 = [170, 170, 170, 0xFF] ∧
      windowCorner.drawLine.frame.pixel 0 4 = [255, 255, 255, 0xFF] ∧
      windowCorner.drawLine.windowLine = 1 := by
  have hline : windowCorner.regs.ly.toNat < 144 := by decide +kernel
  have hoff : windowCorner.regs.lcdc.toNat.testBit 1 = false := by decide +kernel
  have hshown : windowCorner.WindowShown := by decide +kernel
  have hcorner : windowCorner.layerShade 3 = 1 := by decide +kernel
  have hnext : windowCorner.layerShade 4 = 0 := by decide +kernel
  obtain ⟨-, hgrey, -, hrest⟩ := drawLine_layers coherent_windowCorner hline
  refine ⟨coherent_windowCorner, hline, ?_, ?_, ?_⟩
  · obtain ⟨grey, hvalue, hpixel⟩ := hgrey hoff 3
    rw [hcorner] at hvalue
    obtain rfl : grey = 170 := UInt8.toNat_inj.1 hvalue
    exact hpixel
  · obtain ⟨grey, hvalue, hpixel⟩ := hgrey hoff 4
    rw [hnext] at hvalue
    obtain rfl : grey = 255 := UInt8.toNat_inj.1 hvalue
    exact hpixel
  · rw [hrest, if_pos hshown]
    rfl

end Video

end DotMatrix
