import DotMatrix.Video.Basic

/-!
# Drawing a line

The picture has three layers.  The background shows a part of a 256x256 plane of tiles; the window
covers it from a corner to the lower right with a plane of its own; sprites lie on top.  A line is
drawn as a whole, with the registers of that moment.

* `Video.backdrop` — colour and shade of a column before sprites: window, else background, else
  colour 0.
* `Video.paintColumn`, `Video.paintSprite`, `Video.paintSprites` — sprites are painted one after the
  other, in the order of priority; the first that is not transparent at a column owns it.
* `Video.lineShades` — the shades that are seen.
* `Video.drawLine` — paints the current line; the window's line counter goes on if it was shown.
-/

set_option autoImplicit false

namespace DotMatrix

/-- A point of a layer: its colour number and what the palette makes of it. -/
structure Pixel where
  color : Color
  shade : Shade
  deriving DecidableEq, Repr

/-- A line while sprites are painted on it. -/
structure SpriteLayer where
  /-- The shades so far. -/
  shades : ShadeRow
  /-- The columns that a sprite owns. -/
  owned : Vector Bool 160

namespace Video

/-- Colour of a point of the 256x256 plane that one of the two tile maps describes. -/
def planeColor (v : Video) (mapHigh : Bool) (x y : UInt8) : Color :=
  let cell := Tile.mapOffset x y
  let entry := if mapHigh then v.vram[0x1C00 + cell.val] else v.vram[0x1800 + cell.val]
  v.tiles.pixel (Tile.number entry v.regs.tilesUnsigned)
    ⟨x.toNat % 8, by omega⟩ ⟨y.toNat % 8, by omega⟩

/-- A background or window colour under the background palette. -/
def pixelOf (v : Video) (c : Color) : Pixel := ⟨c, Palette.shade v.regs.bgp c⟩

/-- What lies at a column of the current line before sprites. -/
def backdrop (v : Video) (px : Fin 160) : Pixel :=
  if v.regs.windowShows && decide (v.regs.wx.toNat ≤ px.val + 7) then
    v.pixelOf (v.planeColor v.regs.windowMapHigh
      (UInt8.ofNat (px.val + 7 - v.regs.wx.toNat)) v.windowLine)
  else if v.regs.backgroundEnabled then
    v.pixelOf (v.planeColor v.regs.backgroundMapHigh
      (v.regs.scx + UInt8.ofNat px.val) (v.regs.scy + v.regs.ly))
  else ⟨Color.clear, Shade.white⟩

/-- What lies at every column of the current line before sprites. -/
def backdropRow (v : Video) : Vector Pixel 160 := Vector.ofFn v.backdrop

/-- What a sprite's palette makes of a colour. -/
def spriteShade (v : Video) (s : Sprite) (c : Color) : Shade :=
  Palette.shade (if s.paletteHigh then v.regs.obp1 else v.regs.obp0) c

/-- Paints a column of a sprite.  Nothing is painted off the screen, where the sprite is
transparent, and where an earlier sprite owns the screen column.  A sprite that is hidden behind
the background owns its column all the same. -/
def paintColumn (v : Video) (back : Vector Pixel 160) (s : LineSprite) (layer : SpriteLayer)
    (col : Fin 8) : SpriteLayer :=
  match s.sprite.screenColumn? col with
  | none => layer
  | some px =>
    let t := s.sprite.texel v.regs.spritesTall s.row col
    let c := v.tiles.pixel t.tile t.x t.y
    if c = Color.clear || layer.owned.get px then layer
    else
      let owned := layer.owned.set px.val true
      if s.sprite.behindBackground && decide ((back.get px).color ≠ Color.clear) then
        { layer with owned := owned }
      else { shades := layer.shades.set px.val (v.spriteShade s.sprite c), owned := owned }

/-- Paints a sprite, from its left column to its right one. -/
def paintSprite (v : Video) (back : Vector Pixel 160) (layer : SpriteLayer) (s : LineSprite) :
    SpriteLayer :=
  Fin.foldl 8 (v.paintColumn back s) layer

/-- Paints sprites in the given order on a line that no sprite owns a column of. -/
def paintSprites (v : Video) (back : Vector Pixel 160) (order : List LineSprite) : SpriteLayer :=
  order.foldl (v.paintSprite back) ⟨back.map Pixel.shade, Vector.replicate 160 false⟩

/-- The shades of the current line. -/
def lineShades (v : Video) : ShadeRow :=
  let back := v.backdropRow
  if v.regs.spritesEnabled then
    (v.paintSprites back (Sprite.drawOrder v.oam v.regs.spritesTall v.regs.ly)).shades
  else back.map Pixel.shade

/-- Draws the current line into the picture.  Lines below the picture draw nothing. -/
def drawLine (v : Video) : Video :=
  if h : v.regs.ly.toNat < 144 then
    let row := v.lineShades
    let windowLine := if v.regs.windowShows then v.windowLine + 1 else v.windowLine
    { v with frame := v.frame.drawRow ⟨v.regs.ly.toNat, h⟩ row, windowLine := windowLine }
  else v

end Video

end DotMatrix
