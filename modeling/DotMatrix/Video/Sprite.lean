import DotMatrix.Tile

/-!
# Sprites

A sprite is a tile, or a pair of tiles, that is placed anywhere on the screen.  The sprite table
holds forty of them, four bytes each.

* `Sprite` — an entry of the table; `Sprite.ofTable` reads one.
* `Sprite.row?` — the row of the sprite that lies on a line; `Sprite.screenColumn?` — the screen
  column on which a column of the sprite lies.
* `Sprite.texel` — the tile pixel that a row and a column of the sprite show.
* `LineSprite` — a sprite on a line, with its place in the table; `LineSprite.before` is the order
  of priority: lower columns first, and in the same column the earlier place.
* `Sprite.onLine` — the sprites of a line: the first ten of the table that reach it.
* `Sprite.drawOrder` — the same in the order of priority.
-/

set_option autoImplicit false

namespace DotMatrix

/-- The sprite table. -/
abbrev SpriteTable := Memory 0xA0

/-- An entry of the sprite table. -/
structure Sprite where
  /-- Top line, plus 16. -/
  y : UInt8
  /-- Left column, plus 8. -/
  x : UInt8
  /-- The tile, always counted from 0. -/
  tile : UInt8
  /-- Priority, flips and palette. -/
  attributes : UInt8
  deriving DecidableEq, Repr

namespace Sprite

/-- Reads an entry of the table. -/
def ofTable (oam : SpriteTable) (i : Fin 40) : Sprite :=
  ⟨oam[4 * i.val], oam[4 * i.val + 1], oam[4 * i.val + 2], oam[4 * i.val + 3]⟩

/-- The sprite is drawn behind background colours other than 0. -/
def behindBackground (s : Sprite) : Bool := s.attributes.toNat.testBit 7

/-- The sprite is upside down. -/
def flipY (s : Sprite) : Bool := s.attributes.toNat.testBit 6

/-- The sprite is flipped left to right. -/
def flipX (s : Sprite) : Bool := s.attributes.toNat.testBit 5

/-- The sprite uses the second sprite palette. -/
def paletteHigh (s : Sprite) : Bool := s.attributes.toNat.testBit 4

/-- Lines that a sprite covers. -/
def height (tall : Bool) : Nat := if tall then 16 else 8

theorem height_le (tall : Bool) : height tall ≤ 16 := by
  cases tall <;> decide

/-- The row of the sprite, counted from its top, that lies on a line of the screen. -/
def row? (s : Sprite) (tall : Bool) (line : UInt8) : Option (Fin 16) :=
  if h : s.y.toNat ≤ line.toNat + 16 ∧ line.toNat + 16 < s.y.toNat + height tall then
    some ⟨line.toNat + 16 - s.y.toNat, by have := height_le tall; omega⟩
  else none

/-- The column of the screen on which a column of the sprite lies, if it lies on the screen. -/
def screenColumn? (s : Sprite) (col : Fin 8) : Option (Fin 160) :=
  if h : 8 ≤ s.x.toNat + col.val ∧ s.x.toNat + col.val < 168 then
    some ⟨s.x.toNat + col.val - 8, by omega⟩
  else none

/-- A pixel of a tile. -/
structure Texel where
  tile : Fin 384
  x : Fin 8
  y : Fin 8
  deriving DecidableEq, Repr

/-- The tile pixel that the sprite shows at a row and a column of its own.  A tall sprite is a pair
of tiles, the upper one with an even number; flips apply to the pair as a whole. -/
def texel (s : Sprite) (tall : Bool) (row : Fin 16) (col : Fin 8) : Texel :=
  let first := if tall then s.tile &&& 0xFE else s.tile
  let r := if s.flipY then height tall - 1 - row.val else row.val
  have hr : r < 16 := by
    have := height_le tall
    show (if s.flipY then height tall - 1 - row.val else row.val) < 16
    split <;> omega
  { tile := ⟨first.toNat + r / 8, by have := first.toNat_lt; omega⟩
    x := if s.flipX then col.rev else col
    y := ⟨r % 8, by omega⟩ }

end Sprite

/-- A sprite that reaches a line. -/
structure LineSprite where
  /-- Its place in the table. -/
  index : Fin 40
  sprite : Sprite
  /-- Its row on the line. -/
  row : Fin 16
  deriving DecidableEq, Repr

/-- The first of two sprites goes before the second, or they are the same: it is further to the
left, or in the same column and not later in the table. -/
def LineSprite.before (a b : LineSprite) : Bool :=
  decide (a.sprite.x < b.sprite.x) ||
    (decide (a.sprite.x = b.sprite.x) && decide (a.index ≤ b.index))

namespace Sprite

/-- A sprite of the table on a line, if it reaches the line. -/
def lineSprite? (oam : SpriteTable) (tall : Bool) (line : UInt8) (i : Fin 40) : Option LineSprite :=
  ((ofTable oam i).row? tall line).map fun r => ⟨i, ofTable oam i, r⟩

/-- The sprites that reach a line: the first ten in the order of the table. -/
def onLine (oam : SpriteTable) (tall : Bool) (line : UInt8) : List LineSprite :=
  ((List.finRange 40).filterMap (lineSprite? oam tall line)).take 10

/-- The sprites of a line in the order of priority. -/
def drawOrder (oam : SpriteTable) (tall : Bool) (line : UInt8) : List LineSprite :=
  (onLine oam tall line).mergeSort LineSprite.before

end Sprite

end DotMatrix
