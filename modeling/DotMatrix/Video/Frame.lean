import DotMatrix.Tile

/-!
# The picture

160x144 pixels of four bytes each (red, green, blue, opacity), row by row from the top left corner.

* `Frame` — the bytes of the picture; `Frame.white` is the picture after power on.
* `Frame.drawRow` — paints one row, given the shades of its 160 pixels.
* `Frame.rowShades?` — reads a row back as shades, if each of its pixels is one.
-/

set_option autoImplicit false

namespace DotMatrix

/-- The bytes of the picture. -/
abbrev Frame := Memory 92160

/-- The shades of one row. -/
abbrev ShadeRow := Vector Shade 160

namespace Frame

/-- A white picture. -/
def white : Frame := Memory.filled 92160 0xFF

/-- Paints a pixel: three equal components and full opacity. -/
def setPixel (f : Frame) (y : Fin 144) (x : Fin 160) (s : Shade) : Frame :=
  (((f.set (640 * y.val + 4 * x.val) s.intensity).set (640 * y.val + 4 * x.val + 1) s.intensity).set
    (640 * y.val + 4 * x.val + 2) s.intensity).set (640 * y.val + 4 * x.val + 3) 0xFF

/-- Paints a row. -/
def drawRow (f : Frame) (y : Fin 144) (row : ShadeRow) : Frame :=
  Fin.foldl 160 (fun g x => g.setPixel y x (row.get x)) f

/-- The four bytes of a pixel. -/
def pixel (f : Frame) (y : Fin 144) (x : Fin 160) : List UInt8 :=
  [f[640 * y.val + 4 * x.val], f[640 * y.val + 4 * x.val + 1], f[640 * y.val + 4 * x.val + 2],
    f[640 * y.val + 4 * x.val + 3]]

/-- The bytes of a row. -/
def row (f : Frame) (y : Fin 144) : List UInt8 :=
  (List.finRange 160).flatMap (f.pixel y)

/-- The four bytes of a shade. -/
def shadeBytes (s : Shade) : List UInt8 := [s.intensity, s.intensity, s.intensity, 0xFF]

/-- The shade of a pixel, if its bytes are those of a shade. -/
def shade? (f : Frame) (y : Fin 144) (x : Fin 160) : Option Shade :=
  (List.finRange 4).find? fun s => f.pixel y x == shadeBytes s

/-- The shades of a row, if every pixel has one. -/
def rowShades? (f : Frame) (y : Fin 144) : Option (List Shade) :=
  (List.finRange 160).mapM (f.shade? y)

end Frame

end DotMatrix
