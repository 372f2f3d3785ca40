import DotMatrix.Video.Frame
import DotMatrix.Video.Registers
import DotMatrix.Video.Sprite

/-!
# The video unit

State of the video unit and what programs and hosts do to its memories.

* `Video` — video memory, sprite table, decoded tiles, picture, registers, the clock of the current
  mode and the window's own line counter.
* `Video.powerOn` — cleared memories and a white picture.
* `Video.writeMemory` — a write to video memory keeps the decoded tiles up to date, row by row.
* `Video.Coherent` — the decoded tiles are those of video memory.

Principal result: `Video.Coherent.writeMemory` — writes keep the decoded tiles up to date.
-/

set_option autoImplicit false

namespace DotMatrix

/-- State of the video unit. -/
structure Video where
  vram : VideoMemory
  oam : SpriteTable
  /-- The tiles of video memory, decoded. -/
  tiles : TileCache
  frame : Frame
  regs : Registers
  /-- Clock ticks since the current mode, or the current line of the vertical blank, began. -/
  clock : UInt32
  /-- The window's next line. -/
  windowLine : UInt8

namespace Video

/-- The video unit after power on. -/
def powerOn : Video where
  vram := Memory.zero 0x2000
  oam := Memory.zero 0xA0
  tiles := TileCache.blank
  frame := Frame.white
  regs := Registers.powerOn
  clock := 0
  windowLine := 0

/-- The decoded tiles are those of video memory. -/
def Coherent (v : Video) : Prop := v.tiles = Tile.decode v.vram

/-- An offset in video memory: higher bits of the address are not connected. -/
def offset (addr : UInt16) : Fin 0x2000 := ⟨addr.toNat % 0x2000, by omega⟩

/-- Reads a byte of video memory. -/
def readMemory (v : Video) (i : Fin 0x2000) : UInt8 := v.vram.get i

/-- Writes a byte of video memory.  A byte of a tile belongs to one tile row, which is decoded
again; the tile maps above the tiles have no decoded form. -/
def writeMemory (v : Video) (i : Fin 0x2000) (b : UInt8) : Video :=
  if h : i.val < 0x1800 then
    let r : TileRow := ⟨i.val / 2, by omega⟩
    let vram := v.vram.set i.val b
    let p := Tile.planes vram r
    { v with vram := vram, tiles := v.tiles.refresh r p.1 p.2 }
  else { v with vram := v.vram.set i.val b }

/-- Decodes all tiles again, row by row. -/
def decodeTiles (v : Video) : Video :=
  { v with tiles := Tile.refreshRows v.vram (List.finRange 3072) v.tiles }

/-- Reads a byte of the sprite table; beyond its end there is nothing. -/
def readSprites (v : Video) (i : Nat) : UInt8 := v.oam[i]?.getD 0xFF

/-- Writes a byte of the sprite table; beyond its end nothing is stored. -/
def writeSprites (v : Video) (i : Nat) (b : UInt8) : Video :=
  { v with oam := v.oam.setIfInBounds i b }

/-- Reads a register. -/
def readRegister (v : Video) (p : VideoRegister) : UInt8 := v.regs.read p

/-- Writes a register. -/
def writeRegister (v : Video) (p : VideoRegister) (b : UInt8) : Video :=
  { v with regs := v.regs.write p b }

/-- Reads the register at an address; where there is none, nothing is connected. -/
def readAddr (v : Video) (addr : UInt16) : UInt8 :=
  match VideoRegister.ofAddr? addr with
  | some p => v.readRegister p
  | none => 0xFF

/-- Writes the register at an address, if there is one. -/
def writeAddr (v : Video) (addr : UInt16) (b : UInt8) : Video :=
  match VideoRegister.ofAddr? addr with
  | some p => v.writeRegister p b
  | none => v

/-- The sixteen bytes of the tile that a map entry names. -/
def tileBytes (v : Video) (entry : UInt8) : List UInt8 :=
  let t := Tile.number entry v.regs.tilesUnsigned
  (List.finRange 16).map fun k => v.vram[16 * t.val + k.val]

@[simp] theorem writeMemory_regs (v : Video) (i : Fin 0x2000) (b : UInt8) :
    (v.writeMemory i b).regs = v.regs := by
  unfold writeMemory
  split <;> rfl

theorem coherent_powerOn : powerOn.Coherent := Tile.decode_zero.symm

/-- **Writes keep the decoded tiles up to date.** -/
theorem Coherent.writeMemory {v : Video} (h : v.Coherent) (i : Fin 0x2000) (b : UInt8) :
    (v.writeMemory i b).Coherent := by
  unfold Video.writeMemory
  split
  · rename_i hi
    show v.tiles.refresh _ _ _ = _
    rw [h, Tile.decode_set v.vram i b ⟨i.val / 2, by omega⟩ rfl]
  · rename_i hi
    show v.tiles = _
    rw [h, Tile.decode_set_map v.vram i b (by omega)]

theorem decodeTiles_eq (v : Video) : v.decodeTiles = { v with tiles := Tile.decode v.vram } := by
  rw [decodeTiles, Tile.refreshRows_finRange]

@[simp] theorem decodeTiles_vram (v : Video) : v.decodeTiles.vram = v.vram := by cases v; rfl

@[simp] theorem decodeTiles_tiles (v : Video) : v.decodeTiles.tiles = Tile.decode v.vram := by
  rw [decodeTiles_eq]

@[simp] theorem decodeTiles_regs (v : Video) : v.decodeTiles.regs = v.regs := by cases v; rfl

@[simp] theorem decodeTiles_clock (v : Video) : v.decodeTiles.clock = v.clock := by cases v; rfl

@[simp] theorem decodeTiles_frame (v : Video) : v.decodeTiles.frame = v.frame := by cases v; rfl

@[simp] theorem decodeTiles_windowLine (v : Video) :
    v.decodeTiles.windowLine = v.windowLine := by cases v; rfl

theorem coherent_decodeTiles (v : Video) : v.decodeTiles.Coherent := by
  rw [Coherent, decodeTiles_tiles, decodeTiles_vram]

/-- Where tiles are those of video memory, decoding them again changes nothing. -/
theorem Coherent.decodeTiles_eq {v : Video} (h : v.Coherent) : v.decodeTiles = v := by
  rw [Video.decodeTiles_eq, ← show v.tiles = Tile.decode v.vram from h]

end Video

end DotMatrix
