import DotMatrix.Proofs.Checked.Backdrop
import DotMatrix.Proofs.SpriteLayer

/-!
# Sprites, with all checks

The sprites of a line are collected in a list with room for ten, sorted and painted column by column,
with positions that may be negative until they are known to lie on the screen.

* `Checked.collect`, `Checked.drawOrder` — the sprites of a line, each with its column and its place in
  the sprite table.
* `Checked.spriteTexel` — tile and row that a sprite shows on the line; `Checked.flippedRow`,
  `Checked.flippedColumn` — what flips do to rows and columns.
* `Checked.paintColumn`, `Checked.paintSprite`, `Checked.paintSprites` — painting them.

Principal results: `Checked.drawOrder_eq` — no more than ten are collected, and these are the sprites of
the line; `Checked.paintSprites_eq` — whatever the sprite table holds, painting them paints the line.
-/

set_option autoImplicit false

namespace DotMatrix

/-- The column of a sprite and its place in the sprite table. -/
def LineSprite.key (s : LineSprite) : UInt8 × Nat := (s.sprite.x, s.index.val)

namespace Checked

/-- The lines that sprites cover. -/
def spriteHeight (r : Registers) : Checked Int :=
  return if (← layerBit r 2) then 16 else 8

/-- A sprite of the height `height`, with `y` in the table, reaches the current line. -/
def reaches (v : Video) (height : Int) (y : UInt8) : Checked Bool := do
  let top ← SignedWidth.distance.sub y.toNat 16
  if top ≤ v.regs.ly.toNat then
    return decide ((v.regs.ly.toNat : Int) < (← SignedWidth.distance.add top height))
  else return false

/-- Adds the sprites at some places of the table that reach the line to those that were found, until
there are ten. -/
def collect (v : Video) (height : Int) :
    List Nat → Vector (UInt8 × Nat) 10 → Nat → Checked (Vector (UInt8 × Nat) 10 × Nat)
  | [], found, count => return (found, count)
  | i :: rest, found, count => do
    let y ← fetch v.oam (← Width.index.mul i 4)
    if ← reaches v height y then
      let x ← fetch v.oam (← Width.index.add (← Width.index.mul i 4) 1)
      let found ← store found count (x, i)
      let count ← Width.index.add count 1
      if count = 10 then return (found, count) else collect v height rest found count
    else collect v height rest found count

/-- The order of priority on columns and places. -/
def keyBefore (a b : UInt8 × Nat) : Bool :=
  decide (a.1 < b.1) || (decide (a.1 = b.1) && decide (a.2 ≤ b.2))

/-- The sprites of the line in the order of priority. -/
def drawOrder (v : Video) (height : Int) : Checked (List (UInt8 × Nat)) := do
  let r ← collect v height (List.range 40) (Vector.replicate 10 (0, 0)) 0
  return (← slice r.1 0 r.2).toList.mergeSort keyBefore

/-- Reads an entry of the sprite table, all but its column. -/
def readSprite (v : Video) (i : Nat) (x : UInt8) : Checked Sprite := do
  let first ← Width.index.mul i 4
  let entry ← slice v.oam first (← Width.index.add first 4)
  return ⟨← fetchAt entry 0, x, ← fetchAt entry 2, ← fetchAt entry 3⟩

/-- The row of a sprite, counted from the other end if the sprite is upside down. -/
def flippedRow (s : Sprite) (height row : Int) : Checked Int := do
  if s.flipY then SignedWidth.distance.sub (← SignedWidth.distance.sub height 1) row
  else return row

/-- The tile that a sprite shows on the current line, and the row of the tile. -/
def spriteTexel (v : Video) (height : Int) (s : Sprite) : Checked (Nat × Int) := do
  let row ← SignedWidth.distance.sub v.regs.ly.toNat (← SignedWidth.distance.sub s.y.toNat 16)
  let row ← flippedRow s height row
  let tile := (if height = 16 then s.tile &&& 0xFE else s.tile).toNat
  if 8 ≤ row then return (← Width.index.add tile 1, ← SignedWidth.distance.sub row 8)
  else return (tile, row)

/-- The column of a sprite, counted from the other side if the sprite is flipped. -/
def flippedColumn (s : Sprite) (i : Int) : Checked Int :=
  if s.flipX then SignedWidth.distance.sub 7 i else return i

/-- A sprite is hidden behind the colour at a column. -/
def hidden (colors : Vector Color 160) (s : Sprite) (px : Nat) : Checked Bool := do
  if s.behindBackground then return decide ((← fetch colors px) ≠ Color.clear) else return false

/-- Paints a column of a sprite that shows a row of a tile. -/
def paintColumn (v : Video) (colors : Vector Color 160) (s : Sprite) (tile : Nat) (row : Int)
    (layer : SpriteLayer) (i : Nat) : Checked SpriteLayer := do
  let px ← SignedWidth.distance.add (← SignedWidth.distance.sub s.x.toNat 8) i
  if px < 0 ∨ 160 ≤ px then return layer
  else
    let px := toIndex px
    let column ← flippedColumn s i
    let c ← tilePixel v.tiles tile (toIndex column) (toIndex row)
    if c = Color.clear then return layer
    else if ← fetch layer.owned px then return layer
    else
      let owned ← store layer.owned px true
      if ← hidden colors s px then return { layer with owned := owned }
      else
        let palette := if s.paletteHigh then v.regs.obp1 else v.regs.obp0
        return ⟨← store layer.shades px (← paletteShade palette c), owned⟩

/-- Paints the sprite at a place of the table. -/
def paintSprite (v : Video) (height : Int) (colors : Vector Color 160) (layer : SpriteLayer)
    (found : UInt8 × Nat) : Checked SpriteLayer := do
  let s ← readSprite v found.2 found.1
  let texel ← spriteTexel v height s
  loop 0 8 layer (paintColumn v colors s texel.1 texel.2)

/-- Paints the sprites of the line. -/
def paintSprites (v : Video) (colors : Vector Color 160) (shades : ShadeRow) :
    Checked ShadeRow := do
  let height ← spriteHeight v.regs
  let order ← drawOrder v height
  return (← order.foldlM (paintSprite v height colors)
    ⟨shades, Vector.replicate 160 false⟩).shades

/-! ## The sprites of a line -/

section Line

variable (v : Video)

theorem spriteHeight_eq : spriteHeight v.regs = .ok v.objectHeight := by
  rw [spriteHeight, layerBit_eq _ (by decide), ok_bind]
  rfl

theorem objectHeight_bounds : 8 ≤ v.objectHeight ∧ v.objectHeight ≤ 16 := by
  unfold Video.objectHeight
  split <;> omega

theorem reaches_eq (i : Fin 40) :
    reaches v v.objectHeight (Sprite.ofTable v.oam i).y = .ok (v.lineSprite? i).isSome := by
  have hy := (Sprite.ofTable v.oam i).y.toNat_lt
  have hheight := objectHeight_bounds v
  rw [Video.isSome_lineSprite?, reaches,
    SignedWidth.sub_ok (by simp only [SignedWidth.bound]; omega), ok_bind]
  by_cases htop : ((Sprite.ofTable v.oam i).y.toNat : Int) - 16 ≤ v.regs.ly.toNat
  · rw [if_pos htop, SignedWidth.add_ok (by simp only [SignedWidth.bound]; omega), ok_bind]
    refine congrArg Except.ok (decide_eq_decide.2 ?_)
    exact (and_iff_right htop).symm
  · rw [if_neg htop]
    exact congrArg Except.ok (decide_eq_false fun h => htop h.1).symm

theorem take_succ_set {α : Type} {n : Nat} (xs : Vector α n) {k : Nat} (hk : k < n) (x : α) :
    (xs.set k x).toList.take (k + 1) = xs.toList.take k ++ [x] := by
  have hlength : k < (xs.set k x).toList.length := by rwa [Vector.length_toList]
  rw [← List.take_append_getElem hlength]
  congr 1
  · rw [Vector.toList_set, List.take_set_of_le (Nat.le_refl k)]
  · simp

/-- **No more sprites are found than there is room for**, and they are the first of those that reach
the line. -/
theorem collect_eq (l : List (Fin 40)) (found : Vector (UInt8 × Nat) 10) (count : Nat)
    (hcount : count < 10) :
    ∃ found' count', collect v v.objectHeight (l.map Fin.val) found count = .ok (found', count') ∧
      count' ≤ 10 ∧
      found'.toList.take count' = found.toList.take count ++
        ((l.filterMap v.lineSprite?).take (10 - count)).map LineSprite.key := by
  induction l generalizing found count with
  | nil => exact ⟨found, count, rfl, Nat.le_of_lt hcount, by simp⟩
  | cons i l ih =>
    have hplace : i.val * 4 = 4 * i.val := Nat.mul_comm _ _
    have hy : v.oam[4 * i.val] = (Sprite.ofTable v.oam i).y := rfl
    have hx : v.oam[4 * i.val + 1] = (Sprite.ofTable v.oam i).x := rfl
    rw [List.map_cons, collect, Width.mul_ok (by simp only [Width.limit]; omega), ok_bind, hplace,
      fetch_ok v.oam (by omega), ok_bind, hy, reaches_eq, ok_bind]
    cases hs : v.lineSprite? i with
    | none =>
      rw [List.filterMap_cons_none hs]
      exact ih found count hcount
    | some s =>
      obtain ⟨-, hindex, hsprite, -⟩ := Video.lineSprite?_eq_some hs
      have hkey : ((Sprite.ofTable v.oam i).x, i.val) = s.key := by
        rw [LineSprite.key, hindex, hsprite]
      have hroom : 10 - count = 9 - count + 1 := by omega
      rw [List.filterMap_cons_some hs, hroom, List.take_succ_cons, List.map_cons, Option.isSome_some,
        if_pos rfl, ok_bind, Width.add_ok (by simp only [Width.limit]; omega), ok_bind,
        fetch_ok v.oam (by omega), ok_bind, hx, hkey, store_ok found hcount, ok_bind,
        Width.add_ok (by simp only [Width.limit]; omega), ok_bind]
      by_cases hfull : count + 1 = 10
      · rw [if_pos hfull, show 9 - count = 0 by omega, List.take_zero, List.map_nil]
        exact ⟨_, _, rfl, by omega, take_succ_set found hcount _⟩
      · obtain ⟨found', count', hcollect, hle, htake⟩ :=
          ih (found.set count s.key) (count + 1) (by omega)
        rw [if_neg hfull]
        refine ⟨found', count', hcollect, hle, ?_⟩
        rw [htake, take_succ_set found hcount, List.append_assoc, List.singleton_append,
          show 10 - (count + 1) = 9 - count by omega]

theorem drawOrder_eq :
    drawOrder v v.objectHeight =
      .ok ((Sprite.drawOrder v.oam v.regs.spritesTall v.regs.ly).map LineSprite.key) := by
  obtain ⟨found, count, hcollect, hle, htake⟩ :=
    collect_eq v (List.finRange 40) (Vector.replicate 10 (0, 0)) 0 (by decide)
  have hrange : List.range 40 = (List.finRange 40).map Fin.val := by
    rw [List.range_eq_range', range'_eq_map_finRange]
  have hlist : (found.toArray.extract 0 count).toList =
      (Sprite.onLine v.oam v.regs.spritesTall v.regs.ly).map LineSprite.key := by
    rw [Array.toList_extract]
    simp only [List.extract_eq_take_drop, List.drop_zero, Nat.sub_zero]
    exact htake
  rw [drawOrder, hrange, hcollect, ok_bind, slice_ok found (Nat.zero_le _) hle, ok_bind, hlist]
  have hbefore : ∀ a b : LineSprite, a.before b = keyBefore a.key b.key := fun _ _ => rfl
  exact congrArg Except.ok (List.map_mergeSort fun a _ b _ => hbefore a b).symm

/-! ## Painting -/

variable {v}

theorem readSprite_eq (i : Fin 40) :
    readSprite v i.val (Sprite.ofTable v.oam i).x = .ok (Sprite.ofTable v.oam i) := by
  have hplace : i.val * 4 = 4 * i.val := Nat.mul_comm _ _
  rw [readSprite, Width.mul_ok (by simp only [Width.limit]; omega), ok_bind, hplace,
    Width.add_ok (by simp only [Width.limit]; omega), ok_bind,
    slice_ok v.oam (Nat.le_add_right _ 4) (by omega), ok_bind,
    fetchAt_extract v.oam (by omega) (by omega), ok_bind,
    fetchAt_extract v.oam (by omega) (by omega), ok_bind,
    fetchAt_extract v.oam (by omega) (by omega), ok_bind]
  rfl

theorem flippedRow_eq {i : Fin 40} {s : LineSprite} (hs : v.lineSprite? i = some s) :
    ∃ r : Fin 16, flippedRow s.sprite v.objectHeight s.row.val = .ok (r.val : Int) ∧
      r.val = if s.sprite.flipY then Sprite.height v.regs.spritesTall - 1 - s.row.val
        else s.row.val := by
  obtain ⟨hreach, -, -, hrow⟩ := Video.lineSprite?_eq_some hs
  have hheight : v.objectHeight = Sprite.height v.regs.spritesTall := v.objectHeight_eq
  have hlt : (s.row.val : Int) < v.objectHeight := by
    rw [hrow]
    have := hreach.2
    omega
  have hle := Sprite.height_le v.regs.spritesTall
  unfold flippedRow
  cases s.sprite.flipY with
  | false => exact ⟨s.row, rfl, rfl⟩
  | true =>
    refine ⟨⟨Sprite.height v.regs.spritesTall - 1 - s.row.val, by omega⟩, ?_, rfl⟩
    rw [if_pos rfl, SignedWidth.sub_ok (by simp only [SignedWidth.bound]; omega), ok_bind,
      SignedWidth.sub_ok (by simp only [SignedWidth.bound]; omega)]
    refine congrArg Except.ok ?_
    simp only
    omega

/-- Tile and row do not depend on the column. -/
theorem spriteTexel_eq {i : Fin 40} {s : LineSprite} (hs : v.lineSprite? i = some s) (col : Fin 8) :
    spriteTexel v v.objectHeight s.sprite =
      .ok ((s.sprite.texel v.regs.spritesTall s.row col).tile.val,
        ((s.sprite.texel v.regs.spritesTall s.row col).y.val : Int)) := by
  obtain ⟨-, -, hsprite, hrow⟩ := Video.lineSprite?_eq_some hs
  obtain ⟨r, hflip, hr⟩ := flippedRow_eq hs
  have htop : (s.sprite.y.toNat : Int) - 16 = v.objectTop i := by
    rw [hsprite]
    rfl
  have hy := s.sprite.y.toNat_lt
  have hline := v.regs.ly.toNat_lt
  have htall : v.objectHeight = 16 ↔ v.regs.spritesTall = true := by
    unfold Video.objectHeight Registers.spritesTall
    split <;> simp_all
  rw [spriteTexel, SignedWidth.sub_ok (by simp only [SignedWidth.bound]; omega), ok_bind,
    SignedWidth.sub_ok (by simp only [SignedWidth.bound]; omega), ok_bind, htop, ← hrow, hflip,
    ok_bind]
  simp only [htall, Sprite.texel, ← hr]
  generalize (if v.regs.spritesTall = true then s.sprite.tile &&& 0xFE else s.sprite.tile) = first
  have hfirst := first.toNat_lt
  by_cases hlow : 8 ≤ r.val
  · rw [if_pos (by omega), Width.add_ok (by simp only [Width.limit]; omega), ok_bind,
      SignedWidth.sub_ok (by simp only [SignedWidth.bound]; omega), ok_bind, pure_eq_ok,
      Except.ok.injEq, Prod.mk.injEq]
    omega
  · rw [if_neg (by omega), pure_eq_ok, Except.ok.injEq, Prod.mk.injEq]
    omega

theorem flippedColumn_eq (s : Sprite) (col : Fin 8) :
    flippedColumn s col.val = .ok ((if s.flipX then col.rev else col).val : Int) := by
  unfold flippedColumn
  cases s.flipX with
  | false => rfl
  | true =>
    rw [if_pos rfl, if_pos rfl, SignedWidth.sub_ok (by simp only [SignedWidth.bound]; omega),
      Fin.val_rev]
    refine congrArg Except.ok ?_
    omega

theorem hidden_eq (back : Vector Pixel 160) (s : Sprite) (px : Fin 160) :
    hidden (back.map Pixel.color) s px.val =
      .ok (s.behindBackground && decide ((back.get px).color ≠ Color.clear)) := by
  unfold hidden
  cases s.behindBackground with
  | false => rfl
  | true =>
    rw [if_pos rfl, fetch_ok _ px.isLt, ok_bind, Vector.getElem_map, Bool.true_and]
    rfl

theorem paintColumn_eq (back : Vector Pixel 160) (s : LineSprite) (layer : SpriteLayer)
    (col : Fin 8) :
    paintColumn v (back.map Pixel.color) s.sprite
        (s.sprite.texel v.regs.spritesTall s.row col).tile.val
        (s.sprite.texel v.regs.spritesTall s.row col).y.val layer col.val =
      .ok (v.paintColumn back s layer col) := by
  have hx := s.sprite.x.toNat_lt
  have hindex : ∀ x : Fin 8, toIndex (x.val : Int) = x.val := fun x =>
    toIndex_of_nonneg (by omega) (by omega)
  rw [paintColumn, SignedWidth.sub_ok (by simp only [SignedWidth.bound]; omega), ok_bind,
    SignedWidth.add_ok (by simp only [SignedWidth.bound]; omega), ok_bind]
  unfold Video.paintColumn
  cases hpx : s.sprite.screenColumn? col with
  | none =>
    have hoff : ¬ (8 ≤ s.sprite.x.toNat + col.val ∧ s.sprite.x.toNat + col.val < 168) := by
      intro hon
      rw [Sprite.screenColumn?, dif_pos hon] at hpx
      cases hpx
    exact if_pos (by omega)
  | some px =>
    have hcolumn := Video.screenColumn?_eq_some_iff.1 hpx
    have hplace : toIndex ((s.sprite.x.toNat : Int) - 8 + col.val) = px.val := by
      rw [toIndex_of_nonneg (by omega) (by omega)]
      omega
    have hpixel : tilePixel v.tiles (s.sprite.texel v.regs.spritesTall s.row col).tile.val
        (if s.sprite.flipX then col.rev else col).val
        (s.sprite.texel v.regs.spritesTall s.row col).y.val =
          .ok (v.tiles.pixel (s.sprite.texel v.regs.spritesTall s.row col).tile
            (s.sprite.texel v.regs.spritesTall s.row col).x
            (s.sprite.texel v.regs.spritesTall s.row col).y) :=
      tilePixel_eq v.tiles _ _ _
    rw [if_neg (by omega), hplace, flippedColumn_eq, ok_bind, hindex, hindex, hpixel, ok_bind]
    simp only
    generalize v.tiles.pixel _ _ _ = c
    by_cases hclear : c = Color.clear
    · rw [if_pos hclear, if_pos (by simp [hclear])]
      rfl
    · rw [if_neg hclear, fetch_ok _ px.isLt, ok_bind]
      by_cases howned : layer.owned[px.val] = true
      · rw [if_pos howned, if_pos (by simp [get_eq_getElem, howned])]
        rfl
      · have hfree : ¬ (decide (c = Color.clear) || layer.owned.get px) = true := by
          simp [get_eq_getElem, howned, hclear]
        rw [if_neg howned, store_ok _ px.isLt, ok_bind, hidden_eq, ok_bind, if_neg hfree]
        by_cases hbehind : (s.sprite.behindBackground &&
            decide ((back.get px).color ≠ Color.clear)) = true
        · rw [if_pos hbehind, if_pos hbehind]
          rfl
        · rw [if_neg hbehind, if_neg hbehind, paletteShade_eq, ok_bind, store_ok _ px.isLt, ok_bind]
          rfl

theorem paintSprite_eq (back : Vector Pixel 160) {i : Fin 40} {s : LineSprite}
    (hs : v.lineSprite? i = some s) (layer : SpriteLayer) :
    paintSprite v v.objectHeight (back.map Pixel.color) layer s.key =
      .ok (v.paintSprite back layer s) := by
  obtain ⟨-, hindex, hsprite, -⟩ := Video.lineSprite?_eq_some hs
  have hread : readSprite v s.index.val s.sprite.x = .ok s.sprite := by
    rw [hindex, hsprite, readSprite_eq]
  rw [paintSprite, LineSprite.key, hread, ok_bind, spriteTexel_eq hs 0, ok_bind]
  refine loop_eq_foldl (fun layer col => ?_) layer
  have htexel := (spriteTexel_eq hs 0).symm.trans (spriteTexel_eq hs col)
  simp only [Except.ok.injEq, Prod.mk.injEq] at htexel
  simp only
  rw [htexel.1, htexel.2]
  exact paintColumn_eq back s layer col

/-- **Painting the sprites paints the line**, whatever the sprite table holds. -/
theorem paintSprites_eq (v : Video) (back : Vector Pixel 160) :
    paintSprites v (back.map Pixel.color) (back.map Pixel.shade) =
      .ok (v.paintSprites back (Sprite.drawOrder v.oam v.regs.spritesTall v.regs.ly)).shades := by
  rw [paintSprites, spriteHeight_eq, ok_bind, drawOrder_eq, ok_bind, List.foldlM_map]
  have hfold := foldlM_eq_foldl (fun _ => True) (g := v.paintSprite back)
    (f := fun layer s => paintSprite v v.objectHeight (back.map Pixel.color) layer s.key)
    (l := Sprite.drawOrder v.oam v.regs.spritesTall v.regs.ly)
    (s := ⟨back.map Pixel.shade, Vector.replicate 160 false⟩)
    (fun layer _ s hs => by
      obtain ⟨i, -, hi⟩ := Video.mem_drawOrder.1 hs
      exact ⟨paintSprite_eq back hi layer, trivial⟩) trivial
  rw [hfold.1, ok_bind]
  rfl

end Line

end Checked

end DotMatrix
