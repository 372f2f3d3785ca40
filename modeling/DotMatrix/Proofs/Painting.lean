import DotMatrix.Video.Line

/-!
# Painting, column by column

Lines and sprites are painted by loops over whole rows.  No column has a part in what happens to
another one, so each loop can be followed at one column alone.

* `SpriteLayer.column` — what a line that sprites are painted on has at a column.
* `Video.colorAt` — the colour of a sprite at a column of the screen, 0 where it does not reach.
* `Video.claim` — what a sprite does at one column.

Principal results: `Video.column_paintSprites` — the first sprite in order that is not transparent at a
column owns it; `Frame.pixel_drawRow` — a painted row has the shades that it was given, and no other
row is painted; `Video.pixel_drawLine` — so it is with the row of the current line.
-/

set_option autoImplicit false

namespace DotMatrix

theorem get_eq_getElem {α : Type} {n : Nat} (xs : Vector α n) (i : Fin n) :
    xs.get i = xs[i.val] := rfl

/-! ## Rows of the picture -/

namespace Frame

theorem pixel_setPixel (f : Frame) (y y' : Fin 144) (x x' : Fin 160) (s : Shade) :
    (f.setPixel y x s).pixel y' x' = if y' = y ∧ x' = x then shadeBytes s else f.pixel y' x' := by
  have hy := y.isLt
  have hy' := y'.isLt
  have hx := x.isLt
  have hx' := x'.isLt
  unfold pixel setPixel shadeBytes
  by_cases h : y' = y ∧ x' = x
  · obtain ⟨rfl, rfl⟩ := h
    simp
  · rw [if_neg h]
    have hne : 640 * y.val + 4 * x.val ≠ 640 * y'.val + 4 * x'.val := fun he =>
      h ⟨Fin.ext (by omega), Fin.ext (by omega)⟩
    simp only [Vector.getElem_set]
    repeat rw [if_neg (by omega)]

theorem pixel_drawRow (f : Frame) (y y' : Fin 144) (row : ShadeRow) (x : Fin 160) :
    (f.drawRow y row).pixel y' x = if y' = y then shadeBytes (row.get x) else f.pixel y' x := by
  have hloop : ∀ (k : Nat) (hk : k ≤ 160),
      (Fin.foldl k (fun g (i : Fin k) => g.setPixel y ⟨i.val, by omega⟩ (row.get ⟨i.val, by omega⟩)) f).pixel y' x =
        if y' = y ∧ x.val < k then shadeBytes (row.get x) else f.pixel y' x := by
    intro k hk
    induction k with
    | zero => rw [Fin.foldl_zero, if_neg (by omega)]
    | succ k ih =>
      rw [Fin.foldl_succ_last]
      simp only [Fin.val_castSucc, Fin.val_last]
      rw [pixel_setPixel, ih (by omega)]
      by_cases hlast : y' = y ∧ x = ⟨k, by omega⟩
      · obtain ⟨rfl, rfl⟩ := hlast
        rw [if_pos ⟨rfl, rfl⟩, if_pos ⟨rfl, by simp⟩]
      · rw [if_neg hlast]
        by_cases hk' : y' = y ∧ x.val < k
        · rw [if_pos hk', if_pos ⟨hk'.1, by omega⟩]
        · have hlt : ¬ (y' = y ∧ x.val < k + 1) := fun ⟨hy, hx⟩ =>
            hlast ⟨hy, Fin.ext (Nat.le_antisymm (Nat.le_of_lt_succ hx)
              (Nat.le_of_not_lt (mt (And.intro hy) hk')))⟩
          rw [if_neg hk', if_neg hlt]
  have h := hloop 160 (Nat.le_refl _)
  simp only [x.isLt, and_true] at h
  exact h

theorem get_setPixel_of_ne (f : Frame) (y : Fin 144) (x : Fin 160) (s : Shade) {i : Fin 92160}
    (h : i.val / 640 ≠ y.val) : (f.setPixel y x s).get i = f.get i := by
  have hx := x.isLt
  unfold setPixel
  simp only [get_eq_getElem, Vector.getElem_set]
  repeat rw [if_neg (by omega)]

/-- No byte of another row is painted. -/
theorem get_drawRow_of_ne (f : Frame) (y : Fin 144) (row : ShadeRow) {i : Fin 92160}
    (h : i.val / 640 ≠ y.val) : (f.drawRow y row).get i = f.get i := by
  unfold drawRow
  rw [Fin.foldl_eq_finRange_foldl]
  induction List.finRange 160 generalizing f with
  | nil => rfl
  | cons x l ih => rw [List.foldl_cons, ih, get_setPixel_of_ne f y x _ h]

end Frame

/-! ## Sprites -/

/-- What the line has at a column: whether a sprite owns it, and its shade. -/
def SpriteLayer.column (layer : SpriteLayer) (px : Fin 160) : Bool × Shade :=
  (layer.owned.get px, layer.shades.get px)

namespace Video

/-- The colour of a sprite at a column of the screen.  Where the sprite does not reach it is
transparent. -/
def colorAt (v : Video) (s : LineSprite) (px : Fin 160) : Color :=
  if h : s.sprite.x.toNat ≤ px.val + 8 ∧ px.val < s.sprite.x.toNat then
    let t := s.sprite.texel v.regs.spritesTall s.row ⟨px.val + 8 - s.sprite.x.toNat, by omega⟩
    v.tiles.pixel t.tile t.x t.y
  else Color.clear

/-- The shade at a column that a sprite with the colour `c` owns, in front of a point of the
backdrop. -/
def ownedShade (v : Video) (back : Pixel) (s : Sprite) (c : Color) : Shade :=
  if s.behindBackground && decide (back.color ≠ Color.clear) then back.shade else v.spriteShade s c

/-- What a sprite does at one column where it has the colour `c`. -/
def claim (v : Video) (back : Pixel) (s : LineSprite) (c : Color) (p : Bool × Shade) :
    Bool × Shade :=
  if c = Color.clear || p.1 then p
  else (true, if s.sprite.behindBackground && decide (back.color ≠ Color.clear) then p.2
    else v.spriteShade s.sprite c)

theorem screenColumn?_eq_some_iff {s : Sprite} {col : Fin 8} {px : Fin 160} :
    s.screenColumn? col = some px ↔ s.x.toNat + col.val = px.val + 8 := by
  have hpx := px.isLt
  unfold Sprite.screenColumn?
  split
  · simp only [Option.some.injEq, Fin.ext_iff]
    omega
  · simp only [reduceCtorEq, false_iff]
    omega

theorem column_paintColumn (v : Video) (back : Vector Pixel 160) (s : LineSprite)
    (layer : SpriteLayer) (col : Fin 8) (px : Fin 160) :
    (v.paintColumn back s layer col).column px =
      if s.sprite.x.toNat + col.val = px.val + 8 then
        v.claim (back.get px) s (v.colorAt s px) (layer.column px)
      else layer.column px := by
  unfold paintColumn
  cases hc : s.sprite.screenColumn? col with
  | none =>
    rw [if_neg fun h => ?_]
    rw [screenColumn?_eq_some_iff.2 h] at hc
    cases hc
  | some q =>
    have hq := screenColumn?_eq_some_iff.1 hc
    by_cases hpx : s.sprite.x.toNat + col.val = px.val + 8
    · obtain rfl : q = px := Fin.ext (by omega)
      have hcolor : v.colorAt s q =
          let t := s.sprite.texel v.regs.spritesTall s.row col
          v.tiles.pixel t.tile t.x t.y := by
        have hcol : (⟨q.val + 8 - s.sprite.x.toNat, by omega⟩ : Fin 8) = col :=
          Fin.ext (by simp only; omega)
        unfold colorAt
        rw [dif_pos (by omega), hcol]
      rw [if_pos hpx, claim, hcolor]
      dsimp only [SpriteLayer.column]
      split
      · rename_i hskip
        exact (if_pos hskip).symm
      · rename_i hskip
        refine Eq.trans ?_ (if_neg hskip).symm
        split <;> simp [get_eq_getElem]
    · have hne : q.val ≠ px.val := fun h => hpx (by omega)
      rw [if_neg hpx]
      simp only [SpriteLayer.column]
      split
      · rfl
      · split <;> simp [get_eq_getElem, hne]

theorem column_paintSprite (v : Video) (back : Vector Pixel 160) (layer : SpriteLayer)
    (s : LineSprite) (px : Fin 160) :
    (v.paintSprite back layer s).column px =
      v.claim (back.get px) s (v.colorAt s px) (layer.column px) := by
  have hloop : ∀ (k : Nat) (hk : k ≤ 8),
      (Fin.foldl k (fun l (i : Fin k) => v.paintColumn back s l ⟨i.val, by omega⟩) layer).column px =
        if s.sprite.x.toNat ≤ px.val + 8 ∧ px.val + 8 < s.sprite.x.toNat + k then
          v.claim (back.get px) s (v.colorAt s px) (layer.column px)
        else layer.column px := by
    intro k hk
    induction k with
    | zero => rw [Fin.foldl_zero, if_neg (by omega)]
    | succ k ih =>
      rw [Fin.foldl_succ_last]
      simp only [Fin.val_castSucc, Fin.val_last]
      rw [column_paintColumn, ih (by omega)]
      by_cases hlast : s.sprite.x.toNat + k = px.val + 8
      · rw [if_pos hlast, if_neg (by omega), if_pos (by omega)]
      · rw [if_neg hlast]
        by_cases hreach : s.sprite.x.toNat ≤ px.val + 8 ∧ px.val + 8 < s.sprite.x.toNat + k
        · rw [if_pos hreach, if_pos (by omega)]
        · rw [if_neg hreach, if_neg (by omega)]
  refine (hloop 8 (Nat.le_refl _)).trans ?_
  by_cases hreach : s.sprite.x.toNat ≤ px.val + 8 ∧ px.val + 8 < s.sprite.x.toNat + 8
  · rw [if_pos hreach]
  · have hcolor : v.colorAt s px = Color.clear := by
      unfold colorAt
      rw [dif_neg (by omega)]
    rw [if_neg hreach, claim, hcolor]
    rfl

/-- A column that a sprite owns stays as it is. -/
theorem column_foldl_of_owned (v : Video) (back : Vector Pixel 160) (order : List LineSprite)
    (layer : SpriteLayer) (px : Fin 160) (h : (layer.column px).1 = true) :
    (order.foldl (v.paintSprite back) layer).column px = layer.column px := by
  induction order generalizing layer with
  | nil => rfl
  | cons s order ih =>
    have hs : (v.paintSprite back layer s).column px = layer.column px := by
      rw [column_paintSprite, claim, h, Bool.or_true, if_pos rfl]
    rw [List.foldl_cons, ih _ (by rw [hs, h]), hs]

/-- **The first sprite that is not transparent at a column owns it**, and the backdrop is seen where
there is none. -/
theorem column_paintSprites (v : Video) (back : Vector Pixel 160) (order : List LineSprite)
    (px : Fin 160) :
    (v.paintSprites back order).column px =
      match order.find? fun s => v.colorAt s px ≠ Color.clear with
      | none => (false, (back.get px).shade)
      | some s => (true, v.ownedShade (back.get px) s.sprite (v.colorAt s px)) := by
  have hloop : ∀ layer : SpriteLayer, layer.column px = (false, (back.get px).shade) →
      (order.foldl (v.paintSprite back) layer).column px =
        match order.find? fun s => v.colorAt s px ≠ Color.clear with
        | none => (false, (back.get px).shade)
        | some s => (true, v.ownedShade (back.get px) s.sprite (v.colorAt s px)) := by
    induction order with
    | nil => exact fun layer hlayer => hlayer
    | cons s order ih =>
      intro layer hlayer
      have hs := v.column_paintSprite back layer s px
      rw [hlayer] at hs
      rw [List.foldl_cons]
      by_cases hclear : v.colorAt s px = Color.clear
      · rw [List.find?_cons_of_neg (by simp [hclear])]
        exact ih _ (by rw [hs, claim, hclear]; rfl)
      · have howned : (v.paintSprite back layer s).column px =
            (true, v.ownedShade (back.get px) s.sprite (v.colorAt s px)) := by
          rw [hs, claim, if_neg (by simp [hclear])]
          rfl
        rw [List.find?_cons_of_pos (by simp [hclear])]
        rw [column_foldl_of_owned _ _ _ _ _ (by rw [howned]), howned]
  exact hloop _ (by simp [SpriteLayer.column, get_eq_getElem])

/-! ## Lines -/

theorem frame_drawLine (v : Video) :
    v.drawLine.frame =
      if h : v.regs.ly.toNat < 144 then v.frame.drawRow ⟨v.regs.ly.toNat, h⟩ v.lineShades
      else v.frame := by
  by_cases h : v.regs.ly.toNat < 144
  · rw [drawLine, dif_pos h, dif_pos h]
  · rw [drawLine, dif_neg h, dif_neg h]

/-- **The row of the current line is painted with its shades**, and no other row is painted. -/
theorem pixel_drawLine (v : Video) (y : Fin 144) (px : Fin 160) :
    v.drawLine.frame.pixel y px =
      if y.val = v.regs.ly.toNat then Frame.shadeBytes (v.lineShades.get px)
      else v.frame.pixel y px := by
  rw [frame_drawLine]
  by_cases hline : v.regs.ly.toNat < 144
  · rw [dif_pos hline, Frame.pixel_drawRow]
    simp only [Fin.ext_iff]
  · have hne : y.val ≠ v.regs.ly.toNat := by omega
    rw [dif_neg hline, if_neg hne]

end Video

end DotMatrix
