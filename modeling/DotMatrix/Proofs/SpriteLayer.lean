import DotMatrix.Proofs.Backdrop

/-!
# The sprite layer

What is seen of the sprites of a line, said without painting: from the bytes of sprite table and
video memory, column by column.

* `Video.Reaches`, `Video.chosen` — the entries of the sprite table that reach the line, and the
  first ten of them.
* `Video.Covers`, `Video.objectColor` — whether an entry covers a column of the screen, and the
  colour that its tile has there.
* `Video.Contends`, `Video.Owns` — the chosen entries that are not transparent at a column, and the
  foremost of them.
* `Video.Seen` — what is seen at a column.

Principal result: `Video.seen_drawLine` — a line is drawn so that at every column exactly that is
seen.
-/

set_option autoImplicit false

namespace DotMatrix

namespace Video

/-! ## The definition -/

section Definition

variable (v : Video) (i : Fin 40) (px : Fin 160)

/-- The line on which an entry of the sprite table begins. -/
def objectTop : Int := (Sprite.ofTable v.oam i).y.toNat - 16

/-- The column on which an entry begins. -/
def objectLeft : Int := (Sprite.ofTable v.oam i).x.toNat - 8

/-- Priority, flips and palette of an entry. -/
def objectAttribute (bit : Nat) : Bool := (Sprite.ofTable v.oam i).attributes.toNat.testBit bit

/-- The lines that an entry covers. -/
def objectHeight : Int := if v.regs.lcdc.toNat.testBit 2 then 16 else 8

/-- The entry covers the current line, wherever its columns are. -/
def Reaches : Prop :=
  v.objectTop i ≤ v.regs.ly.toNat ∧ (v.regs.ly.toNat : Int) < v.objectTop i + v.objectHeight

instance : Decidable (v.Reaches i) := inferInstanceAs (Decidable (_ ∧ _))

/-- The first ten entries that reach the line, in the order of the table. -/
def chosen : List (Fin 40) := ((List.finRange 40).filter fun i => v.Reaches i).take 10

/-- The entry covers a column of the screen. -/
def Covers : Prop := v.objectLeft i ≤ px.val ∧ (px.val : Int) < v.objectLeft i + 8

instance : Decidable (v.Covers i px) := inferInstanceAs (Decidable (_ ∧ _))

/-- The row of the entry on the current line, counted from its top, or from its bottom if it is
upside down. -/
def objectRow : Int :=
  let row := v.regs.ly.toNat - v.objectTop i
  if v.objectAttribute i 6 then v.objectHeight - 1 - row else row

/-- The column of the entry at a column of the screen, counted from its left, or from its right if
it is flipped. -/
def objectColumn : Int :=
  let col := px.val - v.objectLeft i
  if v.objectAttribute i 5 then 7 - col else col

/-- The tile of the entry on the current line.  A tall entry has two, the upper one with an even
number. -/
def objectTile : Int :=
  let first := (Sprite.ofTable v.oam i).tile
  (if v.regs.lcdc.toNat.testBit 2 then first &&& 0xFE else first).toNat + v.objectRow i / 8

/-- The colour of an entry at a column of the screen that it covers. -/
def objectColor : Color :=
  v.memoryColor (v.objectTile i) (v.objectRow i % 8) (v.objectColumn i px)

/-- The entry is one of the ten, covers the column and is not transparent there. -/
def Contends : Prop := i ∈ v.chosen ∧ v.Covers i px ∧ v.objectColor i px ≠ Color.clear

instance : Decidable (v.Contends i px) := inferInstanceAs (Decidable (_ ∧ _ ∧ _))

/-- Of the entries that contend for the column it begins furthest to the left, and of several the
earliest in the table. -/
def Owns : Prop :=
  v.Contends i px ∧ ∀ j, v.Contends j px →
    v.objectLeft i < v.objectLeft j ∨ (v.objectLeft i = v.objectLeft j ∧ i ≤ j)

instance : Decidable (v.Owns i px) := inferInstanceAs (Decidable (_ ∧ ∀ _, _ → _ ∨ _))

/-- The entry hides behind background and window, unless these have colour 0 at the column. -/
def Hides : Prop := v.objectAttribute i 7 = true ∧ v.layerColor px ≠ Color.clear

instance : Decidable (v.Hides i px) := inferInstanceAs (Decidable (_ ∧ _))

/-- What is seen at a column of the current line. -/
inductive Seen : Shade → Prop
  /-- No entry contends for the column. -/
  | nothing (h : ∀ i, ¬ v.Contends i px) : Seen (v.layerShade px)
  /-- The owner hides, and with it every entry behind it. -/
  | hidden {i : Fin 40} (h : v.Owns i px) (hh : v.Hides i px) : Seen (v.layerShade px)
  | object {i : Fin 40} (h : v.Owns i px) (hh : ¬ v.Hides i px) :
    Seen (Palette.shade (if v.objectAttribute i 4 then v.regs.obp1 else v.regs.obp0)
      (v.objectColor i px))

end Definition

/-- A column has one owner at most. -/
theorem Owns.unique {v : Video} {i j : Fin 40} {px : Fin 160} (hi : v.Owns i px)
    (hj : v.Owns j px) : i = j := by
  have h1 := hi.2 j hj.1
  have h2 := hj.2 i hi.1
  exact Fin.ext (by simp only [Fin.le_def] at h1 h2; omega)

/-! ## The sprites that are painted -/

theorem take_filterMap {α β : Type} (f : α → Option β) (l : List α) (n : Nat) :
    (l.filterMap f).take n = ((l.filter fun a => (f a).isSome).take n).filterMap f := by
  induction l generalizing n with
  | nil => simp
  | cons a l ih =>
    cases hf : f a with
    | none => simp only [List.filterMap_cons, hf, List.filter_cons, Option.isSome, ih]; rfl
    | some b =>
      cases n with
      | zero => simp
      | succ n => simp [hf, ih]

section Painted

variable {v : Video} {i : Fin 40} {s : LineSprite} {px : Fin 160}

/-- The sprite of an entry on the current line. -/
def lineSprite? (v : Video) (i : Fin 40) : Option LineSprite :=
  Sprite.lineSprite? v.oam v.regs.spritesTall v.regs.ly i

theorem objectHeight_eq (v : Video) : v.objectHeight = Sprite.height v.regs.spritesTall := by
  unfold objectHeight Sprite.height Registers.spritesTall
  split <;> rfl

theorem reaches_iff :
    v.Reaches i ↔ (Sprite.ofTable v.oam i).y.toNat ≤ v.regs.ly.toNat + 16 ∧
      v.regs.ly.toNat + 16 <
        (Sprite.ofTable v.oam i).y.toNat + Sprite.height v.regs.spritesTall := by
  simp only [Reaches, objectTop, objectHeight_eq, Sprite.ofTable]
  omega

theorem isSome_lineSprite? (v : Video) (i : Fin 40) :
    (v.lineSprite? i).isSome = decide (v.Reaches i) := by
  rw [lineSprite?, Sprite.lineSprite?, Option.isSome_map, Sprite.row?]
  by_cases h : v.Reaches i
  · rw [dif_pos (reaches_iff.1 h), decide_eq_true h]
    rfl
  · rw [dif_neg (mt reaches_iff.2 h), decide_eq_false h]
    rfl

theorem lineSprite?_eq_some (h : v.lineSprite? i = some s) :
    v.Reaches i ∧ s.index = i ∧ s.sprite = Sprite.ofTable v.oam i ∧
      (s.row.val : Int) = v.regs.ly.toNat - v.objectTop i := by
  simp only [lineSprite?, Sprite.lineSprite?, Option.map_eq_some_iff] at h
  obtain ⟨row, hrow, rfl⟩ := h
  unfold Sprite.row? at hrow
  split at hrow
  · rename_i hreach
    cases hrow
    refine ⟨reaches_iff.2 hreach, rfl, rfl, ?_⟩
    simp only [Sprite.ofTable] at hreach
    simp only [objectTop, Sprite.ofTable]
    omega
  · cases hrow

theorem mem_drawOrder :
    s ∈ Sprite.drawOrder v.oam v.regs.spritesTall v.regs.ly ↔
      ∃ i ∈ v.chosen, v.lineSprite? i = some s := by
  have hfilter : ((List.finRange 40).filter fun i => (v.lineSprite? i).isSome) =
      (List.finRange 40).filter fun i => v.Reaches i :=
    List.filter_congr fun i _ => v.isSome_lineSprite? i
  rw [Sprite.drawOrder, List.mem_mergeSort, Sprite.onLine, take_filterMap]
  rw [show (fun a => (Sprite.lineSprite? v.oam v.regs.spritesTall v.regs.ly a).isSome) =
    fun i => (v.lineSprite? i).isSome from rfl, hfilter]
  simp only [List.mem_filterMap, chosen]
  rfl

theorem before_iff {a b : LineSprite} :
    a.before b = true ↔ a.sprite.x.toNat < b.sprite.x.toNat ∨
      (a.sprite.x.toNat = b.sprite.x.toNat ∧ a.index.val ≤ b.index.val) := by
  simp only [LineSprite.before, Bool.or_eq_true, Bool.and_eq_true, decide_eq_true_eq,
    UInt8.lt_iff_toNat_lt, ← UInt8.toNat_inj, Fin.le_def]

theorem pairwise_drawOrder (v : Video) :
    (Sprite.drawOrder v.oam v.regs.spritesTall v.regs.ly).Pairwise fun a b => a.before b = true := by
  refine List.pairwise_mergeSort ?_ ?_ _
  · intro a b c
    simp only [before_iff]
    omega
  · intro a b
    rw [Bool.or_eq_true, before_iff, before_iff]
    omega

theorem covers_iff :
    v.Covers i px ↔ (Sprite.ofTable v.oam i).x.toNat ≤ px.val + 8 ∧
      px.val < (Sprite.ofTable v.oam i).x.toNat := by
  simp only [Covers, objectLeft, Sprite.ofTable]
  omega

/-- The row of a sprite's tiles that lies on the line. -/
theorem objectRow_eq (hreach : v.Reaches i) {row : Nat}
    (hrow : (row : Int) = v.regs.ly.toNat - v.objectTop i) :
    v.objectRow i = ((if (Sprite.ofTable v.oam i).flipY then
      Sprite.height v.regs.spritesTall - 1 - row else row : Nat) : Int) := by
  have hlt : row < Sprite.height v.regs.spritesTall := by
    have h := hreach.2
    rw [objectHeight_eq] at h
    omega
  rw [objectRow, objectHeight_eq, ← hrow,
    show v.objectAttribute i 6 = (Sprite.ofTable v.oam i).flipY from rfl]
  split <;> omega

/-- The column of a sprite's tiles that lies on a column of the screen. -/
theorem objectColumn_eq {col : Fin 8}
    (hcol : px.val + 8 - (Sprite.ofTable v.oam i).x.toNat = col.val) (hc : v.Covers i px) :
    v.objectColumn i px = ((if (Sprite.ofTable v.oam i).flipX then col.rev else col).val : Int) := by
  have hcover := covers_iff.1 hc
  have hleft : v.objectLeft i = (Sprite.ofTable v.oam i).x.toNat - 8 := rfl
  rw [objectColumn, show v.objectAttribute i 5 = (Sprite.ofTable v.oam i).flipX from rfl]
  split
  · rw [Fin.val_rev]
    omega
  · omega

/-- The colour that a sprite is painted with is the one that its entry has in video memory. -/
theorem colorAt_eq (hv : v.Coherent) (hs : v.lineSprite? i = some s) (px : Fin 160) :
    v.colorAt s px = if v.Covers i px then v.objectColor i px else Color.clear := by
  obtain ⟨hreach, -, hsprite, hrow⟩ := lineSprite?_eq_some hs
  obtain ⟨index, sprite, row⟩ := s
  simp only at hsprite hrow
  subst hsprite
  unfold colorAt
  simp only
  by_cases hc : v.Covers i px
  · have hcover := covers_iff.1 hc
    rw [if_pos hc, dif_pos hcover]
    generalize hcol : (⟨px.val + 8 - (Sprite.ofTable v.oam i).x.toNat, by omega⟩ : Fin 8) = col
    have hcolumn := objectColumn_eq (congrArg Fin.val hcol) hc
    have hobject := objectRow_eq hreach hrow
    rw [← memoryColor_eq hv, objectColor, objectTile, hobject, hcolumn]
    rfl
  · rw [if_neg hc, dif_neg (mt covers_iff.2 hc)]

/-- Of the chosen entries, those contend whose sprite is painted at the column. -/
theorem contends_iff (hv : v.Coherent) (hi : i ∈ v.chosen) (hs : v.lineSprite? i = some s) :
    v.Contends i px ↔ v.colorAt s px ≠ Color.clear := by
  rw [colorAt_eq hv hs, Contends]
  by_cases hc : v.Covers i px
  · simp only [hi, hc, true_and, if_true]
  · simp only [hc, false_and, and_false, if_false, ne_eq, not_true_eq_false]

theorem exists_lineSprite (hi : i ∈ v.chosen) : ∃ s, v.lineSprite? i = some s := by
  have hreach := (List.mem_filter.1 (List.mem_of_mem_take hi)).2
  rw [← isSome_lineSprite?] at hreach
  exact Option.isSome_iff_exists.1 hreach

/-- No sprite is painted where no entry contends. -/
theorem find?_eq_none_iff (hv : v.Coherent) :
    ((Sprite.drawOrder v.oam v.regs.spritesTall v.regs.ly).find? fun s => v.colorAt s px ≠ Color.clear) =
      none ↔ ∀ i, ¬ v.Contends i px := by
  simp only [List.find?_eq_none, decide_eq_true_eq, mem_drawOrder]
  constructor
  · intro h i hi
    obtain ⟨s, hs⟩ := exists_lineSprite hi.1
    exact h s ⟨i, hi.1, hs⟩ ((contends_iff hv hi.1 hs).1 hi)
  · rintro h s ⟨i, hi, hs⟩ hcolor
    exact h i ((contends_iff hv hi hs).2 hcolor)

/-- The first sprite in the order of priority that is painted is that of the owner. -/
theorem owns_of_find? (hv : v.Coherent)
    (h : ((Sprite.drawOrder v.oam v.regs.spritesTall v.regs.ly).find? fun s =>
      v.colorAt s px ≠ Color.clear) = some s) :
    v.Owns s.index px ∧ s.sprite = Sprite.ofTable v.oam s.index ∧
      v.colorAt s px = v.objectColor s.index px := by
  obtain ⟨hcolor, before, after, horder, hfirst⟩ := List.find?_eq_some_iff_append.1 h
  simp only [decide_eq_true_eq] at hcolor
  have hmem : s ∈ Sprite.drawOrder v.oam v.regs.spritesTall v.regs.ly :=
    List.mem_of_find?_eq_some h
  obtain ⟨i, hi, hs⟩ := mem_drawOrder.1 hmem
  obtain ⟨-, rfl, hsprite, -⟩ := lineSprite?_eq_some hs
  have hcontends := (contends_iff hv hi hs).2 hcolor
  refine ⟨⟨hcontends, ?_⟩, hsprite, ?_⟩
  · intro j hj
    obtain ⟨t, ht⟩ := exists_lineSprite hj.1
    obtain ⟨-, rfl, htsprite, -⟩ := lineSprite?_eq_some ht
    have htcolor := (contends_iff hv hj.1 ht).1 hj
    have htmem := mem_drawOrder.2 ⟨t.index, hj.1, ht⟩
    have hleft : ∀ k, v.objectLeft k = (Sprite.ofTable v.oam k).x.toNat - 8 := fun k => rfl
    -- nothing that is painted stands before the first, so the other sprite is it or comes later
    rw [horder, List.mem_append, List.mem_cons] at htmem
    rcases htmem with hbefore | rfl | hafter
    · have := hfirst t hbefore
      simp only [decide_not, Bool.not_not, decide_eq_true_eq] at this
      exact absurd this htcolor
    · exact .inr ⟨rfl, Nat.le_refl _⟩
    · have hsorted := v.pairwise_drawOrder
      rw [horder, List.pairwise_append, List.pairwise_cons] at hsorted
      have hle := before_iff.1 (hsorted.2.1.1 t hafter)
      rw [hsprite, htsprite] at hle
      rw [hleft, hleft, Fin.le_def]
      omega
  · rw [colorAt_eq hv hs, if_pos hcontends.2.1]

end Painted

/-! ## What is seen -/

/-- The shade of the owner. -/
theorem ownedShade_eq (v : Video) (i : Fin 40) (px : Fin 160) (c : Color) :
    (v.Hides i px →
      v.ownedShade ⟨v.layerColor px, v.layerShade px⟩ (Sprite.ofTable v.oam i) c =
        v.layerShade px) ∧
    (¬ v.Hides i px →
      v.ownedShade ⟨v.layerColor px, v.layerShade px⟩ (Sprite.ofTable v.oam i) c =
        Palette.shade (if v.objectAttribute i 4 then v.regs.obp1 else v.regs.obp0) c) := by
  have hhides : ((Sprite.ofTable v.oam i).behindBackground &&
      decide (v.layerColor px ≠ Color.clear)) = true ↔ v.Hides i px := by
    rw [Bool.and_eq_true, decide_eq_true_eq]
    rfl
  rw [← hhides]
  exact ⟨fun h => if_pos h, fun h => if_neg h⟩

/-- What a column is drawn with: the shade of the first sprite that is painted there, and where there is
none that of background and window. -/
theorem get_lineShades_of_on {v : Video} (hv : v.Coherent)
    (hon : v.regs.lcdc.toNat.testBit 1 = true) (px : Fin 160) :
    v.lineShades.get px =
      match (Sprite.drawOrder v.oam v.regs.spritesTall v.regs.ly).find? fun s =>
        v.colorAt s px ≠ Color.clear with
      | none => v.layerShade px
      | some s =>
        v.ownedShade ⟨v.layerColor px, v.layerShade px⟩ s.sprite (v.colorAt s px) := by
  have hrow : v.lineShades.get px =
      ((v.paintSprites v.backdropRow
        (Sprite.drawOrder v.oam v.regs.spritesTall v.regs.ly)).column px).2 := by
    rw [lineShades, if_pos (show v.regs.spritesEnabled = true from hon)]
    rfl
  rw [hrow, column_paintSprites, get_backdropRow hv]
  cases (Sprite.drawOrder v.oam v.regs.spritesTall v.regs.ly).find? fun s =>
      v.colorAt s px ≠ Color.clear with
  | none => rfl
  | some s => rfl

/-- Where no entry contends, background and window are seen. -/
theorem get_lineShades_of_not_contends {v : Video} (hv : v.Coherent) {px : Fin 160}
    (hnone : ∀ i, ¬ v.Contends i px) : v.lineShades.get px = v.layerShade px := by
  cases hon : v.regs.lcdc.toNat.testBit 1 with
  | false => exact get_lineShades_of_off hv hon px
  | true => rw [get_lineShades_of_on hv hon, (find?_eq_none_iff hv).2 hnone]

/-- **What is seen of a line.**  At every column there is exactly one shade to be seen, and the line
is drawn with it. -/
theorem seen_drawLine {v : Video} (hv : v.Coherent) (hline : v.regs.ly.toNat < 144)
    (hon : v.regs.lcdc.toNat.testBit 1 = true) (px : Fin 160) :
    ∃ s, v.drawLine.frame.pixel ⟨v.regs.ly.toNat, hline⟩ px = Frame.shadeBytes s ∧
      ∀ t, v.Seen px t ↔ t = s := by
  refine ⟨v.lineShades.get px, by rw [pixel_drawLine, if_pos rfl], ?_⟩
  intro t
  rw [get_lineShades_of_on hv hon]
  cases hfind : (Sprite.drawOrder v.oam v.regs.spritesTall v.regs.ly).find? fun s =>
      v.colorAt s px ≠ Color.clear with
  | none =>
    have hnone := (find?_eq_none_iff hv).1 hfind
    constructor
    · rintro (h | ⟨h, -⟩ | ⟨h, -⟩)
      · rfl
      · exact absurd h.1 (hnone _)
      · exact absurd h.1 (hnone _)
    · rintro rfl
      exact .nothing hnone
  | some s =>
    obtain ⟨howns, hsprite, hcolor⟩ := owns_of_find? hv hfind
    obtain ⟨hhidden, hshown⟩ := v.ownedShade_eq s.index px (v.objectColor s.index px)
    simp only [hsprite, hcolor]
    constructor
    · rintro (h | ⟨h, hh⟩ | ⟨h, hh⟩)
      · exact absurd howns.1 (h _)
      · obtain rfl := h.unique howns
        exact (hhidden hh).symm
      · obtain rfl := h.unique howns
        exact (hshown hh).symm
    · rintro rfl
      by_cases hh : v.Hides s.index px
      · rw [hhidden hh]
        exact .hidden howns hh
      · rw [hshown hh]
        exact .object howns hh

/-- A line with two sprites of black tiles.  The later entry of the table begins further to the left,
and the palette of the earlier one is white. -/
def twoSprites : Video :=
  ((((((((powerOn.writeMemory (offset 0x8000) 0xFF).writeMemory (offset 0x8001) 0xFF).writeSprites 0
    16).writeSprites 1 9).writeSprites 3 0x10).writeSprites 4 16).writeSprites 5 8).writeRegister .lcdc
    0x02).writeRegister .obp0 0xE4

theorem coherent_twoSprites : twoSprites.Coherent :=
  (((((((((Poked.refl.memory (offset 0x8000) 0xFF).memory (offset 0x8001) 0xFF).sprites 0 16).sprites 1
    9).sprites 3 0x10).sprites 4 16).sprites 5 8).register .lcdc 0x02).register .obp0 0xE4).coherent
    coherent_powerOn

/-- The later entry is seen where both are. -/
theorem seen_twoSprites : twoSprites.drawLine.frame.pixel 0 3 = [0, 0, 0, 0xFF] := by
  have hline : twoSprites.regs.ly.toNat < 144 := by decide +kernel
  have hon : twoSprites.regs.lcdc.toNat.testBit 1 = true := by decide +kernel
  have howns : twoSprites.Owns 1 3 := by decide +kernel
  have hhides : ¬ twoSprites.Hides 1 3 := by decide +kernel
  have hshade : Palette.shade (if twoSprites.objectAttribute 1 4 then twoSprites.regs.obp1
      else twoSprites.regs.obp0) (twoSprites.objectColor 1 3) = 3 := by decide +kernel
  obtain ⟨s, hpixel, hseen⟩ := seen_drawLine coherent_twoSprites hline hon 3
  have hs := (hseen _).1 (.object howns hhides)
  rw [hshade] at hs
  rw [← hs] at hpixel
  exact hpixel

end Video

end DotMatrix
