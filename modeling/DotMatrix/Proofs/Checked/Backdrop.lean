import DotMatrix.Proofs.Checked.Tile

/-!
# Background and window, with all checks

A line is built up in two rows of 160 elements, one with colours and one with shades.  The background
fills them from end to end, the window from its left edge on.

* `LineBuffers` — the two rows; `LineBuffers.ofPixels` — the rows that show given pixels.
* `Checked.background`, `Checked.window` — the two layers, column by column.

Principal result: `Checked.backdrop_eq` — whatever the registers are, every column exists, and the rows
show the backdrop of the line.
-/

set_option autoImplicit false

namespace DotMatrix

/-- A line while it is built up. -/
structure LineBuffers where
  colors : Vector Color 160
  shades : ShadeRow

namespace LineBuffers

/-- A line on which nothing was drawn. -/
def blank : LineBuffers := ⟨Vector.replicate 160 Color.clear, Vector.replicate 160 Shade.white⟩

/-- A line that shows a pixel at each column. -/
def ofPixels (p : Fin 160 → Pixel) : LineBuffers :=
  ⟨Vector.ofFn fun px => (p px).color, Vector.ofFn fun px => (p px).shade⟩

theorem ofPixels_clear : ofPixels (fun _ => ⟨Color.clear, Shade.white⟩) = blank := by
  rw [ofPixels, blank, LineBuffers.mk.injEq]
  constructor
  all_goals
    apply Vector.ext
    simp

end LineBuffers

namespace Checked

/-- Puts a colour of background or window at a column, and what the palette makes of it. -/
def putColor (v : Video) (l : LineBuffers) (px : Nat) (c : Color) : Checked LineBuffers := do
  let colors ← store l.colors px c
  let shades ← store l.shades px (← paletteShade v.regs.bgp c)
  return ⟨colors, shades⟩

/-- Draws the background. -/
def background (v : Video) (l : LineBuffers) : Checked LineBuffers := do
  if ← layerBit v.regs 0 then
    let base := mapBase (← layerBit v.regs 3)
    let y := v.regs.scy + v.regs.ly
    loop 0 160 l fun l px => do
      putColor v l px (← planeColor v base (v.regs.scx + UInt8.ofNat px) y)
  else return l

/-- Draws the window.  Returns the window's next line, too. -/
def window (v : Video) (l : LineBuffers) : Checked (LineBuffers × UInt8) := do
  if !(← layerBit v.regs 5) || decide (v.regs.ly < v.regs.wy) || decide (166 < v.regs.wx) then
    return (l, v.windowLine)
  else
    let base := mapBase (← layerBit v.regs 6)
    let left ← SignedWidth.distance.sub v.regs.wx.toNat 7
    let l ← loop (toIndex (max left 0)) 160 l fun l px => do
      let x ← SignedWidth.distance.sub px left
      putColor v l px (← planeColor v base (UInt8.ofNat (toIndex x)) v.windowLine)
    return (l, v.windowLine + 1)

/-! ## No check fails -/

theorem putColor_eq (v : Video) (p : Fin 160 → Pixel) (px : Fin 160) (c : Color) :
    putColor v (.ofPixels p) px.val c =
      .ok (.ofPixels fun i => if i = px then v.pixelOf c else p i) := by
  have hset : ∀ {α : Type} (f g : Fin 160 → α) (x : α), (∀ i, g i = if i = px then x else f i) →
      (Vector.ofFn f).set px.val x = Vector.ofFn g := by
    intro α f g x hg
    apply Vector.ext
    intro i hi
    rw [Vector.getElem_set, Vector.getElem_ofFn, Vector.getElem_ofFn, hg]
    simp only [Fin.ext_iff, eq_comm]
  rw [putColor, store_ok _ px.isLt, ok_bind, paletteShade_eq, ok_bind, store_ok _ px.isLt, ok_bind]
  rw [pure_eq_ok, Except.ok.injEq, LineBuffers.ofPixels, LineBuffers.ofPixels, LineBuffers.mk.injEq]
  constructor
  all_goals
    refine hset _ _ _ fun i => ?_
    split <;> rfl

/-- A loop that puts a colour at each column from `first` on. -/
theorem loop_putColor (v : Video) (p : Fin 160 → Pixel) (c : Fin 160 → Color) {first : Nat}
    (hfirst : first ≤ 160) {body : LineBuffers → Nat → Checked LineBuffers}
    (hbody : ∀ (l : LineBuffers) (px : Fin 160), first ≤ px.val →
      body l px.val = putColor v l px.val (c px)) :
    loop first 160 (.ofPixels p) body =
      .ok (.ofPixels fun i => if first ≤ i.val then v.pixelOf (c i) else p i) := by
  -- after the columns below `k`, those from `first` on have been put
  obtain ⟨l, hloop, hl⟩ := loop_induction
    (fun k l => l = .ofPixels fun i => if first ≤ i.val ∧ i.val < k then v.pixelOf (c i) else p i)
    hfirst (f := body) (s := .ofPixels p)
    (by
      rintro l k hge hlt rfl
      refine ⟨_, (hbody _ ⟨k, hlt⟩ hge).trans (putColor_eq v _ ⟨k, hlt⟩ _), ?_⟩
      congr 1
      funext i
      by_cases hi : i = ⟨k, hlt⟩
      · subst hi
        rw [if_pos rfl, if_pos ⟨hge, Nat.lt_succ_self k⟩]
      · have hne : i.val ≠ k := fun h => hi (Fin.ext h)
        rw [if_neg hi]
        congr 1
        simp only [eq_iff_iff]
        omega)
    (by
      congr 1
      funext i
      rw [if_neg (by omega)])
  rw [hloop, hl]
  congr 2
  funext i
  simp only [i.isLt, and_true]

theorem background_eq (v : Video) (p : Fin 160 → Pixel) :
    background v (.ofPixels p) =
      .ok (.ofPixels fun i =>
        if v.regs.backgroundEnabled then
          v.pixelOf (v.planeColor v.regs.backgroundMapHigh (v.regs.scx + UInt8.ofNat i.val)
            (v.regs.scy + v.regs.ly))
        else p i) := by
  rw [background, layerBit_eq _ (by decide), ok_bind]
  cases hon : v.regs.backgroundEnabled with
  | false =>
    rw [Registers.backgroundEnabled] at hon
    rw [hon]
    rfl
  | true =>
    rw [Registers.backgroundEnabled] at hon
    rw [hon, if_pos rfl, layerBit_eq _ (by decide), ok_bind,
      loop_putColor v p _ (Nat.zero_le 160) fun l px _ => by rw [planeColor_eq, ok_bind]]
    rfl

theorem window_eq (v : Video) (p : Fin 160 → Pixel) :
    window v (.ofPixels p) =
      .ok (.ofPixels fun i =>
        if v.regs.windowShows && decide (v.regs.wx.toNat ≤ i.val + 7) then
          v.pixelOf (v.planeColor v.regs.windowMapHigh
            (UInt8.ofNat (i.val + 7 - v.regs.wx.toNat)) v.windowLine)
        else p i, if v.regs.windowShows then v.windowLine + 1 else v.windowLine) := by
  have hshows : v.regs.windowShows =
      !(!v.regs.lcdc.toNat.testBit 5 || decide (v.regs.ly < v.regs.wy) ||
        decide (166 < v.regs.wx)) := by
    simp only [Registers.windowShows, Registers.windowEnabled, Bool.not_or, Bool.not_not,
      ← decide_not, UInt8.not_lt]
  have hbyte := v.regs.wx.toNat_lt
  rw [window, layerBit_eq _ (by decide), ok_bind]
  cases hoff : !v.regs.lcdc.toNat.testBit 5 || decide (v.regs.ly < v.regs.wy) ||
      decide (166 < v.regs.wx) with
  | true =>
    rw [hoff] at hshows
    rw [hshows, if_pos rfl]
    rfl
  | false =>
    rw [hoff] at hshows
    have hwx : v.regs.wx.toNat ≤ 166 := by
      simp only [Bool.or_eq_false_iff, decide_eq_false_iff_not, UInt8.not_lt] at hoff
      exact UInt8.le_iff_toNat_le.1 hoff.2
    have hfirst : toIndex (max ((v.regs.wx.toNat : Int) - 7) 0) = v.regs.wx.toNat - 7 := by
      rw [toIndex_of_nonneg (by omega) (by omega)]
      omega
    rw [hshows, if_neg Bool.false_ne_true, layerBit_eq _ (by decide), ok_bind,
      SignedWidth.sub_ok (by simp only [SignedWidth.bound]; omega), ok_bind, hfirst,
      loop_putColor v p (fun i => v.planeColor v.regs.windowMapHigh
        (UInt8.ofNat (i.val + 7 - v.regs.wx.toNat)) v.windowLine) (by omega) ?_, ok_bind]
    · simp only [Bool.not_false, Bool.true_and, decide_eq_true_eq, Nat.sub_le_iff_le_add]
      rfl
    · intro l px hpx
      have hx : toIndex ((px.val : Int) - ((v.regs.wx.toNat : Int) - 7)) =
          px.val + 7 - v.regs.wx.toNat := by
        rw [toIndex_of_nonneg (by omega) (by omega)]
        omega
      rw [SignedWidth.sub_ok (by simp only [SignedWidth.bound]; omega), ok_bind, hx]
      exact congrArg (· >>= putColor v l px.val) (planeColor_eq v v.regs.windowMapHigh _ _)

/-- **The two rows show the backdrop of the line**, and the window's line goes on if it was drawn. -/
theorem backdrop_eq (v : Video) :
    (background v .blank >>= window v) =
      .ok (.ofPixels v.backdrop, if v.regs.windowShows then v.windowLine + 1 else v.windowLine) := by
  rw [← LineBuffers.ofPixels_clear, background_eq, ok_bind, window_eq]
  rfl

end Checked

end DotMatrix
