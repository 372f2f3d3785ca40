import DotMatrix.Proofs.MemoryMap

/-!
# Transfers to the sprite table

A write to the DMA register copies a page into the sprite table, one byte after the other, and each byte is
read from the bus as the bytes before it left it.  The page may hold the sprite table itself or the DMA
register.  No byte is read that an earlier one has changed, so the page arrives as it was read at once.

* `Bus.recorded` — the bus with a page in the DMA register, and otherwise as it was.
* `Bus.withSprites` — the bus with another sprite table.
* `Bus.copied` — the sprite table when so many bytes of a page have arrived.
* `Bus.Transferred` — what a transfer has to leave, for all pages and for the pages that are special.

Principal results: `Bus.read_withSprites_copied` — while a page is copied, it reads as before;
`Bus.page_transferred` — a transfer leaves the page in the sprite table and changes nothing but the table
and the DMA register.
-/

set_option autoImplicit false

namespace DotMatrix

theorem Memory.ext_get {n : Nat} {m m' : Memory n} (h : ∀ i, m.get i = m'.get i) : m = m' :=
  Vector.ext fun i hi => h ⟨i, hi⟩

namespace Bus

variable (b : Bus) (p : UInt8)

/-- The bus with a page recorded in the DMA register. -/
def recorded : Bus := b.withRegisters { b.video.regs with dma := p }

/-- The bus with another sprite table. -/
def withSprites (oam : SpriteTable) : Bus := { b with video := { b.video with oam := oam } }

/-- The sprite table when `k` bytes of a page have arrived. -/
def copied (k : Nat) : SpriteTable :=
  Vector.ofFn fun i => if i.val < k then b.read (pageAddr p i.val) else b.video.oam.get i

/-! ## Pages -/

theorem toNat_pageAddr (i : Fin 160) : (pageAddr p i.val).toNat = 256 * p.toNat + i.val := by
  have hp := p.toNat_lt
  have hi := i.isLt
  simp only [pageAddr, UInt16.toNat_ofNat']
  omega

variable {b p}

/-- In a page, a byte of the sprite table lies at its own place. -/
theorem eq_of_ofAddr_pageAddr {i : Fin 160} {j : Fin 0xA0}
    (h : Region.ofAddr (pageAddr p i.val) = .oam j) : j = i := by
  have hserves : (pageAddr p i.val).toNat = 0xFE00 + j.val := Region.ofAddr_eq_iff.1 h
  have hi := i.isLt
  have hj := j.isLt
  rw [toNat_pageAddr] at hserves
  apply Fin.ext
  omega

theorem read_of_oam {a : UInt16} {j : Fin 0xA0} (h : Region.ofAddr a = .oam j) :
    b.read a = b.video.oam.get j := by
  rw [read, h]
  show b.video.oam[j.val]?.getD 0xFF = b.video.oam.get j
  rw [Vector.getElem?_eq_getElem j.isLt]
  rfl

/-- Nothing else that is read depends on the sprite table. -/
theorem read_withSprites_of_ne {a : UInt16} (h : ∀ j, Region.ofAddr a ≠ .oam j)
    (oam : SpriteTable) : (b.withSprites oam).read a = b.read a := by
  unfold read
  generalize Region.ofAddr a = r at h
  cases r with
  | oam j => exact absurd rfl (h j)
  | _ => rfl

theorem writeSprites_withSprites (oam : SpriteTable) (i : Nat) (v : UInt8) :
    (b.withSprites oam).writeSprites i v = b.withSprites (oam.setIfInBounds i v) := rfl

theorem withSprites_withSprites (oam oam' : SpriteTable) :
    (b.withSprites oam).withSprites oam' = b.withSprites oam' := rfl

theorem recorded_withSprites (oam : SpriteTable) :
    ((b.recorded p).withSprites oam).recorded p = (b.recorded p).withSprites oam := rfl

theorem get_page (i : Fin 160) : (b.page p).get i = b.read (pageAddr p i.val) := by
  show (Vector.ofFn fun i : Fin 160 => b.read (pageAddr p i.val))[i.val] = _
  rw [Vector.getElem_ofFn]

theorem get_copied (k : Nat) (i : Fin 160) :
    (b.copied p k).get i = if i.val < k then b.read (pageAddr p i.val) else b.video.oam.get i := by
  show (Vector.ofFn fun i : Fin 160 =>
    if i.val < k then b.read (pageAddr p i.val) else b.video.oam.get i)[i.val] = _
  rw [Vector.getElem_ofFn]

theorem copied_zero : b.copied p 0 = b.video.oam := by
  apply Memory.ext_get
  intro i
  rw [get_copied, if_neg (Nat.not_lt_zero _)]

theorem copied_all : b.copied p 160 = b.page p := by
  apply Memory.ext_get
  intro i
  rw [get_copied, if_pos i.isLt, get_page]

theorem copied_succ (k : Nat) :
    b.copied p (k + 1) = (b.copied p k).setIfInBounds k (b.read (pageAddr p k)) := by
  apply Memory.ext_get
  intro i
  have hset : ((b.copied p k).setIfInBounds k (b.read (pageAddr p k))).get i =
      if k = i.val then b.read (pageAddr p k) else (b.copied p k).get i :=
    Vector.getElem_setIfInBounds i.isLt
  rw [hset, get_copied, get_copied]
  by_cases hlast : k = i.val
  · rw [if_pos hlast, if_pos (by omega), hlast]
  · rw [if_neg hlast]
    simp only [Nat.lt_succ_iff_lt_or_eq, Ne.symm hlast, or_false]

/-- **While a page is copied, it reads as before.**  If a byte of it lies in the sprite table, it lies where
it is copied to. -/
theorem read_withSprites_copied (k : Nat) (i : Fin 160) :
    (b.withSprites (b.copied p k)).read (pageAddr p i.val) = b.read (pageAddr p i.val) := by
  by_cases h : ∃ j, Region.ofAddr (pageAddr p i.val) = .oam j
  · obtain ⟨j, hj⟩ := h
    obtain rfl : j = i := eq_of_ofAddr_pageAddr hj
    rw [read_of_oam hj]
    show (b.copied p k).get j = _
    rw [get_copied, read_of_oam hj, ite_self]
  · exact read_withSprites_of_ne (not_exists.1 h) _

/-! ## Transfers -/

/-- What the first `k` rounds of a transfer leave. -/
theorem foldl_writeSprites (b : Bus) (p : UInt8) (k : Nat) (hk : k ≤ 160) :
    Fin.foldl k (fun c (i : Fin k) => c.writeSprites i.val (c.read (pageAddr p i.val))) b =
      b.withSprites (b.copied p k) := by
  induction k with
  | zero =>
    rw [Fin.foldl_zero, copied_zero]
    rfl
  | succ k ih =>
    have hread : (b.withSprites (b.copied p k)).read (pageAddr p k) = b.read (pageAddr p k) :=
      read_withSprites_copied k ⟨k, hk⟩
    rw [Fin.foldl_succ_last]
    simp only [Fin.val_castSucc, Fin.val_last]
    rw [ih (by omega), hread, copied_succ, writeSprites_withSprites]

/-- **The page arrives as it was read at once.** -/
theorem write_dma (b : Bus) (p : UInt8) :
    b.write 0xFF46 p = (b.recorded p).withSprites ((b.recorded p).page p) := by
  have hwrite : b.write 0xFF46 p = b.transferSprites p := rfl
  rw [hwrite, ← copied_all]
  exact foldl_writeSprites (b.recorded p) p 160 (Nat.le_refl 160)

theorem page_withSprites (b : Bus) (p : UInt8) : (b.withSprites (b.page p)).page p = b.page p := by
  apply Memory.ext_get
  intro i
  rw [get_page, get_page, ← copied_all]
  exact read_withSprites_copied 160 i

/-! ## Special pages -/

/-- What a transfer of page `p` on a bus `b` has to leave in a bus `b'`. -/
structure Transferred (b : Bus) (p : UInt8) (b' : Bus) : Prop where
  /-- Every byte is what was read with the page in the DMA register and nothing copied. -/
  bytes : ∀ i : Fin 160, b'.video.oam.get i =
    (b.recorded p).read (UInt16.ofNat (256 * p.toNat + i.val))
  /-- Nothing but the sprite table and the DMA register changes. -/
  rest : b' = (b.recorded p).withSprites b'.video.oam
  again : b'.write 0xFF46 p = b'
  /-- The sprite table is copied onto itself. -/
  ownPage : p = 0xFE → b'.video.oam = b.video.oam
  /-- The registers are copied as a program reads them, and the DMA register with the page in it. -/
  registers : p = 0xFF → ∀ (q : VideoRegister) (i : Fin 160), q.addr.toNat = 0xFF00 + i.val →
    b'.video.oam.get i = if q = .dma then 0xFF else b.video.regs.read q
  /-- The boot ROM is copied in place of the cartridge while it is mapped. -/
  firstPage : p = 0x00 → ∀ (i : Fin 160) (j : Fin 0x100) (k : Fin 0x8000), j.val = i.val →
    k.val = i.val → b'.video.oam.get i = if b.bootMapped then b.boot.get j else b.rom.get k
  /-- The echo of a page of work RAM is copied like the page. -/
  echo : 0xE0 ≤ p → p ≤ 0xFD → b'.video.oam = (b.write 0xFF46 (p - 0x20)).video.oam

theorem oam_write_dma (b : Bus) (p : UInt8) (i : Fin 160) :
    (b.write 0xFF46 p).video.oam.get i = (b.recorded p).read (pageAddr p i.val) := by
  rw [write_dma]
  exact get_page i

theorem read_recorded_of_register {q : VideoRegister} {a : UInt16} (h : a = q.addr) :
    (b.recorded p).read a = if q = .dma then p else b.video.regs.read q := by
  rw [h, read_addr]
  cases q <;> rfl

/-- A page of work RAM reads as its echo does, whatever the DMA register holds. -/
theorem read_recorded_echo (hlow : 0xE0 ≤ p) (hhigh : p ≤ 0xFD) (i : Fin 160) :
    (b.recorded p).read (pageAddr p i.val) =
      (b.recorded (p - 0x20)).read (pageAddr (p - 0x20) i.val) := by
  have hi := i.isLt
  have hp : (p - 0x20).toNat = p.toNat - 0x20 := UInt8.toNat_sub_of_le _ _ (by
    rw [UInt8.le_iff_toNat_le] at hlow ⊢
    exact Nat.le_trans (by decide) hlow)
  simp only [UInt8.le_iff_toNat_le, UInt8.reduceToNat] at hlow hhigh
  have hechoed := toNat_pageAddr p i
  have hplain := toNat_pageAddr (p - 0x20) i
  obtain ⟨j, hj⟩ : ∃ j : Fin 0x2000, j.val = 256 * p.toNat + i.val - 0xE000 :=
    ⟨⟨256 * p.toNat + i.val - 0xE000, by omega⟩, rfl⟩
  have hregion : Region.ofAddr (pageAddr p i.val) = .wram j := by
    rw [Region.ofAddr_eq_iff, Region.Serves]
    omega
  have hregion' : Region.ofAddr (pageAddr (p - 0x20) i.val) = .wram j := by
    rw [Region.ofAddr_eq_iff, Region.Serves]
    omega
  rw [read, read, hregion, hregion']
  rfl

/-- **A transfer is the copy of a page at once.**  Byte by byte, the sprite table becomes what the page read
as with its number in the DMA register; nothing else changes, and the same transfer again changes nothing. -/
theorem page_transferred (b : Bus) (p : UInt8) : b.Transferred p (b.write 0xFF46 p) where
  bytes := by
    intro i
    rw [oam_write_dma, pageAddr, Nat.mul_comm]
  rest := by
    rw [write_dma]
    rfl
  again := by
    rw [write_dma, write_dma, recorded_withSprites, page_withSprites, withSprites_withSprites]
  ownPage := by
    rintro rfl
    apply Memory.ext_get
    intro i
    have hregion : Region.ofAddr (pageAddr 0xFE i.val) = .oam i :=
      Region.ofAddr_eq_iff.2 (toNat_pageAddr 0xFE i)
    rw [oam_write_dma, read_of_oam hregion]
    rfl
  registers := by
    rintro rfl q i hq
    have haddr : pageAddr 0xFF i.val = q.addr := by
      rw [← UInt16.toNat_inj, toNat_pageAddr, hq]
      rfl
    rw [oam_write_dma, read_recorded_of_register haddr]
  firstPage := by
    rintro rfl i j k hj hk
    have haddr : pageAddr 0x00 i.val = UInt16.ofNat k.val := by
      rw [pageAddr, UInt8.toNat_zero, Nat.zero_mul, Nat.zero_add, hk]
    have hj' : j = ⟨k.val, hk.symm ▸ hj ▸ j.isLt⟩ := Fin.ext (hj.trans hk.symm)
    rw [oam_write_dma, haddr, hj']
    exact read_bootMapped (b.recorded 0x00) k _
  echo := by
    intro hlow hhigh
    apply Memory.ext_get
    intro i
    rw [oam_write_dma, oam_write_dma, read_recorded_echo hlow hhigh]

end Bus

end DotMatrix
