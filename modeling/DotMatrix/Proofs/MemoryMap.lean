import DotMatrix.Proofs.Footprint
import Mathlib.Tactic.SplitIfs

/-!
# Reading what was written

The memory map as a table, and what a write to any address does to what is read from all addresses.

* `Region.Serves` — the table: which addresses each piece of hardware answers; `Region.Spans` —
  where these lie.
* `Region.Stores`, `Region.Inert` — the pieces of hardware that hold what was written to them, and
  those that ignore it.
* `Bus.Echo`, `Bus.SameByte` — the pairs of addresses that name the same byte of work RAM.
* `Bus.Present` — the addresses that have a byte even where external RAM is short.
* `Registers.updatedStat` — the status register after a comparison of lines.
* `Bus.WriteLaw` — what a write does to what is read, address by address.

Principal results: `Region.ofAddr_eq_iff` — addresses are decoded as the table says;
`Bus.readRegion_writeRegion` — memories hold what was written; `Bus.read_after_write` — the law for
all addresses.
-/

set_option autoImplicit false

namespace DotMatrix

/-! ## The table -/

namespace VideoRegister

/-- The address of a register. -/
def addr (p : VideoRegister) : UInt16 := UInt16.ofNat (0xFF40 + all.idxOf p)

theorem nodup_all : all.Nodup := by decide

theorem mem_all (p : VideoRegister) : p ∈ all := by cases p <;> decide

theorem idxOf_lt (p : VideoRegister) : all.idxOf p < all.length :=
  List.idxOf_lt_length_iff.2 p.mem_all

theorem toNat_addr (p : VideoRegister) : p.addr.toNat = 0xFF40 + all.idxOf p := by
  have hlt : all.idxOf p < 12 := p.idxOf_lt
  simp only [addr, UInt16.toNat_ofNat']
  omega

theorem ofAddr?_eq_some_iff {a : UInt16} {p : VideoRegister} :
    ofAddr? a = some p ↔ a = p.addr := by
  rw [← UInt16.toNat_inj, toNat_addr]
  unfold ofAddr?
  constructor
  · intro h
    split at h
    · cases h
    · rename_i hge
      obtain ⟨hk, hget⟩ := List.getElem?_eq_some_iff.1 h
      have hidx := List.Nodup.idxOf_getElem nodup_all _ hk
      rw [hget] at hidx
      omega
  · intro h
    rw [if_neg (by omega), h, Nat.add_sub_cancel_left]
    exact List.getElem?_eq_some_iff.2 ⟨p.idxOf_lt, List.getElem_idxOf p.idxOf_lt⟩

theorem addr_inj {p q : VideoRegister} : p.addr = q.addr ↔ p = q := by
  constructor
  · intro h
    exact Option.some.inj ((ofAddr?_eq_some_iff.2 rfl).symm.trans (ofAddr?_eq_some_iff.2 h))
  · exact congrArg addr

theorem ofAddr?_eq_none {a : UInt16} (h : ofAddr? a = none) :
    a.toNat < 0xFF40 ∨ 0xFF4C ≤ a.toNat := by
  unfold ofAddr? at h
  split at h
  · exact .inl ‹_›
  · have hle : 12 ≤ a.toNat - 0xFF40 := List.getElem?_eq_none_iff.1 h
    omega

end VideoRegister

namespace Region

/-- Which addresses a region answers. -/
def Serves (n : Nat) : Region → Prop
  | rom i => n = i.val
  | vram i => n = 0x8000 + i.val
  | eram i => n = 0xA000 + i.val
  | wram i => n = 0xC000 + i.val ∨ (n = 0xE000 + i.val ∧ n < 0xFE00)
  | oam i => n = 0xFE00 + i.val
  | control p => n = p.addr.toNat
  | bootLatch => n = 0xFF50
  | zram i => n = 0xFF80 + i.val
  | unmapped => (0xFEA0 ≤ n ∧ n < 0xFF40) ∨ (0xFF4C ≤ n ∧ n < 0xFF80 ∧ n ≠ 0xFF50)

/-- Where a region lies. -/
def Spans (n : Nat) : Region → Prop
  | rom _ => n < 0x8000
  | vram _ => 0x8000 ≤ n ∧ n < 0xA000
  | eram _ => 0xA000 ≤ n ∧ n < 0xC000
  | wram _ => 0xC000 ≤ n ∧ n < 0xFE00
  | oam _ => 0xFE00 ≤ n ∧ n < 0xFEA0
  | control _ => 0xFF40 ≤ n ∧ n < 0xFF4C
  | bootLatch => n = 0xFF50
  | zram _ => 0xFF80 ≤ n
  | unmapped => 0xFEA0 ≤ n ∧ n < 0xFF80 ∧ n ≠ 0xFF50 ∧ (n < 0xFF40 ∨ 0xFF4C ≤ n)

variable {a : UInt16} {r : Region}

theorem Serves.spans {n : Nat} (h : r.Serves n) : r.Spans n := by
  cases r with
  | control p =>
    have hlt : VideoRegister.all.idxOf p < 12 := p.idxOf_lt
    simp only [Serves, Spans, p.toNat_addr] at h ⊢
    omega
  | bootLatch => exact h
  | unmapped => simp only [Serves, Spans] at h ⊢; omega
  | _ i => have hi := i.isLt; simp only [Serves, Spans] at h ⊢; omega

theorem ofAddr_of_control (hlow : 0xFEA0 ≤ a.toNat) (hhigh : a.toNat < 0xFF80) :
    ofAddr a = ofControlAddr a := by
  unfold ofAddr
  rw [dif_neg (by omega), dif_neg (by omega), dif_neg (by omega), dif_neg (by omega),
    dif_neg (by omega), dif_neg (by omega), if_pos hhigh]

theorem ofControlAddr_of_ne (h : a.toNat ≠ 0xFF50) :
    ofControlAddr a =
      match VideoRegister.ofAddr? a with
      | some p => control p
      | none => unmapped :=
  if_neg fun e => h (congrArg UInt16.toNat e)

/-- What an address names. -/
theorem serves_ofAddr (a : UInt16) : (ofAddr a).Serves a.toNat := by
  have hlt := a.toNat_lt
  by_cases hcontrol : 0xFEA0 ≤ a.toNat ∧ a.toNat < 0xFF80
  · rw [ofAddr_of_control hcontrol.1 hcontrol.2]
    by_cases hlatch : a.toNat = 0xFF50
    · rw [show a = 0xFF50 from UInt16.toNat_inj.1 hlatch]
      rfl
    · rw [ofControlAddr_of_ne hlatch]
      cases hp : VideoRegister.ofAddr? a with
      | some p => exact congrArg UInt16.toNat (VideoRegister.ofAddr?_eq_some_iff.1 hp)
      | none =>
        have hgap := VideoRegister.ofAddr?_eq_none hp
        simp only [Serves]
        omega
  · unfold ofAddr
    split_ifs
    all_goals simp only [Serves]
    all_goals omega

/-- Only what serves an address is named by it. -/
theorem ofAddr_of_serves (h : r.Serves a.toNat) : ofAddr a = r := by
  cases r with
  | rom i =>
    have hi := i.isLt
    simp only [Serves] at h
    unfold ofAddr
    rw [dif_pos (by omega)]
    simp only [h]
  | vram i =>
    simp only [Serves] at h
    unfold ofAddr
    rw [dif_neg (by omega), dif_pos (by omega)]
    simp only [h, Nat.add_sub_cancel_left]
  | eram i =>
    simp only [Serves] at h
    unfold ofAddr
    rw [dif_neg (by omega), dif_neg (by omega), dif_pos (by omega)]
    simp only [h, Nat.add_sub_cancel_left]
  | wram i =>
    simp only [Serves] at h
    unfold ofAddr
    rw [dif_neg (by omega), dif_neg (by omega), dif_neg (by omega)]
    rcases h with h | ⟨h, hlt⟩
    · rw [dif_pos (by omega)]
      simp only [h, Nat.add_sub_cancel_left]
    · rw [dif_neg (by omega), dif_pos hlt]
      simp only [h, Nat.add_sub_cancel_left]
  | oam i =>
    simp only [Serves] at h
    unfold ofAddr
    rw [dif_neg (by omega), dif_neg (by omega), dif_neg (by omega), dif_neg (by omega),
      dif_neg (by omega), dif_pos (by omega)]
    simp only [h, Nat.add_sub_cancel_left]
  | control p =>
    have hlt : VideoRegister.all.idxOf p < 12 := p.idxOf_lt
    have hp : a = p.addr := UInt16.toNat_inj.1 h
    simp only [Serves, p.toNat_addr] at h
    rw [ofAddr_of_control (by omega) (by omega), ofControlAddr_of_ne (by omega),
      VideoRegister.ofAddr?_eq_some_iff.2 hp]
  | bootLatch =>
    rw [show a = 0xFF50 from UInt16.toNat_inj.1 h]
    rfl
  | zram i =>
    simp only [Serves] at h
    unfold ofAddr
    rw [dif_neg (by omega), dif_neg (by omega), dif_neg (by omega), dif_neg (by omega),
      dif_neg (by omega), dif_neg (by omega), if_neg (by omega)]
    simp only [h, Nat.add_sub_cancel_left]
  | unmapped =>
    simp only [Serves] at h
    rw [ofAddr_of_control (by omega) (by omega), ofControlAddr_of_ne (by omega)]
    cases hp : VideoRegister.ofAddr? a with
    | none => rfl
    | some p =>
      have hlt : VideoRegister.all.idxOf p < 12 := p.idxOf_lt
      have haddr := congrArg UInt16.toNat (VideoRegister.ofAddr?_eq_some_iff.1 hp)
      rw [p.toNat_addr] at haddr
      omega

/-- **Addresses are decoded as the table says.** -/
theorem ofAddr_eq_iff : ofAddr a = r ↔ r.Serves a.toNat :=
  ⟨fun h => h ▸ serves_ofAddr a, ofAddr_of_serves⟩

/-- Regions that hold what was written to them. -/
def Stores : Region → Prop
  | vram _ => True
  | eram _ => True
  | wram _ => True
  | oam _ => True
  | zram _ => True
  | _ => False

/-- Regions that ignore what is written to them. -/
def Inert : Region → Prop
  | rom _ => True
  | control .ly => True
  | unmapped => True
  | _ => False

end Region

/-! ## Memories -/

theorem Memory.get_set {n : Nat} (m : Memory n) (i j : Fin n) (v : UInt8) :
    (m.set i.val v i.isLt).get j = if j = i then v else m.get j := by
  show (m.set i.val v i.isLt)[j.val] = if j = i then v else m[j.val]
  rw [Vector.getElem_set]
  simp only [Fin.ext_iff, eq_comm]

/-- A write to video memory changes a byte of it, and decoded tiles. -/
theorem Video.writeMemory_eq (v : Video) (i : Fin 0x2000) (b : UInt8) :
    ∃ tiles, v.writeMemory i b =
      { v with vram := v.vram.set i.val b i.isLt, tiles := tiles } := by
  unfold writeMemory
  split
  · exact ⟨_, rfl⟩
  · exact ⟨v.tiles, rfl⟩

namespace Bus

variable {b : Bus}

/-- **Memories hold what was written**, and nothing else changes in what is read.  Only external RAM may
be too short to hold it. -/
theorem readRegion_writeRegion_of_lt {r : Region} (hfits : ∀ i, r = .eram i → i.val < b.eram.size)
    (hr : r.Stores) (v : UInt8) (s : Region) :
    (b.writeRegion r v).readRegion s = if s = r then v else b.readRegion s := by
  cases r with
  | vram i =>
    obtain ⟨tiles, hw⟩ := b.video.writeMemory_eq i v
    simp only [writeRegion, hw]
    cases s with
    | vram j => simpa [readRegion, Video.readMemory] using Memory.get_set b.video.vram i j v
    | _ => rw [if_neg nofun]; rfl
  | eram i =>
    cases s with
    | eram j =>
      have hi : i.val < b.eram.size := hfits i rfl
      simp only [writeRegion, readRegion, Region.eram.injEq, Array.getElem?_setIfInBounds,
        Fin.ext_iff]
      by_cases hij : i.val = j.val
      · rw [if_pos hij, if_pos hi, if_pos hij.symm, Option.getD_some]
      · rw [if_neg hij, if_neg (Ne.symm hij)]
    | _ => rw [if_neg nofun]; rfl
  | wram i =>
    cases s with
    | wram j => simpa [readRegion, writeRegion] using Memory.get_set b.wram i j v
    | _ => rw [if_neg nofun]; rfl
  | oam i =>
    cases s with
    | oam j =>
      simp only [writeRegion, readRegion, writeSprites, Video.readSprites, Video.writeSprites,
        Region.oam.injEq, Fin.ext_iff, Vector.getElem?_setIfInBounds]
      by_cases hij : i.val = j.val
      · rw [if_pos hij, if_pos (hij ▸ j.isLt), if_pos hij.symm, Option.getD_some]
      · rw [if_neg hij, if_neg (Ne.symm hij)]
    | _ => rw [if_neg nofun]; rfl
  | zram i =>
    cases s with
    | zram j => simpa [readRegion, writeRegion] using Memory.get_set b.zram i j v
    | _ => rw [if_neg nofun]; rfl
  | _ => exact hr.elim

theorem readRegion_writeRegion (hsize : b.eram.size = eramSize) {r : Region} (hr : r.Stores)
    (v : UInt8) (s : Region) :
    (b.writeRegion r v).readRegion s = if s = r then v else b.readRegion s :=
  readRegion_writeRegion_of_lt (fun i _ => hsize ▸ i.isLt) hr v s

theorem writeRegion_of_inert {r : Region} (hr : r.Inert) (v : UInt8) : b.writeRegion r v = b := by
  cases r with
  | rom i => rfl
  | control p =>
    cases p with
    | ly => rfl
    | _ => exact hr.elim
  | unmapped => rfl
  | _ => exact hr.elim

end Bus

/-! ## Registers of the video unit -/

namespace Registers

variable (r : Registers) (v : UInt8) (q : VideoRegister)

/-- Registers other than status, line and comparison line are plain storage. -/
theorem read_write {p : VideoRegister} (hstat : p ≠ .stat) (hly : p ≠ .ly) (hlyc : p ≠ .lyc) :
    (r.write p v).read q = if q = p then v else r.read q := by
  cases p with
  | stat => exact absurd rfl hstat
  | ly => exact absurd rfl hly
  | lyc => exact absurd rfl hlyc
  | _ => cases q <;> rfl

theorem read_write_stat :
    (r.write .stat v).read q =
      if q = .stat then (v &&& 0x78) ||| (r.stat &&& 0x07) else r.read q := by
  cases q <;> rfl

/-- The status register with the coincidence bit of a line and a comparison line. -/
def updatedStat (stat line comparison : UInt8) : UInt8 :=
  (stat &&& ~~~0x04) ||| (if line = comparison then 0x04 else 0x00)

theorem stat_compareLine : r.compareLine.stat = updatedStat r.stat r.ly r.lyc := by
  have hset : ∀ x : BitVec 8,
      UInt8.ofBitVec x ||| 0x04 = (UInt8.ofBitVec x &&& ~~~0x04) ||| 0x04 := by
    decide
  have hclear : ∀ x : BitVec 8,
      UInt8.ofBitVec x &&& 0xFB = (UInt8.ofBitVec x &&& ~~~0x04) ||| 0x00 := by
    decide
  unfold compareLine updatedStat
  by_cases h : r.ly = r.lyc
  · simp only [if_pos h]
    exact hset r.stat.toBitVec
  · simp only [if_neg h]
    exact hclear r.stat.toBitVec

theorem read_write_lyc :
    (r.write .lyc v).read q =
      if q = .lyc then v else if q = .stat then updatedStat r.stat r.ly v else r.read q := by
  cases q with
  | stat => exact stat_compareLine { r with lyc := v }
  | _ => rfl

end Registers

namespace Bus

variable {b : Bus}

/-- The bus with other contents of the registers of the video unit. -/
def withRegisters (b : Bus) (regs : Registers) : Bus :=
  { b with video := { b.video with regs := regs } }

theorem readRegion_withRegisters (regs : Registers) (s : Region) :
    (b.withRegisters regs).readRegion s =
      match s with
      | .control p => regs.read p
      | s => b.readRegion s := by
  cases s <;> rfl

theorem writeRegion_control {p : VideoRegister} (hp : p ≠ .dma) (v : UInt8) :
    b.writeRegion (.control p) v = b.withRegisters (b.video.regs.write p v) := by
  cases p with
  | dma => exact absurd rfl hp
  | _ => rfl

/-- A transfer to the sprite table changes nothing but the table and the register that records its
page. -/
theorem transferSprites_eq (b : Bus) (v : UInt8) :
    ∃ oam, b.transferSprites v =
      { b with video := { b.video with regs := b.video.regs.write .dma v, oam := oam } } := by
  unfold transferSprites
  rw [Fin.foldl_eq_finRange_foldl]
  -- each round replaces a byte of the table that the rounds before it left
  have hloop : ∀ (l : List (Fin 160)) (start : Bus),
      ∃ oam, l.foldl (fun c i => c.writeSprites i.val (c.read (pageAddr v i.val))) start =
        { start with video := { start.video with oam := oam } } := by
    intro l
    induction l with
    | nil => exact fun start => ⟨start.video.oam, rfl⟩
    | cons i l ih =>
      intro start
      obtain ⟨oam, h⟩ := ih (start.writeSprites i.val (start.read (pageAddr v i.val)))
      exact ⟨oam, h⟩
  obtain ⟨oam, h⟩ := hloop (List.finRange 160) { b with video := b.video.writeRegister .dma v }
  exact ⟨oam, h⟩

/-! ## Addresses -/

/-- An address of work RAM and the address of its echo. -/
def Echo (a x : UInt16) : Prop := 0xC000 ≤ a ∧ a ≤ 0xDDFF ∧ x = a + 0x2000

/-- Two addresses name the same byte. -/
def SameByte (a x : UInt16) : Prop := x = a ∨ Echo a x ∨ Echo x a

instance (a x : UInt16) : Decidable (Echo a x) := inferInstanceAs (Decidable (_ ∧ _))

instance (a x : UInt16) : Decidable (SameByte a x) := inferInstanceAs (Decidable (_ ∨ _))

/-- Addresses of memories. -/
def InMemory (a : UInt16) : Prop := (0x8000 ≤ a ∧ a ≤ 0xFE9F) ∨ 0xFF80 ≤ a

/-- External RAM may be shorter than its range of addresses; the address is not behind its end. -/
def Present (b : Bus) (a : UInt16) : Prop :=
  0xA000 ≤ a → a ≤ 0xBFFF → a.toNat < 0xA000 + b.eram.size

/-- Addresses of cartridge ROM, of the line register and of nothing. -/
def ReadOnly (a : UInt16) : Prop :=
  a ≤ 0x7FFF ∨ (0xFEA0 ≤ a ∧ a ≤ 0xFF3F) ∨ a = 0xFF44 ∨ (0xFF4C ≤ a ∧ a ≤ 0xFF7F ∧ a ≠ 0xFF50)

/-- Addresses of registers that are plain storage. -/
def InRegisters (a : UInt16) : Prop :=
  0xFF40 ≤ a ∧ a ≤ 0xFF4B ∧ a ≠ 0xFF41 ∧ a ≠ 0xFF44 ∧ a ≠ 0xFF45 ∧ a ≠ 0xFF46

theorem echo_iff {a x : UInt16} :
    Echo a x ↔ 0xC000 ≤ a.toNat ∧ a.toNat < 0xDE00 ∧ x.toNat = a.toNat + 0x2000 := by
  unfold Echo
  rw [← UInt16.toNat_inj, UInt16.toNat_add]
  simp only [UInt16.le_iff_toNat_le, UInt16.reduceToNat]
  omega

theorem stores_ofAddr {a : UInt16} (h : InMemory a) : (Region.ofAddr a).Stores := by
  have hspans := (Region.serves_ofAddr a).spans
  simp only [InMemory, UInt16.le_iff_toNat_le, UInt16.reduceToNat] at h
  generalize Region.ofAddr a = r at hspans
  cases r with
  | vram i => trivial
  | eram i => trivial
  | wram i => trivial
  | oam i => trivial
  | zram i => trivial
  | _ => simp only [Region.Spans] at hspans; omega

/-- In memories, the addresses of a byte are the address itself and its echo. -/
theorem ofAddr_eq_ofAddr_iff {a x : UInt16} (h : (Region.ofAddr a).Stores) :
    Region.ofAddr x = Region.ofAddr a ↔ SameByte a x := by
  have hserves := Region.serves_ofAddr a
  unfold SameByte
  rw [Region.ofAddr_eq_iff, echo_iff, echo_iff, ← UInt16.toNat_inj]
  generalize Region.ofAddr a = r at h hserves
  cases r with
  | rom i => exact h.elim
  | control p => exact h.elim
  | bootLatch => exact h.elim
  | unmapped => exact h.elim
  | _ i => have hi := i.isLt; simp only [Region.Serves] at hserves ⊢; omega

theorem present_of_size (hsize : b.eram.size = eramSize) (a : UInt16) : b.Present a := by
  intro _ hhigh
  rw [hsize]
  exact Nat.lt_succ_of_le (UInt16.le_iff_toNat_le.1 hhigh)

theorem Present.eram_lt {a : UInt16} (h : b.Present a) {i : Fin 0x2000}
    (hi : Region.ofAddr a = .eram i) : i.val < b.eram.size := by
  have hserves : a.toNat = 0xA000 + i.val := Region.ofAddr_eq_iff.1 hi
  have hlt := i.isLt
  simp only [Present, UInt16.le_iff_toNat_le, UInt16.reduceToNat] at h
  omega

theorem read_of_sameByte {a : UInt16} (h : InMemory a) {x : UInt16} (hx : SameByte a x) :
    b.read x = b.read a := by
  rw [read, read, (ofAddr_eq_ofAddr_iff (stores_ofAddr h)).2 hx]

/-- A write to a memory is read at the address and at its echo. -/
theorem read_write_of_inMemory {a : UInt16} (hpresent : b.Present a) (h : InMemory a) (v : UInt8)
    (x : UInt16) : (b.write a v).read x = if SameByte a x then v else b.read x := by
  have hstores := stores_ofAddr h
  rw [read, write, readRegion_writeRegion_of_lt (fun i hi => hpresent.eram_lt hi) hstores]
  simp only [ofAddr_eq_ofAddr_iff hstores]
  rfl

theorem inert_ofAddr {a : UInt16} (h : ReadOnly a) : (Region.ofAddr a).Inert := by
  have hserves := Region.serves_ofAddr a
  have hspans := hserves.spans
  simp only [ReadOnly, UInt16.le_iff_toNat_le, UInt16.reduceToNat, ← UInt16.toNat_inj, ne_eq] at h
  generalize Region.ofAddr a = r at hserves hspans
  cases r with
  | rom i => trivial
  | unmapped => trivial
  | control p =>
    simp only [Region.Spans] at hspans
    have hly : p.addr.toNat = VideoRegister.ly.addr.toNat := by
      rw [← show a.toNat = p.addr.toNat from hserves]
      show a.toNat = 0xFF44
      omega
    rw [VideoRegister.addr_inj.1 (UInt16.toNat_inj.1 hly)]
    trivial
  | _ => simp only [Region.Spans] at hspans; omega

theorem exists_register {a : UInt16} (hlow : 0xFF40 ≤ a) (hhigh : a ≤ 0xFF4B) :
    ∃ p : VideoRegister, a = p.addr := by
  have hserves := Region.serves_ofAddr a
  have hspans := hserves.spans
  simp only [UInt16.le_iff_toNat_le, UInt16.reduceToNat] at hlow hhigh
  generalize Region.ofAddr a = r at hserves hspans
  cases r with
  | control p => exact ⟨p, UInt16.toNat_inj.1 hserves⟩
  | _ => simp only [Region.Spans] at hspans; omega

theorem ofAddr_addr (p : VideoRegister) : Region.ofAddr p.addr = .control p :=
  Region.ofAddr_eq_iff.2 rfl

/-- A register of the video unit is read at its address. -/
theorem read_addr (b : Bus) (p : VideoRegister) : b.read p.addr = b.video.regs.read p := by
  rw [read, ofAddr_addr]
  rfl

theorem write_addr {p : VideoRegister} (hp : p ≠ .dma) (v : UInt8) :
    b.write p.addr v = b.withRegisters (b.video.regs.write p v) := by
  rw [write, ofAddr_addr, writeRegion_control hp]

/-- Registers are read at their addresses, and no other read depends on them. -/
theorem read_withRegisters (b : Bus) (regs : Registers) (x : UInt16) :
    (∃ q : VideoRegister, x = q.addr ∧ (b.withRegisters regs).read x = regs.read q) ∨
      ((∀ q : VideoRegister, x ≠ q.addr) ∧ (b.withRegisters regs).read x = b.read x) := by
  by_cases h : ∃ q : VideoRegister, x = q.addr
  · obtain ⟨q, rfl⟩ := h
    exact .inl ⟨q, rfl, read_addr _ q⟩
  · have hne : ∀ q : VideoRegister, Region.ofAddr x ≠ .control q := fun q hq =>
      h ⟨q, UInt16.toNat_inj.1 (Region.ofAddr_eq_iff.1 hq)⟩
    refine .inr ⟨fun q hq => h ⟨q, hq⟩, ?_⟩
    rw [read, readRegion_withRegisters]
    split
    · rename_i q hq
      exact absurd hq (hne q)
    · rfl

/-- A write that changes one register changes what is read at its address. -/
theorem read_write_register {p : VideoRegister} (hp : p ≠ .dma) {v w : UInt8}
    (hread : ∀ q, (b.video.regs.write p v).read q = if q = p then w else b.video.regs.read q)
    (x : UInt16) : (b.write p.addr v).read x = if x = p.addr then w else b.read x := by
  rw [write_addr hp]
  rcases b.read_withRegisters (b.video.regs.write p v) x with ⟨q, rfl, h⟩ | ⟨hne, h⟩
  · rw [h, hread, read_addr]
    simp only [VideoRegister.addr_inj]
  · rw [h, if_neg (hne p)]

theorem read_write_comparison (v : UInt8) (x : UInt16) :
    (b.write 0xFF45 v).read x =
      if x = 0xFF45 then v
      else if x = 0xFF41 then Registers.updatedStat (b.read 0xFF41) (b.read 0xFF44) v
      else b.read x := by
  show (b.write VideoRegister.lyc.addr v).read x =
    if x = VideoRegister.lyc.addr then v
    else if x = VideoRegister.stat.addr then
      Registers.updatedStat (b.read VideoRegister.stat.addr) (b.read VideoRegister.ly.addr) v
    else b.read x
  have hne : VideoRegister.lyc ≠ .dma := by decide
  rw [write_addr hne, read_addr b .stat, read_addr b .ly]
  rcases b.read_withRegisters (b.video.regs.write .lyc v) x with ⟨q, rfl, h⟩ | ⟨hne, h⟩
  · rw [h, Registers.read_write_lyc, read_addr]
    simp only [VideoRegister.addr_inj]
    rfl
  · rw [h, if_neg (hne .lyc), if_neg (hne .stat)]

theorem read_write_transfer (v : UInt8) :
    (b.write 0xFF46 v).read 0xFF46 = v ∧
      ∀ x, x ≠ 0xFF46 → ¬ (0xFE00 ≤ x ∧ x ≤ 0xFE9F) → (b.write 0xFF46 v).read x = b.read x := by
  have hdma : (0xFF46 : UInt16) = VideoRegister.dma.addr := rfl
  obtain ⟨oam, heq⟩ := b.transferSprites_eq v
  have hwrite : b.write 0xFF46 v =
      withRegisters { b with video := { b.video with oam := oam } } (b.video.regs.write .dma v) := by
    rw [hdma, write, ofAddr_addr]
    exact heq
  rw [hwrite]
  refine ⟨read_addr _ .dma, ?_⟩
  intro x hx hoam
  rcases read_withRegisters { b with video := { b.video with oam := oam } }
    (b.video.regs.write .dma v) x with ⟨q, rfl, h⟩ | ⟨-, h⟩
  · have hq : q ≠ .dma := fun e => hx (by rw [e]; rfl)
    rw [h, Registers.read_write _ _ _ (by decide) (by decide) (by decide), if_neg hq,
      read_addr b]
  · rw [h]
    -- of what is not a register, only the sprite table can differ
    have hspans := (Region.serves_ofAddr x).spans
    simp only [UInt16.le_iff_toNat_le, UInt16.reduceToNat] at hoam
    unfold read
    generalize Region.ofAddr x = r at hspans
    cases r with
    | oam i => simp only [Region.Spans] at hspans; omega
    | _ => rfl

/-! ## The law -/

/-- The boot ROM hides the first bytes of the cartridge while it is mapped. -/
theorem read_bootMapped (b : Bus) (i : Fin 0x8000) (h : i.val < 0x100) :
    b.read (UInt16.ofNat i.val) = if b.bootMapped then b.boot.get ⟨i.val, h⟩ else b.rom.get i := by
  have hi : (Region.rom i).Serves (UInt16.ofNat i.val).toNat := by
    simp only [Region.Serves, UInt16.toNat_ofNat']
    omega
  rw [read, Region.ofAddr_eq_iff.2 hi]
  exact dif_pos h

theorem read_of_unmap (b : Bus) {x : UInt16} (h : 0xFF < x) :
    read { b with bootMapped := false } x = b.read x := by
  have hserves := Region.serves_ofAddr x
  simp only [UInt16.lt_iff_toNat_lt, UInt16.reduceToNat] at h
  unfold read
  generalize Region.ofAddr x = r at hserves
  cases r with
  | rom i =>
    simp only [Region.Serves] at hserves
    simp only [readRegion]
    rw [dif_neg (by omega), dif_neg (by omega)]
  | _ => rfl

/-- What a write of `v` to address `a` does to a bus `b` when it leaves `b'`. -/
structure WriteLaw (b : Bus) (a : UInt16) (v : UInt8) (b' : Bus) : Prop where
  memory : InMemory a → ∀ x, b'.read x = if SameByte a x then v else b.read x
  readOnly : ReadOnly a → b' = b
  /-- The latch uncovers the cartridge, once. -/
  latch : a = 0xFF50 →
    if v ≠ 0 ∧ b.bootMapped = true then
      b' = { b with bootMapped := false } ∧
        (∀ x, 0xFF < x → b'.read x = b.read x) ∧
        ∀ (i : Fin 0x8000) (h : i.val < 0x100),
          b.read (UInt16.ofNat i.val) = b.boot.get ⟨i.val, h⟩ ∧
            b'.read (UInt16.ofNat i.val) = b.rom.get i
    else b' = b
  /-- Mode and coincidence cannot be written. -/
  status : a = 0xFF41 → ∀ x, b'.read x =
    if x = 0xFF41 then (v &&& 0x78) ||| (b.read 0xFF41 &&& 0x07) else b.read x
  comparison : a = 0xFF45 → ∀ x, b'.read x =
    if x = 0xFF45 then v
    else if x = 0xFF41 then Registers.updatedStat (b.read 0xFF41) (b.read 0xFF44) v
    else b.read x
  transfer : a = 0xFF46 → b'.read 0xFF46 = v ∧
    ∀ x, x ≠ 0xFF46 → ¬ (0xFE00 ≤ x ∧ x ≤ 0xFE9F) → b'.read x = b.read x
  register : InRegisters a →
    (∃ regs, b' = b.withRegisters regs) ∧ ∀ x, b'.read x = if x = a then v else b.read x

/-- **What is read after a write**, at every address and for every address that is written. -/
theorem read_after_write (b : Bus) (hsize : b.eram.size = eramSize) (a : UInt16) (v : UInt8) :
    b.WriteLaw a v (b.write a v) where
  memory := by
    intro h x
    have hstores := stores_ofAddr h
    rw [read, write, readRegion_writeRegion hsize hstores]
    by_cases hx : SameByte a x
    · rw [if_pos hx, if_pos ((ofAddr_eq_ofAddr_iff hstores).2 hx)]
    · rw [if_neg hx, if_neg (mt (ofAddr_eq_ofAddr_iff hstores).1 hx)]
      rfl
  readOnly := by
    intro h
    exact writeRegion_of_inert (inert_ofAddr h) v
  latch := by
    rintro rfl
    have hwrite : b.write 0xFF50 v = if v = 0 then b else { b with bootMapped := false } := rfl
    rw [hwrite]
    by_cases hv : v = 0
    · rw [if_pos hv, if_neg (fun h => h.1 hv)]
    · rw [if_neg hv]
      by_cases hmapped : b.bootMapped = true
      · rw [if_pos ⟨hv, hmapped⟩]
        refine ⟨rfl, fun x hx => b.read_of_unmap hx, ?_⟩
        intro i h
        rw [read_bootMapped b i h, if_pos hmapped, read_bootMapped _ i h]
        exact ⟨rfl, rfl⟩
      · rw [if_neg (fun h => hmapped h.2)]
        rw [Bool.not_eq_true] at hmapped
        rw [← hmapped]
  status := by
    rintro rfl x
    rw [show b.read 0xFF41 = b.video.regs.stat from b.read_addr .stat]
    exact read_write_register (by decide) (Registers.read_write_stat b.video.regs v) x
  comparison := by
    rintro rfl x
    exact read_write_comparison v x
  transfer := by
    rintro rfl
    exact read_write_transfer v
  register := by
    rintro ⟨hlow, hhigh, hstat, hly, hlyc, hdma⟩
    obtain ⟨p, rfl⟩ := exists_register hlow hhigh
    have hne : ∀ q : VideoRegister, p.addr ≠ q.addr → p ≠ q := fun q h e => h (congrArg _ e)
    refine ⟨⟨_, write_addr (hne .dma hdma) v⟩, ?_⟩
    intro x
    exact read_write_register (hne .dma hdma)
      (fun q => Registers.read_write _ v q (hne .stat hstat) (hne .ly hly) (hne .lyc hlyc)) x

/-- What is written to work RAM is read through its echo. -/
theorem read_echo_after_write :
    powerOn.eram.size = eramSize ∧ (powerOn.write 0xC012 0x5A).read 0xE012 = 0x5A := by
  have hsize : powerOn.eram.size = eramSize := Array.size_replicate
  refine ⟨hsize, ?_⟩
  rw [(read_after_write powerOn hsize 0xC012 0x5A).memory (.inl (by decide)), if_pos (by decide)]

end Bus

end DotMatrix
