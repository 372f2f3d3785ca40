import DotMatrix.Proofs.Confinement

/-!
# Resets

A reset works on the machine in place: it overwrites memories cell by cell and registers one by one,
and what it forgets to overwrite stays.  It forgets nothing but what it is meant to keep.

* `overwriteAll` — the same value stored in every cell of a memory.
* `Video.resetInPlace`, `Bus.resetInPlace`, `Machine.resetInPlace` — resets field by field.
* `Machine.kept` — what a reset keeps: the settings and the images.

Principal results: `Machine.resetInPlace_eq` — in place, a reset does what `Machine.reset` says;
`Machine.kept_calls` — only loading an image changes what a reset keeps; `Machine.reset_forgets` — a
reset leads to a new machine with the same images, whatever happened before.
-/

set_option autoImplicit false

namespace DotMatrix

/-! ## Overwriting -/

section Overwrite

variable {α : Type} {n : Nat}

/-- Stores the same value in every cell, one after the other. -/
def overwriteAll (cells : Vector α n) (a : α) : Vector α n :=
  Fin.foldl n (fun cells i => cells.set i.val a i.isLt) cells

/-- After `k` cells the first `k` of them hold the value. -/
theorem getElem_foldl_overwrite (cells : Vector α n) (a : α) (k : Nat) (hk : k ≤ n) (i : Nat)
    (hi : i < n) :
    (Fin.foldl k (fun cells (j : Fin k) => cells.set j.val a (Nat.lt_of_lt_of_le j.isLt hk))
      cells)[i] = if i < k then a else cells[i] := by
  induction k with
  | zero => rw [Fin.foldl_zero, if_neg (Nat.not_lt_zero i)]
  | succ k ih =>
    rw [Fin.foldl_succ_last]
    simp only [Fin.val_castSucc, Fin.val_last, Vector.getElem_set]
    rw [ih (by omega)]
    by_cases hlast : k = i
    · rw [if_pos hlast, if_pos (by omega)]
    · rw [if_neg hlast]
      by_cases hlt : i < k
      · rw [if_pos hlt, if_pos (by omega)]
      · rw [if_neg hlt, if_neg (by omega)]

/-- **Nothing is left of what the cells held.** -/
theorem overwriteAll_eq (cells : Vector α n) (a : α) :
    overwriteAll cells a = Vector.replicate n a := by
  apply Vector.ext
  intro i hi
  rw [overwriteAll, getElem_foldl_overwrite cells a n (Nat.le_refl n) i hi, if_pos hi,
    Vector.getElem_replicate]

end Overwrite

/-! ## Resets in place -/

/-- Clears the memories and the decoded tiles, whitens the picture, clears the registers and the
counters, and starts the scan of line 0. -/
def Video.resetInPlace (v : Video) : Video :=
  let v := { v with vram := overwriteAll v.vram 0x00 }
  let v := { v with oam := overwriteAll v.oam 0x00 }
  let v := { v with tiles := overwriteAll v.tiles Color.clear }
  let v := { v with frame := overwriteAll v.frame 0xFF }
  let regs := { v.regs with lcdc := 0, stat := 0, scy := 0, scx := 0, ly := 0, lyc := 0 }
  let regs := { regs with dma := 0, bgp := 0, obp0 := 0, obp1 := 0, wy := 0, wx := 0 }
  let v := { v with regs := regs, clock := 0, windowLine := 0 }
  let v := { v with regs := v.regs.setMode .oamScan }
  { v with regs := v.regs.compareLine }

theorem Video.resetInPlace_eq (v : Video) : v.resetInPlace = Video.powerOn := by
  simp only [resetInPlace, overwriteAll_eq]
  rfl

/-- Maps the boot ROM, clears the memories, external RAM at its usual size, and resets the video
unit. -/
def Bus.resetInPlace (b : Bus) : Bus :=
  let b := { b with bootMapped := true }
  let b := { b with eram := #[] }.resizeEram eramSize
  let b := { b with wram := overwriteAll b.wram 0x00 }
  let b := { b with zram := overwriteAll b.zram 0x00 }
  { b with video := b.video.resetInPlace }

theorem Bus.resetInPlace_eq (b : Bus) : b.resetInPlace = b.reset := by
  have hresized : ∀ n, (#[] : Array UInt8).take n ++
      Array.replicate (n - (#[] : Array UInt8).size) 0 = Array.replicate n 0 := by simp
  simp only [resetInPlace, resizeEram, hresized, overwriteAll_eq, Video.resetInPlace_eq]
  rfl

namespace Machine

/-- Resets the CPU, the bus and the counters, and skips the boot program if the settings say so. -/
def resetInPlace (m : Machine) : Machine :=
  let m := { m with cpu := Cpu.powerOn }
  let m := { m with bus := m.bus.resetInPlace }
  let m := { m with cycles := 0 }
  let m := { m with frames := 0 }
  if m.config.startInBoot then m else m.skipBoot

/-- **In place, a reset does what it does to machines as values.** -/
theorem resetInPlace_eq (m : Machine) : m.resetInPlace = m.reset := by
  simp only [resetInPlace, Bus.resetInPlace_eq]
  rfl

end Machine

/-! ## What a reset keeps -/

/-- The call puts an image into a machine. -/
def HostCall.IsLoad : HostCall → Prop
  | .load _ => True
  | .loadBoot _ => True
  | _ => False

/-- A chip programmed with its own content stays as it is. -/
theorem Memory.ofImage_toList {n : Nat} (m : Memory n) : ofImage n m.toList = m := by
  apply Vector.ext
  intro i hi
  have hlength : i < m.toList.length := by rwa [Vector.length_toList]
  rw [getElem_ofImage, List.getElem?_eq_getElem hlength, Option.getD_some, Vector.getElem_toList]

namespace Machine

variable {m m' : Machine}

/-- Settings, cartridge and boot ROM. -/
def kept (m : Machine) : Config × Memory 0x8000 × Memory 0x100 := (m.config, m.bus.rom, m.bus.boot)

/-- **A reset looks at nothing but what it keeps.** -/
theorem reset_eq_of_kept (h : m'.kept = m.kept) : m'.reset = m.reset := by
  simp only [kept, Prod.mk.injEq] at h
  obtain ⟨hconfig, hrom, hboot⟩ := h
  simp only [reset, Bus.reset, hconfig, hrom, hboot]

theorem kept_reset (m : Machine) : m.reset.kept = m.kept := by
  unfold reset
  simp only
  split <;> rfl

theorem kept_step {s : Step} (h : m.step = .ok (m', s)) : m'.kept = m.kept := by
  have hs := stepped_of_step h
  obtain ⟨b, htouched, hbus, -⟩ := hs.bus
  simp only [kept, hs.config, hbus, htouched.rom, htouched.boot]

theorem kept_touched {b : Bus} (h : m.bus.Touched b) : kept { m with bus := b } = m.kept := by
  simp only [kept, h.rom, h.boot]

theorem kept_withVideo (m : Machine) (v : Video) : (m.withVideo v).kept = m.kept := rfl

/-- Only loading an image changes what a reset keeps. -/
theorem kept_perform (m : Machine) {c : HostCall} (hc : ¬ c.IsLoad) :
    (m.perform c).kept = m.kept := by
  cases c with
  | step =>
    exact stepOnce_induction (P := fun m' => m'.kept = m.kept)
      (fun hm hs => (kept_step hs).trans hm) rfl
  | runFrame =>
    exact run_induction (P := fun m' => m'.kept = m.kept)
      (fun hm hs => (kept_step hs).trans hm) rfl _
  | reset => exact kept_reset m
  | skipBoot => rfl
  | load image => exact absurd trivial hc
  | loadBoot image => exact absurd trivial hc
  | write addr v => exact kept_touched (Bus.touched_write m.bus addr v)
  | write16 addr w => exact kept_touched (Bus.touched_write16 m.bus addr w)
  | _ => exact kept_withVideo m _

theorem kept_calls (m : Machine) (calls : List HostCall) (hcalls : ∀ c ∈ calls, ¬ c.IsLoad) :
    (calls.foldl perform m).kept = m.kept := by
  induction calls generalizing m with
  | nil => rfl
  | cons c calls ih =>
    obtain ⟨hc, hcalls⟩ := List.forall_mem_cons.1 hcalls
    exact (ih (m.perform c) hcalls).trans (kept_perform m hc)

/-! ## Resets forget -/

/-- A machine that is given the images of another one. -/
def withImagesOf (m other : Machine) : Machine :=
  (m.perform (.load other.bus.rom.toList)).perform (.loadBoot other.bus.boot.toList)

theorem perform_load (m : Machine) (image : List UInt8) :
    m.perform (.load image) =
      { m with bus := { m.bus with rom := Memory.ofImage _ image } } := rfl

theorem perform_loadBoot (m : Machine) (image : List UInt8) :
    m.perform (.loadBoot image) =
      { m with bus := { m.bus with boot := Memory.ofImage _ image } } := rfl

theorem withImagesOf_eq (m other : Machine) :
    m.withImagesOf other =
      { m with bus := { m.bus with rom := other.bus.rom, boot := other.bus.boot } } := by
  rw [withImagesOf, perform_loadBoot, perform_load, Memory.ofImage_toList, Memory.ofImage_toList]

/-- A reset does not look at images. -/
theorem reset_withImages (m : Machine) (rom : Memory 0x8000) (boot : Memory 0x100) :
    reset { m with bus := { m.bus with rom := rom, boot := boot } } =
      { m.reset with bus := { m.reset.bus with rom := rom, boot := boot } } := by
  unfold reset
  simp only
  split <;> rfl

/-- **A reset leads to a new machine** that is given the same images. -/
theorem reset_eq_create (m : Machine) : m.reset = (create m.config).withImagesOf m := by
  rw [withImagesOf_eq, create, ← reset_withImages]
  exact reset_eq_of_kept rfl

/-- **Resets forget.**  From any machine whatever, a reset field by field leads to a new machine with
the same settings and images, and once more to the same machine.  Machines that agree on settings and
images are the same after it and make the same steps, and calls that load no image make no difference
to it. -/
theorem reset_forgets (m : Machine) :
    m.resetInPlace = m.reset ∧
      m.reset = (create m.config).withImagesOf m ∧
      m.reset =
        { create m.config with
          bus := { (create m.config).bus with rom := m.bus.rom, boot := m.bus.boot } } ∧
      m.reset.reset = m.reset ∧
      (∀ m' : Machine, m'.config = m.config → m'.bus.rom = m.bus.rom → m'.bus.boot = m.bus.boot →
        m'.reset = m.reset ∧ ∀ n, history n m'.reset = history n m.reset) ∧
      ∀ calls : List HostCall, (∀ c ∈ calls, ¬ c.IsLoad) →
        (calls.foldl perform m).reset = m.reset := by
  refine ⟨resetInPlace_eq m, reset_eq_create m, ?_, ?_, ?_, ?_⟩
  · rw [← withImagesOf_eq]
    exact reset_eq_create m
  · exact reset_eq_of_kept (kept_reset m)
  · intro m' hconfig hrom hboot
    have hreset : m'.reset = m.reset := by
      apply reset_eq_of_kept
      rw [kept, hconfig, hrom, hboot, kept]
    exact ⟨hreset, fun n => by rw [hreset]⟩
  · exact fun calls hcalls => reset_eq_of_kept (kept_calls m calls hcalls)

/-- A machine in a state that no program leads to: spare bits in F, a single byte of external RAM, and
decoded tiles that are not those of video memory. -/
def scrambled : Machine where
  cpu := { Cpu.powerOn with f := 0x0F, pc := 0xFFFF, ime := true, autoAdvance := false }
  bus := { Bus.powerOn with
    bootMapped := false
    eram := #[0x77]
    wram := Memory.filled _ 0xAA
    video := { Video.powerOn with
      tiles := Vector.replicate _ ⟨3, Nat.lt_succ_self 3⟩
      regs := { Registers.powerOn with stat := 0xFF, ly := 200, lyc := 7 }
      clock := 9999
      windowLine := 99 } }
  config := {}
  cycles := 12
  frames := 34

theorem reset_scrambled :
    ¬ scrambled.Intact ∧ scrambled.resetInPlace = create {} ∧
      (∀ n, history n scrambled.reset = history n (create {}).reset) ∧
      ([HostCall.step, .write 0xC000 0x42].foldl perform scrambled).reset = create {} := by
  obtain ⟨hinPlace, -, -, -, hagree, hcalls⟩ := reset_forgets scrambled
  obtain ⟨hreset, hhistory⟩ := hagree (create {}) rfl rfl rfl
  have hcreated : scrambled.reset = create {} := hreset.symm.trans (reset_eq_of_kept rfl)
  refine ⟨fun h => absurd h.eram (by decide), hinPlace.trans hcreated, fun n => (hhistory n).symm, ?_⟩
  rw [hcalls _ (by simp [HostCall.IsLoad]), hcreated]

end Machine

end DotMatrix
