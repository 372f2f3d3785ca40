import DotMatrix.Proofs.Sweep

/-!
# Binary arithmetic on numbers of many bytes

Programs add and subtract numbers that are longer than a byte by one operation for each byte, the
lowest byte first.

* `Cpu.Adds`, `Cpu.Subtracts` — work on a column of bytes that adds them, that subtracts them.
* `Cpu.LeavesSum`, `Cpu.LeavesDifference` — the result, the carry and the half carry that a sweep has
  to leave.

Principal result: `Cpu.binary_sweep` — additions and subtractions of any length leave them.
-/

set_option autoImplicit false

namespace DotMatrix

/-! ## Bytes -/

namespace LittleEndian

theorem value_eq (bs : List UInt8) : value bs = Positional.value 256 (bs.map UInt8.toNat) := by
  induction bs with
  | nil => rfl
  | cons b bs ih => rw [value, List.map_cons, Positional.value, ih]

theorem value_map {α : Type} (f : α → UInt8) (as : List α) :
    Positional.value 256 (as.map fun a => (f a).toNat) = value (as.map f) := by
  rw [value_eq, List.map_map]
  rfl

theorem limit_eq (n : Nat) : limit n = Positional.limit 256 n := by
  induction n with
  | zero => rfl
  | succ n ih => rw [limit, Positional.limit, ih]

end LittleEndian

namespace Alu

theorem sum_toNat (a v : UInt8) (carry : Bool) :
    a.toNat + v.toNat + carry.toNat =
      (sum a v carry).1.toNat + 256 * (sum a v carry).2.c.toNat := by
  have ha := a.toNat_lt
  have hv := v.toNat_lt
  have hcarry := carry.toNat_le
  simp only [sum, UInt8.toNat_ofNat']
  by_cases h : 256 ≤ a.toNat + v.toNat + carry.toNat
  · simp only [h, decide_true, Bool.toNat_true]
    omega
  · simp only [h, decide_false, Bool.toNat_false]
    omega

theorem difference_toNat (a v : UInt8) (borrow : Bool) :
    (difference a v borrow).1.toNat + v.toNat + borrow.toNat =
      a.toNat + 256 * (difference a v borrow).2.c.toNat := by
  have ha := a.toNat_lt
  have hv := v.toNat_lt
  have hborrow := borrow.toNat_le
  simp only [difference, UInt8.toNat_sub, UInt8.toNat_ofNat']
  by_cases h : a.toNat < v.toNat + borrow.toNat
  · simp only [h, decide_true, Bool.toNat_true]
    omega
  · simp only [h, decide_false, Bool.toNat_false]
    omega

end Alu

/-! ## Columns -/

namespace Cpu

/-- Work that adds the bytes of a column and `k`, carries out of the whole and out of the low
halves. -/
structure Adds (work : UInt8 × UInt8 → Cpu) (k : Nat) : Prop where
  total : ∀ p, p.1.toNat + p.2.toNat + k = (work p).a.toNat + 256 * ((work p).flag .c).toNat
  half : ∀ p, (work p).flag .h = true ↔ 16 ≤ p.1.toNat % 16 + p.2.toNat % 16 + k

/-- Work that subtracts the lower byte of a column and `k` from the upper byte, borrowing for the whole
and for the low halves. -/
structure Subtracts (work : UInt8 × UInt8 → Cpu) (k : Nat) : Prop where
  total : ∀ p, (work p).a.toNat + p.2.toNat + k = p.1.toNat + 256 * ((work p).flag .c).toNat
  half : ∀ p, (work p).flag .h = true ↔ p.1.toNat % 16 < p.2.toNat % 16 + k

theorem adds_column {op : AluOp} (h : op = .add ∨ op = .adc) (c : Cpu) :
    Adds (column op c) (op.carryIn c).toNat := by
  have hcp : op ≠ .cp := by rintro rfl; simp at h
  have heval : ∀ p : UInt8 × UInt8,
      op.eval p.1 p.2 (c.flag .c) = Alu.sum p.1 p.2 (op.carryIn c) := by
    rcases h with rfl | rfl <;> exact fun _ => rfl
  constructor
  · intro p
    rw [a_column hcp, flag_column, heval]
    exact Alu.sum_toNat p.1 p.2 _
  · intro p
    rw [flag_column, heval]
    exact decide_eq_true_iff

theorem subtracts_column {op : AluOp} (h : op = .sub ∨ op = .sbc) (c : Cpu) :
    Subtracts (column op c) (op.carryIn c).toNat := by
  have hcp : op ≠ .cp := by rintro rfl; simp at h
  have heval : ∀ p : UInt8 × UInt8,
      op.eval p.1 p.2 (c.flag .c) = Alu.difference p.1 p.2 (op.carryIn c) := by
    rcases h with rfl | rfl <;> exact fun _ => rfl
  constructor
  · intro p
    rw [a_column hcp, flag_column, heval]
    exact Alu.difference_toNat p.1 p.2 _
  · intro p
    rw [flag_column, heval]
    exact decide_eq_true_iff

/-! ## Half carries -/

open LittleEndian

/-- A number modulo a multiple of 256 keeps its lowest byte. -/
theorem value_map_mod {α : Type} (f : α → UInt8) (a : α) (as : List α) (bound : Nat) :
    value ((a :: as).map f) % (256 * bound) = (f a).toNat + 256 * (value (as.map f) % bound) := by
  have ha := (f a).toNat_lt
  rw [List.map_cons, value, Nat.mod_mul, Nat.add_mul_mod_self_left, Nat.mod_eq_of_lt ha,
    Nat.add_mul_div_left _ _ (by decide), Nat.div_eq_of_lt ha, Nat.zero_add]

theorem half_limit_cons {α : Type} (a : α) (as : List α) :
    16 * limit (a :: as).length = 256 * (16 * limit as.length) := by
  rw [List.length_cons, limit]
  omega

variable {first rest : Cpu → UInt8 × UInt8 → Cpu} {c : Cpu} {k : Nat}

/-- **The half carry of a sweep of additions** is the carry out of all but the highest four bits. -/
theorem half_sweep_adds (hfirst : Adds (first c) k)
    (hrest : ∀ s : Cpu, Adds (rest s) (s.flag .c).toNat) (p : UInt8 × UInt8)
    (ps : List (UInt8 × UInt8)) :
    ((sweep first rest c (p :: ps)).getLastD c).flag .h = true ↔
      16 * limit ps.length ≤
        value ((p :: ps).map Prod.fst) % (16 * limit ps.length) +
          value ((p :: ps).map Prod.snd) % (16 * limit ps.length) + k := by
  induction ps generalizing first c k p with
  | nil =>
    have h := hfirst.half p
    simpa [sweep, value, limit] using h
  | cons q ps ih =>
    -- The lowest column hands its carry to the rest, whose half carry is that of the whole.
    have htotal := hfirst.total p
    have hlt := (first c p).a.toNat_lt
    rw [sweep, List.getLastD_cons, ih (hrest (first c p)) q, half_limit_cons, value_map_mod,
      value_map_mod]
    omega

/-- **The half carry of a sweep of subtractions** is the borrow of all but the highest four bits. -/
theorem half_sweep_subtracts (hfirst : Subtracts (first c) k)
    (hrest : ∀ s : Cpu, Subtracts (rest s) (s.flag .c).toNat) (p : UInt8 × UInt8)
    (ps : List (UInt8 × UInt8)) :
    ((sweep first rest c (p :: ps)).getLastD c).flag .h = true ↔
      value ((p :: ps).map Prod.fst) % (16 * limit ps.length) <
        value ((p :: ps).map Prod.snd) % (16 * limit ps.length) + k := by
  induction ps generalizing first c k p with
  | nil =>
    have h := hfirst.half p
    simpa [sweep, value, limit] using h
  | cons q ps ih =>
    have htotal := hfirst.total p
    have hlt := (first c p).a.toNat_lt
    rw [sweep, List.getLastD_cons, ih (hrest (first c p)) q, half_limit_cons, value_map_mod,
      value_map_mod]
    omega

/-! ## Results -/

/-- What additions over `n + 1` bytes leave: the sum as far as it has room, the carry out of the whole,
and the half carry out of all but the highest four bits. -/
structure LeavesSum (c : Cpu) (run : List Cpu) (n x y k : Nat) : Prop where
  length : run.length = n + 1
  result : value (run.map Cpu.a) = (x + y + k) % limit (n + 1)
  carry : (run.getLastD c).flag .c = true ↔ limit (n + 1) ≤ x + y + k
  half : (run.getLastD c).flag .h = true ↔
    16 * limit n ≤ x % (16 * limit n) + y % (16 * limit n) + k

/-- What subtractions over `n + 1` bytes leave: the difference as far as it has room, the borrow of the
whole, and the half carry, the borrow of all but the highest four bits. -/
structure LeavesDifference (c : Cpu) (run : List Cpu) (n x y k : Nat) : Prop where
  length : run.length = n + 1
  result : (value (run.map Cpu.a) : Int) = ((x : Int) - y - k) % limit (n + 1)
  carry : (run.getLastD c).flag .c = true ↔ x < y + k
  half : (run.getLastD c).flag .h = true ↔ x % (16 * limit n) < y % (16 * limit n) + k

theorem leavesSum_sweep (hfirst : Adds (first c) k)
    (hrest : ∀ s : Cpu, Adds (rest s) (s.flag .c).toNat) (p : UInt8 × UInt8)
    (ps : List (UInt8 × UInt8)) :
    LeavesSum c (sweep first rest c (p :: ps)) ps.length (value ((p :: ps).map Prod.fst))
      (value ((p :: ps).map Prod.snd)) k := by
  have hsum := sweep_sum 256 UInt8.toNat first rest c (List.cons_ne_nil p ps)
    (fun q _ => hfirst.total q) (fun q _ s => (hrest s).total q) (fun s _ => s.a.toNat_lt)
  simp only [value_map, ← limit_eq] at hsum
  exact ⟨length_sweep first rest c (p :: ps), hsum.1, hsum.2, half_sweep_adds hfirst hrest p ps⟩

theorem leavesDifference_sweep (hfirst : Subtracts (first c) k)
    (hrest : ∀ s : Cpu, Subtracts (rest s) (s.flag .c).toNat) (p : UInt8 × UInt8)
    (ps : List (UInt8 × UInt8)) :
    LeavesDifference c (sweep first rest c (p :: ps)) ps.length (value ((p :: ps).map Prod.fst))
      (value ((p :: ps).map Prod.snd)) k := by
  have hdifference := sweep_difference 256 UInt8.toNat first rest c (List.cons_ne_nil p ps)
    (fun q _ => hfirst.total q) (fun q _ s => (hrest s).total q) (fun s _ => s.a.toNat_lt)
  simp only [value_map, ← limit_eq] at hdifference
  exact ⟨length_sweep first rest c (p :: ps), hdifference.1, hdifference.2,
    half_sweep_subtracts hfirst hrest p ps⟩

/-- **Binary arithmetic on numbers of any length.**  Additions, of which the first may leave out the
carry that comes in, leave the sum; subtractions leave the difference; a comparison sets the flags of
a subtraction and leaves A alone. -/
theorem binary_sweep (c : Cpu) :
    (∀ (n : Nat) (x y : Memory (n + 1)) (op : AluOp),
      (op = .add ∨ op = .adc →
        LeavesSum c (sweep (column op) (column .adc) c (x.toList.zip y.toList)) n
          (value x.toList) (value y.toList) (op.carryIn c).toNat) ∧
      (op = .sub ∨ op = .sbc →
        LeavesDifference c (sweep (column op) (column .sbc) c (x.toList.zip y.toList)) n
          (value x.toList) (value y.toList) (op.carryIn c).toNat)) ∧
      ∀ v, c.accumulate .cp v = { c.accumulate .sub v with a := c.a } := by
  refine ⟨fun n x y op => ?_, fun _ => rfl⟩
  obtain ⟨p, ps, hcols, rfl, hx, hy⟩ := exists_columns x y
  rw [hcols, ← hx, ← hy]
  constructor
  · intro hop
    have hrest : ∀ s : Cpu, Adds (column .adc s) (s.flag .c).toNat := adds_column (.inr rfl)
    exact leavesSum_sweep (adds_column hop c) hrest p ps
  · intro hop
    have hrest : ∀ s : Cpu, Subtracts (column .sbc s) (s.flag .c).toNat :=
      subtracts_column (.inr rfl)
    exact leavesDifference_sweep (subtracts_column hop c) hrest p ps

/-- A CPU whose carry is set. -/
def carrying : Cpu := powerOn.setFlag .c true

theorem binary_sweep_carrying :
    let sum := sweep (column .adc) (column .adc) carrying [(0xFF, 0), (0xFF, 0), (0x0F, 0)]
    let difference := sweep (column .sub) (column .sbc) carrying [(0, 1), (0, 0), (0x10, 0)]
    value (sum.map Cpu.a) = 0x100000 ∧ (sum.getLastD carrying).flag .h = true ∧
      value (difference.map Cpu.a) = 0x0FFFFF ∧
      (difference.getLastD carrying).flag .h = true := by
  intro sum difference
  have hsum : LeavesSum carrying sum 2 0x0FFFFF 0 1 :=
    ((binary_sweep carrying).1 2 #v[0xFF, 0xFF, 0x0F] #v[0, 0, 0] .adc).1 (.inr rfl)
  have hdifference : LeavesDifference carrying difference 2 0x100000 1 0 :=
    ((binary_sweep carrying).1 2 #v[0, 0, 0x10] #v[1, 0, 0] .sub).2 (.inl rfl)
  have hresult : (value (difference.map Cpu.a) : Int) = 0x0FFFFF :=
    hdifference.result.trans (by decide)
  exact ⟨hsum.result, hsum.half.2 (by decide), by omega, hdifference.half.2 (by decide)⟩

end Cpu

end DotMatrix
