import DotMatrix.Proofs.BinaryArithmetic

/-!
# Decimal arithmetic on numbers of many bytes

A byte can hold two decimal digits, one in each half.  Programs add and subtract numbers of such bytes
by binary operations, the lowest byte first, and correct each result before they go on.

* `Decimal.Packed`, `Decimal.number`, `Decimal.value` — bytes of two decimal digits, and the numbers
  that one of them and several of them stand for.
* `AluOp.corrected` — an operation and its correction; `Alu.corrected_adc`, `Alu.corrected_sbc` — they
  add and subtract two decimal digits at once.
* `Cpu.decimalColumn` — work on one column of bytes; `Cpu.Corrected` — what a correction leaves.
* `Cpu.LeavesDecimalSum`, `Cpu.LeavesDecimalDifference` — what a sweep has to leave.

Principal result: `Cpu.decimal_sweep` — decimal additions and subtractions of any length leave it.
-/

set_option autoImplicit false

namespace DotMatrix

/-! ## Decimal digits -/

namespace Decimal

/-- Both halves of the byte are decimal digits. -/
def Packed (b : UInt8) : Prop := b.toNat / 16 ≤ 9 ∧ b.toNat % 16 ≤ 9

instance : DecidablePred Packed := fun b =>
  inferInstanceAs (Decidable (b.toNat / 16 ≤ 9 ∧ b.toNat % 16 ≤ 9))

/-- The number below 100 that a byte of two decimal digits stands for. -/
def number (b : UInt8) : Nat := 10 * (b.toNat / 16) + b.toNat % 16

/-- The number that bytes of two decimal digits stand for, the lowest first. -/
def value (bs : List UInt8) : Nat := Positional.value 100 (bs.map number)

theorem number_lt {b : UInt8} (h : Packed b) : number b < 100 := by
  obtain ⟨hhigh, hlow⟩ := h
  unfold number
  omega

theorem value_map {α : Type} (f : α → UInt8) (as : List α) :
    Positional.value 100 (as.map fun a => number (f a)) = value (as.map f) := by
  rw [value, List.map_map]
  rfl

theorem packed_of_toNat {b : UInt8} {high low : Nat} (hhigh : high ≤ 9) (hlow : low ≤ 9)
    (h : b.toNat = 16 * high + low) : Packed b ∧ number b = 10 * high + low := by
  unfold Packed number
  omega

theorem exists_digit_sum {n : Nat} (h : n ≤ 19) :
    ∃ (digit : Nat) (carry : Bool), digit ≤ 9 ∧ n = digit + 10 * carry.toNat := by
  by_cases hten : 10 ≤ n
  · exact ⟨n - 10, true, by omega, by rw [Bool.toNat_true]; omega⟩
  · exact ⟨n, false, by omega, by rw [Bool.toNat_false]; omega⟩

theorem exists_digit_difference {m n : Nat} (hm : m ≤ 9) (hn : n ≤ 10) :
    ∃ (digit : Nat) (borrow : Bool), digit ≤ 9 ∧ m + 10 * borrow.toNat = n + digit := by
  by_cases hlt : m < n
  · exact ⟨m + 10 - n, true, by omega, by rw [Bool.toNat_true]; omega⟩
  · exact ⟨m - n, false, by omega, by rw [Bool.toNat_false]; omega⟩

end Decimal

/-! ## Corrections -/

/-- Result and flags of an operation on two bytes of decimal digits that is corrected afterwards. -/
def AluOp.corrected (op : AluOp) (a v : UInt8) (carry : Bool) : UInt8 × Flags :=
  let raw := op.eval a v carry
  let r := Alu.decimalAdjust raw.1 raw.2.n raw.2.h raw.2.c
  (r.1, { z := r.1 = 0, n := raw.2.n, h := false, c := r.2 })

namespace Alu

open Decimal

theorem toNat_ite_add (on : Bool) (a d : UInt8) :
    (if on then a + d else a).toNat = (a.toNat + d.toNat * on.toNat) % 256 := by
  cases on <;> simp

theorem toNat_ite_sub (on : Bool) (a d : UInt8) :
    (if on then a - d else a).toNat = (a.toNat + (256 - d.toNat) * on.toNat) % 256 := by
  cases on <;> simp [UInt8.toNat_sub, Nat.add_comm]

variable {a : UInt8} {high low : Nat} {half carry ten hundred : Bool}

/-- A digit of a sum that carries is ten too large.  Six more take the ten away and hand the carry to
the digit above. -/
theorem decimalAdjust_added (hhigh : high ≤ 9) (hlow : low ≤ 9)
    (ha : a.toNat + 256 * carry.toNat + 6 * ten.toNat = 16 * high + low + 160 * hundred.toNat)
    (hhalf : half = decide (16 ≤ low + 10 * ten.toNat)) :
    (decimalAdjust a false half carry).1.toNat = 16 * high + low ∧
      (decimalAdjust a false half carry).2 = hundred := by
  have hlt := a.toNat_lt
  have hten := ten.toNat_le
  have hhundred := hundred.toNat_le
  have hcarry : (carry || decide (0x99 < a)) = hundred := by
    rw [Bool.eq_iff_iff, Bool.or_eq_true, decide_eq_true_iff, ← Bool.toNat_eq_one,
      ← Bool.toNat_eq_one]
    show _ ∨ 153 < a.toNat ↔ _
    omega
  obtain ⟨x, hxeq⟩ : ∃ x, x = if hundred then a + 0x60 else a := ⟨_, rfl⟩
  have hx : x.toNat = (a.toNat + 96 * hundred.toNat) % 256 := by
    rw [hxeq]
    exact toNat_ite_add hundred a 0x60
  -- The low half is still that of `a`, where a digit that carried shows as more than nine or left a half
  -- carry.
  have hcorrect : (half || decide (9 < x.toNat % 16)) = ten := by
    rw [hhalf, Bool.eq_iff_iff, Bool.or_eq_true, decide_eq_true_iff, decide_eq_true_iff,
      ← Bool.toNat_eq_one]
    omega
  have hr : (if ten then x + 0x06 else x).toNat = (x.toNat + 6 * ten.toNat) % 256 :=
    toNat_ite_add ten x 0x06
  simp only [decimalAdjust, Bool.false_eq_true, if_false, hcarry, ← hxeq, hcorrect]
  exact ⟨by omega, trivial⟩

/-- A digit of a difference that borrows is six too large. -/
theorem decimalAdjust_subtracted (hhigh : high ≤ 9) (hlow : low ≤ 9)
    (ha : a.toNat = 16 * high + low + 6 * ten.toNat + 96 * hundred.toNat) :
    (decimalAdjust a true ten hundred).1.toNat = 16 * high + low := by
  have hx : (if hundred then a - 0x60 else a).toNat = (a.toNat + 160 * hundred.toNat) % 256 :=
    toNat_ite_sub hundred a 0x60
  have hr : (decimalAdjust a true ten hundred).1.toNat =
      ((if hundred then a - 0x60 else a).toNat + 250 * ten.toNat) % 256 :=
    toNat_ite_sub ten (if hundred then a - 0x60 else a) 0x06
  omega

variable {x y : UInt8}

/-- **The correction of a sum** of two bytes of decimal digits and a carry. -/
theorem corrected_adc (hx : Packed x) (hy : Packed y) (carry : Bool) :
    Packed (AluOp.adc.corrected x y carry).1 ∧
      number x + number y + carry.toNat =
        number (AluOp.adc.corrected x y carry).1 +
          100 * (AluOp.adc.corrected x y carry).2.c.toNat := by
  obtain ⟨hxhigh, hxlow⟩ := hx
  obtain ⟨hyhigh, hylow⟩ := hy
  have hcarry := carry.toNat_le
  -- Column addition by hand: first the low digits, then the high ones.
  obtain ⟨low, ten, hlow, hlowSum⟩ :=
    exists_digit_sum (n := x.toNat % 16 + y.toNat % 16 + carry.toNat) (by omega)
  have hten := ten.toNat_le
  obtain ⟨high, hundred, hhigh, hhighSum⟩ :=
    exists_digit_sum (n := x.toNat / 16 + y.toNat / 16 + ten.toNat) (by omega)
  have htotal := sum_toNat x y carry
  have hbyte : (sum x y carry).1.toNat + 256 * (sum x y carry).2.c.toNat + 6 * ten.toNat =
      16 * high + low + 160 * hundred.toNat := by omega
  have hhalf : (sum x y carry).2.h = decide (16 ≤ low + 10 * ten.toNat) := by
    rw [← hlowSum]
    rfl
  obtain ⟨hdigits, hout⟩ : (AluOp.adc.corrected x y carry).1.toNat = 16 * high + low ∧
      (AluOp.adc.corrected x y carry).2.c = hundred := decimalAdjust_added hhigh hlow hbyte hhalf
  obtain ⟨hpacked, hnumber⟩ := packed_of_toNat hhigh hlow hdigits
  refine ⟨hpacked, ?_⟩
  rw [hnumber, hout, number, number]
  omega

/-- **The correction of a difference** of two bytes of decimal digits and a borrow. -/
theorem corrected_sbc (hx : Packed x) (hy : Packed y) (borrow : Bool) :
    Packed (AluOp.sbc.corrected x y borrow).1 ∧
      number (AluOp.sbc.corrected x y borrow).1 + number y + borrow.toNat =
        number x + 100 * (AluOp.sbc.corrected x y borrow).2.c.toNat := by
  obtain ⟨hxhigh, hxlow⟩ := hx
  obtain ⟨hyhigh, hylow⟩ := hy
  have hborrow := borrow.toNat_le
  obtain ⟨low, ten, hlow, hlowDifference⟩ :=
    exists_digit_difference (n := y.toNat % 16 + borrow.toNat) hxlow (by omega)
  have hten := ten.toNat_le
  obtain ⟨high, hundred, hhigh, hhighDifference⟩ :=
    exists_digit_difference (n := y.toNat / 16 + ten.toNat) hxhigh (by omega)
  have hhundred := hundred.toNat_le
  have htotal := difference_toNat x y borrow
  have hhalf : (difference x y borrow).2.h = ten := by
    show decide (x.toNat % 16 < y.toNat % 16 + borrow.toNat) = ten
    rw [Bool.eq_iff_iff, decide_eq_true_iff, ← Bool.toNat_eq_one]
    omega
  have hcarry : (difference x y borrow).2.c = hundred := by
    show decide (x.toNat < y.toNat + borrow.toNat) = hundred
    rw [Bool.eq_iff_iff, decide_eq_true_iff, ← Bool.toNat_eq_one]
    omega
  rw [hcarry] at htotal
  have hbyte : (difference x y borrow).1.toNat =
      16 * high + low + 6 * ten.toNat + 96 * hundred.toNat := by omega
  have hdigits : (AluOp.sbc.corrected x y borrow).1.toNat = 16 * high + low := by
    show (decimalAdjust (difference x y borrow).1 true (difference x y borrow).2.h
      (difference x y borrow).2.c).1.toNat = _
    rw [hhalf, hcarry]
    exact decimalAdjust_subtracted hhigh hlow hbyte
  have hout : (AluOp.sbc.corrected x y borrow).2.c = hundred := hcarry
  obtain ⟨hpacked, hnumber⟩ := packed_of_toNat hhigh hlow hdigits
  refine ⟨hpacked, ?_⟩
  rw [hnumber, hout, number, number]
  omega

end Alu

/-! ## Columns -/

namespace Cpu

open Decimal

/-- Work on a column of bytes, corrected. -/
def decimalColumn (op : AluOp) (c : Cpu) (p : UInt8 × UInt8) : Cpu :=
  (column op c p).decimalAdjust

/-- What a correction leaves after an addition, or after a subtraction if N is set: two decimal
digits, H clear, and Z only with a zero byte. -/
structure Corrected (n : Bool) (c : Cpu) : Prop where
  packed : Packed c.a
  subtracted : c.flag .n = n
  half : c.flag .h = false
  zero : c.flag .z = true ↔ c.a = 0

section Columns

variable {op : AluOp} {c : Cpu} {p : UInt8 × UInt8} {n : Bool}

theorem a_decimalColumn (hop : op ≠ .cp) :
    (decimalColumn op c p).a = (op.corrected p.1 p.2 (c.flag .c)).1 := by
  show (Alu.decimalAdjust (column op c p).a _ _ _).1 = _
  rw [a_column hop, flag_column, flag_column, flag_column]
  rfl

theorem flag_decimalColumn (hop : op ≠ .cp) (x : Flag) :
    (decimalColumn op c p).flag x = (op.corrected p.1 p.2 (c.flag .c)).2.get x := by
  have hn := flag_column op c p .n
  simp only [decimalColumn, decimalAdjust, flag_setFlag, a_column hop, flag_column]
  cases x with
  | n => exact hn
  | _ => rfl

theorem corrected_decimalColumn (hop : op ≠ .cp)
    (hpacked : Packed (op.corrected p.1 p.2 (c.flag .c)).1)
    (hn : (op.corrected p.1 p.2 (c.flag .c)).2.n = n) : Corrected n (decimalColumn op c p) where
  packed := (a_decimalColumn hop).symm ▸ hpacked
  subtracted := (flag_decimalColumn hop .n).trans hn
  half := flag_decimalColumn hop .h
  zero := by
    rw [flag_decimalColumn hop, a_decimalColumn hop]
    exact decide_eq_true_iff

end Columns

theorem adc_decimalColumn (c : Cpu) {p : UInt8 × UInt8} (hx : Packed p.1) (hy : Packed p.2) :
    Corrected false (decimalColumn .adc c p) ∧
      number p.1 + number p.2 + (c.flag .c).toNat = number (decimalColumn .adc c p).a +
        100 * ((decimalColumn .adc c p).flag .c).toNat := by
  have hop : AluOp.adc ≠ .cp := by decide
  obtain ⟨hpacked, htotal⟩ := Alu.corrected_adc hx hy (c.flag .c)
  rw [a_decimalColumn hop, flag_decimalColumn hop]
  exact ⟨corrected_decimalColumn hop hpacked rfl, htotal⟩

theorem sbc_decimalColumn (c : Cpu) {p : UInt8 × UInt8} (hx : Packed p.1) (hy : Packed p.2) :
    Corrected true (decimalColumn .sbc c p) ∧
      number (decimalColumn .sbc c p).a + number p.2 + (c.flag .c).toNat = number p.1 +
        100 * ((decimalColumn .sbc c p).flag .c).toNat := by
  have hop : AluOp.sbc ≠ .cp := by decide
  obtain ⟨hpacked, htotal⟩ := Alu.corrected_sbc hx hy (c.flag .c)
  rw [a_decimalColumn hop, flag_decimalColumn hop]
  exact ⟨corrected_decimalColumn hop hpacked rfl, htotal⟩

/-! ## Results -/

/-- What decimal additions over `n` bytes leave: the sum as far as it has room, the carry out of it,
and corrected bytes all along. -/
structure LeavesDecimalSum (c : Cpu) (run : List Cpu) (n x y k : Nat) : Prop where
  length : run.length = n
  corrected : ∀ s ∈ run, Corrected false s
  result : value (run.map Cpu.a) = (x + y + k) % Positional.limit 100 n
  carry : (run.getLastD c).flag .c = true ↔ Positional.limit 100 n ≤ x + y + k

/-- What decimal subtractions over `n` bytes leave: the difference as far as it has room, the borrow of
it, and corrected bytes all along. -/
structure LeavesDecimalDifference (c : Cpu) (run : List Cpu) (n x y k : Nat) : Prop where
  length : run.length = n
  corrected : ∀ s ∈ run, Corrected true s
  result : (value (run.map Cpu.a) : Int) = ((x : Int) - y - k) % Positional.limit 100 n
  carry : (run.getLastD c).flag .c = true ↔ x < y + k

section Sweeps

variable {cols : List (UInt8 × UInt8)} (hcols : cols ≠ []) (hx : ∀ p ∈ cols, Packed p.1)
  (hy : ∀ p ∈ cols, Packed p.2)

include hcols hx hy

theorem leavesDecimalSum_sweep (c : Cpu) :
    LeavesDecimalSum c (sweep (decimalColumn .adc) (decimalColumn .adc) c cols) cols.length
      (value (cols.map Prod.fst)) (value (cols.map Prod.snd)) (c.flag .c).toNat := by
  have hcorrected := forall_mem_sweep (c := c)
    (fun p hp => (adc_decimalColumn c (hx p hp) (hy p hp)).1)
    fun p hp s => (adc_decimalColumn s (hx p hp) (hy p hp)).1
  have hsum := sweep_sum 100 number (decimalColumn .adc) (decimalColumn .adc) c hcols
    (fun p hp => (adc_decimalColumn c (hx p hp) (hy p hp)).2)
    (fun p hp s => (adc_decimalColumn s (hx p hp) (hy p hp)).2)
    fun s hs => number_lt (hcorrected s hs).packed
  simp only [value_map] at hsum
  exact ⟨length_sweep _ _ c cols, hcorrected, hsum.1, hsum.2⟩

theorem leavesDecimalDifference_sweep (c : Cpu) :
    LeavesDecimalDifference c (sweep (decimalColumn .sbc) (decimalColumn .sbc) c cols) cols.length
      (value (cols.map Prod.fst)) (value (cols.map Prod.snd)) (c.flag .c).toNat := by
  have hcorrected := forall_mem_sweep (c := c)
    (fun p hp => (sbc_decimalColumn c (hx p hp) (hy p hp)).1)
    fun p hp s => (sbc_decimalColumn s (hx p hp) (hy p hp)).1
  have hdifference := sweep_difference 100 number (decimalColumn .sbc) (decimalColumn .sbc) c hcols
    (fun p hp => (sbc_decimalColumn c (hx p hp) (hy p hp)).2)
    (fun p hp s => (sbc_decimalColumn s (hx p hp) (hy p hp)).2)
    fun s hs => number_lt (hcorrected s hs).packed
  simp only [value_map] at hdifference
  exact ⟨length_sweep _ _ c cols, hcorrected, hdifference.1, hdifference.2⟩

end Sweeps

/-- **Decimal arithmetic on numbers of any length.**  Additions with carry, each corrected, leave the
decimal sum; subtractions with borrow, each corrected, leave the decimal difference. -/
theorem decimal_sweep (c : Cpu) {n : Nat} (x y : Memory (n + 1)) (hx : ∀ b ∈ x.toList, Packed b)
    (hy : ∀ b ∈ y.toList, Packed b) :
    LeavesDecimalSum c (sweep (decimalColumn .adc) (decimalColumn .adc) c (x.toList.zip y.toList))
        (n + 1) (value x.toList) (value y.toList) (c.flag .c).toNat ∧
      LeavesDecimalDifference c
        (sweep (decimalColumn .sbc) (decimalColumn .sbc) c (x.toList.zip y.toList))
        (n + 1) (value x.toList) (value y.toList) (c.flag .c).toNat := by
  obtain ⟨p, ps, hcols, rfl, hfst, hsnd⟩ := exists_columns x y
  rw [← hfst, List.forall_mem_map] at hx
  rw [← hsnd, List.forall_mem_map] at hy
  have hne := List.cons_ne_nil p ps
  rw [hcols, ← hfst, ← hsnd]
  exact ⟨leavesDecimalSum_sweep hne hx hy c, leavesDecimalDifference_sweep hne hx hy c⟩

theorem decimal_sweep_carrying :
    let sum := sweep (decimalColumn .adc) (decimalColumn .adc) carrying [(0x99, 0x01), (0x99, 0)]
    let difference :=
      sweep (decimalColumn .sbc) (decimalColumn .sbc) carrying [(0, 0x01), (0x10, 0)]
    value (sum.map Cpu.a) = 1 ∧ (sum.getLastD carrying).flag .c = true ∧
      value (difference.map Cpu.a) = 998 ∧ ¬ (difference.getLastD carrying).flag .c = true := by
  intro sum difference
  have hsum : LeavesDecimalSum carrying sum 2 9999 1 1 :=
    (decimal_sweep carrying #v[0x99, 0x99] #v[0x01, 0] (by decide +kernel)
      (by decide +kernel)).1
  have hdifference : LeavesDecimalDifference carrying difference 2 1000 1 1 :=
    (decimal_sweep carrying #v[0, 0x10] #v[0x01, 0] (by decide +kernel)
      (by decide +kernel)).2
  have hresult : (value (difference.map Cpu.a) : Int) = 998 := hdifference.result.trans (by decide)
  have hborrow : ¬ 1000 < 1 + 1 := by decide
  exact ⟨hsum.result, hsum.carry.2 (by decide), by omega,
    fun h => hborrow (hdifference.carry.1 h)⟩

end Cpu

end DotMatrix
