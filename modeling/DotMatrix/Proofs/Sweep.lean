import DotMatrix.Proofs.FlagRegister

/-!
# Numbers of many digits

A program adds or subtracts long numbers digit by digit, the lowest first, and each digit takes in the
carry that the digit before it left.

* `Positional.value`, `Positional.limit` — the number that digits stand for, and how many numbers so
  many digits have.
* `AddsUp` — digit by digit, two numbers and a carry add up to a third number and a carry.
* `Cpu.sweep` — the CPU after each of several digits; `Cpu.addsUp_sweep` — what adds up at each digit
  adds up along a sweep.
* `Cpu.column` — a byte loaded into the accumulator, and an operation with another byte;
  `AluOp.carryIn` — the carry that an operation takes in.

Principal results: `AddsUp.value_eq` — what adds up digit by digit adds up as a whole;
`Cpu.sweep_sum`, `Cpu.sweep_difference` — sweeps add and subtract numbers of any length.
-/

set_option autoImplicit false

namespace DotMatrix

/-! ## Digits -/

namespace Positional

/-- The number with the given digits, the lowest first. -/
def value (base : Nat) : List Nat → Nat
  | [] => 0
  | d :: ds => d + base * value base ds

/-- How many numbers there are of `n` digits. -/
def limit (base : Nat) : Nat → Nat
  | 0 => 1
  | n + 1 => base * limit base n

theorem value_lt {base : Nat} {ds : List Nat} (h : ∀ d ∈ ds, d < base) :
    value base ds < limit base ds.length := by
  induction ds with
  | nil => exact Nat.zero_lt_one
  | cons d ds ih =>
    obtain ⟨hd, hds⟩ := List.forall_mem_cons.1 h
    have hle : base * (value base ds + 1) ≤ base * limit base ds.length :=
      Nat.mul_le_mul_left base (ih hds)
    rw [Nat.mul_succ] at hle
    rw [value, List.length_cons, limit]
    omega

end Positional

/-- Digit by digit, two numbers and a carry add up to a third number and a carry. -/
inductive AddsUp (base : Nat) : Nat → List Nat → List Nat → List Nat → Nat → Prop
  | nil (k : Nat) : AddsUp base k [] [] [] k
  | cons {k next last x y r : Nat} {xs ys rs : List Nat} (digit : x + y + k = r + base * next)
    (rest : AddsUp base next xs ys rs last) : AddsUp base k (x :: xs) (y :: ys) (r :: rs) last

namespace AddsUp

open Positional

variable {base k last : Nat} {xs ys rs : List Nat}

/-- **What adds up digit by digit adds up as a whole.** -/
theorem value_eq (h : AddsUp base k xs ys rs last) :
    value base xs + value base ys + k = value base rs + limit base rs.length * last := by
  induction h with
  | nil k => simp only [value, List.length_nil, limit, Nat.one_mul]
  | @cons k next last x y r xs ys rs digit _ ih =>
    have hscaled := congrArg (base * ·) ih
    simp only [Nat.mul_add, ← Nat.mul_assoc] at hscaled
    simp only [value, List.length_cons, limit]
    omega

variable {carry : Bool}

/-- The third number is the sum of the others, as far as it has room for it. -/
theorem sum (h : AddsUp base k xs ys rs carry.toNat) (hrs : ∀ r ∈ rs, r < base) :
    value base rs = (value base xs + value base ys + k) % limit base rs.length ∧
      (carry = true ↔ limit base rs.length ≤ value base xs + value base ys + k) := by
  have hlt := value_lt hrs
  rw [h.value_eq, Nat.add_mul_mod_self_left, Nat.mod_eq_of_lt hlt]
  refine ⟨rfl, ?_⟩
  cases carry <;> simp [hlt]

/-- The first number is the difference of the others, as far as it has room for it. -/
theorem difference (h : AddsUp base k rs ys xs carry.toNat) (hlength : xs.length = rs.length)
    (hrs : ∀ r ∈ rs, r < base) :
    (value base rs : Int) = ((value base xs : Int) - value base ys - k) % limit base rs.length ∧
      (carry = true ↔ value base xs < value base ys + k) := by
  have hlt := value_lt hrs
  have htotal := h.value_eq
  rw [hlength] at htotal
  generalize limit base rs.length = bound at hlt htotal ⊢
  have hmod : (value base rs : Int) % bound = value base rs :=
    Int.emod_eq_of_lt (by omega) (by omega)
  cases carry with
  | false =>
    rw [Bool.toNat_false, Nat.mul_zero] at htotal
    have heq : (value base xs : Int) - value base ys - k = value base rs := by omega
    rw [heq, hmod]
    exact ⟨rfl, by simp; omega⟩
  | true =>
    rw [Bool.toNat_true, Nat.mul_one] at htotal
    have heq : (value base xs : Int) - value base ys - k = value base rs - bound * 1 := by omega
    rw [heq, Int.sub_mul_emod_self_left, hmod]
    exact ⟨rfl, by simp; omega⟩

end AddsUp

/-! ## Sweeps -/

namespace Cpu

section Sweep

variable {α : Type} {first rest : Cpu → α → Cpu} {c : Cpu} {a : α} {as : List α}

/-- The CPU after each of several digits: after work on the first one, and then on each of the
rest. -/
def sweep (first rest : Cpu → α → Cpu) (c : Cpu) : List α → List Cpu
  | [] => []
  | a :: as => first c a :: sweep rest rest (first c a) as

theorem length_sweep (first rest : Cpu → α → Cpu) (c : Cpu) (as : List α) :
    (sweep first rest c as).length = as.length := by
  induction as generalizing first c with
  | nil => rfl
  | cons a as ih => rw [sweep, List.length_cons, ih, List.length_cons]

/-- What the work on any digit leaves holds all along a sweep. -/
theorem forall_mem_sweep {P : Cpu → Prop} (hfirst : ∀ a ∈ as, P (first c a))
    (hrest : ∀ a ∈ as, ∀ s : Cpu, P (rest s a)) : ∀ s ∈ sweep first rest c as, P s := by
  induction as generalizing first c with
  | nil => intro s hs; cases hs
  | cons a as ih =>
    rw [List.forall_mem_cons] at hfirst hrest
    exact List.forall_mem_cons.2 ⟨hfirst.1, ih (fun b hb => hrest.2 b hb _) hrest.2⟩

/-- **What adds up at each digit adds up along a sweep.** -/
theorem addsUp_sweep {base k : Nat} {u v w : α × Cpu → Nat}
    (hfirst : u (a, first c a) + v (a, first c a) + k =
      w (a, first c a) + base * ((first c a).flag .c).toNat)
    (hrest : ∀ b ∈ as, ∀ s : Cpu, u (b, rest s b) + v (b, rest s b) + (s.flag .c).toNat =
      w (b, rest s b) + base * ((rest s b).flag .c).toNat) :
    AddsUp base k (((a :: as).zip (sweep first rest c (a :: as))).map u)
      (((a :: as).zip (sweep first rest c (a :: as))).map v)
      (((a :: as).zip (sweep first rest c (a :: as))).map w)
      (((sweep first rest c (a :: as)).getLastD c).flag .c).toNat := by
  induction as generalizing first c a k with
  | nil => exact .cons hfirst (.nil _)
  | cons b as ih =>
    obtain ⟨hb, hrest⟩ := List.forall_mem_cons.1 hrest
    have htail := ih (hb (first c a)) hrest
    rw [sweep, List.getLastD_cons]
    exact .cons hfirst htail

end Sweep

section Pairs

open Positional

variable {first rest : Cpu → UInt8 × UInt8 → Cpu} {c : Cpu} {cols : List (UInt8 × UInt8)}

theorem map_zip_sweep {f : UInt8 × UInt8 → Nat} :
    ((cols.zip (sweep first rest c cols)).map fun x => f x.1) = cols.map f := by
  show List.map (f ∘ Prod.fst) _ = _
  rw [← List.map_map, List.map_fst_zip (Nat.le_of_eq (length_sweep first rest c cols).symm)]

theorem map_zip_sweep_snd {f : Cpu → Nat} :
    ((cols.zip (sweep first rest c cols)).map fun x => f x.2) = (sweep first rest c cols).map f := by
  show List.map (f ∘ Prod.snd) _ = _
  rw [← List.map_map, List.map_snd_zip (Nat.le_of_eq (length_sweep first rest c cols))]

variable (base : Nat) (digit : UInt8 → Nat) (first rest : Cpu → UInt8 × UInt8 → Cpu) (c : Cpu)
  {k : Nat}

/-- **Sweeps add numbers of any length**, if the work on each pair of digits adds them. -/
theorem sweep_sum (hcols : cols ≠ [])
    (hfirst : ∀ p ∈ cols, digit p.1 + digit p.2 + k =
      digit (first c p).a + base * ((first c p).flag .c).toNat)
    (hrest : ∀ p ∈ cols, ∀ s : Cpu, digit p.1 + digit p.2 + (s.flag .c).toNat =
      digit (rest s p).a + base * ((rest s p).flag .c).toNat)
    (hdigit : ∀ s ∈ sweep first rest c cols, digit s.a < base) :
    value base ((sweep first rest c cols).map fun s => digit s.a) =
        (value base (cols.map fun p => digit p.1) + value base (cols.map fun p => digit p.2) + k) %
          limit base cols.length ∧
      (((sweep first rest c cols).getLastD c).flag .c = true ↔
        limit base cols.length ≤
          value base (cols.map fun p => digit p.1) + value base (cols.map fun p => digit p.2) + k) := by
  obtain ⟨p, ps, rfl⟩ := List.exists_cons_of_ne_nil hcols
  have h := addsUp_sweep (u := fun x => digit x.1.1) (v := fun x => digit x.1.2)
    (w := fun x => digit x.2.a) (hfirst p List.mem_cons_self)
    fun q hq => hrest q (List.mem_cons_of_mem p hq)
  rw [map_zip_sweep (f := fun p => digit p.1), map_zip_sweep (f := fun p => digit p.2),
    map_zip_sweep_snd (f := fun s => digit s.a)] at h
  have hsum := h.sum (List.forall_mem_map.2 hdigit)
  rwa [List.length_map, length_sweep] at hsum

/-- **Sweeps subtract numbers of any length**, if the work on each pair of digits subtracts them. -/
theorem sweep_difference (hcols : cols ≠ [])
    (hfirst : ∀ p ∈ cols, digit (first c p).a + digit p.2 + k =
      digit p.1 + base * ((first c p).flag .c).toNat)
    (hrest : ∀ p ∈ cols, ∀ s : Cpu, digit (rest s p).a + digit p.2 + (s.flag .c).toNat =
      digit p.1 + base * ((rest s p).flag .c).toNat)
    (hdigit : ∀ s ∈ sweep first rest c cols, digit s.a < base) :
    (value base ((sweep first rest c cols).map fun s => digit s.a) : Int) =
        ((value base (cols.map fun p => digit p.1) : Int) -
          value base (cols.map fun p => digit p.2) - k) % limit base cols.length ∧
      (((sweep first rest c cols).getLastD c).flag .c = true ↔
        value base (cols.map fun p => digit p.1) <
          value base (cols.map fun p => digit p.2) + k) := by
  obtain ⟨p, ps, rfl⟩ := List.exists_cons_of_ne_nil hcols
  have h := addsUp_sweep (u := fun x => digit x.2.a) (v := fun x => digit x.1.2)
    (w := fun x => digit x.1.1) (hfirst p List.mem_cons_self)
    fun q hq => hrest q (List.mem_cons_of_mem p hq)
  rw [map_zip_sweep (f := fun p => digit p.1), map_zip_sweep (f := fun p => digit p.2),
    map_zip_sweep_snd (f := fun s => digit s.a)] at h
  have hlength : ((p :: ps).map fun q => digit q.1).length =
      ((sweep first rest c (p :: ps)).map fun s => digit s.a).length := by
    rw [List.length_map, List.length_map, length_sweep]
  have hdifference := h.difference hlength (List.forall_mem_map.2 hdigit)
  rwa [List.length_map, length_sweep] at hdifference

end Pairs

end Cpu

/-! ## Columns -/

/-- Two numbers of as many bytes, at least one, as columns. -/
theorem exists_columns {n : Nat} (x y : Memory (n + 1)) : ∃ p ps, x.toList.zip y.toList = p :: ps ∧
    ps.length = n ∧ (p :: ps).map Prod.fst = x.toList ∧ (p :: ps).map Prod.snd = y.toList := by
  have hlength : x.toList.length = y.toList.length := by
    rw [Vector.length_toList, Vector.length_toList]
  have hzip : (x.toList.zip y.toList).length = n + 1 := by
    rw [List.length_zip, ← hlength, Nat.min_self, Vector.length_toList]
  obtain ⟨p, ps, hcols⟩ := List.exists_cons_of_length_eq_add_one hzip
  rw [hcols, List.length_cons] at hzip
  refine ⟨p, ps, hcols, Nat.succ.inj hzip, ?_, ?_⟩
  · rw [← hcols, List.map_fst_zip (Nat.le_of_eq hlength)]
  · rw [← hcols, List.map_snd_zip (Nat.le_of_eq hlength.symm)]

/-- The carry that an operation takes in. -/
def AluOp.carryIn (op : AluOp) (c : Cpu) : Bool :=
  match op with
  | adc | sbc => c.flag .c
  | _ => false

namespace Cpu

/-- Loads the upper byte of a column and applies an operation with the lower byte. -/
def column (op : AluOp) (c : Cpu) (p : UInt8 × UInt8) : Cpu := { c with a := p.1 }.accumulate op p.2

theorem a_column {op : AluOp} (h : op ≠ .cp) (c : Cpu) (p : UInt8 × UInt8) :
    (column op c p).a = (op.eval p.1 p.2 (c.flag .c)).1 := if_neg h

theorem flag_column (op : AluOp) (c : Cpu) (p : UInt8 × UInt8) (x : Flag) :
    (column op c p).flag x = (op.eval p.1 p.2 (c.flag .c)).2.get x :=
  flag_setFlags { c with a := _ } _ x

end Cpu

end DotMatrix
