import DotMatrix.Proofs.BinaryArithmetic

/-!
# Shifts of numbers of many bytes

A program shifts a long number byte by byte.  A shift to the left starts at the lowest byte and a shift to
the right at the highest, and each byte takes in the bit that fell out of the byte before it.

* `ShiftOp.bitIn` — the bit that a shift takes in at the end that it leaves open.
* `Cpu.shiftBytes` — several bytes shifted one after the other; `Cpu.shiftUp`, `Cpu.shiftDown` — the bytes
  of a number from the lowest on, and from the highest on.
* `LittleEndian.ring` — a number and a carry as a ring of bits, the carry on top.
* `Cpu.Doubled`, `Cpu.Halved`, `Cpu.HalvedSigned`, `Cpu.Rotated` — what passes have to leave.

A byte shifted to the left, and the bit that it took in, are the byte doubled; a byte shifted to the right
is the same read backwards.  So passes in both directions are one relation, `AddsUp`, between a number,
the same number again, and the number with its bits one place further up.

Principal result: `Cpu.shifted_numbers` — passes of any length double, halve and rotate.
-/

set_option autoImplicit false

namespace DotMatrix

/-! ## One byte -/

namespace ShiftOp

/-- The bit that a shift takes in at the end that it leaves open. -/
def bitIn (op : ShiftOp) (v : UInt8) (carry : Bool) : Bool :=
  match op with
  | rlc => topBit v
  | rrc => lowBit v
  | rl => carry
  | rr => carry
  | sra => topBit v
  | sla => false
  | srl => false
  | swap => false

/-- Shifts and rotations to the left. -/
def Leftward (op : ShiftOp) : Prop := op = rlc ∨ op = rl ∨ op = sla

/-- Shifts and rotations to the right. -/
def Rightward (op : ShiftOp) : Prop := op = rrc ∨ op = rr ∨ op = sra ∨ op = srl

variable {op : ShiftOp}

theorem Leftward.eval_eq (h : op.Leftward) (v : UInt8) (carry : Bool) :
    v.toNat + v.toNat + (op.bitIn v carry).toNat =
      (op.eval v carry).1.toNat + 256 * (op.eval v carry).2.toNat := by
  have hbyte : ∀ x : BitVec 8, (UInt8.ofBitVec x).toNat + (UInt8.ofBitVec x).toNat +
      (op.bitIn (UInt8.ofBitVec x) carry).toNat =
        (op.eval (UInt8.ofBitVec x) carry).1.toNat +
          256 * (op.eval (UInt8.ofBitVec x) carry).2.toNat := by
    rcases h with rfl | rfl | rfl <;> cases carry <;> decide
  exact hbyte v.toBitVec

theorem Rightward.eval_eq (h : op.Rightward) (v : UInt8) (carry : Bool) :
    (op.eval v carry).1.toNat + (op.eval v carry).1.toNat + (op.eval v carry).2.toNat =
      v.toNat + 256 * (op.bitIn v carry).toNat := by
  have hbyte : ∀ x : BitVec 8, (op.eval (UInt8.ofBitVec x) carry).1.toNat +
      (op.eval (UInt8.ofBitVec x) carry).1.toNat + (op.eval (UInt8.ofBitVec x) carry).2.toNat =
        (UInt8.ofBitVec x).toNat + 256 * (op.bitIn (UInt8.ofBitVec x) carry).toNat := by
    rcases h with rfl | rfl | rfl | rfl <;> cases carry <;> decide
  exact hbyte v.toBitVec

end ShiftOp

/-! ## Digits from the other end -/

theorem AddsUp.concat {base k next last x y r : Nat} {xs ys rs : List Nat}
    (h : AddsUp base k xs ys rs next) (digit : x + y + next = r + base * last) :
    AddsUp base k (xs ++ [x]) (ys ++ [y]) (rs ++ [r]) last := by
  induction h with
  | nil k => exact .cons digit (.nil last)
  | cons first _ ih => exact .cons first (ih digit)

theorem AddsUp.length_eq {base k last : Nat} {xs ys rs : List Nat}
    (h : AddsUp base k xs ys rs last) : xs.length = rs.length := by
  induction h with
  | nil k => rfl
  | cons _ _ ih => rw [List.length_cons, List.length_cons, ih]

/-- The bytes `rs` and the carry are the bytes `xs` with the bit `k` on their right. -/
def Doubles (k : Bool) (xs rs : List UInt8) (carry : Bool) : Prop :=
  AddsUp 256 k.toNat (xs.map UInt8.toNat) (xs.map UInt8.toNat) (rs.map UInt8.toNat) carry.toNat

namespace LittleEndian

theorem limit_eq_shiftLeft (n : Nat) : limit n = 1 <<< (8 * n) := by
  rw [Nat.one_shiftLeft]
  induction n with
  | zero => rfl
  | succ n ih => rw [limit, ih, Nat.mul_succ, Nat.pow_add, Nat.mul_comm]

/-- The top bit of a number is the one that has no room when the number is doubled. -/
theorem testBit_top {n x : Nat} (h : x < limit (n + 1)) :
    x.testBit (8 * n + 7) = decide (limit (n + 1) ≤ 2 * x) := by
  have hlimit : limit (n + 1) = 2 * 2 ^ (8 * n + 7) := by
    rw [limit_eq_shiftLeft, Nat.one_shiftLeft, Nat.mul_succ, ← Nat.pow_succ']
  rw [hlimit] at h ⊢
  rw [Nat.testBit_eq_decide_div_mod_eq, decide_eq_decide]
  by_cases hlow : x < 2 ^ (8 * n + 7)
  · rw [Nat.div_eq_of_lt hlow]
    omega
  · have hone : x / 2 ^ (8 * n + 7) = 1 := Nat.div_eq_of_lt_le (by omega) (by omega)
    rw [hone]
    omega

/-- In two's complement the top bit counts downwards. -/
theorem bmod_limit {n x : Nat} (h : x < limit (n + 1)) :
    (x : Int).bmod (limit (n + 1)) =
      x - (limit (n + 1) * (x.testBit (8 * n + 7)).toNat : Nat) := by
  have hlimit : limit (n + 1) = 2 * (128 * limit n) := by rw [limit]; omega
  rw [Int.bmod_eq_iff (Nat.zero_lt_of_lt h), testBit_top h]
  by_cases htop : limit (n + 1) ≤ 2 * x
  · rw [decide_eq_true htop, Bool.toNat_true]
    exact ⟨by omega, by omega, ⟨-1, by omega⟩⟩
  · rw [decide_eq_false htop, Bool.toNat_false]
    exact ⟨by omega, by omega, ⟨0, by omega⟩⟩

theorem value_concat (bs : List UInt8) (v : UInt8) :
    value (bs ++ [v]) = value bs + limit bs.length * v.toNat := by
  induction bs with
  | nil => simp [value, limit]
  | cons b bs ih =>
    rw [List.cons_append, value, ih, value, List.length_cons, limit, Nat.mul_add, Nat.mul_assoc,
      Nat.add_assoc]

theorem value_inj {xs ys : List UInt8} (hlength : xs.length = ys.length)
    (h : value xs = value ys) : xs = ys := by
  rw [← bytes_value xs, ← bytes_value ys, hlength, h]

/-- The top bit of a number is that of its highest byte. -/
theorem topBit_eq (bs : List UInt8) (v : UInt8) :
    ShiftOp.topBit v = (value (bs ++ [v])).testBit (8 * bs.length + 7) := by
  have hlt := value_lt (bs ++ [v])
  rw [List.length_append, List.length_singleton] at hlt
  have hbs := value_lt bs
  have hv := v.toNat_lt
  rw [testBit_top hlt, value_concat, limit, ShiftOp.topBit, Nat.testBit_eq_decide_div_mod_eq,
    decide_eq_decide]
  constructor
  · intro h
    have hhigh : limit bs.length * 128 ≤ limit bs.length * v.toNat :=
      Nat.mul_le_mul_left _ (by omega)
    omega
  · intro h
    have hhigh : 128 ≤ v.toNat := by
      refine Nat.le_of_not_lt fun hlow => ?_
      have hsmall : limit bs.length * v.toNat ≤ limit bs.length * 127 :=
        Nat.mul_le_mul_left _ (by omega)
      omega
    omega

/-- A number of `n` bytes and a carry as a ring of bits, the carry on top. -/
def ring (n : Nat) (bs : List UInt8) (carry : Bool) : BitVec (8 * n + 1) :=
  (BitVec.ofNat (8 * n) (value bs)).cons carry

theorem toNat_ring (bs : List UInt8) (carry : Bool) :
    (ring bs.length bs carry).toNat = value bs + limit bs.length * carry.toNat := by
  rw [ring, BitVec.toNat_cons', BitVec.toNat_ofNat, ← Nat.one_shiftLeft, ← limit_eq_shiftLeft,
    Nat.mod_eq_of_lt (value_lt bs), Nat.shiftLeft_eq, ← Nat.one_shiftLeft, ← limit_eq_shiftLeft,
    Nat.mul_comm, Nat.add_comm]

theorem ring_inj {xs ys : List UInt8} {k carry : Bool} (hlength : xs.length = ys.length)
    (h : ring ys.length xs k = ring ys.length ys carry) : xs = ys ∧ k = carry := by
  have htoNat := congrArg BitVec.toNat h
  have hxs := value_lt xs
  have hys := value_lt ys
  rw [toNat_ring, ← hlength, toNat_ring] at htoNat
  rw [← hlength] at hys
  have hk : k = carry := by
    cases k <;> cases carry <;> simp at htoNat ⊢ <;> omega
  rw [hk] at htoNat
  exact ⟨value_inj hlength (Nat.add_right_cancel htoNat), hk⟩

end LittleEndian

section Rotations

variable {w : Nat}

theorem rotateLeft_cons (hw : 0 < w) (x : BitVec w) (b : Bool) :
    (x.cons b).rotateLeft 1 = x.concat b := by
  have hone : 1 % (w + 1) = 1 := Nat.mod_eq_of_lt (by omega)
  apply BitVec.eq_of_getLsbD_eq
  intro i hi
  rw [BitVec.getLsbD_rotateLeft, hone]
  grind

theorem rotateRight_concat (hw : 0 < w) (x : BitVec w) (b : Bool) :
    (x.concat b).rotateRight 1 = x.cons b := by
  have hone : 1 % (w + 1) = 1 := Nat.mod_eq_of_lt (by omega)
  apply BitVec.eq_of_getLsbD_eq
  intro i hi
  rw [BitVec.getLsbD_rotateRight, hone]
  grind

end Rotations

namespace Doubles

open LittleEndian

variable {k carry : Bool} {xs rs : List UInt8}

theorem length_eq (h : Doubles k xs rs carry) : xs.length = rs.length := by
  simpa using AddsUp.length_eq h

theorem value_eq (h : Doubles k xs rs carry) :
    2 * value xs + k.toNat = value rs + limit rs.length * carry.toNat := by
  have hsum := AddsUp.value_eq h
  rw [List.length_map, ← limit_eq, ← LittleEndian.value_eq, ← LittleEndian.value_eq] at hsum
  omega

/-- The ring of the one number is that of the other, turned by a bit. -/
theorem ring_eq (h : Doubles k xs rs carry) :
    ring rs.length rs carry = (BitVec.ofNat (8 * rs.length) (value xs)).concat k := by
  have hxs := value_lt xs
  rw [h.length_eq] at hxs
  apply BitVec.eq_of_toNat_eq
  rw [toNat_ring, ← h.value_eq, BitVec.toNat_concat, BitVec.toNat_ofNat, ← Nat.one_shiftLeft,
    ← limit_eq_shiftLeft, Nat.mod_eq_of_lt hxs, Nat.mul_comm]

/-- The smaller number and the bit on its right are determined by the larger one. -/
theorem source_unique {k' : Bool} {ys : List UInt8} (h : Doubles k xs rs carry)
    (h' : Doubles k' ys rs carry) : xs = ys ∧ k = k' := by
  have hvalue := h.value_eq.trans h'.value_eq.symm
  have hk := k.toNat_le
  have hk' := k'.toNat_le
  refine ⟨value_inj (h.length_eq.trans h'.length_eq.symm) (by omega), ?_⟩
  rw [Bool.eq_iff_iff, ← Bool.toNat_eq_one, ← Bool.toNat_eq_one]
  omega

/-- The larger number and the carry are determined by the smaller one. -/
theorem target_unique {carry' : Bool} {rs' : List UInt8} (h : Doubles k xs rs carry)
    (h' : Doubles k xs rs' carry') : rs = rs' ∧ carry = carry' := by
  have hlength : rs.length = rs'.length := h.length_eq.symm.trans h'.length_eq
  have hring := h.ring_eq
  rw [hlength, ← h'.ring_eq] at hring
  exact ring_inj hlength hring

theorem ring_rotateLeft (h : Doubles k xs rs carry) (hne : 0 < rs.length) :
    (ring rs.length xs k).rotateLeft 1 = ring rs.length rs carry := by
  rw [h.ring_eq, ring, rotateLeft_cons (by omega)]

theorem ring_rotateRight (h : Doubles k xs rs carry) (hne : 0 < rs.length) :
    (ring rs.length rs carry).rotateRight 1 = ring rs.length xs k := by
  rw [h.ring_eq, ring, rotateRight_concat (by omega)]

end Doubles

/-! ## Passes -/

namespace Cpu

/-- Shifts several bytes one after the other, the first one by one shift and the rest by another. -/
def shiftBytes (first rest : ShiftOp) (c : Cpu) : List UInt8 → List UInt8 × Cpu
  | [] => ([], c)
  | v :: vs =>
    let r := c.shift first v
    let s := shiftBytes rest rest r.2 vs
    (r.1 :: s.1, s.2)

/-- Shifts the bytes of a number, the lowest first. -/
def shiftUp (first rest : ShiftOp) (c : Cpu) (bs : List UInt8) : List UInt8 × Cpu :=
  c.shiftBytes first rest bs

/-- Shifts the bytes of a number, the highest first. -/
def shiftDown (first rest : ShiftOp) (c : Cpu) (bs : List UInt8) : List UInt8 × Cpu :=
  let r := c.shiftBytes first rest bs.reverse
  (r.1.reverse, r.2)

theorem carry_shift (c : Cpu) (op : ShiftOp) (v : UInt8) :
    (c.shift op v).2.flag .c = (op.eval v (c.flag .c)).2 :=
  flag_setFlags c _ .c

section Passes

variable {first : ShiftOp}

theorem doubles_shiftUp (hfirst : first.Leftward) (c : Cpu) (v : UInt8) (vs : List UInt8) :
    Doubles (first.bitIn v (c.flag .c)) (v :: vs) (c.shiftUp first .rl (v :: vs)).1
      ((c.shiftUp first .rl (v :: vs)).2.flag .c) := by
  have hdigit := hfirst.eval_eq v (c.flag .c)
  rw [← carry_shift] at hdigit
  induction vs generalizing first c v with
  | nil => exact .cons hdigit (.nil _)
  | cons w vs ih =>
    have hrl : ShiftOp.Leftward .rl := .inr (.inl rfl)
    have hnext := hrl.eval_eq w ((c.shift first v).2.flag .c)
    rw [← carry_shift] at hnext
    exact .cons hdigit (ih hrl _ w hnext)

/-- A pass to the right works on the digits from the highest on, so each step appends to what the steps
after it make of the digits below. -/
theorem doubles_shiftBytes_rr (hfirst : first.Rightward) (c : Cpu) (v : UInt8)
    (vs : List UInt8) :
    Doubles ((c.shiftBytes first .rr (v :: vs)).2.flag .c)
      (c.shiftBytes first .rr (v :: vs)).1.reverse (v :: vs).reverse
      (first.bitIn v (c.flag .c)) := by
  have hdigit := hfirst.eval_eq v (c.flag .c)
  rw [← carry_shift] at hdigit
  induction vs generalizing first c v with
  | nil => exact .cons hdigit (.nil _)
  | cons w vs ih =>
    have hrr : ShiftOp.Rightward .rr := .inr (.inl rfl)
    have hnext := hrr.eval_eq w ((c.shift first v).2.flag .c)
    rw [← carry_shift] at hnext
    have hbelow := AddsUp.concat (ih hrr _ w hnext) hdigit
    rw [shiftBytes, List.reverse_cons, List.reverse_cons, Doubles, List.map_append,
      List.map_append]
    exact hbelow

theorem doubles_shiftDown (hfirst : first.Rightward) (c : Cpu) (vs : List UInt8) (v : UInt8) :
    Doubles ((c.shiftDown first .rr (vs ++ [v])).2.flag .c)
      (c.shiftDown first .rr (vs ++ [v])).1 (vs ++ [v]) (first.bitIn v (c.flag .c)) := by
  have h := doubles_shiftBytes_rr hfirst c v vs.reverse
  rwa [← List.reverse_concat, List.reverse_reverse] at h

end Passes

/-! ## Results -/

open LittleEndian

/-- What a pass leaves that doubles a number `x` of `n` bytes: the bits that have room, and the top bit in
the carry. -/
structure Doubled (n x : Nat) (r : List UInt8 × Cpu) : Prop where
  length : r.1.length = n
  result : value r.1 = 2 * x % limit n
  carry : r.2.flag .c = x.testBit (8 * n - 1)

/-- What a pass leaves that halves a number `x` of `n` bytes: the half, and the lowest bit in the carry. -/
structure Halved (n x : Nat) (r : List UInt8 × Cpu) : Prop where
  length : r.1.length = n
  result : value r.1 = x / 2
  carry : r.2.flag .c = x.testBit 0

/-- What a pass leaves that halves a number `x` of `n` bytes in two's complement: the half rounded down,
and the lowest bit in the carry. -/
structure HalvedSigned (n x : Nat) (r : List UInt8 × Cpu) : Prop where
  length : r.1.length = n
  result : (value r.1 : Int).bmod (limit n) = (x : Int).bmod (limit n) / 2
  carry : r.2.flag .c = x.testBit 0

variable {n : Nat} {bs : List UInt8} {r : List UInt8 × Cpu}

theorem doubled_of_doubles (hlength : bs.length = n + 1)
    (h : Doubles false bs r.1 (r.2.flag .c)) : Doubled (n + 1) (value bs) r := by
  have hvalue := h.value_eq
  have hr := value_lt r.1
  have hbs := value_lt bs
  rw [← h.length_eq, hlength] at hvalue hr
  rw [hlength] at hbs
  refine ⟨h.length_eq.symm.trans hlength, ?_, ?_⟩
  · rw [Bool.toNat_false, Nat.add_zero] at hvalue
    rw [hvalue, Nat.add_mul_mod_self_left, Nat.mod_eq_of_lt hr]
  · rw [show 8 * (n + 1) - 1 = 8 * n + 7 from rfl, testBit_top hbs]
    cases hcarry : r.2.flag .c with
    | false =>
      rw [hcarry, Bool.toNat_false, Nat.mul_zero] at hvalue
      exact (decide_eq_false (by omega)).symm
    | true =>
      rw [hcarry, Bool.toNat_false, Bool.toNat_true, Nat.mul_one] at hvalue
      exact (decide_eq_true (by omega)).symm

/-- An even summand leaves the lowest bit alone. -/
theorem lowest_bit {x y z : Nat} {out : Bool} (h : 2 * y + out.toNat = x + 2 * z) :
    out = x.testBit 0 := by
  have hout := out.toNat_le
  rw [Nat.testBit_zero, Bool.eq_iff_iff, decide_eq_true_iff, ← Bool.toNat_eq_one]
  omega

theorem halved_of_doubles (hlength : bs.length = n + 1)
    (h : Doubles (r.2.flag .c) r.1 bs false) : Halved (n + 1) (value bs) r := by
  have hvalue := h.value_eq
  have hout := (r.2.flag .c).toNat_le
  rw [Bool.toNat_false, Nat.mul_zero] at hvalue
  exact ⟨h.length_eq.trans hlength, by omega, lowest_bit (z := 0) hvalue⟩

/-- Copying the top bit divides a negative number as well: the copy stands for the limit that was taken
off. -/
theorem halvedSigned_of_doubles (hlength : bs.length = n + 1)
    (h : Doubles (r.2.flag .c) r.1 bs ((value bs).testBit (8 * n + 7))) :
    HalvedSigned (n + 1) (value bs) r := by
  have hvalue := h.value_eq
  have hbs := value_lt bs
  have hr := value_lt r.1
  have hout := (r.2.flag .c).toNat_le
  have hlimit : limit (n + 1) = 2 * (128 * limit n) := by rw [limit]; omega
  rw [h.length_eq] at hr
  rw [hlength] at hvalue hbs hr
  have htop : (value r.1).testBit (8 * n + 7) = (value bs).testBit (8 * n + 7) := by
    rw [testBit_top hbs] at hvalue
    rw [testBit_top hr, testBit_top hbs, decide_eq_decide]
    by_cases hnegative : limit (n + 1) ≤ 2 * value bs
    · rw [decide_eq_true hnegative, Bool.toNat_true] at hvalue
      omega
    · rw [decide_eq_false hnegative, Bool.toNat_false] at hvalue
      omega
  have hlow := hvalue
  rw [hlimit, Nat.mul_assoc] at hlow
  refine ⟨h.length_eq.trans hlength, ?_, lowest_bit hlow⟩
  rw [bmod_limit hr, bmod_limit hbs, htop]
  generalize limit (n + 1) * ((value bs).testBit (8 * n + 7)).toNat = weight at *
  omega

/-- What a pass leaves that undoes another one. -/
structure Restored (c : Cpu) (bs : List UInt8) (r : List UInt8 × Cpu) : Prop where
  bytes : r.1 = bs
  carry : r.2.flag .c = c.flag .c

/-- What rotations through the carry do to a number of `n` bytes: the ring of its bits and the carry turns
by one place, to the left and to the right, and a turn to one side undoes a turn to the other. -/
structure Rotated (c : Cpu) (n : Nat) (bs : List UInt8) : Prop where
  left : ring n (c.shiftUp .rl .rl bs).1 ((c.shiftUp .rl .rl bs).2.flag .c) =
    (ring n bs (c.flag .c)).rotateLeft 1
  right : ring n (c.shiftDown .rr .rr bs).1 ((c.shiftDown .rr .rr bs).2.flag .c) =
    (ring n bs (c.flag .c)).rotateRight 1
  leftRight : Restored c bs ((c.shiftUp .rl .rl bs).2.shiftDown .rr .rr (c.shiftUp .rl .rl bs).1)
  rightLeft : Restored c bs
    ((c.shiftDown .rr .rr bs).2.shiftUp .rl .rl (c.shiftDown .rr .rr bs).1)

theorem doubles_rl (c : Cpu) (bs : List UInt8) :
    Doubles (c.flag .c) bs (c.shiftUp .rl .rl bs).1 ((c.shiftUp .rl .rl bs).2.flag .c) := by
  cases bs with
  | nil => exact .nil _
  | cons v vs => exact doubles_shiftUp (.inr (.inl rfl)) c v vs

theorem doubles_rr (c : Cpu) (bs : List UInt8) :
    Doubles ((c.shiftDown .rr .rr bs).2.flag .c) (c.shiftDown .rr .rr bs).1 bs (c.flag .c) := by
  rcases List.eq_nil_or_concat bs with rfl | ⟨vs, v, rfl⟩
  · exact .nil _
  · rw [List.concat_eq_append]
    exact doubles_shiftDown (.inr (.inl rfl)) c vs v

theorem rotated (c : Cpu) (hlength : bs.length = n + 1) : Rotated c (n + 1) bs where
  left := by
    have h := doubles_rl c bs
    have hr := h.length_eq.symm.trans hlength
    rw [← hr, h.ring_rotateLeft (hr ▸ n.succ_pos)]
  right := by
    have h := doubles_rr c bs
    rw [← hlength, h.ring_rotateRight (hlength ▸ n.succ_pos)]
  leftRight := by
    have hdown := doubles_rr (c.shiftUp .rl .rl bs).2 (c.shiftUp .rl .rl bs).1
    obtain ⟨hbytes, hcarry⟩ := hdown.source_unique (doubles_rl c bs)
    exact ⟨hbytes, hcarry⟩
  rightLeft := by
    have hup := doubles_rl (c.shiftDown .rr .rr bs).2 (c.shiftDown .rr .rr bs).1
    obtain ⟨hbytes, hcarry⟩ := hup.target_unique (doubles_rr c bs)
    exact ⟨hbytes, hcarry⟩

/-- **Shifts and rotations of numbers of any length.**  Shifted up from the lowest byte, a number is
doubled; shifted down from the highest byte, it is halved, with its sign if the first shift keeps the top
bit; and rotations through the carry turn the ring of its bits and the carry. -/
theorem shifted_numbers (c : Cpu) {n : Nat} (x : Memory (n + 1)) :
    Doubled (n + 1) (value x.toList) (c.shiftUp .sla .rl x.toList) ∧
      Halved (n + 1) (value x.toList) (c.shiftDown .srl .rr x.toList) ∧
      HalvedSigned (n + 1) (value x.toList) (c.shiftDown .sra .rr x.toList) ∧
      Rotated c (n + 1) x.toList := by
  have hlength : x.toList.length = n + 1 := Vector.length_toList
  generalize x.toList = bs at hlength
  obtain ⟨v, vs, hlowest⟩ := List.exists_cons_of_length_eq_add_one hlength
  obtain ⟨ws, w, hhighest⟩ : ∃ ws w, bs = ws ++ [w] := by
    rcases List.eq_nil_or_concat bs with rfl | ⟨ws, w, h⟩
    · cases hlength
    · exact ⟨ws, w, h.trans List.concat_eq_append⟩
  refine ⟨doubled_of_doubles hlength ?_, halved_of_doubles hlength ?_,
    halvedSigned_of_doubles hlength ?_, rotated c hlength⟩
  · rw [hlowest]
    exact doubles_shiftUp (.inr (.inr rfl)) c v vs
  · rw [hhighest]
    exact doubles_shiftDown (.inr (.inr (.inr rfl))) c ws w
  · rw [hhighest, List.length_append, List.length_singleton] at hlength
    rw [hhighest, ← Nat.succ.inj hlength, ← topBit_eq]
    exact doubles_shiftDown (.inr (.inr (.inl rfl))) c ws w

end Cpu

end DotMatrix
