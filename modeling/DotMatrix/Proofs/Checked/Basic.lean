import DotMatrix.Tile

/-!
# Calculations that can trap

Hardware that computes with numbers of fixed width, in memories of fixed size, can be made to stop when
a result does not fit or a position does not exist.  This is the vocabulary for stating a calculation
with all of these checks; where none of them fails, the calculation is that of plain numbers.

* `Trap`, `Checked` — why a calculation stops, and a calculation that may stop.
* `Width` — natural numbers of fixed width, with `Width.add`, `Width.sub`, `Width.mul` and the shifts;
  `SignedWidth` — the same with a sign.
* `fetch`, `store` — elements of a vector at any position; `fetchAt`, `storeAt` — of an array; `slice` —
  a part of a vector.
* `loop` — the loop over the positions from one bound to another.

Principal results: `Width.add_ok` and its like — when an operation does not trap; `loop_eq_foldl` and
`loop_induction` — loops whose body never traps, and loops that keep an invariant.
-/

set_option autoImplicit false

namespace DotMatrix

/-- Why a calculation stops. -/
inductive Trap where
  /-- There is no element at the position. -/
  | outOfBounds (i size : Nat)
  /-- The result does not fit its type. -/
  | overflow
  /-- A number was to be shifted by its own width or more. -/
  | shift
  /-- A byte that was to be a number of two bits is not one. -/
  | twoBits
  /-- An opcode was given to two instructions. -/
  | claimed (key : Nat)
  deriving DecidableEq, Repr

/-- A calculation that may stop. -/
abbrev Checked (α : Type) := Except Trap α

namespace Checked

variable {α β : Type}

@[simp] theorem ok_bind (a : α) (f : α → Checked β) :
    ((Except.ok a : Checked α) >>= f) = f a := rfl

@[simp] theorem pure_eq_ok (a : α) : (pure a : Checked α) = .ok a := rfl

end Checked

/-! ## Numbers of fixed width -/

/-- The types of natural numbers: 8, 16, 32 and 64 bits, and positions in memory, of which 32 bits
are made use of. -/
inductive Width where
  | byte
  | word
  | long
  | quad
  | index
  deriving DecidableEq, Repr

namespace Width

/-- The bits of a number. -/
def bits : Width → Nat
  | byte => 8
  | word => 16
  | long => 32
  | quad => 64
  | index => 32

/-- The first number that does not fit. -/
def limit : Width → Nat
  | byte => 0x100
  | word => 0x10000
  | long => 0x100000000
  | quad => 0x10000000000000000
  | index => 0x100000000

/-- A sum. -/
def add (w : Width) (m n : Nat) : Checked Nat :=
  if m + n < w.limit then .ok (m + n) else .error .overflow

/-- A difference. -/
def sub (_ : Width) (m n : Nat) : Checked Nat :=
  if n ≤ m then .ok (m - n) else .error .overflow

/-- A product. -/
def mul (w : Width) (m n : Nat) : Checked Nat :=
  if m * n < w.limit then .ok (m * n) else .error .overflow

/-- A shift to the left; bits that fall out are lost. -/
def shiftLeft (w : Width) (m n : Nat) : Checked Nat :=
  if n < w.bits then .ok ((m <<< n) % w.limit) else .error .shift

/-- A shift to the right. -/
def shiftRight (w : Width) (m n : Nat) : Checked Nat :=
  if n < w.bits then .ok (m >>> n) else .error .shift

variable {w : Width} {m n : Nat}

theorem add_ok (h : m + n < w.limit) : w.add m n = .ok (m + n) := if_pos h

theorem add_overflow (h : w.limit ≤ m + n) : w.add m n = .error .overflow :=
  if_neg (Nat.not_lt.2 h)

theorem sub_ok (h : n ≤ m) : w.sub m n = .ok (m - n) := if_pos h

theorem mul_ok (h : m * n < w.limit) : w.mul m n = .ok (m * n) := if_pos h

theorem shiftLeft_ok (h : n < w.bits) : w.shiftLeft m n = .ok ((m <<< n) % w.limit) := if_pos h

theorem shiftRight_ok (h : n < w.bits) : w.shiftRight m n = .ok (m >>> n) := if_pos h

end Width

/-- The types of numbers with a sign: 16 bits, and distances between positions. -/
inductive SignedWidth where
  | word
  | distance
  deriving DecidableEq, Repr

namespace SignedWidth

/-- The numbers that fit lie from the opposite of this one to below it. -/
def bound : SignedWidth → Int
  | word => 0x8000
  | distance => 0x80000000

/-- The result, if it fits. -/
def fit (w : SignedWidth) (n : Int) : Checked Int :=
  if -w.bound ≤ n ∧ n < w.bound then .ok n else .error .overflow

/-- A sum. -/
def add (w : SignedWidth) (m n : Int) : Checked Int := w.fit (m + n)

/-- A difference. -/
def sub (w : SignedWidth) (m n : Int) : Checked Int := w.fit (m - n)

variable {w : SignedWidth} {m n : Int}

theorem add_ok (h : -w.bound ≤ m + n ∧ m + n < w.bound) : w.add m n = .ok (m + n) := if_pos h

theorem sub_ok (h : -w.bound ≤ m - n ∧ m - n < w.bound) : w.sub m n = .ok (m - n) := if_pos h

end SignedWidth

/-- A byte read as a two's-complement number. -/
def signedByte (b : UInt8) : Int := if b.toNat < 128 then b.toNat else b.toNat - 256

/-- A distance taken for a position, without a check: a negative one comes out as a large number. -/
def toIndex (n : Int) : Nat := (n % 0x100000000).toNat

theorem toIndex_of_nonneg {n : Int} (h : 0 ≤ n) (hlt : n < 0x100000000) : toIndex n = n.toNat := by
  unfold toIndex
  rw [Int.emod_eq_of_lt h hlt]

/-- A byte that is taken for a colour or a shade. -/
def twoBits (n : Nat) : Checked (Fin 4) := if h : n < 4 then .ok ⟨n, h⟩ else .error .twoBits

theorem twoBits_ok {n : Nat} (h : n < 4) : twoBits n = .ok ⟨n, h⟩ := dif_pos h

/-! ## Elements -/

section Elements

variable {α : Type} {n : Nat}

/-- The element at a position. -/
def fetch (xs : Vector α n) (i : Nat) : Checked α :=
  if h : i < n then .ok xs[i] else .error (.outOfBounds i n)

/-- Changes the element at a position. -/
def store (xs : Vector α n) (i : Nat) (x : α) : Checked (Vector α n) :=
  if h : i < n then .ok (xs.set i x h) else .error (.outOfBounds i n)

theorem fetch_ok (xs : Vector α n) {i : Nat} (h : i < n) : fetch xs i = .ok xs[i] := dif_pos h

theorem store_ok (xs : Vector α n) {i : Nat} (h : i < n) (x : α) :
    store xs i x = .ok (xs.set i x h) := dif_pos h

/-- The elements from one position to below another. -/
def slice (xs : Vector α n) (first stop : Nat) : Checked (Array α) :=
  if first ≤ stop ∧ stop ≤ n then .ok (xs.toArray.extract first stop)
  else .error (.outOfBounds stop n)

theorem slice_ok (xs : Vector α n) {first stop : Nat} (h : first ≤ stop) (hstop : stop ≤ n) :
    slice xs first stop = .ok (xs.toArray.extract first stop) := if_pos ⟨h, hstop⟩

/-- The element at a position of an array. -/
def fetchAt (xs : Array α) (i : Nat) : Checked α :=
  if h : i < xs.size then .ok xs[i] else .error (.outOfBounds i xs.size)

/-- Changes the element at a position of an array. -/
def storeAt (xs : Array α) (i : Nat) (x : α) : Checked (Array α) :=
  if h : i < xs.size then .ok (xs.set i x h) else .error (.outOfBounds i xs.size)

theorem fetchAt_ok {xs : Array α} {i : Nat} (h : i < xs.size) : fetchAt xs i = .ok xs[i] :=
  dif_pos h

theorem storeAt_ok {xs : Array α} {i : Nat} (h : i < xs.size) (x : α) :
    storeAt xs i x = .ok (xs.set i x h) := dif_pos h

theorem fetchAt_extract (xs : Vector α n) {first stop k : Nat} (hk : first + k < stop)
    (hstop : stop ≤ n) : fetchAt (xs.toArray.extract first stop) k = .ok xs[first + k] := by
  rw [fetchAt_ok (by simp only [Array.size_extract, Vector.size_toArray]; omega)]
  simp

end Elements

/-! ## Loops -/

/-- Carries out `body` for the positions from `first` to below `stop`, one after the other. -/
def loop {σ : Type} (first stop : Nat) (s : σ) (body : σ → Nat → Checked σ) : Checked σ :=
  (List.range' first (stop - first)).foldlM body s

section Loops

variable {σ α : Type}

/-- What never traps while an invariant holds is a fold. -/
theorem foldlM_eq_foldl (P : σ → Prop) {f : σ → α → Checked σ} {g : σ → α → σ} {l : List α}
    (hf : ∀ s, P s → ∀ a ∈ l, f s a = .ok (g s a) ∧ P (g s a)) {s : σ} (hs : P s) :
    l.foldlM f s = .ok (l.foldl g s) ∧ P (l.foldl g s) := by
  induction l generalizing s with
  | nil => exact ⟨rfl, hs⟩
  | cons a l ih =>
    obtain ⟨hok, hg⟩ := hf s hs a List.mem_cons_self
    rw [List.foldlM_cons, hok]
    exact ih (fun s hs a ha => hf s hs a (List.mem_cons_of_mem _ ha)) hg

theorem range'_eq_map_finRange (n : Nat) : List.range' 0 n = (List.finRange n).map Fin.val := by
  apply List.ext_getElem <;> simp

/-- A loop from 0 on whose body does not trap while an invariant holds. -/
theorem loop_eq_foldl_of_inv (P : σ → Prop) {n : Nat} {body : σ → Nat → Checked σ}
    {g : σ → Fin n → σ} (hbody : ∀ s, P s → ∀ i : Fin n, body s i.val = .ok (g s i) ∧ P (g s i))
    {s : σ} (hs : P s) : loop 0 n s body = .ok (Fin.foldl n g s) := by
  rw [loop, Nat.sub_zero, range'_eq_map_finRange, List.foldlM_map, Fin.foldl_eq_finRange_foldl]
  exact (foldlM_eq_foldl P (fun s hs i _ => hbody s hs i) hs).1

/-- **A loop whose body never traps is a fold.** -/
theorem loop_eq_foldl {n : Nat} {body : σ → Nat → Checked σ} {g : σ → Fin n → σ}
    (hbody : ∀ (s : σ) (i : Fin n), body s i.val = .ok (g s i)) (s : σ) :
    loop 0 n s body = .ok (Fin.foldl n g s) :=
  loop_eq_foldl_of_inv (fun _ => True) (fun s _ i => ⟨hbody s i, trivial⟩) trivial

/-- **A loop that keeps an invariant**, which may name the position, does not trap and ends with it. -/
theorem loop_induction (P : Nat → σ → Prop) {first stop : Nat} (hle : first ≤ stop)
    {f : σ → Nat → Checked σ}
    (hf : ∀ s i, first ≤ i → i < stop → P i s → ∃ t, f s i = .ok t ∧ P (i + 1) t) {s : σ}
    (hs : P first s) : ∃ t, loop first stop s f = .ok t ∧ P stop t := by
  obtain ⟨k, rfl⟩ := Nat.exists_eq_add_of_le hle
  clear hle
  rw [loop, Nat.add_sub_cancel_left]
  induction k generalizing first s with
  | zero => exact ⟨s, rfl, hs⟩
  | succ k ih =>
    obtain ⟨t, ht, hPt⟩ := hf s first (Nat.le_refl _) (by omega) hs
    have hstop : first + 1 + k = first + (k + 1) := by omega
    rw [List.range'_succ, List.foldlM_cons, ht, ← hstop]
    exact ih hPt fun s i hi hlt => hf s i (by omega) (by omega)

end Loops

end DotMatrix
