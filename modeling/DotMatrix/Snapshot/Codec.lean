import DotMatrix.Memory

/-!
# Codecs

A codec holds both directions of a format, so a format is written down once and its writer and its
reader cannot disagree about the order of the fields.

* `Codec` — a writer and a reader of byte lists; the reader returns the bytes that it left.
* `LittleEndian.bytes`, `LittleEndian.value` — numbers of a fixed width, low byte first;
  `LittleEndian.limit` — how many there are.
* `Codec.u8` … `Codec.u64`, `Codec.bool`, `Codec.blob`, `Codec.segment` — the fields.
* `Codec.pair`, `Codec.map` — composition.
* `Codec.Lawful` — what was written is read back, whatever follows it.

Principal results: `LittleEndian.value_bytes` and `LittleEndian.bytes_value` — the two forms of a
number determine each other; `Codec.Lawful.pair`, `Codec.Lawful.map` — composition keeps the law.
-/

set_option autoImplicit false

namespace DotMatrix

/-- Why a byte stream gives out. -/
inductive StreamError where
  /-- The input ends inside a field. -/
  | endOfInput
  /-- The output is full. -/
  | endOfOutput
  deriving DecidableEq, Repr

/-- The reason in words. -/
def StreamError.message : StreamError → String
  | endOfInput => "failed to fill whole buffer"
  | endOfOutput => "failed to write whole buffer"

/-- Why a field cannot be read or written. -/
inductive CodecError where
  | stream (e : StreamError)
  /-- A truth value is neither 0 nor 1. -/
  | invalidBool (found : UInt8)
  /-- The length before the bytes of a memory is not the size of the memory. -/
  | invalidLength (found expected : Nat)
  deriving DecidableEq, Repr

/-- The reason in words. -/
def CodecError.message : CodecError → String
  | stream e => "io error: " ++ e.message
  | invalidBool found => s!"invalid u8 while decoding bool, expected 0 or 1, found {found.toNat}"
  | invalidLength found expected =>
    s!"invalid length {found}, expected a byte array of {expected} elements"

namespace LittleEndian

/-- The `w` low bytes of a number, the lowest first. -/
def bytes : Nat → Nat → List UInt8
  | 0, _ => []
  | w + 1, n => UInt8.ofNat n :: bytes w (n / 256)

/-- The number with the given bytes, the lowest first. -/
def value : List UInt8 → Nat
  | [] => 0
  | b :: bs => b.toNat + 256 * value bs

/-- How many numbers there are of `w` bytes. -/
def limit : Nat → Nat
  | 0 => 1
  | w + 1 => 256 * limit w

theorem length_bytes (w n : Nat) : (bytes w n).length = w := by
  induction w generalizing n with
  | zero => rfl
  | succ w ih => simp [bytes, ih]

theorem value_lt (bs : List UInt8) : value bs < limit bs.length := by
  induction bs with
  | nil => decide
  | cons b bs ih =>
    have hb := b.toNat_lt
    simp only [value, List.length_cons, limit]
    omega

theorem value_bytes (w n : Nat) (h : n < limit w) : value (bytes w n) = n := by
  induction w generalizing n with
  | zero => simp only [limit] at h; simp only [bytes, value]; omega
  | succ w ih =>
    have hn : n / 256 < limit w := by
      simp only [limit] at h
      exact Nat.div_lt_of_lt_mul h
    simp only [bytes, value, ih _ hn, UInt8.toNat_ofNat']
    omega

theorem bytes_value (bs : List UInt8) : bytes bs.length (value bs) = bs := by
  induction bs with
  | nil => rfl
  | cons b bs ih =>
    have hb := b.toNat_lt
    have h1 : (b.toNat + 256 * value bs) / 256 = value bs := by omega
    have h2 : UInt8.ofNat (b.toNat + 256 * value bs) = b := by
      apply UInt8.toNat.inj
      simp only [UInt8.toNat_ofNat']
      omega
    simp only [List.length_cons, bytes, value, h1, h2, ih]

end LittleEndian

/-- A format for values of a type: how they are written, and how they are read from the front of
an input. -/
structure Codec (α : Type) where
  encode : α → List UInt8
  decode : List UInt8 → Except CodecError (α × List UInt8)

namespace Codec

variable {α β : Type}

/-- The first `n` bytes of an input and the rest. -/
def take (n : Nat) (input : List UInt8) : Except CodecError (List UInt8 × List UInt8) :=
  let front := input.take n
  if front.length = n then .ok (front, input.drop n) else .error (.stream .endOfInput)

/-- A number of `w` bytes. -/
def word (w : Nat) : Codec Nat where
  encode := LittleEndian.bytes w
  decode input := do
    let (front, rest) ← take w input
    return (LittleEndian.value front, rest)

/-- Two fields, one after the other. -/
def pair (first : Codec α) (second : Codec β) : Codec (α × β) where
  encode x := first.encode x.1 ++ second.encode x.2
  decode input := do
    let (a, rest) ← first.decode input
    let (b, rest) ← second.decode rest
    return ((a, b), rest)

/-- The same format for another type. -/
def map (c : Codec α) (read : α → β) (write : β → α) : Codec β where
  encode x := c.encode (write x)
  decode input := do
    let (a, rest) ← c.decode input
    return (read a, rest)

/-- A byte. -/
def u8 : Codec UInt8 := (word 1).map UInt8.ofNat UInt8.toNat

/-- A word of two bytes. -/
def u16 : Codec UInt16 := (word 2).map UInt16.ofNat UInt16.toNat

/-- A word of four bytes. -/
def u32 : Codec UInt32 := (word 4).map UInt32.ofNat UInt32.toNat

/-- A word of eight bytes. -/
def u64 : Codec UInt64 := (word 8).map UInt64.ofNat UInt64.toNat

/-- A truth value: one byte, 0 or 1. -/
def bool : Codec Bool where
  encode x := [if x then 1 else 0]
  decode input := do
    let (b, rest) ← u8.decode input
    if b = 0 then return (false, rest)
    else if b = 1 then return (true, rest)
    else .error (.invalidBool b)

/-- Bytes after their number. -/
def blob : Codec (List UInt8) where
  encode x := (word 8).encode x.length ++ x
  decode input := do
    let (n, rest) ← (word 8).decode input
    take n rest

/-- The bytes of a memory after their number, which must be the size of the memory. -/
def segment (n : Nat) : Codec (Memory n) where
  encode x := blob.encode x.toList
  decode input := do
    let (bytes, rest) ← blob.decode input
    if h : bytes.length = n then return (⟨bytes.toArray, by simpa using h⟩, rest)
    else .error (.invalidLength bytes.length n)

/-- Values with the property `p` are read back as they were written, and the reader stops where the
value ends. -/
def Lawful (c : Codec α) (p : α → Prop) : Prop :=
  ∀ x rest, p x → c.decode (c.encode x ++ rest) = .ok (x, rest)

theorem take_append (front rest : List UInt8) :
    take front.length (front ++ rest) = .ok (front, rest) := by
  simp [take]

theorem lawful_word (w : Nat) : Lawful (word w) (· < LittleEndian.limit w) := by
  intro n rest h
  have ht := take_append (LittleEndian.bytes w n) rest
  rw [LittleEndian.length_bytes] at ht
  simp only [word, ht, LittleEndian.value_bytes w n h, bind, Except.bind, pure, Except.pure]

theorem Lawful.pair {first : Codec α} {second : Codec β} {p : α → Prop} {q : β → Prop}
    (hf : Lawful first p) (hs : Lawful second q) :
    Lawful (pair first second) fun x => p x.1 ∧ q x.2 := by
  intro x rest h
  simp only [Codec.pair, List.append_assoc, hf x.1 _ h.1, hs x.2 _ h.2, bind, Except.bind, pure,
    Except.pure]

theorem Lawful.map {c : Codec α} {p : α → Prop} (hc : Lawful c p) (read : α → β) (write : β → α) :
    Lawful (map c read write) fun x => p (write x) ∧ read (write x) = x := by
  intro x rest h
  simp only [Codec.map, hc _ rest h.1, h.2, bind, Except.bind, pure, Except.pure]

end Codec

end DotMatrix
