import DotMatrix.Snapshot.Layout

/-!
# Saving and restoring a machine

A saved machine is a header of eight bytes, the letters `DMGS` and a version number, and a
snapshot.  Restoring checks what the format alone does not say: the size of external RAM, and that
the video unit is in a state that it can reach.

* `Machine.save`, `Machine.saveInto` — writing, without and with a limit.
* `Machine.restore` — reading; the settings stay those of the machine that is restored into.
* `Snapshot.Valid` — what is checked; `Snapshot.check` checks it and says what is wrong.
* `Snapshot.complete` — a snapshot with its tiles, once it has passed the check.
* `SnapshotError` — why a machine cannot be saved or restored.
-/

set_option autoImplicit false

namespace DotMatrix

/-- What is wrong with a snapshot that has the right format. -/
inductive Corruption where
  | eramSize
  | line
  | clock
  deriving DecidableEq, Repr

/-- The reason in words. -/
def Corruption.message : Corruption → String
  | eramSize => "external RAM size"
  | line => "LY out of range"
  | clock => "GPU mode clock past rollover"

/-- Why a machine cannot be saved or restored. -/
inductive SnapshotError where
  /-- The header does not begin with the right letters. -/
  | badMagic
  | unsupportedVersion (version : Nat)
  | corrupt (c : Corruption)
  /-- Something is wrong after the header. -/
  | encoding (e : CodecError)
  /-- Input or output ends within the header. -/
  | io (e : StreamError)
  deriving DecidableEq, Repr

/-- The reason in words. -/
def SnapshotError.message : SnapshotError → String
  | badMagic => "not a save state (bad magic)"
  | unsupportedVersion version => s!"unsupported save state version {version}"
  | corrupt c => "corrupt save state: " ++ c.message
  | encoding e => "save state encoding failed: " ++ e.message
  | io e => "save state I/O failed: " ++ e.message

namespace Snapshot

/-- The letters at the front of a saved machine. -/
def magic : List UInt8 := [0x44, 0x4D, 0x47, 0x53]

/-- The version of the format. -/
def version : Nat := 1

/-- The bytes in front of the snapshot. -/
def header : List UInt8 := magic ++ LittleEndian.bytes 4 version

/-- External RAM has its usual size, the line exists, and the mode is not over yet. -/
structure Valid (s : Snapshot) : Prop where
  eram : s.bus.eram.size = Bus.eramSize
  line : s.bus.video.regs.ly ≤ Video.lastLine
  clock : s.bus.video.clock.toNat < s.bus.video.regs.mode.duration

/-- Says what is wrong with a snapshot, if anything is; of several things the first. -/
def check (s : Snapshot) : Option Corruption :=
  if s.bus.eram.size ≠ Bus.eramSize then some .eramSize
  else if Video.lastLine < s.bus.video.regs.ly then some .line
  else if s.bus.video.regs.mode.duration ≤ s.bus.video.clock.toNat then some .clock
  else none

theorem check_eq_none_iff (s : Snapshot) : s.check = none ↔ s.Valid := by
  unfold check
  constructor
  · intro h
    split at h
    · cases h
    · split at h
      · cases h
      · split at h
        · cases h
        · rename_i h1 h2 h3
          exact ⟨Decidable.not_not.mp h1, UInt8.not_lt.mp h2, Nat.lt_of_not_le h3⟩
  · intro h
    rw [if_neg (Decidable.not_not.mpr h.eram), if_neg (UInt8.not_lt.mpr h.line),
      if_neg (Nat.not_le.mpr h.clock)]

/-- Reads the header and returns what follows it. -/
def readHeader (input : List UInt8) : Except SnapshotError (List UInt8) :=
  match Codec.take 4 input with
  | .error _ => .error (.io .endOfInput)
  | .ok (letters, rest) =>
    if letters ≠ magic then .error .badMagic
    else match (Codec.word 4).decode rest with
      | .error _ => .error (.io .endOfInput)
      | .ok (v, rest) => if v ≠ version then .error (.unsupportedVersion v) else .ok rest

/-- Reads a saved machine and checks it; what follows it does not matter. -/
def parse (input : List UInt8) : Except SnapshotError Snapshot :=
  match readHeader input with
  | .error e => .error e
  | .ok body =>
    match Layout.snapshot.decode body with
    | .error e => .error (.encoding e)
    | .ok (s, _) =>
      match s.check with
      | some c => .error (.corrupt c)
      | none => .ok s

/-- Makes good what the format leaves open: the low half of register F, which has no flags, is cleared,
and the tiles are decoded from video memory. -/
def complete (s : Snapshot) : Snapshot :=
  { s with
    cpu := { s.cpu with f := s.cpu.f &&& 0xF0 }
    bus := { s.bus with video := s.bus.video.decodeTiles } }

end Snapshot

namespace Machine

/-- What is stored of a machine. -/
def snapshot (m : Machine) : Snapshot :=
  { cpu := m.cpu, bus := m.bus, cycles := m.cycles, frames := m.frames }

/-- The bytes of a saved machine. -/
def save (m : Machine) : List UInt8 := Snapshot.header ++ Layout.snapshot.encode m.snapshot

/-- Saves a machine where there is room for so many bytes. -/
def saveInto (m : Machine) (capacity : Nat) : Except SnapshotError (List UInt8) :=
  let bytes := m.save
  if capacity < Snapshot.header.length then .error (.io .endOfOutput)
  else if capacity < bytes.length then .error (.encoding (.stream .endOfOutput))
  else .ok bytes

/-- Replaces the state of a machine by a saved one and keeps its settings. -/
def restore (m : Machine) (input : List UInt8) : Except SnapshotError Machine :=
  match Snapshot.parse input with
  | .error e => .error e
  | .ok s =>
    let s := s.complete
    .ok { cpu := s.cpu, bus := s.bus, config := m.config, cycles := s.cycles, frames := s.frames }

end Machine

end DotMatrix
