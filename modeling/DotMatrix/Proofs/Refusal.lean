import DotMatrix.Proofs.Resume

/-!
# Refused steps

A step works on the machine in place: whatever it has changed before it is refused stays changed.
Nothing has been: the only reason to refuse a step is its opcode, and that is looked up before the
first change.

* `Cpu.stepInPlace`, `Machine.stepInPlace`, `Machine.runFrameInPlace` — steps change by change.
* `Machine.attempts` — steps that are tried again, whether they are refused or not.
* `Machine.Advances` — the machines that a number of successful steps leads to.
* `Opcode.missing` — the opcodes without an instruction.

Principal results: `Machine.stepInPlace_on`, `Machine.runFrameInPlace_on` — in place, steps and runs do
what `Machine.stepOnce` and `Machine.runFrame` say; `Machine.run_completes_iff`,
`Machine.run_stops_iff` — where a run ends; `Machine.refusals` — which steps are refused, and what is
left then.
-/

set_option autoImplicit false

namespace DotMatrix

/-! ## Steps in place -/

namespace Cpu

/-- Carries out the instruction at the program counter: looks the opcode up, switches the advance of
the program counter on, carries out the instruction, advances, switches the advance on again. -/
def stepInPlace : InPlace Fault (Cpu × Bus) Nat := do
  let (c, b) ← get
  let op := Opcode.fetch b c.pc
  match op.decode? with
  | none => throw (.unimplemented op c.pc)
  | some i =>
    modify fun (c, b) => ({ c with autoAdvance := true }, b)
    let (c, b) ← get
    let r := i.exec c b
    set (r.cpu, r.bus)
    if r.cpu.autoAdvance then
      modify fun (c, b) => ({ c with pc := c.pc + UInt16.ofNat i.length }, b)
    modify fun (c, b) => ({ c with autoAdvance := true }, b)
    return r.cycles

theorem stepInPlace_on (c : Cpu) (b : Bus) :
    stepInPlace.on (c, b) =
      match c.step b with
      | .error fault => (.error fault, c, b)
      | .ok r => (.ok r.cycles, r.cpu, r.bus) := by
  unfold step stepInPlace
  simp only [InPlace.on_bind, InPlace.on_get]
  cases hd : (Opcode.fetch b c.pc).decode? with
  | none => rw [InPlace.on_throw]
  | some i =>
    simp only [InPlace.on_bind, InPlace.on_modify, InPlace.on_get, InPlace.on_set, InPlace.on_ite,
      InPlace.on_pure, carryOut, advance]
    generalize i.exec { c with autoAdvance := true } b = r
    cases r.cpu.autoAdvance <;> rfl

end Cpu

/-! ## Machines in place -/

/-- What a run returns: nothing, or the reason why it ended early. -/
def Run.result (r : Run) : Except Fault Unit :=
  match r.fault with
  | none => .ok ()
  | some fault => .error fault

theorem Run.result_eq_ok_iff {r : Run} : r.result = .ok () ↔ r.fault = none := by
  unfold Run.result
  cases r.fault <;> simp

theorem Run.result_eq_error_iff {r : Run} {fault : Fault} :
    r.result = .error fault ↔ r.fault = some fault := by
  unfold Run.result
  cases r.fault <;> simp

namespace Machine

/-- Carries out work on CPU and bus of a machine. -/
def onCpu {α : Type} (work : InPlace Fault (Cpu × Bus) α) : InPlace Fault Machine α :=
  fun m =>
    let r := work.on (m.cpu, m.bus)
    (r.1, { m with cpu := r.2.1, bus := r.2.2 })

/-- Carries out one instruction, lets the time that it took pass in the video unit, and counts. -/
def stepInPlace : InPlace Fault Machine Step := do
  let cycles ← onCpu Cpu.stepInPlace
  let m ← get
  let r := m.bus.video.tick (UInt32.ofNat (ticksPerCycle * cycles))
  set (m.withVideo r.1)
  modify fun m => { m with cycles := m.cycles + UInt64.ofNat cycles }
  if r.2 then
    modify fun m => { m with frames := m.frames + 1 }
  return { cycles := cycles, frameComplete := r.2 }

/-- Makes `n` steps; one that is refused ends the work. -/
def stepsInPlace : Nat → InPlace Fault Machine Unit
  | 0 => pure ()
  | n + 1 => do
    let _ ← stepInPlace
    stepsInPlace n

/-- Makes as many steps as the settings say. -/
def runFrameInPlace : InPlace Fault Machine Unit := do
  stepsInPlace (← get).config.stepsPerFrame

/-- Tries to make `n` steps, whether the ones before were refused or not. -/
def attempts : Nat → Machine → List (Except Fault Step) × Machine
  | 0, m => ([], m)
  | n + 1, m =>
    let r := stepInPlace.on m
    let rest := attempts n r.2
    (r.1 :: rest.1, rest.2)

theorem onCpu_on {α : Type} (work : InPlace Fault (Cpu × Bus) α) (m : Machine) :
    (onCpu work).on m =
      ((work.on (m.cpu, m.bus)).1,
        { m with cpu := (work.on (m.cpu, m.bus)).2.1, bus := (work.on (m.cpu, m.bus)).2.2 }) :=
  rfl

/-- **In place, a step does what it does to machines as values**, and one that is refused leaves
the machine as it was. -/
theorem stepInPlace_on (m : Machine) : stepInPlace.on m = m.stepOnce := by
  unfold stepInPlace stepOnce step
  simp only [InPlace.on_bind, onCpu_on, Cpu.stepInPlace_on]
  cases m.cpu.step m.bus with
  | error fault => rfl
  | ok r =>
    simp only [InPlace.on_bind, InPlace.on_modify, InPlace.on_get, InPlace.on_set, InPlace.on_ite,
      InPlace.on_pure, elapse, withVideo]
    generalize r.bus.video.tick _ = v
    obtain ⟨v, complete⟩ := v
    cases complete <;> rfl

theorem stepsInPlace_on (n : Nat) (m : Machine) :
    (stepsInPlace n).on m = ((m.run n).result, (m.run n).machine) := by
  induction n generalizing m with
  | zero => rfl
  | succ n ih =>
    rw [stepsInPlace, InPlace.on_bind, stepInPlace_on]
    unfold stepOnce
    cases hs : m.step with
    | error fault => rw [run, runFrom, hs]; rfl
    | ok r =>
      obtain ⟨m', s⟩ := r
      obtain ⟨hmachine, hfault⟩ := run_succ hs n
      rw [hmachine, Run.result, hfault]
      exact ih m'

theorem runFrameInPlace_on (m : Machine) :
    runFrameInPlace.on m = (m.runFrame.result, m.runFrame.machine) := by
  rw [runFrameInPlace, InPlace.on_bind, InPlace.on_get]
  exact stepsInPlace_on m.config.stepsPerFrame m

/-! ## Where a run stops -/

/-- So many successful steps lead from a machine to another one. -/
inductive Advances : Machine → Nat → Machine → Prop
  | done (m : Machine) : Advances m 0 m
  | step {m next m' : Machine} {s : Step} {n : Nat} (hs : m.step = .ok (next, s))
    (h : Advances next n m') : Advances m (n + 1) m'

variable {m m' : Machine}

theorem advances_zero_iff : m.Advances 0 m' ↔ m = m' := by
  constructor
  · rintro ⟨-⟩
    rfl
  · rintro rfl
    exact .done m

theorem advances_succ_iff {next : Machine} {s : Step} (hs : m.step = .ok (next, s)) {n : Nat} :
    m.Advances (n + 1) m' ↔ next.Advances n m' := by
  constructor
  · intro h
    cases h with
    | step ht h =>
      rw [hs] at ht
      cases ht
      exact h
  · exact .step hs

theorem not_advances_of_refused {fault : Fault} (hs : m.step = .error fault) {n : Nat} :
    ¬ m.Advances (n + 1) m' := by
  intro h
  cases h with
  | step ht _ =>
    rw [hs] at ht
    cases ht

/-- A run returns nothing after all of its steps. -/
theorem run_completes_iff (n : Nat) :
    (m.run n).fault = none ∧ (m.run n).machine = m' ↔ m.Advances n m' := by
  induction n generalizing m with
  | zero => exact (and_iff_right rfl).trans advances_zero_iff.symm
  | succ n ih =>
    cases hs : m.step with
    | error fault =>
      rw [run, runFrom, hs, iff_false_right (not_advances_of_refused hs)]
      rintro ⟨hfault, -⟩
      cases hfault
    | ok r =>
      obtain ⟨hmachine, hfault⟩ := run_succ hs n
      rw [hmachine, hfault, advances_succ_iff hs]
      exact ih

/-- **A run stops at the first machine that refuses its step**, and leaves it. -/
theorem run_stops_iff (n : Nat) (fault : Fault) :
    (m.run n).fault = some fault ∧ (m.run n).machine = m' ↔
      ∃ k < n, m.Advances k m' ∧ m'.step = .error fault := by
  induction n generalizing m with
  | zero =>
    constructor
    · rintro ⟨hfault, -⟩
      cases hfault
    · rintro ⟨k, hk, -⟩
      exact absurd hk (Nat.not_lt_zero k)
  | succ n ih =>
    cases hs : m.step with
    | error refusal =>
      have hrun : (m.run (n + 1)).fault = some refusal ∧ (m.run (n + 1)).machine = m := by
        rw [run, runFrom, hs]
        exact ⟨rfl, rfl⟩
      rw [hrun.1, hrun.2]
      constructor
      · rintro ⟨hfault, rfl⟩
        exact ⟨0, Nat.succ_pos n, .done m, hs.trans (congrArg _ (Option.some.inj hfault))⟩
      · rintro ⟨k, -, hadvances, hfault⟩
        cases k with
        | zero =>
          obtain rfl := advances_zero_iff.1 hadvances
          rw [hs] at hfault
          exact ⟨congrArg _ (Except.error.inj hfault), rfl⟩
        | succ k => exact absurd hadvances (not_advances_of_refused hs)
    | ok r =>
      obtain ⟨hmachine, hfault⟩ := run_succ hs n
      rw [hmachine, hfault, ih]
      constructor
      · rintro ⟨k, hk, hadvances, hrefused⟩
        exact ⟨k + 1, Nat.succ_lt_succ hk, .step hs hadvances, hrefused⟩
      · rintro ⟨k, hk, hadvances, hrefused⟩
        cases k with
        | zero =>
          obtain rfl := advances_zero_iff.1 hadvances
          rw [hs] at hrefused
          cases hrefused
        | succ k =>
          exact ⟨k, Nat.lt_of_succ_lt_succ hk, (advances_succ_iff hs).1 hadvances, hrefused⟩

end Machine

/-! ## Opcodes without an instruction -/

namespace Opcode

/-- The one-byte opcodes that have no instruction and do not begin a longer opcode. -/
def missing : List UInt8 := [0xD3, 0xDB, 0xDD, 0xE3, 0xE4, 0xEB, 0xEC, 0xED, 0xF4, 0xFC, 0xFD]

theorem decodeBase?_eq_none_iff (b : UInt8) : decodeBase? b = none ↔ b = 0xCB ∨ b ∈ missing := by
  have h : ∀ x : BitVec 8, decodeBase? (UInt8.ofBitVec x) = none ↔
      UInt8.ofBitVec x = 0xCB ∨ UInt8.ofBitVec x ∈ missing := by
    decide
  exact h b.toBitVec

/-- Of the opcodes that can be fetched, those that begin with 0xCB all have an instruction, wherever
their second byte is. -/
theorem decode?_fetch_eq_none_iff (b : Bus) (pc : UInt16) :
    (fetch b pc).decode? = none ↔ b.read pc ∈ missing := by
  unfold fetch
  by_cases hlong : b.read pc = 0xCB
  · have hnot : ¬ (0xCB : UInt8) ∈ missing := by decide
    simp only [hlong, if_true, decode?, reduceCtorEq, hnot]
  · simp only [hlong, if_false, decode?, decodeBase?_eq_none_iff, false_or]

theorem fetch_of_missing {b : Bus} {pc : UInt16} (h : b.read pc ∈ missing) :
    fetch b pc = base (b.read pc) := by
  have hne : b.read pc ≠ 0xCB := by
    intro hlong
    rw [hlong] at h
    exact absurd h (by decide)
  exact if_neg hne

end Opcode

namespace Machine

variable {m : Machine}

theorem step_eq_error_iff {fault : Fault} :
    m.step = .error fault ↔
      m.bus.read m.cpu.pc ∈ Opcode.missing ∧
        fault = .unimplemented (.base (m.bus.read m.cpu.pc)) m.cpu.pc := by
  rw [← Opcode.decode?_fetch_eq_none_iff]
  unfold step Cpu.step
  cases hd : (Opcode.fetch m.bus m.cpu.pc).decode? with
  | none =>
    have hfetch := Opcode.fetch_of_missing ((Opcode.decode?_fetch_eq_none_iff _ _).1 hd)
    simp only [hd, Except.error.injEq, true_and]
    rw [hfetch]
    exact eq_comm
  | some i => simp only [hd, reduceCtorEq, false_and]

theorem attempts_of_refused {fault : Fault} (h : m.step = .error fault) (n : Nat) :
    attempts n m = (List.replicate n (.error fault), m) := by
  have honce : stepInPlace.on m = (.error fault, m) := by
    rw [stepInPlace_on, stepOnce, h]
  induction n with
  | zero => rfl
  | succ n ih => simp only [attempts, honce, ih, List.replicate_succ]

theorem stepInPlace_eq_error_iff {m' : Machine} {fault : Fault} :
    stepInPlace.on m = (.error fault, m') ↔ m.step = .error fault ∧ m' = m := by
  rw [stepInPlace_on, stepOnce]
  cases m.step with
  | error refusal =>
    simp only [Prod.mk.injEq, Except.error.injEq]
    exact and_congr_right fun _ => eq_comm
  | ok r => simp only [Prod.mk.injEq, reduceCtorEq, false_and]

theorem exists_stepInPlace_eq_ok (h : m.bus.read m.cpu.pc ∉ Opcode.missing) :
    ∃ s m', stepInPlace.on m = (.ok s, m') := by
  rw [stepInPlace_on, stepOnce]
  cases hs : m.step with
  | error fault => exact absurd (step_eq_error_iff.1 hs).1 h
  | ok r => exact ⟨r.2, r.1, rfl⟩

/-- **Refused steps.**  A step is refused for the opcodes without an instruction and no other, those
of two bytes all have one; the refusal names opcode and place, nothing has changed, and trying again
is refused again.  A run for a frame is refused when one of its steps is, and leaves the machine to
which the steps before it led. -/
theorem refusals (m : Machine) :
    (∀ fault m', stepInPlace.on m = (.error fault, m') ↔
      m.bus.read m.cpu.pc ∈ Opcode.missing ∧
        fault = .unimplemented (.base (m.bus.read m.cpu.pc)) m.cpu.pc ∧ m' = m) ∧
      (m.bus.read m.cpu.pc = 0xCB → ∃ s m', stepInPlace.on m = (.ok s, m')) ∧
      (∀ fault m', stepInPlace.on m = (.error fault, m') →
        ∀ n, attempts n m' = (List.replicate n (.error fault), m)) ∧
      (∀ m', runFrameInPlace.on m = (.ok (), m') ↔ m.Advances m.config.stepsPerFrame m') ∧
      ∀ fault m', runFrameInPlace.on m = (.error fault, m') ↔
        ∃ k < m.config.stepsPerFrame, m.Advances k m' ∧
          stepInPlace.on m' = (.error fault, m') := by
  refine ⟨?_, ?_, ?_, ?_, ?_⟩
  · intro fault m'
    rw [stepInPlace_eq_error_iff, step_eq_error_iff, and_assoc]
  · intro hlong
    refine exists_stepInPlace_eq_ok ?_
    rw [hlong]
    decide
  · intro fault m' h n
    obtain ⟨hrefused, rfl⟩ := stepInPlace_eq_error_iff.1 h
    exact attempts_of_refused hrefused n
  · intro m'
    rw [runFrameInPlace_on, Prod.mk.injEq, Run.result_eq_ok_iff]
    exact run_completes_iff _
  · intro fault m'
    rw [runFrameInPlace_on, Prod.mk.injEq, Run.result_eq_error_iff]
    simp only [stepInPlace_eq_error_iff, and_true]
    exact run_stops_iff _ fault

/-- A machine whose boot ROM begins with an opcode that has no instruction is refused its first step,
and every one after it. -/
theorem refusals_bootRom :
    (create { bootRom := some [0xD3] }).bus.read 0 = 0xD3 ∧
      ∀ n, attempts n (create { bootRom := some [0xD3] }) =
        (List.replicate n (.error (.unimplemented (.base 0xD3) 0)),
          create { bootRom := some [0xD3] }) := by
  have hread : (create { bootRom := some [0xD3] }).bus.read 0 = 0xD3 := by decide +kernel
  have hpc : (create { bootRom := some [0xD3] }).cpu.pc = 0 := rfl
  obtain ⟨hiff, -, hretry, -⟩ := refusals (create { bootRom := some [0xD3] })
  simp only [hpc, hread] at hiff
  exact ⟨hread, hretry _ _ ((hiff _ _).2 ⟨by decide, rfl, rfl⟩)⟩

end Machine

end DotMatrix
