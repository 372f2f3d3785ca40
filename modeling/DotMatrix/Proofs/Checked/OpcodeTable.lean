import DotMatrix.Proofs.Checked.Cpu

/-!
# The table of opcodes

Instructions are looked up in a table that has two halves, one for opcodes of one byte and one for
those behind the byte 0xCB.  It is built from families of opcodes that share a length and the way in
which bits of the opcode select what the instruction works on, and mostly a name.  No opcode may be
claimed twice.

* `Entry`, `OpcodeTable` — the table, with `OpcodeTable.get` and `OpcodeTable.insert`.
* `Family`, `Family.all` — the families, in six groups; `Family.claims` — each opcode with its family.
* `OpcodeTable.build`, `OpcodeTable.lookup` — building the table, and what it says.
* `Entry.Describes` — the entry of an opcode says what decoding it gives.

Principal results: `OpcodeTable.build_ok` — the table can be built; `OpcodeTable.lookup_of_decode` and
`OpcodeTable.lookup_of_decode_none` — it has the instructions that decoding gives, and no others.
-/

set_option autoImplicit false

namespace DotMatrix

open Checked

/-- What the table says about an opcode. -/
structure Entry where
  mnemonic : String
  /-- Length of the instruction in bytes. -/
  length : Nat
  /-- The instruction that the last byte of the opcode selects. -/
  handler : Nat → Checked Instr

/-- The table of opcodes. -/
structure OpcodeTable where
  base : Vector (Option Entry) 0x100
  extended : Vector (Option Entry) 0x100

namespace OpcodeTable

/-- The empty table. -/
def blank : OpcodeTable := ⟨Vector.replicate 0x100 none, Vector.replicate 0x100 none⟩

/-- What the table has for a number. -/
def get (t : OpcodeTable) (key : Nat) : Checked (Option Entry) :=
  if key < 0x100 then fetch t.base key
  else if 0xCB00 ≤ key ∧ key < 0xCC00 then fetch t.extended (key &&& 0xFF)
  else return none

/-- Makes an entry at a free place of one half. -/
def enter (half : Vector (Option Entry) 0x100) (i key : Nat) (e : Entry) :
    Checked (Vector (Option Entry) 0x100) := do
  match ← fetch half i with
  | none => store half i (some e)
  | some _ => .error (.claimed key)

/-- Makes an entry; for numbers that are no opcodes there is no place. -/
def insert (t : OpcodeTable) (key : Nat) (e : Entry) : Checked OpcodeTable :=
  if key < 0x100 then return { t with base := ← enter t.base key key e }
  else if 0xCB00 ≤ key ∧ key < 0xCC00 then
    return { t with extended := ← enter t.extended (key &&& 0xFF) key e }
  else return t

end OpcodeTable

/-! ## Families -/

/-- Opcodes that share an entry, except for the name that some of them have of their own. -/
structure Family where
  keys : List Nat
  mnemonic : Nat → Checked String
  length : Nat
  handler : Nat → Checked Instr

namespace Family

/-- The entry of an opcode of the family. -/
def entry (f : Family) (key : Nat) : Checked Entry := return ⟨← f.mnemonic key, f.length, f.handler⟩

/-- A family of one opcode. -/
def one (key : Nat) (name : String) (length : Nat) (i : Instr) : Family :=
  ⟨[key], fun _ => return name, length, fun _ => return i⟩

/-- A family whose members have one name. -/
def many (keys : List Nat) (name : String) (length : Nat) (handler : Nat → Checked Instr) : Family :=
  ⟨keys, fun _ => return name, length, handler⟩

/-- A family whose eight names are selected by the middle bits of the opcode. -/
def named (keys : List Nat) (names : Array String) (length : Nat)
    (handler : Nat → Checked Instr) : Family :=
  ⟨keys, fun key => do fetchAt names ((← Width.word.shiftRight key 3) &&& 7), length, handler⟩

/-- The numbers from one to another, at a distance. -/
def span (first last stride : Nat) : List Nat :=
  List.range' first ((last - first) / stride + 1) stride

/-- The bits of an opcode from bit 3 on. -/
def middle (op : Nat) : Checked Nat := Width.byte.shiftRight op 3

/-- The bits of an opcode from bit 4 on. -/
def high (op : Nat) : Checked Nat := Width.byte.shiftRight op 4

/-- A number of three bits, whatever stands above them. -/
def threeBits (n : Nat) : Fin 8 := ⟨n % 8, Nat.mod_lt _ (Nat.succ_pos 7)⟩

/-- Loads and the stack. -/
def loads : List Family :=
  [many ((span 0x40 0x7F 1).filter (· ≠ 0x76)) "LD r,r'" 1 fun op =>
      return .load (Operand.ofCode (← middle op)) (Operand.ofCode op),
    many (span 0x06 0x3E 8) "LD r,n" 2 fun op => return .loadImm (Operand.ofCode (← middle op)),
    one 0x02 "LD (BC),A" 1 (.storeA .bc),
    one 0x12 "LD (DE),A" 1 (.storeA .de),
    one 0x0A "LD A,(BC)" 1 (.loadA .bc),
    one 0x1A "LD A,(DE)" 1 (.loadA .de),
    one 0x22 "LD (HL+),A" 1 (.storeA .hlInc),
    one 0x2A "LD A,(HL+)" 1 (.loadA .hlInc),
    one 0x32 "LD (HL-),A" 1 (.storeA .hlDec),
    one 0x3A "LD A,(HL-)" 1 (.loadA .hlDec),
    one 0xE0 "LDH (n),A" 2 (.storeA .highImm),
    one 0xF0 "LDH A,(n)" 2 (.loadA .highImm),
    one 0xE2 "LD (C),A" 1 (.storeA .highC),
    one 0xF2 "LD A,(C)" 1 (.loadA .highC),
    one 0xEA "LD (nn),A" 3 (.storeA .imm),
    one 0xFA "LD A,(nn)" 3 (.loadA .imm),
    many (span 0x01 0x31 0x10) "LD rr,nn" 3 fun op => return .loadImm16 (Reg16.ofCode (← high op)),
    one 0x08 "LD (nn),SP" 3 .storeSp,
    one 0xF9 "LD SP,HL" 1 .loadSpHl,
    one 0xF8 "LD HL,SP+e" 2 .loadHlSp,
    many (span 0xC5 0xF5 0x10) "PUSH rr" 1 fun op => return .push (Reg16.ofStackCode (← high op)),
    many (span 0xC1 0xF1 0x10) "POP rr" 1 fun op => return .pop (Reg16.ofStackCode (← high op))]

/-- Names of the accumulator operations on registers. -/
def aluNames : Array String :=
  #["ADD A,r", "ADC A,r", "SUB r", "SBC A,r", "AND r", "XOR r", "OR r", "CP r"]

/-- Names of the accumulator operations on immediate operands. -/
def aluImmNames : Array String :=
  #["ADD A,n", "ADC A,n", "SUB n", "SBC A,n", "AND n", "XOR n", "OR n", "CP n"]

/-- Arithmetic and logic. -/
def arithmetic : List Family :=
  [named (span 0x80 0xBF 1) aluNames 1 fun op =>
      return .alu (AluOp.ofCode (← middle op)) (Operand.ofCode op),
    named (span 0xC6 0xFE 8) aluImmNames 2 fun op => return .aluImm (AluOp.ofCode (← middle op)),
    many (span 0x04 0x3C 8) "INC r" 1 fun op => return .inc (Operand.ofCode (← middle op)),
    many (span 0x05 0x3D 8) "DEC r" 1 fun op => return .dec (Operand.ofCode (← middle op)),
    many (span 0x03 0x33 0x10) "INC rr" 1 fun op => return .inc16 (Reg16.ofCode (← high op)),
    many (span 0x0B 0x3B 0x10) "DEC rr" 1 fun op => return .dec16 (Reg16.ofCode (← high op)),
    many (span 0x09 0x39 0x10) "ADD HL,rr" 1 fun op => return .addHl (Reg16.ofCode (← high op)),
    one 0xE8 "ADD SP,e" 2 .addSp,
    one 0x27 "DAA" 1 .decimalAdjust,
    one 0x2F "CPL" 1 .complement]

/-- Names of the shifts. -/
def shiftNames : Array String :=
  #["RLC r", "RRC r", "RL r", "RR r", "SLA r", "SRA r", "SWAP r", "SRL r"]

/-- Rotations and shifts. -/
def rotations : List Family :=
  [one 0x07 "RLCA" 1 (.rotateA .rlc),
    one 0x17 "RLA" 1 (.rotateA .rl),
    one 0x0F "RRCA" 1 (.rotateA .rrc),
    one 0x1F "RRA" 1 (.rotateA .rr),
    named (span 0xCB00 0xCB3F 1) shiftNames 2 fun op =>
      return .shift (ShiftOp.ofCode (← middle op)) (Operand.ofCode op)]

/-- Single bits. -/
def bits : List Family :=
  [many (span 0xCB40 0xCB7F 1) "BIT b,r" 2 fun op =>
      return .testBit (threeBits (← middle op)) (Operand.ofCode op),
    many (span 0xCB80 0xCBBF 1) "RES b,r" 2 fun op =>
      return .clearBit (threeBits (← middle op)) (Operand.ofCode op),
    many (span 0xCBC0 0xCBFF 1) "SET b,r" 2 fun op =>
      return .setBit (threeBits (← middle op)) (Operand.ofCode op)]

/-- Branches. -/
def branches : List Family :=
  [one 0xC3 "JP nn" 3 (.jump none),
    many (span 0xC2 0xDA 8) "JP cc,nn" 3 fun op =>
      return .jump (some (Condition.ofCode (← middle op))),
    one 0xE9 "JP (HL)" 1 .jumpHl,
    one 0x18 "JR e" 2 (.jumpRelative none),
    many (span 0x20 0x38 8) "JR cc,e" 2 fun op =>
      return .jumpRelative (some (Condition.ofCode (← middle op))),
    one 0xCD "CALL nn" 3 (.call none),
    many (span 0xC4 0xDC 8) "CALL cc,nn" 3 fun op =>
      return .call (some (Condition.ofCode (← middle op))),
    one 0xC9 "RET" 1 (.ret none),
    many (span 0xC0 0xD8 8) "RET cc" 1 fun op =>
      return .ret (some (Condition.ofCode (← middle op))),
    one 0xD9 "RETI" 1 .retEnable,
    many (span 0xC7 0xFF 8) "RST n" 1 fun op => return .restart (threeBits ((op &&& 0x38) / 8))]

/-- Control, and the carry flag. -/
def control : List Family :=
  [one 0x00 "NOP" 1 .nop,
    one 0x76 "HALT" 1 .halt,
    one 0x10 "STOP" 2 .stop,
    one 0xF3 "DI" 1 .disableInterrupts,
    one 0xFB "EI" 1 .enableInterrupts,
    one 0x37 "SCF" 1 .setCarry,
    one 0x3F "CCF" 1 .complementCarry]

/-- All families, in the order in which they make their entries. -/
def all : List Family := loads ++ arithmetic ++ rotations ++ bits ++ branches ++ control

/-- The claims of all families. -/
def claims : List (Nat × Family) := all.flatMap fun f => f.keys.map fun key => (key, f)

end Family

namespace OpcodeTable

/-- Makes the entry of one claim. -/
def claim (t : OpcodeTable) (p : Nat × Family) : Checked OpcodeTable := do
  t.insert p.1 (← p.2.entry p.1)

/-- Makes the entries of all families. -/
def build : Checked OpcodeTable := Family.claims.foldlM claim blank

/-- What the table says about a number. -/
def lookup (key : Nat) : Checked (Option Entry) := do (← build).get key

end OpcodeTable

/-! ## Entries -/

/-- What the table says about an opcode is what decoding it gives. -/
structure Entry.Describes (e : Entry) (key : Nat) (i : Instr) : Prop where
  mnemonic : e.mnemonic = i.mnemonic
  length : e.length = i.length
  handler : e.handler (key % 256) = .ok i

namespace OpcodeTable

/-- A number that has a place in the table. -/
def Placed (key : Nat) : Prop := key < 0x100 ∨ (0xCB00 ≤ key ∧ key < 0xCC00)

instance (key : Nat) : Decidable (Placed key) :=
  inferInstanceAs (Decidable (key < 0x100 ∨ (0xCB00 ≤ key ∧ key < 0xCC00)))

/-- What the table has for a number, without checks. -/
def entry (t : OpcodeTable) (key : Nat) : Option Entry :=
  if key < 0x100 then t.base[key]?.join
  else if 0xCB00 ≤ key ∧ key < 0xCC00 then t.extended[key % 256]?.join
  else none

theorem get_eq (t : OpcodeTable) (key : Nat) : t.get key = .ok (t.entry key) := by
  unfold get entry
  split
  · rw [fetch_ok _ ‹_›, Vector.getElem?_eq_getElem ‹_›, Option.join_some]
  · split
    · have hlt : key % 256 < 256 := Nat.mod_lt _ (by decide)
      rw [and_low_byte, fetch_ok _ hlt, Vector.getElem?_eq_getElem hlt, Option.join_some]
    · rfl

theorem entry_blank (key : Nat) : blank.entry key = none := by
  have hlt : key % 256 < 256 := Nat.mod_lt _ (by decide)
  simp only [entry, blank, Vector.getElem?_replicate, if_pos hlt]
  split
  · rfl
  · split <;> rfl

theorem enter_ok {half : Vector (Option Entry) 0x100} {i : Nat} (hi : i < 0x100)
    (hfree : half[i]?.join = none) (key : Nat) (e : Entry) :
    enter half i key e = .ok (half.set i (some e) hi) := by
  rw [Vector.getElem?_eq_getElem hi, Option.join_some] at hfree
  rw [enter, fetch_ok _ hi, ok_bind, hfree]
  exact store_ok half hi _

/-- **An entry can be made where there is none**, and no other entry changes. -/
theorem insert_ok {t : OpcodeTable} {key : Nat} (hplaced : Placed key) (hfree : t.entry key = none)
    (e : Entry) : ∃ t', t.insert key e = .ok t' ∧ t'.entry key = some e ∧
      ∀ other, other ≠ key → t'.entry other = t.entry other := by
  rcases hplaced with hlow | hplaced
  · simp only [entry, if_pos hlow] at hfree
    have hinsert : t.insert key e = .ok { t with base := t.base.set key (some e) } := by
      rw [insert, if_pos hlow, enter_ok hlow hfree]
      rfl
    refine ⟨_, hinsert, ?_, fun other hne => ?_⟩
    · simp only [entry, if_pos hlow, Vector.getElem?_set_self, Option.join_some]
    · simp only [entry]
      split
      · rw [Vector.getElem?_set_ne _ hne.symm]
      · rfl
  · have hi : key % 256 < 0x100 := Nat.mod_lt _ (by decide)
    have hhigh : ¬ key < 0x100 := by omega
    simp only [entry, if_neg hhigh, if_pos hplaced] at hfree
    have hinsert :
        t.insert key e = .ok { t with extended := t.extended.set (key % 256) (some e) } := by
      rw [insert, if_neg hhigh, if_pos hplaced, and_low_byte, enter_ok hi hfree]
      rfl
    refine ⟨_, hinsert, ?_, fun other hne => ?_⟩
    · simp only [entry, if_neg hhigh, if_pos hplaced, Vector.getElem?_set_self, Option.join_some]
    · simp only [entry]
      split
      · rfl
      · split
        · rw [Vector.getElem?_set_ne _ (by omega)]
        · rfl

/-- **Claims that do not collide can all be entered.** -/
theorem foldlM_claim {l : List (Nat × Family)} (hplaced : ∀ p ∈ l, Placed p.1)
    (hdistinct : (l.map Prod.fst).Nodup) (hnamed : ∀ p ∈ l, ∃ e, p.2.entry p.1 = .ok e) :
    ∀ t : OpcodeTable, (∀ p ∈ l, t.entry p.1 = none) →
      ∃ t', l.foldlM claim t = .ok t' ∧
        (∀ p ∈ l, ∃ e, p.2.entry p.1 = .ok e ∧ t'.entry p.1 = some e) ∧
        ∀ key, key ∉ l.map Prod.fst → t'.entry key = t.entry key := by
  induction l with
  | nil => exact fun t _ => ⟨t, rfl, fun p hp => absurd hp List.not_mem_nil, fun _ _ => rfl⟩
  | cons p l ih =>
    intro t hfree
    rw [List.forall_mem_cons] at hplaced hnamed hfree
    rw [List.map_cons, List.nodup_cons] at hdistinct
    obtain ⟨e, he⟩ := hnamed.1
    obtain ⟨t₁, hinsert, hself, hother⟩ := insert_ok hplaced.1 hfree.1 e
    have hne : ∀ q ∈ l, q.1 ≠ p.1 := fun q hq heq =>
      hdistinct.1 (heq ▸ List.mem_map_of_mem hq)
    obtain ⟨t', hfold, hentries, hrest⟩ := ih hplaced.2 hdistinct.2 hnamed.2 t₁
      fun q hq => (hother q.1 (hne q hq)).trans (hfree.2 q hq)
    have hclaim : claim t p = .ok t₁ := by rw [claim, he, ok_bind, hinsert]
    refine ⟨t', by rw [List.foldlM_cons, hclaim, ok_bind, hfold], ?_, fun key hkey => ?_⟩
    · rw [List.forall_mem_cons]
      exact ⟨⟨e, he, (hrest p.1 hdistinct.1).trans hself⟩, hentries⟩
    · rw [List.map_cons, List.mem_cons, not_or] at hkey
      exact (hrest key hkey.2).trans (hother key hkey.1)

end OpcodeTable

/-! ## The families agree with decoding -/

namespace Family

-- Comparing 500 numbers in pairs takes the kernel long; one number with a bit for each does not.

/-- The numbers of a list, each as one bit. -/
def marks : List Nat → Nat
  | [] => 0
  | k :: ks => marks ks ||| 1 <<< k

theorem testBit_marks (ks : List Nat) (k : Nat) : (marks ks).testBit k = true ↔ k ∈ ks := by
  induction ks with
  | nil => simp [marks]
  | cons j ks ih =>
    rw [marks, Nat.testBit_or, Bool.or_eq_true, ih, Nat.shiftLeft_eq, Nat.one_mul,
      Nat.testBit_two_pow, List.mem_cons, decide_eq_true_iff]
    exact ⟨fun h => h.symm.imp_left Eq.symm, fun h => h.symm.imp_right Eq.symm⟩

/-- No number stands twice in a list. -/
def distinct : List Nat → Bool
  | [] => true
  | k :: ks => !(marks ks).testBit k && distinct ks

theorem nodup_of_distinct {ks : List Nat} (h : distinct ks = true) : ks.Nodup := by
  induction ks with
  | nil => exact List.nodup_nil
  | cons k ks ih =>
    rw [distinct, Bool.and_eq_true, Bool.not_eq_true'] at h
    refine List.nodup_cons.2 ⟨fun hk => ?_, ih h.2⟩
    exact Bool.false_ne_true (h.1.symm.trans ((testBit_marks ks k).2 hk))

/-- The instruction of the opcode with a number. -/
def instr? (key : Nat) : Option Instr := (Opcode.ofKey? (UInt16.ofNat key)).bind Opcode.decode?

theorem instr?_key (op : Opcode) : instr? op.key.toNat = op.decode? := by
  rw [instr?, UInt16.ofNat_toNat, Opcode.ofKey?_key, Option.bind_some]

/-- A claim says what decoding says. -/
def agrees (key : Nat) (f : Family) : Bool :=
  match instr? key with
  | none => false
  | some i => f.mnemonic key = .ok i.mnemonic ∧ f.length = i.length ∧ f.handler (key % 256) = .ok i

theorem placed_of_mem {p : Nat × Family} (h : p ∈ claims) : OpcodeTable.Placed p.1 := by
  have hplaced : ∀ key ∈ claims.map Prod.fst, OpcodeTable.Placed key := by decide +kernel
  exact hplaced p.1 (List.mem_map_of_mem h)

theorem nodup_claims : (claims.map Prod.fst).Nodup := nodup_of_distinct (by decide +kernel)

theorem describes_of_mem {p : Nat × Family} (h : p ∈ claims) :
    ∃ e, p.2.entry p.1 = .ok e ∧ ∃ i, instr? p.1 = some i ∧ e.Describes p.1 i := by
  have hagrees : claims.all (fun p => agrees p.1 p.2) = true := by decide +kernel
  have hp := List.all_eq_true.1 hagrees p h
  unfold agrees at hp
  split at hp
  · cases hp
  · rename_i i hi
    obtain ⟨hmnemonic, hlength, hhandler⟩ := of_decide_eq_true hp
    have hentry : entry p.2 p.1 = .ok ⟨i.mnemonic, p.2.length, p.2.handler⟩ := by
      rw [entry, hmnemonic, ok_bind]
      rfl
    exact ⟨_, hentry, i, hi, ⟨rfl, hlength, hhandler⟩⟩

/-- No instruction is missing in the table. -/
theorem mem_claims_of_decode {op : Opcode} {i : Instr} (h : op.decode? = some i) :
    op.key.toNat ∈ claims.map Prod.fst := by
  have hbase : ∀ b : BitVec 8, (Opcode.decodeBase? (UInt8.ofBitVec b)).isSome = true →
      (marks (claims.map Prod.fst)).testBit (Opcode.base (UInt8.ofBitVec b)).key.toNat = true := by
    decide +kernel
  have hextended : ∀ b : BitVec 8,
      (marks (claims.map Prod.fst)).testBit (Opcode.extended (UInt8.ofBitVec b)).key.toNat = true := by
    decide +kernel
  rw [← testBit_marks]
  cases op with
  | base b => exact hbase b.toBitVec (Option.isSome_of_eq_some h)
  | extended b => exact hextended b.toBitVec

end Family

namespace OpcodeTable

/-- **The table can be built**, with the entries of all families and no others. -/
theorem build_ok : ∃ t, build = .ok t ∧
    (∀ p ∈ Family.claims, ∃ e, p.2.entry p.1 = .ok e ∧ t.entry p.1 = some e) ∧
    ∀ key, key ∉ Family.claims.map Prod.fst → t.entry key = none := by
  obtain ⟨t, hbuild, hentries, hrest⟩ := foldlM_claim (fun _ => Family.placed_of_mem)
    Family.nodup_claims (fun _ hp => (Family.describes_of_mem hp).imp fun _ h => h.1) blank
    fun _ _ => entry_blank _
  exact ⟨t, hbuild, hentries, fun key hkey => (hrest key hkey).trans (entry_blank key)⟩

/-- **The table has every instruction that decoding gives.** -/
theorem lookup_of_decode {op : Opcode} {i : Instr} (h : op.decode? = some i) :
    ∃ e, lookup op.key.toNat = .ok (some e) ∧ e.Describes op.key.toNat i := by
  obtain ⟨t, hbuild, hentries, -⟩ := build_ok
  obtain ⟨p, hp, hkey⟩ := List.mem_map.1 (Family.mem_claims_of_decode h)
  obtain ⟨e, hentry, ht⟩ := hentries p hp
  obtain ⟨e', hentry', i', hi', hdescribes⟩ := Family.describes_of_mem hp
  rw [hkey, Family.instr?_key, h] at hi'
  cases hi'
  cases hentry.symm.trans hentry'
  rw [hkey] at ht hdescribes
  exact ⟨e, by rw [lookup, hbuild, ok_bind, get_eq, ht], hdescribes⟩

/-- **The table has no other instructions.** -/
theorem lookup_of_decode_none {op : Opcode} (h : op.decode? = none) :
    lookup op.key.toNat = .ok none := by
  obtain ⟨t, hbuild, -, hrest⟩ := build_ok
  have hunclaimed : op.key.toNat ∉ Family.claims.map Prod.fst := by
    intro hmem
    obtain ⟨p, hp, hkey⟩ := List.mem_map.1 hmem
    obtain ⟨-, -, i, hi, -⟩ := Family.describes_of_mem hp
    rw [hkey, Family.instr?_key, h] at hi
    cases hi
  rw [lookup, hbuild, ok_bind, get_eq, hrest _ hunclaimed]

end OpcodeTable

end DotMatrix
