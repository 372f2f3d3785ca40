import DotMatrix.Proofs.CodecLaws
import DotMatrix.Proofs.InPlace
import DotMatrix.Snapshot

/-!
# The format of a saved machine

Which bytes are a saved machine, said by offset and without the reader.

* `SaveFormat` — header, length prefixes, truth values, line and clock, each at its offset.
* `Snapshot.bare` — what the writer keeps of a snapshot: all but the tiles.
* `Machine.restoreInPlace` — restoring change by change; `Machine.afterRestore` — a machine after an
  attempt to restore it.

Principal results: `Layout.lawful_snapshot`, `Layout.canonical_snapshot` and
`Layout.exact_snapshot` — the laws of the layout; `Machine.restoreInPlace_on` — in place, a machine is
restored or left as it was; `Machine.restore_save` — a saved machine is restored;
`Machine.restore_exactly_saveFormat` — nothing but the format is accepted, and nothing that was
accepted is lost.
-/

set_option autoImplicit false

namespace DotMatrix

/-! ## Laws of the layout -/

namespace Layout

open Codec

theorem lawful_cpu : Lawful cpu fun _ => True :=
  ((lawful_u8.pair <| lawful_u8.pair <| lawful_u8.pair <| lawful_u8.pair <| lawful_u8.pair <|
    lawful_u8.pair <| lawful_u8.pair <| lawful_u8.pair <| lawful_u16.pair <| lawful_u16.pair <|
    lawful_bool.pair lawful_bool).map _ _).mono fun _ _ => ⟨by simp only [and_self], rfl⟩

theorem lawful_registers : Lawful registers fun _ => True :=
  ((lawful_u8.pair <| lawful_u8.pair <| lawful_u8.pair <| lawful_u8.pair <| lawful_u8.pair <|
    lawful_u8.pair <| lawful_u8.pair <| lawful_u8.pair <| lawful_u8.pair <| lawful_u8.pair <|
    lawful_u8.pair lawful_u8).map _ _).mono fun _ _ => ⟨by simp only [and_self], rfl⟩

/-- A video unit is read back as it was written if it has no tiles yet. -/
theorem lawful_video : Lawful video fun v => v.tiles = TileCache.blank :=
  (((lawful_segment (by decide)).pair <| (lawful_segment (by decide)).pair <|
    (lawful_segment (by decide)).pair <| lawful_registers.pair <| lawful_u32.pair lawful_u8).map
    _ _).mono fun v hv => ⟨by simp only [and_self], by simp only [← hv]⟩

theorem lawful_bus :
    Lawful bus fun b => b.eram.size < LittleEndian.limit 8 ∧ b.video.tiles = TileCache.blank :=
  ((lawful_bool.pair <| (lawful_segment (by decide)).pair <| (lawful_segment (by decide)).pair <|
    lawful_blob.pair <| (lawful_segment (by decide)).pair <|
    (lawful_segment (by decide)).pair lawful_video).map _ _).mono fun b hb =>
      ⟨⟨trivial, trivial, trivial, hb.1, trivial, trivial, hb.2⟩, rfl⟩

/-- **A snapshot without tiles is read back as it was written.** -/
theorem lawful_snapshot :
    Lawful snapshot fun s =>
      s.bus.eram.size < LittleEndian.limit 8 ∧ s.bus.video.tiles = TileCache.blank :=
  ((lawful_cpu.pair <| lawful_bus.pair <| lawful_u64.pair lawful_u64).map _ _).mono fun _ hs =>
    ⟨⟨trivial, hs, trivial, trivial⟩, rfl⟩

theorem canonical_cpu : Canonical cpu :=
  (canonical_u8.pair <| canonical_u8.pair <| canonical_u8.pair <| canonical_u8.pair <|
    canonical_u8.pair <| canonical_u8.pair <| canonical_u8.pair <| canonical_u8.pair <|
    canonical_u16.pair <| canonical_u16.pair <| canonical_bool.pair canonical_bool).map
    fun _ _ _ _ => rfl

theorem canonical_registers : Canonical registers :=
  (canonical_u8.pair <| canonical_u8.pair <| canonical_u8.pair <| canonical_u8.pair <|
    canonical_u8.pair <| canonical_u8.pair <| canonical_u8.pair <| canonical_u8.pair <|
    canonical_u8.pair <| canonical_u8.pair <| canonical_u8.pair canonical_u8).map
    fun _ _ _ _ => rfl

theorem canonical_video : Canonical video :=
  ((canonical_segment _).pair <| (canonical_segment _).pair <| (canonical_segment _).pair <|
    canonical_registers.pair <| canonical_u32.pair canonical_u8).map fun _ _ _ _ => rfl

theorem canonical_bus : Canonical bus :=
  (canonical_bool.pair <| (canonical_segment _).pair <| (canonical_segment _).pair <|
    canonical_blob.pair <| (canonical_segment _).pair <|
    (canonical_segment _).pair canonical_video).map fun _ _ _ _ => rfl

/-- **A snapshot that was read is written back as it was.** -/
theorem canonical_snapshot : Canonical snapshot :=
  (canonical_cpu.pair <| canonical_bus.pair <| canonical_u64.pair canonical_u64).map
    fun _ _ _ _ => rfl

theorem exact_cpu :
    ∃ f, Exact cpu (fun _ => True) 14
      (fun input => field input 12 1 ≤ 1 ∧ field input 13 1 ≤ 1) f :=
  ⟨_, ((exact_u8.pair <| exact_u8.pair <| exact_u8.pair <| exact_u8.pair <| exact_u8.pair <|
    exact_u8.pair <| exact_u8.pair <| exact_u8.pair <| exact_u16.pair <| exact_u16.pair <|
    exact_bool.pair exact_bool).map _ _ fun _ => by simp only [and_self]).congr rfl fun input => by
      simp only [true_and, field_drop]⟩

theorem exact_registers :
    ∃ f, Exact registers (fun _ => True) 12 (fun _ => True) f ∧ ∀ input,
      (f input).stat = UInt8.ofNat (field input 1 1) ∧
      (f input).ly = UInt8.ofNat (field input 4 1) :=
  ⟨_, ((exact_u8.pair <| exact_u8.pair <| exact_u8.pair <| exact_u8.pair <| exact_u8.pair <|
    exact_u8.pair <| exact_u8.pair <| exact_u8.pair <| exact_u8.pair <| exact_u8.pair <|
    exact_u8.pair exact_u8).map _ _ fun _ => by simp only [and_self]).congr rfl fun input => by
      simp only [and_self], fun input => by simp only [field_drop, and_self]⟩

theorem exact_video :
    ∃ f, Exact video (fun _ => True) 100553
      (fun input => field input 0 8 = 0x2000 ∧ field input 8200 8 = 0xA0 ∧
        field input 8368 8 = 92160) f ∧ ∀ input,
      (f input).regs.stat = UInt8.ofNat (field input 100537 1) ∧
      (f input).regs.ly = UInt8.ofNat (field input 100540 1) ∧
      (f input).clock = UInt32.ofNat (field input 100548 4) := by
  obtain ⟨fr, hr, hregs⟩ := exact_registers
  refine ⟨_, (((exact_segment 0x2000).pair <| (exact_segment 0xA0).pair <|
    (exact_segment 92160).pair <| hr.pair <| exact_u32.pair exact_u8).map _ _ fun _ => by
      simp only [and_self]).congr rfl fun input => by simp only [and_true, field_drop],
    fun input => ?_⟩
  obtain ⟨hstat, hly⟩ := hregs (((input.drop 8200).drop 168).drop 92168)
  refine ⟨hstat.trans ?_, hly.trans ?_, ?_⟩
  · simp only [field_drop]
  · simp only [field_drop]
  · simp only [field_drop]

theorem exact_bus :
    ∃ f, Exact bus (fun b => b.eram.size = 0x2000) 150130
      (fun input => field input 0 1 ≤ 1 ∧ field input 1 8 = 0x100 ∧ field input 265 8 = 0x8000 ∧
        field input 33041 8 = 0x2000 ∧ field input 41241 8 = 0x2000 ∧ field input 49441 8 = 0x80 ∧
        field input 49577 8 = 0x2000 ∧ field input 57777 8 = 0xA0 ∧ field input 57945 8 = 92160) f ∧
      ∀ input,
        (f input).video.regs.stat = UInt8.ofNat (field input 150114 1) ∧
        (f input).video.regs.ly = UInt8.ofNat (field input 150117 1) ∧
        (f input).video.clock = UInt32.ofNat (field input 150125 4) := by
  obtain ⟨fv, hv, hvideo⟩ := exact_video
  refine ⟨_, ((exact_bool.pair <| (exact_segment 0x100).pair <| (exact_segment 0x8000).pair <|
    (exact_blob 0x2000).pair <| (exact_segment 0x2000).pair <|
    (exact_segment 0x80).pair hv).map _ _ fun _ => by
      simp only [true_and, and_true, List.size_toArray]).congr rfl fun input => by
      simp only [field_drop], fun input => ?_⟩
  obtain ⟨hstat, hly, hclock⟩ := hvideo ((((((input.drop 1).drop 264).drop 32776).drop 8200).drop
    8200).drop 136)
  refine ⟨hstat.trans ?_, hly.trans ?_, hclock.trans ?_⟩
  · simp only [field_drop]
  · simp only [field_drop]
  · simp only [field_drop]

/-- **Which bytes are a snapshot**, if external RAM is to have its usual size. -/
theorem exact_snapshot :
    ∃ f, Exact snapshot (fun s => s.bus.eram.size = 0x2000) 150160
      (fun input => field input 12 1 ≤ 1 ∧ field input 13 1 ≤ 1 ∧ field input 14 1 ≤ 1 ∧
        field input 15 8 = 0x100 ∧ field input 279 8 = 0x8000 ∧ field input 33055 8 = 0x2000 ∧
        field input 41255 8 = 0x2000 ∧ field input 49455 8 = 0x80 ∧ field input 49591 8 = 0x2000 ∧
        field input 57791 8 = 0xA0 ∧ field input 57959 8 = 92160) f ∧
      ∀ input,
        (f input).bus.video.regs.stat = UInt8.ofNat (field input 150128 1) ∧
        (f input).bus.video.regs.ly = UInt8.ofNat (field input 150131 1) ∧
        (f input).bus.video.clock = UInt32.ofNat (field input 150139 4) := by
  obtain ⟨fc, hc⟩ := exact_cpu
  obtain ⟨fb, hb, hbus⟩ := exact_bus
  refine ⟨_, ((hc.pair <| hb.pair <| exact_u64.pair exact_u64).map _ _ fun _ => by
    simp only [true_and, and_true]).congr rfl fun input => by
      simp only [and_true, and_assoc, field_drop], fun input => ?_⟩
  obtain ⟨hstat, hly, hclock⟩ := hbus (input.drop 14)
  refine ⟨hstat.trans ?_, hly.trans ?_, hclock.trans ?_⟩
  · simp only [field_drop]
  · simp only [field_drop]
  · simp only [field_drop]

end Layout

/-! ## The format by offset -/

namespace SaveFormat

/-- The clock ticks that the mode lasts whose code is in the low two bits of register STAT. -/
def clockLimit (stat : Nat) : Nat :=
  match stat % 4 with
  | 0 => 204
  | 1 => 456
  | 2 => 80
  | _ => 172

end SaveFormat

open Codec in
/-- What a saved machine looks like.  The lengths of the memories fix the offset of every field, also
that of line and clock at the end. -/
structure SaveFormat (b : List UInt8) : Prop where
  length : 150168 ≤ b.length
  letters : b.take 4 = [0x44, 0x4D, 0x47, 0x53]
  version : field b 4 4 = 1
  ime : field b 20 1 ≤ 1
  autoAdvance : field b 21 1 ≤ 1
  bootMapped : field b 22 1 ≤ 1
  boot : field b 23 8 = 0x100
  rom : field b 287 8 = 0x8000
  eram : field b 33063 8 = 0x2000
  wram : field b 41263 8 = 0x2000
  zram : field b 49463 8 = 0x80
  vram : field b 49599 8 = 0x2000
  oam : field b 57799 8 = 0xA0
  frame : field b 57967 8 = 92160
  line : field b 150139 1 ≤ 153
  clock : field b 150147 4 < SaveFormat.clockLimit (field b 150136 1)

theorem SaveFormat.duration_mode (r : Registers) {stat : Nat} (h : stat < 256)
    (hr : r.stat = UInt8.ofNat stat) : r.mode.duration = clockLimit stat := by
  have hmod : r.stat.toNat = stat := by rw [hr]; exact UInt8.toNat_ofNat_of_lt' h
  have hlt : stat % 4 < 4 := Nat.mod_lt _ (by decide)
  simp only [Registers.mode, Mode.ofBits, hmod, clockLimit]
  split <;> simp_all [Mode.duration]

/-! ## What the reader accepts -/

namespace Snapshot

open Codec

theorem readHeader_eq_ok_iff {input body : List UInt8} :
    readHeader input = .ok body ↔ input = header ++ body := by
  constructor
  · intro h
    unfold readHeader at h
    split at h
    · cases h
    · rename_i letters rest htake
      obtain ⟨-, rfl, rfl⟩ := take_eq_ok_iff.1 htake
      split at h
      · cases h
      · rename_i hletters
        split at h
        · cases h
        · rename_i v rest hword
          split at h
          · cases h
          · rename_i hversion
            cases h
            have hbytes := canonical_word 4 _ _ _ hword
            rw [Decidable.not_not.1 hversion] at hbytes
            rw [header, List.append_assoc, ← List.take_append_drop 4 input,
              Decidable.not_not.1 hletters, hbytes]
            rfl
  · rintro rfl
    rfl

/-- The header by offset. -/
theorem eq_header_append_iff {b : List UInt8} :
    b = header ++ b.drop 8 ↔
      8 ≤ b.length ∧ b.take 4 = [0x44, 0x4D, 0x47, 0x53] ∧ field b 4 4 = 1 := by
  constructor
  · intro h
    rw [h]
    exact ⟨by rw [List.length_append]; exact Nat.le_add_right 8 _, rfl, rfl⟩
  · rintro ⟨hlength, hletters, hversion⟩
    have hlen : ((b.drop 4).take 4).length = 4 := by
      rw [List.length_take, List.length_drop]; omega
    have hbytes := LittleEndian.bytes_value ((b.drop 4).take 4)
    rw [hlen, show LittleEndian.value ((b.drop 4).take 4) = 1 from hversion] at hbytes
    have htake : b.take 8 = header := by
      rw [show 8 = 4 + 4 from rfl, List.take_add, hletters, ← hbytes]
      rfl
    rw [← htake, List.take_append_drop]

/-- The snapshot with other tiles. -/
def withTiles (s : Snapshot) (tiles : TileCache) : Snapshot :=
  { s with bus := { s.bus with video := { s.bus.video with tiles := tiles } } }

/-- What the writer keeps of a snapshot: all but the tiles. -/
def bare (s : Snapshot) : Snapshot := s.withTiles TileCache.blank

/-- The snapshot without the low half of register F. -/
def masked (s : Snapshot) : Snapshot := { s with cpu := { s.cpu with f := s.cpu.f &&& 0xF0 } }

theorem encode_withTiles (s : Snapshot) (tiles : TileCache) :
    Layout.snapshot.encode (s.withTiles tiles) = Layout.snapshot.encode s := rfl

theorem valid_withTiles_iff {s : Snapshot} {tiles : TileCache} :
    (s.withTiles tiles).Valid ↔ s.Valid :=
  ⟨fun h => ⟨h.eram, h.line, h.clock⟩, fun h => ⟨h.eram, h.line, h.clock⟩⟩

theorem complete_eq (s : Snapshot) :
    s.complete = s.masked.withTiles (Tile.decode s.bus.video.vram) := by
  simp only [complete, masked, withTiles, Video.decodeTiles_eq]

/-- Tiles that were not kept are decoded again from what was. -/
theorem complete_bare (s : Snapshot) : s.bare.complete = s.complete := by
  rw [complete_eq, complete_eq]
  rfl

theorem readable_bare {s : Snapshot} (h : s.bus.eram.size = Bus.eramSize) :
    s.bare.bus.eram.size < LittleEndian.limit 8 ∧ s.bare.bus.video.tiles = TileCache.blank := by
  refine ⟨?_, rfl⟩
  rw [show s.bare.bus.eram.size = Bus.eramSize from h]
  decide

/-- The reader makes of what the writer wrote all that the writer kept. -/
theorem decode_encode {s : Snapshot} (h : s.bus.eram.size = Bus.eramSize) (rest : List UInt8) :
    Layout.snapshot.decode (Layout.snapshot.encode s ++ rest) = .ok (s.bare, rest) :=
  Layout.lawful_snapshot s.bare rest (readable_bare h)

theorem Valid.length_encode {s : Snapshot} (h : s.Valid) :
    (Layout.snapshot.encode s).length = 150160 := by
  obtain ⟨f, hexact, -⟩ := Layout.exact_snapshot
  show (Layout.snapshot.encode s.bare).length = 150160
  exact hexact.length_encode Layout.lawful_snapshot (readable_bare h.eram) h.eram

/-- The reader accepts what the writer writes of valid snapshots, whatever follows it, and nothing
else. -/
theorem parse_eq_ok_iff {input : List UInt8} {s : Snapshot} :
    parse input = .ok s ↔
      ∃ t rest, input = header ++ (Layout.snapshot.encode t ++ rest) ∧ t.Valid ∧ s = t.bare := by
  unfold parse
  constructor
  · intro h
    split at h
    · cases h
    · rename_i body hbody
      split at h
      · cases h
      · rename_i t rest hdecode
        split at h
        · cases h
        · rename_i hcheck
          cases h
          have hvalid := (check_eq_none_iff s).1 hcheck
          have hbytes := Layout.canonical_snapshot _ _ _ hdecode
          -- the bytes are those of what was read, so reading them again shows that it is bare
          have hread := decode_encode hvalid.eram rest
          rw [← hbytes, hdecode] at hread
          have hbare : s = s.bare := congrArg Prod.fst (Except.ok.inj hread)
          exact ⟨s, rest, by rw [readHeader_eq_ok_iff.1 hbody, hbytes], hvalid, hbare⟩
  · rintro ⟨t, rest, rfl, ht, rfl⟩
    simp only [readHeader_eq_ok_iff.2 rfl, decode_encode ht.eram,
      (check_eq_none_iff t.bare).2 (valid_withTiles_iff.2 ht)]

/-- The format by offset is the format that is written. -/
theorem saveFormat_iff {b : List UInt8} :
    SaveFormat b ↔
      ∃ t rest, b = header ++ (Layout.snapshot.encode t ++ rest) ∧ t.Valid := by
  obtain ⟨f, hexact, hf⟩ := Layout.exact_snapshot
  obtain ⟨hstat, hly, hclock⟩ := hf (b.drop 8)
  simp only [field_drop, Nat.reduceAdd] at hstat hly hclock
  have hspec := hexact (b.drop 8) (f (b.drop 8)) (b.drop 150168)
  simp only [field_drop, List.length_drop, List.drop_drop, Nat.reduceAdd, and_true] at hspec
  have hline : (f (b.drop 8)).bus.video.regs.ly ≤ Video.lastLine ↔ field b 150139 1 ≤ 153 := by
    rw [hly, UInt8.le_iff_toNat_le, UInt8.toNat_ofNat_of_lt' (field_lt b 150139 1)]
    rfl
  have hover : (f (b.drop 8)).bus.video.clock.toNat <
        (f (b.drop 8)).bus.video.regs.mode.duration ↔
      field b 150147 4 < SaveFormat.clockLimit (field b 150136 1) := by
    rw [SaveFormat.duration_mode _ (field_lt b 150136 1) hstat, hclock,
      UInt32.toNat_ofNat_of_lt' (field_lt b 150147 4)]
  constructor
  · intro h
    have hlength := h.length
    obtain ⟨hdecode, hsize⟩ := hspec.2 ⟨by omega, ⟨h.ime, h.autoAdvance, h.bootMapped, h.boot,
      h.rom, h.eram, h.wram, h.zram, h.vram, h.oam, h.frame⟩⟩
    refine ⟨f (b.drop 8), b.drop 150168, ?_, ⟨hsize, hline.2 h.line, hover.2 h.clock⟩⟩
    rw [← Layout.canonical_snapshot _ _ _ hdecode]
    exact eq_header_append_iff.2 ⟨by omega, h.letters, h.version⟩
  · rintro ⟨t, rest, hb, ht⟩
    have hdrop : b.drop 8 = Layout.snapshot.encode t ++ rest := by rw [hb]; rfl
    have hdecode := decode_encode ht.eram rest
    have hbare : t.bare.Valid := valid_withTiles_iff.2 ht
    rw [← hdrop] at hdecode hb
    obtain ⟨hlen, -, hvalue, rfl⟩ := (hexact _ _ _).1 ⟨hdecode, hbare.eram⟩
    rw [hvalue] at hbare hdecode
    rw [List.drop_drop] at hdecode
    obtain ⟨-, hime, hauto, hmapped, hboot, hrom, heram, hwram, hzram, hvram, hoam, hframe⟩ :=
      hspec.1 ⟨hdecode, hbare.eram⟩
    obtain ⟨-, hletters, hversion⟩ := eq_header_append_iff.1 hb
    rw [List.length_drop] at hlen
    exact
      { length := by omega
        letters := hletters
        version := hversion
        ime := hime
        autoAdvance := hauto
        bootMapped := hmapped
        boot := hboot
        rom := hrom
        eram := heram
        wram := hwram
        zram := hzram
        vram := hvram
        oam := hoam
        frame := hframe
        line := hline.1 hbare.line
        clock := hover.1 hbare.clock }

theorem encode_masked (s : Snapshot) :
    Layout.snapshot.encode s.masked = (Layout.snapshot.encode s).modify 1 (· &&& 0xF0) := by
  have hbyte : ∀ x : UInt8, u8.encode x = [x] := by
    intro x
    simp only [u8, Codec.map, word, LittleEndian.bytes, UInt8.ofNat_toNat]
  simp only [Layout.snapshot, Codec.map, Codec.pair, Layout.cpu, masked, hbyte,
    List.cons_append, List.nil_append, List.modify_succ_cons, List.modify_zero_cons]

/-- What restoring makes good shows in one byte of what is written: in register F. -/
theorem encode_complete (s : Snapshot) :
    Layout.snapshot.encode s.complete = (Layout.snapshot.encode s).modify 1 (· &&& 0xF0) := by
  rw [complete_eq, encode_withTiles, encode_masked]

theorem Valid.complete {s : Snapshot} (h : s.Valid) : s.complete.Valid := by
  rw [complete_eq, valid_withTiles_iff]
  exact ⟨h.eram, h.line, h.clock⟩

theorem coherent_complete (s : Snapshot) : s.complete.bus.video.Coherent := by
  have hvideo : s.complete.bus.video = s.bus.video.decodeTiles := rfl
  rw [hvideo]
  exact s.bus.video.coherent_decodeTiles

end Snapshot

/-! ## Saving and restoring -/

namespace Machine

/-- Restores a machine: reads the header and the snapshot, checks it and makes good what the format leaves
open; only then replaces CPU, bus and counters, one after the other. -/
def restoreInPlace (input : List UInt8) : InPlace SnapshotError Machine Unit := do
  let body ← Snapshot.readHeader input
  match Layout.snapshot.decode body with
  | .error e => throw (.encoding e)
  | .ok (s, _) =>
    match s.check with
    | some c => throw (.corrupt c)
    | none =>
      let s := s.complete
      modify fun m => { m with cpu := s.cpu }
      modify fun m => { m with bus := s.bus }
      modify fun m => { m with cycles := s.cycles }
      modify fun m => { m with frames := s.frames }

/-- A machine after an attempt to restore it. -/
def afterRestore (m : Machine) (input : List UInt8) : Machine := ((restoreInPlace input).on m).2

/-- **In place, a machine is restored or left as it was.** -/
theorem restoreInPlace_on (m : Machine) (input : List UInt8) :
    (restoreInPlace input).on m =
      match m.restore input with
      | .ok m' => (.ok (), m')
      | .error e => (.error e, m) := by
  unfold restoreInPlace restore Snapshot.parse
  rw [InPlace.on_bind, InPlace.on_lift]
  cases Snapshot.readHeader input with
  | error e => rfl
  | ok body =>
    simp only
    cases Layout.snapshot.decode body with
    | error e => rfl
    | ok r =>
      simp only
      cases r.1.check with
      | some c => rfl
      | none => simp only [InPlace.on_bind, InPlace.on_modify]

theorem afterRestore_of_ok {m m' : Machine} {input : List UInt8} (h : m.restore input = .ok m') :
    m.afterRestore input = m' := by
  rw [afterRestore, restoreInPlace_on, h]

/-- **A machine that refuses its input is as it was before.** -/
theorem afterRestore_of_error {m : Machine} {input : List UInt8} {e : SnapshotError}
    (h : m.restore input = .error e) : m.afterRestore input = m := by
  rw [afterRestore, restoreInPlace_on, h]

/-- What a machine is restored from is what the writer writes of a valid snapshot, whatever follows it. -/
theorem restore_eq_ok_iff {m m' : Machine} {input : List UInt8} :
    m.restore input = .ok m' ↔
      ∃ s rest, input = Snapshot.header ++ (Layout.snapshot.encode s ++ rest) ∧ s.Valid ∧
        m'.snapshot = s.complete ∧ m'.config = m.config := by
  have hfields : ∀ s : Snapshot,
      ({ cpu := s.cpu, bus := s.bus, config := m.config, cycles := s.cycles,
         frames := s.frames } : Machine) = m' ↔ m'.snapshot = s ∧ m'.config = m.config := by
    intro s
    constructor
    · rintro rfl
      exact ⟨rfl, rfl⟩
    · rintro ⟨rfl, hconfig⟩
      rw [← hconfig]
      rfl
  unfold restore
  constructor
  · intro h
    split at h
    · cases h
    · rename_i s hparse
      obtain ⟨t, rest, hinput, ht, rfl⟩ := Snapshot.parse_eq_ok_iff.1 hparse
      obtain ⟨hsnapshot, hconfig⟩ := (hfields _).1 (Except.ok.inj h)
      exact ⟨t, rest, hinput, ht, hsnapshot.trans t.complete_bare, hconfig⟩
  · rintro ⟨t, rest, hinput, ht, hsnapshot, hconfig⟩
    rw [Snapshot.parse_eq_ok_iff.2 ⟨t, rest, hinput, ht, rfl⟩]
    exact congrArg Except.ok ((hfields _).2 ⟨hsnapshot.trans t.complete_bare.symm, hconfig⟩)

theorem exists_restore_iff {m : Machine} {b : List UInt8} :
    (∃ m', m.restore b = .ok m') ↔ SaveFormat b := by
  rw [Snapshot.saveFormat_iff]
  constructor
  · rintro ⟨m', h⟩
    obtain ⟨s, rest, hb, hs, -⟩ := restore_eq_ok_iff.1 h
    exact ⟨s, rest, hb, hs⟩
  · rintro ⟨s, rest, hb, hs⟩
    exact ⟨{ m with cpu := s.complete.cpu, bus := s.complete.bus, cycles := s.complete.cycles,
                    frames := s.complete.frames },
      restore_eq_ok_iff.2 ⟨s, rest, hb, hs, rfl, rfl⟩⟩

theorem length_save {m : Machine} (h : m.snapshot.Valid) : m.save.length = 150168 := by
  rw [save, List.length_append, h.length_encode]
  rfl

theorem saveInto_of_le {m : Machine} {capacity : Nat} (h : m.save.length ≤ capacity) :
    m.saveInto capacity = .ok m.save := by
  have hheader : Snapshot.header.length ≤ m.save.length := by
    simp only [save, List.length_append]; omega
  unfold saveInto
  simp only
  rw [if_neg (by omega), if_neg (by omega)]

/-- What was restored can be stored again, and is what was in the input but for the low half of
register F. -/
theorem save_of_restore {m m' : Machine} {b : List UInt8} (h : m.restore b = .ok m') :
    m'.snapshot.Valid ∧ m'.bus.video.Coherent ∧ m'.cpu.f &&& 0xF0 = m'.cpu.f ∧
      m'.save = (b.take 150168).modify 9 (· &&& 0xF0) := by
  obtain ⟨s, rest, rfl, hs, hsnapshot, -⟩ := restore_eq_ok_iff.1 h
  have hf : m'.cpu.f = s.cpu.f &&& 0xF0 := congrArg (fun t => t.cpu.f) hsnapshot
  have hvideo : m'.bus.video = s.complete.bus.video := congrArg (fun t => t.bus.video) hsnapshot
  refine ⟨?_, ?_, ?_, ?_⟩
  · rw [hsnapshot]
    exact hs.complete
  · rw [hvideo]
    exact s.coherent_complete
  · rw [hf, UInt8.and_assoc, UInt8.and_self]
  · have hlen : (Snapshot.header ++ Layout.snapshot.encode s).length = 150168 := by
      rw [List.length_append, hs.length_encode]
      rfl
    rw [← List.append_assoc, ← hlen, List.take_left, save, hsnapshot, Snapshot.encode_complete]
    rfl

/-- **Nothing but the format is accepted, and nothing that was accepted is lost.**  What follows the
saved machine in the input is ignored, and where the input is refused the machine stays as it is. -/
theorem restore_exactly_saveFormat (m : Machine) (b : List UInt8) :
    match m.restore b with
    | .ok m' =>
      SaveFormat b ∧ m'.config = m.config ∧
        m'.save = (b.take 150168).modify 9 (· &&& 0xF0) ∧
        ∀ capacity, 150168 ≤ capacity → m'.saveInto capacity = .ok m'.save
    | .error _ => ¬ SaveFormat b ∧ m.afterRestore b = m := by
  cases hr : m.restore b with
  | ok m' =>
    obtain ⟨hvalid, -, -, hsave⟩ := save_of_restore hr
    obtain ⟨-, -, -, -, -, hconfig⟩ := restore_eq_ok_iff.1 hr
    refine ⟨exists_restore_iff.1 ⟨m', hr⟩, hconfig, hsave, ?_⟩
    intro capacity hcap
    apply saveInto_of_le
    rw [length_save hvalid]
    exact hcap
  | error e =>
    refine ⟨?_, afterRestore_of_error hr⟩
    intro hformat
    obtain ⟨m', hok⟩ := exists_restore_iff (m := m).2 hformat
    rw [hr] at hok
    cases hok

/-- **A saved machine is restored**, whatever machine it is restored into. -/
theorem restore_save {m : Machine} (h : m.snapshot.Valid) (ht : m.bus.video.Coherent)
    (hf : m.cpu.f &&& 0xF0 = m.cpu.f) (m' : Machine) :
    m'.restore m.save = .ok { m with config := m'.config } := by
  have hcomplete : m.snapshot.complete = m.snapshot := by
    simp only [Snapshot.complete, snapshot, ht.decodeTiles_eq, hf]
  exact restore_eq_ok_iff.2
    ⟨m.snapshot, [], by rw [List.append_nil]; rfl, h, hcomplete.symm, rfl⟩

/-- A machine that was saved on a line that does not exist is refused. -/
theorem restore_save_of_line {m : Machine} (hsize : m.bus.eram.size = Bus.eramSize)
    (hline : Video.lastLine < m.bus.video.regs.ly) (m' : Machine) :
    m'.restore m.save = .error (.corrupt .line) := by
  have hcheck : m.snapshot.bare.check = some .line := by
    unfold Snapshot.check
    rw [if_neg (show ¬ m.snapshot.bare.bus.eram.size ≠ Bus.eramSize from
      Decidable.not_not.2 hsize)]
    exact if_pos hline
  have hdecode := Snapshot.decode_encode (s := m.snapshot) hsize []
  rw [List.append_nil] at hdecode
  have hparse : Snapshot.parse m.save = .error (.corrupt .line) := by
    simp only [Snapshot.parse, save, Snapshot.readHeader_eq_ok_iff.2 rfl, hdecode, hcheck]
  rw [restore, hparse]

end Machine

end DotMatrix
