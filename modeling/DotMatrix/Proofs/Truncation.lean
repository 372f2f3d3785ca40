import DotMatrix.Proofs.SaveFormat
import DotMatrix.Proofs.Reachable

/-!
# Saved machines that are cut off

A saved machine is only good as a whole.  What is missing of it is noticed by the writer that runs out of room
and by the reader that runs out of input, and both say so in the same way.

* `Codec.Steady` — readers that change their answer to a longer input only if they ran out of input before.
* `Output` — an output with limited room; `Snapshot.writePieces` saves into one piece by piece.
* `Snapshot.cutOff` — how a cut shows, by its place.

Principal results: `Codec.Steady.bind` — steady readers compose; `Codec.Lawful.decode_take` — what a lawful writer
wrote has no beginning that its steady reader takes for something else; `Output.putAll_eq` — the pieces make no
difference; `Machine.truncation_detected` — every cut of a saved machine is noticed, in both directions.
-/

set_option autoImplicit false

namespace DotMatrix

/-! ## Readers that wait for their input -/

namespace Codec

variable {α β : Type}

/-- What reads a value from the front of an input. -/
abbrev Reader (α : Type) := List UInt8 → Except CodecError (α × List UInt8)

/-- Unless it runs out of input, the reader does with every longer input what it does with this one: it has the same
value, or the same complaint, and leaves what comes after. -/
def Steady (read : Reader α) : Prop :=
  ∀ input more, read input = .error (.stream .endOfInput) ∨
    read (input ++ more) = (read input).map fun r => (r.1, r.2 ++ more)

theorem take_of_lt {n : Nat} {input : List UInt8} (h : input.length < n) :
    take n input = .error (.stream .endOfInput) := by
  rw [take, if_neg]
  rw [List.length_take]
  omega

theorem steady_take (n : Nat) : Steady (take n) := by
  intro input more
  by_cases h : n ≤ input.length
  · right
    rw [take_of_le h, take_of_le (by rw [List.length_append]; omega),
      List.take_append_of_le_length h, List.drop_append_of_le_length h]
    rfl
  · exact .inl (take_of_lt (Nat.lt_of_not_le h))

theorem steady_value (a : α) : Steady fun rest => .ok (a, rest) := fun _ _ => .inr rfl

theorem steady_refusal (e : CodecError) : Steady fun _ => (.error e : Except CodecError (α × List UInt8)) :=
  fun _ _ => .inr rfl

/-- **Reading on from a value is steady** if both parts are. -/
theorem Steady.bind {read : Reader α} {next : α → Reader β} (hr : Steady read)
    (hn : ∀ a, Steady (next a)) :
    Steady fun input => read input >>= fun r => next r.1 r.2 := by
  intro input more
  rcases hr input more with h | h
  · left
    simp only [h, Bind.bind, Except.bind]
  · cases hi : read input with
    | error e =>
      right
      rw [hi] at h
      simp only [h, hi, Bind.bind, Except.bind, Except.map]
    | ok r =>
      rw [hi] at h
      simp only [h, hi, Bind.bind, Except.bind, Except.map]
      exact hn r.1 r.2 more

theorem steady_word (w : Nat) : Steady (word w).decode :=
  (steady_take w).bind fun front => steady_value (LittleEndian.value front)

theorem Steady.pair {first : Codec α} {second : Codec β} (hf : Steady first.decode)
    (hs : Steady second.decode) : Steady (pair first second).decode :=
  hf.bind fun a => hs.bind fun b => steady_value (a, b)

theorem Steady.map {c : Codec α} (hc : Steady c.decode) (read : α → β) (write : β → α) :
    Steady (map c read write).decode :=
  hc.bind fun a => steady_value (read a)

theorem steady_u8 : Steady u8.decode := (steady_word 1).map _ _

theorem steady_u16 : Steady u16.decode := (steady_word 2).map _ _

theorem steady_u32 : Steady u32.decode := (steady_word 4).map _ _

theorem steady_u64 : Steady u64.decode := (steady_word 8).map _ _

theorem steady_bool : Steady bool.decode := by
  have hnext : ∀ b : UInt8, Steady fun rest =>
      if b = 0 then .ok (false, rest) else if b = 1 then .ok (true, rest)
      else .error (.invalidBool b) := by
    intro b
    split
    · exact steady_value false
    · split
      · exact steady_value true
      · exact steady_refusal _
  exact steady_u8.bind hnext

theorem steady_blob : Steady blob.decode := (steady_word 8).bind steady_take

theorem steady_segment (n : Nat) : Steady (segment n).decode := by
  have hnext : ∀ bytes : List UInt8, Steady fun rest =>
      if h : bytes.length = n then .ok ((⟨bytes.toArray, h⟩ : Memory n), rest)
      else .error (.invalidLength bytes.length n) := by
    intro bytes
    split
    · exact steady_value _
    · exact steady_refusal _
  exact steady_blob.bind hnext

/-- **What was written is read as a whole or not at all**: cut off anywhere, it is an input that ends. -/
theorem Lawful.decode_take {c : Codec α} {p : α → Prop} (hl : Lawful c p) (hs : Steady c.decode)
    {x : α} (hx : p x) {k : Nat} (hk : k < (c.encode x).length) :
    c.decode ((c.encode x).take k) = .error (.stream .endOfInput) := by
  have hfull := hl x [] hx
  rw [List.append_nil] at hfull
  rcases hs ((c.encode x).take k) ((c.encode x).drop k) with h | h
  · exact h
  · -- any other answer would be the answer to the whole, which leaves nothing
    rw [List.take_append_drop, hfull] at h
    cases hd : c.decode ((c.encode x).take k) with
    | error e =>
      rw [hd] at h
      cases h
    | ok r =>
      rw [hd] at h
      have hrest : [] = r.2 ++ (c.encode x).drop k := congrArg Prod.snd (Except.ok.inj h)
      have hlength := congrArg List.length hrest
      rw [List.length_append, List.length_drop, List.length_nil] at hlength
      omega

end Codec

namespace Layout

open Codec

theorem steady_cpu : Steady cpu.decode :=
  (steady_u8.pair <| steady_u8.pair <| steady_u8.pair <| steady_u8.pair <| steady_u8.pair <|
    steady_u8.pair <| steady_u8.pair <| steady_u8.pair <| steady_u16.pair <| steady_u16.pair <|
    steady_bool.pair steady_bool).map _ _

theorem steady_registers : Steady registers.decode :=
  (steady_u8.pair <| steady_u8.pair <| steady_u8.pair <| steady_u8.pair <| steady_u8.pair <|
    steady_u8.pair <| steady_u8.pair <| steady_u8.pair <| steady_u8.pair <| steady_u8.pair <|
    steady_u8.pair steady_u8).map _ _

theorem steady_video : Steady video.decode :=
  ((steady_segment _).pair <| (steady_segment _).pair <| (steady_segment _).pair <|
    steady_registers.pair <| steady_u32.pair steady_u8).map _ _

theorem steady_bus : Steady bus.decode :=
  (steady_bool.pair <| (steady_segment _).pair <| (steady_segment _).pair <| steady_blob.pair <|
    (steady_segment _).pair <| (steady_segment _).pair steady_video).map _ _

theorem steady_snapshot : Steady snapshot.decode :=
  (steady_cpu.pair <| steady_bus.pair <| steady_u64.pair steady_u64).map _ _

end Layout

/-! ## Writing piece by piece -/

/-- What has been written, and the room that is left. -/
structure Output where
  written : List UInt8
  room : Nat

namespace Output

/-- Writes bytes as long as there is room. -/
def put (o : Output) (bytes : List UInt8) : Output :=
  ⟨o.written ++ bytes.take o.room, o.room - bytes.length⟩

/-- Writes pieces one after the other, and none after one for which there was not enough room.  Tells
whether there was room for all. -/
def putAll : List (List UInt8) → Output → Bool × Output
  | [], o => (true, o)
  | piece :: pieces, o =>
    if piece.length ≤ o.room then putAll pieces (o.put piece) else (false, o.put piece)

theorem put_nil (o : Output) : o.put [] = o := by
  simp [put]

theorem put_append (o : Output) (a b : List UInt8) : o.put (a ++ b) = (o.put a).put b := by
  simp only [put, List.take_append, List.append_assoc, List.length_append, Nat.sub_add_eq]

/-- What does not fit leaves no room for anything after it. -/
theorem put_append_of_full {o : Output} {a : List UInt8} (h : o.room ≤ a.length)
    (b : List UInt8) : o.put (a ++ b) = o.put a := by
  have hroom : (o.put a).room = 0 := Nat.sub_eq_zero_of_le h
  rw [put_append, put, hroom, List.take_zero, List.append_nil, Nat.zero_sub, ← hroom]

/-- **It makes no difference in which pieces bytes are written.** -/
theorem putAll_eq (pieces : List (List UInt8)) (o : Output) :
    putAll pieces o = (decide (pieces.flatten.length ≤ o.room), o.put pieces.flatten) := by
  induction pieces generalizing o with
  | nil => simp [putAll, put_nil]
  | cons piece pieces ih =>
    rw [putAll, List.flatten_cons, List.length_append]
    by_cases hfits : piece.length ≤ o.room
    · have hiff : pieces.flatten.length ≤ (o.put piece).room ↔
          piece.length + pieces.flatten.length ≤ o.room := by
        simp only [put]
        omega
      rw [if_pos hfits, ih, put_append]
      simp only [hiff]
    · have hnot : ¬ piece.length + pieces.flatten.length ≤ o.room := by omega
      rw [if_neg hfits, put_append_of_full (by omega), decide_eq_false hnot]

end Output

namespace Snapshot

/-- Writes the pieces of a header and then those of a snapshot where there is room for so many bytes.
Returns how it went, and what was written. -/
def writePieces (front body : List (List UInt8)) (capacity : Nat) :
    Except SnapshotError Unit × List UInt8 :=
  let r := Output.putAll front ⟨[], capacity⟩
  if r.1 then
    let s := Output.putAll body r.2
    if s.1 then (.ok (), s.2.written)
    else (.error (.encoding (.stream .endOfOutput)), s.2.written)
  else (.error (.io .endOfOutput), r.2.written)

/-- What becomes of a whole that is cut off after so many bytes, where `e` is how the stream gives out. -/
def cutOff {α : Type} (e : StreamError) (length : Nat) (whole : α) : Except SnapshotError α :=
  if length < 8 then .error (.io e)
  else if length < 150168 then .error (.encoding (.stream e))
  else .ok whole

end Snapshot

/-! ## Saved machines -/

namespace Machine

/-- A machine as it is read from what it saved: register F has no spare bits.  The settings are those of the
machine that it is read into. -/
def asRead (m target : Machine) : Machine :=
  { m with cpu := { m.cpu with f := m.cpu.f &&& 0xF0 }, config := target.config }

/-- The machine with its tiles decoded from video memory. -/
def decoded (m : Machine) : Machine := m.withVideo m.bus.video.decodeTiles

variable {m : Machine}

theorem snapshot_asRead_withTiles (m target : Machine) (tiles : TileCache) :
    ((m.withVideo { m.bus.video with tiles := tiles }).asRead target).snapshot =
      m.snapshot.masked.withTiles tiles := rfl

/-- Tiles are not read but decoded, whether the machine that was saved had these or others. -/
theorem restore_save_of_valid (h : m.snapshot.Valid) (target : Machine) :
    target.restore m.save = .ok (m.decoded.asRead target) := by
  have hsnapshot : (m.decoded.asRead target).snapshot = m.snapshot.complete := by
    rw [Snapshot.complete_eq, decoded, Video.decodeTiles_eq]
    exact m.snapshot_asRead_withTiles target (Tile.decode m.bus.video.vram)
  exact restore_eq_ok_iff.2 ⟨m.snapshot, [], by rw [List.append_nil]; rfl, h, hsnapshot, rfl⟩

/-! ## Cutting off -/

theorem saveInto_eq_cutOff (hlength : m.save.length = 150168) (capacity : Nat) :
    m.saveInto capacity = Snapshot.cutOff .endOfOutput capacity m.save := by
  have hheader : Snapshot.header.length = 8 := rfl
  simp only [saveInto, Snapshot.cutOff, hlength, hheader]

/-- **Saving piece by piece saves**, and what was written until it failed is the beginning of it. -/
theorem writePieces_eq {front body : List (List UInt8)} (hfront : front.flatten = Snapshot.header)
    (hbody : body.flatten = Layout.snapshot.encode m.snapshot) (capacity : Nat) :
    Snapshot.writePieces front body capacity =
      ((m.saveInto capacity).map fun _ => (), m.save.take capacity) := by
  have hheader : Snapshot.header.length = 8 := rfl
  have hlength : m.save.length = 8 + (Layout.snapshot.encode m.snapshot).length := by
    rw [save, List.length_append, hheader]
  have hwritten : m.save.take capacity = (Output.put ⟨[], capacity⟩ m.save).written := rfl
  unfold Snapshot.writePieces saveInto
  simp only [Output.putAll_eq, hfront, hbody, hheader]
  by_cases hshort : capacity < 8
  · have hfull : Output.put ⟨[], capacity⟩ m.save = Output.put ⟨[], capacity⟩ Snapshot.header :=
      Output.put_append_of_full (by rw [hheader]; exact Nat.le_of_lt hshort) _
    rw [if_neg (by simp; omega), if_pos hshort, hwritten, hfull]
    rfl
  · rw [if_pos (by simp; omega), if_neg hshort, ← Output.put_append, hwritten]
    have hroom : (Layout.snapshot.encode m.snapshot).length ≤
        (Output.put ⟨[], capacity⟩ Snapshot.header).room ↔ ¬ capacity < m.save.length := by
      simp only [Output.put, hheader, hlength]
      omega
    by_cases hcut : capacity < m.save.length
    · rw [if_neg (by simpa [hroom] using hcut), if_pos hcut]
      rfl
    · rw [if_pos (by simpa [hroom] using hcut), if_neg hcut]
      rfl

/-- Cut off within the header, a saved machine ends before its version is known. -/
theorem readHeader_take {length : Nat} (h : length < 8) :
    Snapshot.readHeader (m.save.take length) = .error (.io .endOfInput) := by
  have hfront : m.save.take length = Snapshot.header.take length :=
    List.take_append_of_le_length (Nat.le_of_lt h)
  unfold Snapshot.readHeader
  rw [hfront]
  by_cases hletters : length < 4
  · have hend : Codec.take 4 (Snapshot.header.take length) = .error (.stream .endOfInput) :=
      Codec.take_of_lt (by rw [List.length_take]; omega)
    simp only [hend]
  · have hversion := (Codec.lawful_word 4).decode_take (Codec.steady_word 4)
      (show Snapshot.version < LittleEndian.limit 4 by decide)
      (show length - 4 < ((Codec.word 4).encode Snapshot.version).length from
        Nat.sub_lt_left_of_lt_add (Nat.le_of_not_lt hletters) h)
    have hcut : Snapshot.header.take length =
        Snapshot.magic ++ ((Codec.word 4).encode Snapshot.version).take (length - 4) := by
      rw [Snapshot.header, List.take_append, List.take_of_length_le (Nat.le_of_not_lt hletters)]
      rfl
    have htake := Codec.take_append Snapshot.magic
      (((Codec.word 4).encode Snapshot.version).take (length - 4))
    rw [show Snapshot.magic.length = 4 from rfl] at htake
    simp only [hcut, htake, hversion, ne_eq, not_true_eq_false, if_false]

theorem restore_take (h : m.snapshot.Valid) (length : Nat) (target : Machine) :
    target.restore (m.save.take length) =
      Snapshot.cutOff .endOfInput length (m.decoded.asRead target) := by
  have hlength := length_save h
  unfold Snapshot.cutOff
  split
  · rename_i hheader
    rw [restore, Snapshot.parse, readHeader_take hheader]
  · rename_i hheader
    split
    · rename_i hbody
      have hcut : m.save.take length =
          Snapshot.header ++ (Layout.snapshot.encode m.snapshot).take (length - 8) := by
        rw [save, List.take_append, List.take_of_length_le (Nat.le_of_not_lt hheader)]
        rfl
      have hdecode : Layout.snapshot.decode
          ((Layout.snapshot.encode m.snapshot).take (length - 8)) =
            .error (.stream .endOfInput) := by
        refine Layout.lawful_snapshot.decode_take Layout.steady_snapshot
          (Snapshot.readable_bare h.eram) ?_
        show length - 8 < (Layout.snapshot.encode m.snapshot).length
        rw [h.length_encode]
        omega
      rw [restore, Snapshot.parse, hcut, Snapshot.readHeader_eq_ok_iff.2 rfl]
      simp only [hdecode]
    · rename_i hbody
      rw [List.take_of_length_le (by omega)]
      exact restore_save_of_valid h target

/-- **A saved machine that is cut off is recognised**, wherever the cut is, and alike in both directions.  Saving
into an output of `k` bytes, as a whole or in any pieces, and restoring from the first `k` bytes fail within the
header for `k < 8`, after it for `k < 150168`, and succeed otherwise; a failed attempt leaves the beginning of what
was to be saved, or the machine that was to be restored as it was. -/
theorem truncation_detected {m : Machine} (h : m.snapshot.Valid) (k : Nat) (target : Machine) :
    m.save.length = 150168 ∧
      m.saveInto k = Snapshot.cutOff .endOfOutput k m.save ∧
      (∀ front body : List (List UInt8), front.flatten = Snapshot.header →
        body.flatten = Layout.snapshot.encode m.snapshot →
        Snapshot.writePieces front body k = ((m.saveInto k).map fun _ => (), m.save.take k)) ∧
      target.restore (m.save.take k) = Snapshot.cutOff .endOfInput k (m.decoded.asRead target) ∧
      target.afterRestore (m.save.take k) =
        if k < 150168 then target else m.decoded.asRead target := by
  have hlength := length_save h
  have hrestore := restore_take h k target
  refine ⟨hlength, saveInto_eq_cutOff hlength k, fun _ _ hfront hbody => writePieces_eq hfront hbody k,
    hrestore, ?_⟩
  unfold Snapshot.cutOff at hrestore
  split at hrestore
  · rw [afterRestore_of_error hrestore, if_pos (by omega)]
  · split at hrestore
    · rename_i hbody
      rw [afterRestore_of_error hrestore, if_pos hbody]
    · rename_i hbody
      rw [afterRestore_of_ok hrestore, if_neg hbody]

/-- The last byte of a saved machine is missing. -/
theorem truncation_lastByte :
    (create {}).snapshot.Valid ∧
      Snapshot.writePieces [Snapshot.magic, LittleEndian.bytes 4 Snapshot.version]
          [Layout.snapshot.encode (create {}).snapshot] 150167 =
        (.error (.encoding (.stream .endOfOutput)), (create {}).save.take 150167) ∧
      (create { startInBoot := false }).restore ((create {}).save.take 150167) =
        .error (.encoding (.stream .endOfInput)) := by
  have hcreated := Reachable.create {}
  have hvalid : (create {}).snapshot.Valid :=
    hcreated.intact.valid hcreated.sustained.line hcreated.sustained.clock
  obtain ⟨-, hsave, hpieces, hrestore, -⟩ :=
    truncation_detected hvalid 150167 (create { startInBoot := false })
  refine ⟨hvalid, ?_, hrestore⟩
  rw [hpieces _ _ rfl (List.append_nil _), hsave]
  rfl

end Machine

end DotMatrix
