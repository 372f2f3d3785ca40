import DotMatrix.Snapshot.Layout

/-!
# Laws of codecs

Beside `Codec.Lawful` — what was written is read back — there are laws for whatever else a reader
accepts:

* `Codec.Canonical` — whatever is read is what would have been written.
* `Codec.Yields` — whatever is read has a property.
* `Codec.Exact` — a closed form of a reader: how many bytes it takes, what it asks of them and which
  value it makes of them.

Each law is shown of the fields and kept by composition.

Principal results: `Codec.Lawful.pair`, `Codec.Canonical.pair` and `Codec.Exact.pair`, with their
likes for `Codec.map` — composed formats keep the laws.
-/

set_option autoImplicit false

namespace DotMatrix

namespace Codec

variable {α β : Type}

/-! ## Readers of composed formats -/

theorem take_eq_ok_iff {n : Nat} {input front rest : List UInt8} :
    take n input = .ok (front, rest) ↔
      n ≤ input.length ∧ front = input.take n ∧ rest = input.drop n := by
  unfold take
  simp only [List.length_take]
  by_cases h : n ≤ input.length
  · rw [if_pos (Nat.min_eq_left h)]
    simp only [Except.ok.injEq, Prod.mk.injEq, h, true_and, eq_comm]
  · rw [if_neg (by omega)]
    simp [h]

theorem take_of_le {n : Nat} {input : List UInt8} (h : n ≤ input.length) :
    take n input = .ok (input.take n, input.drop n) :=
  take_eq_ok_iff.2 ⟨h, rfl, rfl⟩

theorem word_decode_eq_ok_iff {w n : Nat} {input rest : List UInt8} :
    (word w).decode input = .ok (n, rest) ↔
      w ≤ input.length ∧ n = LittleEndian.value (input.take w) ∧ rest = input.drop w := by
  simp only [word]
  cases ht : take w input with
  | error e =>
    have hn : ¬ w ≤ input.length := by
      intro h
      rw [take_of_le h] at ht
      cases ht
    simp [hn, bind, Except.bind]
  | ok r =>
    obtain ⟨front, rest'⟩ := r
    obtain ⟨hle, rfl, rfl⟩ := take_eq_ok_iff.1 ht
    simp only [bind, Except.bind, pure, Except.pure, Except.ok.injEq, Prod.mk.injEq, hle, true_and,
      eq_comm]

theorem pair_decode_eq_ok_iff {c : Codec α} {d : Codec β} {input rest : List UInt8} {x : α × β} :
    (pair c d).decode input = .ok (x, rest) ↔
      ∃ mid, c.decode input = .ok (x.1, mid) ∧ d.decode mid = .ok (x.2, rest) := by
  obtain ⟨a, b⟩ := x
  simp only [pair]
  cases hc : c.decode input with
  | error e => simp [bind, Except.bind]
  | ok r =>
    obtain ⟨a', mid⟩ := r
    cases hd : d.decode mid with
    | error e =>
      simp only [bind, Except.bind, hd, reduceCtorEq, Except.ok.injEq, Prod.mk.injEq, false_iff,
        not_exists, not_and]
      rintro mid' ⟨rfl, rfl⟩ h
      rw [hd] at h
      cases h
    | ok s =>
      obtain ⟨b', rest'⟩ := s
      simp only [bind, Except.bind, pure, Except.pure, hd, Except.ok.injEq, Prod.mk.injEq]
      constructor
      · rintro ⟨⟨rfl, rfl⟩, rfl⟩
        exact ⟨mid, ⟨rfl, rfl⟩, hd⟩
      · rintro ⟨mid', ⟨rfl, rfl⟩, h⟩
        rw [hd] at h
        cases h
        exact ⟨⟨rfl, rfl⟩, rfl⟩

theorem map_decode_eq_ok_iff {c : Codec α} {read : α → β} {write : β → α} {input rest : List UInt8}
    {y : β} :
    (map c read write).decode input = .ok (y, rest) ↔
      ∃ x, c.decode input = .ok (x, rest) ∧ read x = y := by
  simp only [map]
  cases hc : c.decode input with
  | error e => simp [bind, Except.bind]
  | ok r =>
    obtain ⟨x, rest'⟩ := r
    simp only [bind, Except.bind, pure, Except.pure, Except.ok.injEq, Prod.mk.injEq]
    constructor
    · rintro ⟨rfl, rfl⟩
      exact ⟨x, ⟨rfl, rfl⟩, rfl⟩
    · rintro ⟨x', ⟨rfl, rfl⟩, rfl⟩
      exact ⟨rfl, rfl⟩

/-! ## What was written is read back -/

theorem Lawful.mono {c : Codec α} {p q : α → Prop} (h : Lawful c p) (hq : ∀ x, q x → p x) :
    Lawful c q :=
  fun x rest hx => h x rest (hq x hx)

theorem lawful_u8 : Lawful u8 fun _ => True :=
  ((lawful_word 1).map UInt8.ofNat UInt8.toNat).mono fun x _ =>
    ⟨x.toNat_lt, UInt8.ofNat_toNat⟩

theorem lawful_u16 : Lawful u16 fun _ => True :=
  ((lawful_word 2).map UInt16.ofNat UInt16.toNat).mono fun x _ =>
    ⟨x.toNat_lt, UInt16.ofNat_toNat⟩

theorem lawful_u32 : Lawful u32 fun _ => True :=
  ((lawful_word 4).map UInt32.ofNat UInt32.toNat).mono fun x _ =>
    ⟨x.toNat_lt, UInt32.ofNat_toNat⟩

theorem lawful_u64 : Lawful u64 fun _ => True :=
  ((lawful_word 8).map UInt64.ofNat UInt64.toNat).mono fun x _ =>
    ⟨x.toNat_lt, UInt64.ofNat_toNat⟩

theorem lawful_bool : Lawful bool fun _ => True := by
  intro x rest _
  cases x <;> rfl

theorem lawful_blob : Lawful blob fun x => x.length < LittleEndian.limit 8 := by
  intro x rest hx
  simp only [blob, List.append_assoc, lawful_word 8 x.length (x ++ rest) hx, bind, Except.bind,
    take_append]

theorem lawful_segment {n : Nat} (hn : n < LittleEndian.limit 8) : Lawful (segment n) fun _ => True := by
  intro x rest _
  have hlen : x.toList.length = n := by simp
  have hb := lawful_blob x.toList rest (show _ < LittleEndian.limit 8 by rw [hlen]; exact hn)
  simp only [segment, hb, bind, Except.bind, hlen, dite_true, pure, Except.pure]
  rfl

/-! ## What is read is what would have been written -/

/-- Whatever is read is what would have been written, with the rest of the input after it. -/
def Canonical (c : Codec α) : Prop :=
  ∀ input x rest, c.decode input = .ok (x, rest) → input = c.encode x ++ rest

theorem canonical_word (w : Nat) : Canonical (word w) := by
  intro input n rest h
  obtain ⟨hle, rfl, rfl⟩ := word_decode_eq_ok_iff.1 h
  have hb := LittleEndian.bytes_value (input.take w)
  rw [List.length_take, Nat.min_eq_left hle] at hb
  simp only [word, hb, List.take_append_drop]

theorem Canonical.pair {c : Codec α} {d : Codec β} (hc : Canonical c) (hd : Canonical d) :
    Canonical (pair c d) := by
  intro input x rest h
  obtain ⟨mid, h1, h2⟩ := pair_decode_eq_ok_iff.1 h
  rw [hc input x.1 mid h1, hd mid x.2 rest h2]
  simp only [Codec.pair, List.append_assoc]

/-- Whatever is read has the property `p`. -/
def Yields (c : Codec α) (p : α → Prop) : Prop :=
  ∀ input x rest, c.decode input = .ok (x, rest) → p x

/-- A format stays canonical for another type if what was read of it is not changed on the way. -/
theorem Canonical.map {c : Codec α} (hc : Canonical c) {read : α → β} {write : β → α}
    (h : Yields c fun x => write (read x) = x) : Canonical (map c read write) := by
  intro input y rest hy
  obtain ⟨x, hx, rfl⟩ := map_decode_eq_ok_iff.1 hy
  have hin := hc input x rest hx
  simp only [Codec.map, h input x rest hx]
  exact hin

theorem limit_mono {w w' : Nat} (h : w ≤ w') : LittleEndian.limit w ≤ LittleEndian.limit w' := by
  induction h with
  | refl => exact Nat.le_refl _
  | step _ ih => simp only [LittleEndian.limit]; omega

theorem value_take_lt (input : List UInt8) (w : Nat) :
    LittleEndian.value (input.take w) < LittleEndian.limit w :=
  Nat.lt_of_lt_of_le (LittleEndian.value_lt _)
    (limit_mono (by rw [List.length_take]; exact Nat.min_le_left w _))

theorem yields_word (w : Nat) : Yields (word w) fun n => n < LittleEndian.limit w := by
  intro input n rest h
  obtain ⟨-, rfl, -⟩ := word_decode_eq_ok_iff.1 h
  exact value_take_lt input w

theorem canonical_u8 : Canonical u8 :=
  (canonical_word 1).map fun input n rest h =>
    UInt8.toNat_ofNat_of_lt (yields_word 1 input n rest h)

theorem canonical_u16 : Canonical u16 :=
  (canonical_word 2).map fun input n rest h =>
    UInt16.toNat_ofNat_of_lt (yields_word 2 input n rest h)

theorem canonical_u32 : Canonical u32 :=
  (canonical_word 4).map fun input n rest h =>
    UInt32.toNat_ofNat_of_lt (yields_word 4 input n rest h)

theorem canonical_u64 : Canonical u64 :=
  (canonical_word 8).map fun input n rest h =>
    UInt64.toNat_ofNat_of_lt (yields_word 8 input n rest h)

theorem bool_decode_eq_ok_iff {input rest : List UInt8} {x : Bool} :
    bool.decode input = .ok (x, rest) ↔ u8.decode input = .ok (if x then 1 else 0, rest) := by
  simp only [bool]
  cases hb : u8.decode input with
  | error e => simp [bind, Except.bind]
  | ok r =>
    obtain ⟨b, rest'⟩ := r
    simp only [bind, Except.bind, pure, Except.pure, Except.ok.injEq, Prod.mk.injEq]
    split
    · rename_i h0
      cases x <;> simp [h0]
    · split
      · rename_i h0 h1
        cases x <;> simp [h1]
      · rename_i h0 h1
        cases x <;> simp [h0, h1]

theorem canonical_bool : Canonical bool := by
  intro input x rest h
  rw [canonical_u8 input _ rest (bool_decode_eq_ok_iff.1 h)]
  cases x <;> rfl

theorem blob_decode_eq_ok_iff {input rest x : List UInt8} :
    blob.decode input = .ok (x, rest) ↔
      ∃ mid, (word 8).decode input = .ok (x.length, mid) ∧ mid = x ++ rest := by
  simp only [blob]
  cases hw : (word 8).decode input with
  | error e => simp [bind, Except.bind]
  | ok r =>
    obtain ⟨n, mid⟩ := r
    simp only [bind, Except.bind, take_eq_ok_iff, Except.ok.injEq, Prod.mk.injEq]
    constructor
    · rintro ⟨hle, rfl, rfl⟩
      exact ⟨mid, ⟨by rw [List.length_take, Nat.min_eq_left hle], rfl⟩,
        (List.take_append_drop n mid).symm⟩
    · rintro ⟨_, ⟨rfl, rfl⟩, rfl⟩
      simp

theorem canonical_blob : Canonical blob := by
  intro input x rest h
  obtain ⟨mid, hn, rfl⟩ := blob_decode_eq_ok_iff.1 h
  rw [canonical_word 8 input _ _ hn]
  simp only [blob, List.append_assoc]

theorem segment_decode_eq_ok_iff {n : Nat} {input rest : List UInt8} {x : Memory n} :
    (segment n).decode input = .ok (x, rest) ↔ blob.decode input = .ok (x.toList, rest) := by
  simp only [segment]
  cases hb : blob.decode input with
  | error e => simp [bind, Except.bind]
  | ok r =>
    obtain ⟨bytes, rest'⟩ := r
    simp only [bind, Except.bind, pure, Except.pure]
    split
    · rename_i hlen
      simp only [Except.ok.injEq, Prod.mk.injEq, and_congr_left_iff]
      rintro -
      constructor
      · rintro rfl; rfl
      · rintro rfl; rfl
    · rename_i hlen
      simp only [reduceCtorEq, Except.ok.injEq, Prod.mk.injEq, false_iff, not_and]
      rintro rfl
      exact absurd x.length_toList hlen

theorem canonical_segment (n : Nat) : Canonical (segment n) := fun input x rest h =>
  canonical_blob input x.toList rest (segment_decode_eq_ok_iff.1 h)

/-! ## What is read, in closed form -/

/-- The number in so many bytes of an input, from an offset on. -/
def field (input : List UInt8) (offset width : Nat) : Nat :=
  LittleEndian.value ((input.drop offset).take width)

theorem field_drop (input : List UInt8) (k offset width : Nat) :
    field (input.drop k) offset width = field input (k + offset) width := by
  rw [field, List.drop_drop, field]

/-- A value with the property `q` is read exactly from those inputs of `n` bytes or more that have
the property `p`, and it is the one that `f` makes of the input. -/
def Exact (c : Codec α) (q : α → Prop) (n : Nat) (p : List UInt8 → Prop) (f : List UInt8 → α) :
    Prop :=
  ∀ input x rest, (c.decode input = .ok (x, rest) ∧ q x) ↔
    (n ≤ input.length ∧ p input ∧ x = f input ∧ rest = input.drop n)

theorem exact_word (w : Nat) :
    Exact (word w) (fun _ => True) w (fun _ => True) fun input => field input 0 w := by
  intro input x rest
  simp only [word_decode_eq_ok_iff, field, List.drop_zero, true_and, and_true]

theorem Exact.pair {c : Codec α} {d : Codec β} {q : α → Prop} {q' : β → Prop} {n n' : Nat}
    {p p' : List UInt8 → Prop} {f : List UInt8 → α} {f' : List UInt8 → β}
    (hc : Exact c q n p f) (hd : Exact d q' n' p' f') :
    Exact (pair c d) (fun x => q x.1 ∧ q' x.2) (n + n') (fun input => p input ∧ p' (input.drop n))
      fun input => (f input, f' (input.drop n)) := by
  intro input x rest
  rw [pair_decode_eq_ok_iff]
  constructor
  · rintro ⟨⟨mid, h1, h2⟩, hq, hq'⟩
    obtain ⟨hn, hp, hx, rfl⟩ := (hc _ _ _).1 ⟨h1, hq⟩
    obtain ⟨hn', hp', hx', rfl⟩ := (hd _ _ _).1 ⟨h2, hq'⟩
    rw [List.length_drop] at hn'
    exact ⟨by omega, ⟨hp, hp'⟩, Prod.ext hx hx', by rw [List.drop_drop]⟩
  · rintro ⟨hn, ⟨hp, hp'⟩, rfl, rfl⟩
    have h1 := (hc input (f input) _).2 ⟨by omega, hp, rfl, rfl⟩
    have h2 := (hd (input.drop n) (f' (input.drop n)) _).2
      ⟨by rw [List.length_drop]; omega, hp', rfl, rfl⟩
    rw [List.drop_drop] at h2
    exact ⟨⟨_, h1.1, h2.1⟩, h1.2, h2.2⟩

theorem Exact.map {c : Codec α} {q : α → Prop} {n : Nat} {p : List UInt8 → Prop}
    {f : List UInt8 → α} (hc : Exact c q n p f) (read : α → β) (write : β → α) {q' : β → Prop}
    (hq : ∀ x, q' (read x) ↔ q x) :
    Exact (map c read write) q' n p fun input => read (f input) := by
  intro input y rest
  rw [map_decode_eq_ok_iff]
  constructor
  · rintro ⟨⟨x, hx, rfl⟩, hy⟩
    obtain ⟨hn, hp, rfl, rfl⟩ := (hc _ _ _).1 ⟨hx, (hq x).1 hy⟩
    exact ⟨hn, hp, rfl, rfl⟩
  · rintro ⟨hn, hp, rfl, rfl⟩
    have h := (hc input (f input) _).2 ⟨hn, hp, rfl, rfl⟩
    exact ⟨⟨_, h.1, rfl⟩, (hq _).2 h.2⟩

theorem Exact.congr {c : Codec α} {q : α → Prop} {n n' : Nat} {p p' : List UInt8 → Prop}
    {f : List UInt8 → α} (h : Exact c q n p f) (hn : n = n') (hp : ∀ input, p input ↔ p' input) :
    Exact c q n' p' f := by
  subst hn
  intro input x rest
  rw [h input x rest, hp input]

theorem Exact.length_encode {c : Codec α} {q r : α → Prop} {n : Nat} {p : List UInt8 → Prop}
    {f : List UInt8 → α} (h : Exact c q n p f) (hl : Lawful c r) {x : α} (hr : r x) (hq : q x) :
    (c.encode x).length = n := by
  have hd := hl x [] hr
  rw [List.append_nil] at hd
  obtain ⟨hle, -, -, hrest⟩ := (h _ _ _).1 ⟨hd, hq⟩
  have hdrop : ((c.encode x).drop n).length = 0 := by rw [← hrest]; rfl
  rw [List.length_drop] at hdrop
  omega

theorem exact_u8 :
    Exact u8 (fun _ => True) 1 (fun _ => True) fun input => UInt8.ofNat (field input 0 1) :=
  (exact_word 1).map UInt8.ofNat UInt8.toNat fun _ => .rfl

theorem exact_u16 :
    Exact u16 (fun _ => True) 2 (fun _ => True) fun input => UInt16.ofNat (field input 0 2) :=
  (exact_word 2).map UInt16.ofNat UInt16.toNat fun _ => .rfl

theorem exact_u32 :
    Exact u32 (fun _ => True) 4 (fun _ => True) fun input => UInt32.ofNat (field input 0 4) :=
  (exact_word 4).map UInt32.ofNat UInt32.toNat fun _ => .rfl

theorem exact_u64 :
    Exact u64 (fun _ => True) 8 (fun _ => True) fun input => UInt64.ofNat (field input 0 8) :=
  (exact_word 8).map UInt64.ofNat UInt64.toNat fun _ => .rfl

theorem field_lt (input : List UInt8) (offset width : Nat) :
    field input offset width < LittleEndian.limit width :=
  value_take_lt (input.drop offset) width

theorem exact_bool :
    Exact bool (fun _ => True) 1 (fun input => field input 0 1 ≤ 1)
      fun input => field input 0 1 == 1 := by
  intro input x rest
  have hu := exact_u8 input (if x then 1 else 0) rest
  have hlt := field_lt input 0 1
  simp only [and_true] at hu ⊢
  rw [bool_decode_eq_ok_iff, hu]
  generalize field input 0 1 = b at hlt
  have hbit : (if x then 1 else 0) = UInt8.ofNat b ↔ b ≤ 1 ∧ x = (b == 1) := by
    rw [← UInt8.toNat_inj, UInt8.toNat_ofNat_of_lt' hlt]
    cases x <;> simp <;> omega
  constructor
  · rintro ⟨hle, -, hx, hrest⟩
    exact ⟨hle, (hbit.1 hx).1, (hbit.1 hx).2, hrest⟩
  · rintro ⟨hle, hb, hx, hrest⟩
    exact ⟨hle, trivial, hbit.2 ⟨hb, hx⟩, hrest⟩

/-- Bytes after their number, if they are to be so many. -/
theorem exact_blob (k : Nat) :
    Exact blob (fun x => x.length = k) (8 + k) (fun input => field input 0 8 = k)
      fun input => (input.drop 8).take k := by
  intro input x rest
  simp only [blob_decode_eq_ok_iff, word_decode_eq_ok_iff, field, List.drop_zero]
  constructor
  · rintro ⟨⟨mid, ⟨h8, hlen, rfl⟩, happ⟩, hk⟩
    have hl : (input.drop 8).length = x.length + rest.length := by
      rw [happ, List.length_append]
    rw [List.length_drop] at hl
    refine ⟨by omega, by omega, ?_, ?_⟩
    · rw [happ, ← hk, List.take_left]
    · rw [← List.drop_drop, happ, ← hk, List.drop_left]
  · rintro ⟨hle, hn, rfl, rfl⟩
    have hl : ((input.drop 8).take k).length = k := by
      rw [List.length_take, List.length_drop]; omega
    exact ⟨⟨_, ⟨by omega, by rw [hl, hn], rfl⟩, by
      rw [← List.drop_drop, List.take_append_drop]⟩, hl⟩

theorem exact_segment (n : Nat) :
    Exact (segment n) (fun _ => True) (8 + n) (fun input => field input 0 8 = n)
      fun input => Memory.ofImage n ((input.drop 8).take n) := by
  intro input x rest
  have hb := exact_blob n input x.toList rest
  rw [segment_decode_eq_ok_iff, and_true]
  rw [and_iff_left x.length_toList] at hb
  rw [hb]
  dsimp only
  refine and_congr_right fun hle => and_congr_right fun _ => and_congr_left fun _ => ?_
  have hl : ((input.drop 8).take n).length = n := by
    rw [List.length_take, List.length_drop]; omega
  constructor
  · intro hx
    apply Vector.ext
    intro i hi
    rw [Memory.getElem_ofImage, ← hx]
    simp [hi]
  · rintro rfl
    apply List.ext_getElem (by rw [Vector.length_toList, hl])
    intro i h1 h2
    rw [Vector.getElem_toList, Memory.getElem_ofImage, List.getElem?_eq_getElem h2]
    rfl

end Codec

end DotMatrix
