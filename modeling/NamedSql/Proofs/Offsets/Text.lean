import NamedSql.Proofs.Bytes
import NamedSql.Region

namespace NamedSql.Offsets

/-- The text in UTF-8. -/
def bytes (text : List Char) : List UInt8 :=
  text.flatMap String.utf8EncodeChar

/-- The byte at an offset, as the character with its code. There is none past the end. -/
def byteAt? (text : List Char) (offset : Nat) : Option Char :=
  (bytes text)[offset]?.map Char.ofUInt8

/-- The part of a text between two offsets. There is none when they are the wrong way round, or one
of them is past the end or inside a character. -/
def slice? (text : List Char) (start stop : Nat) : Option (List Char) := do
  let (front, _) ← cutAtByte? stop text
  let (_, part) ← cutAtByte? start front
  return part

/-- What is left of one offset when another one is taken from it. -/
def sub? (a b : Nat) : Option Nat :=
  if b ≤ a then some (a - b) else none

/-- The offset at which a loop goes on. A loop that does not move ahead has none. -/
def ahead? (pos next : Nat) : Option {n : Nat // pos < n} :=
  if h : pos < next then some ⟨next, h⟩ else none

/-- The first offset at which `needle` stands. -/
def find? (needle : List Char) : List Char → Option Nat
  | [] => if needle.isEmpty then some 0 else none
  | c :: cs =>
    if needle.isPrefixOf (c :: cs) then some 0 else (find? needle cs).map (c.utf8Size + ·)

/-- The first offset from `start` on at which `needle` stands. Nothing is found when no character
begins at `start`. -/
def findFrom? (text : List Char) (start : Nat) (needle : List Char) : Option Nat :=
  (cutAtByte? start text).bind fun (_, rest) => (find? needle rest).map (start + ·)

theorem slice?_eq_some_iff {text part : List Char} {start stop : Nat} :
    slice? text start stop = some part ↔ ∃ before after, text = before ++ part ++ after ∧
      start = byteLength before ∧ stop = byteLength (before ++ part) := by
  simp only [slice?, Option.bind_eq_bind, Option.bind_eq_some_iff, Option.pure_def,
    Option.some.injEq, Prod.exists, cutAtByte?_eq_some_iff]
  constructor
  · rintro ⟨front, after, ⟨rfl, rfl⟩, before, _, ⟨rfl, rfl⟩, rfl⟩
    exact ⟨before, after, rfl, rfl, rfl⟩
  · rintro ⟨before, after, rfl, rfl, rfl⟩
    exact ⟨before ++ part, after, ⟨rfl, rfl⟩, before, part, ⟨rfl, rfl⟩, rfl⟩

@[simp] theorem slice?_append (before part after : List Char) :
    slice? (before ++ (part ++ after)) (byteLength before) (byteLength before + byteLength part) =
      some part := by
  refine slice?_eq_some_iff.mpr ⟨before, after, ?_, rfl, ?_⟩
  · rw [List.append_assoc]
  · rw [byteLength_append]

/-- There is a slice between two offsets exactly when they are in order, in the text and on
character boundaries. -/
theorem isSome_slice?_iff {s : String} {start stop : Nat} :
    (slice? s.toList start stop).isSome ↔ start ≤ stop ∧ stop ≤ s.utf8ByteSize ∧
      (String.Pos.Raw.mk start).IsValid s ∧ (String.Pos.Raw.mk stop).IsValid s := by
  have hvalid (offset : Nat) : (String.Pos.Raw.mk offset).IsValid s ↔
      ∃ before after, s.toList = before ++ after ∧ offset = byteLength before := by
    constructor
    · intro h
      obtain ⟨t, u, rfl, ht⟩ := String.Pos.Raw.isValid_iff_exists_append.mp h
      refine ⟨t.toList, u.toList, String.toList_append, ?_⟩
      rw [← utf8ByteSize_eq_byteLength]
      exact congrArg String.Pos.Raw.byteIdx ht
    · rintro ⟨before, after, hs, rfl⟩
      exact isValid_of_append hs
  rw [Option.isSome_iff_exists, hvalid, hvalid, utf8ByteSize_eq_byteLength]
  simp only [slice?_eq_some_iff]
  constructor
  · rintro ⟨part, before, after, hs, rfl, rfl⟩
    refine ⟨?_, ?_, ⟨before, part ++ after, ?_, rfl⟩, ⟨before ++ part, after, hs, rfl⟩⟩
    · simp
    · simp [hs]
    · rw [hs, List.append_assoc]
  · rintro ⟨hle, -, ⟨before, rest, hs, rfl⟩, ⟨front, after, hs', rfl⟩⟩
    obtain ⟨part, rfl, -⟩ := append_of_byteLength_le (hs.symm.trans hs') hle
    exact ⟨part, before, after, hs', rfl, rfl⟩

example : slice? ['n', 'é'] 1 2 = none := by decide

@[simp] theorem sub?_add (a b : Nat) : sub? (a + b) a = some b := by
  rw [sub?, if_pos (Nat.le_add_right a b), Nat.add_sub_cancel_left]

theorem ahead?_of_lt {pos next : Nat} (h : pos < next) : ahead? pos next = some ⟨next, h⟩ :=
  dif_pos h

theorem bytes_append (as bs : List Char) : bytes (as ++ bs) = bytes as ++ bytes bs :=
  List.flatMap_append

@[simp] theorem length_bytes (text : List Char) : (bytes text).length = byteLength text := by
  induction text with
  | nil => rfl
  | cons c cs ih =>
    rw [byteLength_cons, ← ih, ← String.length_utf8EncodeChar, ← List.length_append]
    rfl

/-- There is a byte at exactly the offsets in front of the end. -/
theorem isSome_byteAt?_iff {text : List Char} {offset : Nat} :
    (byteAt? text offset).isSome ↔ offset < byteLength text := by
  simp [byteAt?]

theorem lt_of_byteAt? {text : List Char} {offset : Nat} {b : Char}
    (h : byteAt? text offset = some b) : offset < byteLength text := by
  rw [← isSome_byteAt?_iff, h]
  rfl

theorem byteAt?_end (text : List Char) : byteAt? text (byteLength text) = none := by
  simp [byteAt?]

theorem byteAt?_append (before cs : List Char) (i : Nat) :
    byteAt? (before ++ cs) (byteLength before + i) = byteAt? cs i := by
  rw [byteAt?, bytes_append, ← length_bytes, List.getElem?_append_right (Nat.le_add_right _ _),
    Nat.add_sub_cancel_left]
  rfl

/-- Whether `b` can be a byte of `c`: they are the same ASCII character, or neither is ASCII. -/
def IsByteOf (b c : Char) : Prop :=
  b = c ∧ c.toNat < 128 ∨ 128 ≤ b.toNat ∧ 128 ≤ c.toNat

theorem utf8Size_eq_one {c : Char} (h : c.toNat < 128) : c.utf8Size = 1 := by
  rw [Char.utf8Size_eq_one_iff, UInt32.le_iff_toNat_le]
  exact Nat.le_of_lt_succ h

theorem toNat_ofUInt8 (b : UInt8) : (Char.ofUInt8 b).toNat = b.toNat :=
  UInt8.toNat_toUInt32 b

theorem isByteOf_of_mem {b : UInt8} {c : Char} (h : b ∈ String.utf8EncodeChar c) :
    IsByteOf (Char.ofUInt8 b) c := by
  by_cases hc : c.toNat < 128
  · have hb : b = UInt8.ofNat c.toNat := by
      have hle : c.val.toNat ≤ 0x7f := Nat.le_of_lt_succ hc
      rw [String.utf8EncodeChar, if_pos hle] at h
      exact List.mem_singleton.mp h
    refine .inl ⟨?_, hc⟩
    apply Char.toNat_inj.mp
    rw [toNat_ofUInt8, hb, UInt8.toNat_ofNat']
    exact Nat.mod_eq_of_lt (by omega)
  · have hle : ¬ c.val.toNat ≤ 0x7f := fun h => hc (Nat.lt_succ_of_le h)
    refine .inr ⟨?_, Nat.le_of_not_lt hc⟩
    rw [toNat_ofUInt8]
    rw [String.utf8EncodeChar, if_neg hle] at h
    split at h
    · simp only [List.mem_cons, List.not_mem_nil, or_false] at h
      rcases h with rfl | rfl
      all_goals
        rw [UInt8.toNat_ofNat']
        omega
    · split at h
      · simp only [List.mem_cons, List.not_mem_nil, or_false] at h
        rcases h with rfl | rfl | rfl
        all_goals
          rw [UInt8.toNat_ofNat']
          omega
      · simp only [List.mem_cons, List.not_mem_nil, or_false] at h
        rcases h with rfl | rfl | rfl | rfl
        all_goals
          rw [UInt8.toNat_ofNat']
          omega

/-- Every byte of a text belongs to the character that it stands in. -/
theorem exists_byteAt? (before after : List Char) {c : Char} {i : Nat} (h : i < c.utf8Size) :
    ∃ b, byteAt? (before ++ c :: after) (byteLength before + i) = some b ∧ IsByteOf b c := by
  have hi : i < (String.utf8EncodeChar c).length := by rwa [String.length_utf8EncodeChar]
  refine ⟨Char.ofUInt8 (String.utf8EncodeChar c)[i], ?_, isByteOf_of_mem (List.getElem_mem hi)⟩
  rw [byteAt?_append, byteAt?, bytes, List.flatMap_cons, List.getElem?_append_left hi,
    List.getElem?_eq_getElem hi]
  rfl

namespace IsByteOf
variable {b c : Char} {α : Type}

/-- A property that all characters share which are not ASCII can be read off one byte. -/
theorem congr (h : IsByteOf b c) {f : Char → α} {x : α} (hf : ∀ d : Char, 128 ≤ d.toNat → f d = x) :
    f b = f c := by
  rcases h with ⟨rfl, -⟩ | ⟨hb, hc⟩
  · rfl
  · rw [hf b hb, hf c hc]

theorem eq_iff (h : IsByteOf b c) {d : Char} (hd : d.toNat < 128) : b = d ↔ c = d := by
  refine Eq.to_iff (h.congr (f := (· = d)) fun e he => eq_false ?_)
  rintro rfl
  exact Nat.not_lt_of_le he hd

end IsByteOf

/-- An ASCII character is found by its byte. -/
theorem byteAt?_eq_some_iff {before cs : List Char} {d : Char} (hd : d.toNat < 128) :
    byteAt? (before ++ cs) (byteLength before) = some d ↔ cs.head? = some d := by
  cases cs with
  | nil => simp [byteAt?_end]
  | cons c cs =>
    obtain ⟨b, hb, hc⟩ := exists_byteAt? before cs c.utf8Size_pos
    rw [Nat.add_zero] at hb
    rw [hb, List.head?_cons, Option.some.injEq, Option.some.injEq, hc.eq_iff hd]

/-- A loop that goes one byte ahead at each byte of a character goes ahead over the character. -/
theorem skip_char {α : Type} {f : Nat → α} {before after : List Char} {c : Char}
    (h : ∀ i < c.utf8Size, ∀ b, byteAt? (before ++ c :: after) (byteLength before + i) = some b →
      IsByteOf b c → f (byteLength before + i) = f (byteLength before + i + 1)) :
    f (byteLength before) = f (byteLength (before ++ [c])) := by
  have hn (n : Nat) (hle : n ≤ c.utf8Size) : f (byteLength before) = f (byteLength before + n) := by
    induction n with
    | zero => rfl
    | succ n ih =>
      obtain ⟨b, hb, hc⟩ := exists_byteAt? before after hle
      rw [ih (Nat.le_of_succ_le hle), h n hle b hb hc]
      rfl
  rw [hn _ (Nat.le_refl _)]
  simp

theorem byteLength_concat {c : Char} (h : c.toNat < 128) (before : List Char) :
    byteLength (before ++ [c]) = byteLength before + 1 := by
  simp [utf8Size_eq_one h]

theorem findFrom?_append (before rest needle : List Char) :
    findFrom? (before ++ rest) (byteLength before) needle =
      (find? needle rest).map (byteLength before + ·) := by
  rw [findFrom?, cutAtByte?_eq_some_iff.mpr ⟨rfl, rfl⟩]
  rfl

/-- What is found by its offset is found by its characters. -/
theorem map_find? (needle text : List Char) :
    (find? needle text).map (· + byteLength needle) =
      (Region.through? needle text).map fun found => byteLength found.1 := by
  induction text with
  | nil =>
    rw [find?, Region.through?]
    split
    · rename_i h
      rw [List.isEmpty_iff.mp h]
      rfl
    · rfl
  | cons c cs ih =>
    rw [find?, Region.through?]
    split
    · simp
    · rw [Option.map_map, Option.map_map]
      have hc := congrArg (Option.map (c.utf8Size + ·)) ih
      rw [Option.map_map, Option.map_map] at hc
      simpa [Function.comp_def, Nat.add_assoc] using hc

end NamedSql.Offsets
