import NamedSql.Proofs.Trim
import NamedSql.Template.Marker

namespace NamedSql

def IsWord (chars : List Char) : Prop :=
  chars ≠ [] ∧ ∀ c ∈ chars, isWordChar c

/-- The form `#name`, with blanks where they may stand. -/
def HashForm (word line : List Char) : Prop :=
  ∃ gap, (∀ c ∈ gap, isBlank c) ∧ line = '#' :: (gap ++ word)

/-- The form `-- name: name`, with blanks where they may stand. -/
def CommentForm (word line : List Char) : Prop :=
  ∃ gap label gap' gap'', (∀ c ∈ gap ++ gap' ++ gap'', isBlank c) ∧
    label.map Char.toLower = "name".toList ∧
    line = '-' :: '-' :: (gap ++ label ++ gap' ++ ':' :: (gap'' ++ word))

/-- A line of one of the two forms with the given word. -/
def Line.Names (l : Line) (word : List Char) : Prop :=
  IsWord word ∧ (HashForm word (trim l.content) ∨ CommentForm word (trim l.content))

theorem isAlphanum_eq_false_of_isBlank {c : Char} (h : isBlank c) : c.isAlphanum = false := by
  by_contra hn
  have := toNat_of_isAlphanum (Bool.not_eq_false _ ▸ hn)
  simp [isBlank] at h
  omega

/-- The blanks outside ASCII, as ranges of code points. -/
def blankRanges : List (Nat × Nat) :=
  [(0x85, 0x85), (0xA0, 0xA0), (0x1680, 0x1680), (0x2000, 0x200A), (0x2028, 0x2029),
    (0x202F, 0x202F), (0x205F, 0x205F), (0x3000, 0x3000)]

theorem exists_blankRange {c : Char} (h : isBlank c) (ha : ¬ c.toNat < 128) :
    ∃ range ∈ blankRanges, range.1 ≤ c.toNat ∧ c.toNat ≤ range.2 := by
  simp [isBlank] at h
  simp [blankRanges]
  omega

/-- No word character outside ASCII is blank. -/
theorem blankRanges_apart : blankRanges.all (fun blank => wordRanges.all fun word =>
    Nat.blt blank.2 word.1 || Nat.blt word.2 blank.1) = true := by
  decide +kernel

theorem isWordChar_eq_false_of_isBlank {c : Char} (h : isBlank c) : isWordChar c = false := by
  by_cases ha : c.toNat < 128
  · have hu : c ≠ '_' := ne_of_isBlank h rfl
    simp [isWordChar, ha, isAlphanum_eq_false_of_isBlank h, hu]
  · obtain ⟨blank, hb, hl, hu⟩ := exists_blankRange h ha
    rw [isWordChar, if_neg ha, List.any_eq_false]
    intro word hw
    have hd := List.all_eq_true.mp (List.all_eq_true.mp blankRanges_apart blank hb) word hw
    simp only [Bool.or_eq_true, Nat.blt_eq] at hd
    simp only [Bool.and_eq_true, decide_eq_true_eq]
    omega

theorem isAlpha_of_isAlpha_toLower {c : Char} (h : c.toLower.isAlpha) : c.isAlpha := by
  by_cases hu : c.isUpper
  · exact Bool.or_eq_true_iff.mpr (.inl hu)
  · have hl : c.toLower = c := dif_neg fun hn => hu (decide_eq_true hn)
    rwa [hl] at h

/-- The label of a marker has letters only. -/
theorem isAlpha_of_mem_label {label : List Char} (h : label.map Char.toLower = "name".toList) :
    ∀ c ∈ label, c.isAlpha := by
  intro c hc
  have hm : c.toLower ∈ "name".toList := h ▸ List.mem_map_of_mem hc
  have ha : "name".toList.all Char.isAlpha := by decide
  exact isAlpha_of_isAlpha_toLower (List.all_eq_true.mp ha _ hm)

theorem isBlank_eq_false_of_isAlpha {c : Char} (h : c.isAlpha) : isBlank c = false := by
  cases hb : isBlank c with
  | false => rfl
  | true => simpa [Char.isAlphanum, h] using isAlphanum_eq_false_of_isBlank hb

theorem trimStart_gap {gap cs : List Char} (hg : ∀ c ∈ gap, isBlank c)
    (hc : ∀ c ∈ cs.head?, isBlank c = false) : trimStart (gap ++ cs) = cs := by
  rw [trimStart_append_of_all hg]
  cases cs with
  | nil => rfl
  | cons c cs => simp [trimStart, hc c rfl]

theorem IsWord.isBlank_head? {word : List Char} (h : IsWord word) :
    ∀ c ∈ word.head?, isBlank c = false := by
  intro c hc
  have hw := h.2 c (List.mem_of_mem_head? hc)
  cases hb : isBlank c with
  | false => rfl
  | true => simp [isWordChar_eq_false_of_isBlank hb] at hw

theorem wordAfterBlanks?_eq_some_iff {text word : List Char} :
    wordAfterBlanks? text = some word ↔
      IsWord word ∧ ∃ gap, (∀ c ∈ gap, isBlank c) ∧ text = gap ++ word := by
  constructor
  · intro h
    simp only [wordAfterBlanks?, Option.ite_none_right_eq_some, Bool.and_eq_true,
      Bool.not_eq_true', List.isEmpty_eq_false_iff, List.all_eq_true, Option.some.injEq] at h
    obtain ⟨⟨hne, hall⟩, rfl⟩ := h
    exact ⟨⟨hne, hall⟩, _, isBlank_of_mem_takeWhile, (takeWhile_append_trimStart text).symm⟩
  · intro h
    obtain ⟨hw, gap, hg, rfl⟩ := h
    have hall : word.all isWordChar := List.all_eq_true.mpr hw.2
    simp only [wordAfterBlanks?, trimStart_gap hg hw.isBlank_head?]
    simp [hw.1, hall]

theorem hashName?_eq_some_iff {line word : List Char} :
    hashName? line = some word ↔ IsWord word ∧ HashForm word line := by
  unfold hashName?
  split
  · rw [wordAfterBlanks?_eq_some_iff]
    simp [HashForm]
  · rename_i hn
    simp only [reduceCtorEq, false_iff]
    intro h
    obtain ⟨-, gap, -, rfl⟩ := h
    exact hn _ rfl

theorem commentName?_eq_some_iff {line word : List Char} :
    commentName? line = some word ↔ IsWord word ∧ CommentForm word line := by
  constructor
  · intro h
    unfold commentName? at h
    split at h
    case h_2 => cases h
    rename_i rest
    dsimp only at h
    split at h
    case isFalse => cases h
    rename_i hl
    split at h
    case h_2 => cases h
    rename_i body hb
    obtain ⟨hw, gap'', hg, rfl⟩ := wordAfterBlanks?_eq_some_iff.mp h
    refine ⟨hw, rest.takeWhile isBlank, (trimStart rest).take 4,
      ((trimStart rest).drop 4).takeWhile isBlank, gap'', ?_, hl, ?_⟩
    · simp only [List.forall_mem_append]
      exact ⟨⟨isBlank_of_mem_takeWhile, isBlank_of_mem_takeWhile⟩, hg⟩
    · rw [← hb, List.append_assoc, takeWhile_append_trimStart, List.append_assoc,
        List.take_append_drop, takeWhile_append_trimStart]
  · intro h
    obtain ⟨hw, gap, label, gap', gap'', hg, hl, rfl⟩ := h
    simp only [List.forall_mem_append] at hg
    obtain ⟨⟨hg, hg'⟩, hg''⟩ := hg
    have h4 : label.length = 4 := by simpa using congrArg List.length hl
    have hh : ∀ c ∈ (label ++ (gap' ++ ':' :: (gap'' ++ word))).head?, isBlank c = false := by
      obtain ⟨c, cs, rfl⟩ := List.exists_cons_of_ne_nil (l := label) (by rintro rfl; cases h4)
      simpa using isBlank_eq_false_of_isAlpha (isAlpha_of_mem_label hl c (List.mem_cons_self ..))
    have hc : ∀ c ∈ (':' :: (gap'' ++ word)).head?, isBlank c = false := by
      intro c hc
      cases hc
      decide
    simp only [commentName?, List.append_assoc]
    rw [trimStart_gap hg hh, List.take_left' h4, List.drop_left' h4, if_pos hl,
      trimStart_gap hg' hc]
    exact wordAfterBlanks?_eq_some_iff.mpr ⟨hw, gap'', hg'', rfl⟩

theorem Line.markerName?_eq_some_iff {l : Line} {name : String} :
    l.markerName? = some name ↔ l.Names name.toList := by
  have hs (word : List Char) : String.ofList word = name ↔ word = name.toList :=
    ⟨fun h => h ▸ String.toList_ofList.symm, fun h => h ▸ String.ofList_toList⟩
  simp only [markerName?, Names, Option.map_eq_some_iff, hs, exists_eq_right, Option.or_eq_some_iff,
    hashName?_eq_some_iff, commentName?_eq_some_iff, and_or_left]
  constructor
  · intro h
    exact h.imp_right And.right
  · intro h
    refine h.imp_right fun h => ⟨?_, h⟩
    obtain ⟨-, gap, label, gap', gap'', -, -, he⟩ := h
    rw [he]
    rfl

end NamedSql
