import NamedSql.Proofs.RegionEnds
import NamedSql.Proofs.Segmentation
import NamedSql.Token

namespace NamedSql

namespace Segment

/-- The region begins just behind the character `c` of code. -/
def RegionBehind (segments : List Segment) (c : Char) (r : Region) : Prop :=
  ∃ front chars back, segments = front ++ .code (chars ++ [c]) :: .region r :: back

/-- A dollar-quoted block begins just behind the character. -/
def BlockBehind (segments : List Segment) (c : Char) : Prop :=
  ∃ r tag, RegionBehind segments c r ∧ r.kind = .dollarQuoted tag

/-- A region begins inside a word, just behind its character `c`. -/
def CutsWord (segments : List Segment) (c : Char) : Prop :=
  ∃ r d, RegionBehind segments c r ∧ r.text.head? = some d ∧ Token.inWord c ∧ Token.inWord d

end Segment

/-- Dollar-quoted blocks alone begin with a character of words. -/
theorem Region.Kind.inWord_opening_iff {kind : Kind} {d : Char} (h : kind.opening.head? = some d) :
    Token.inWord d ↔ ∃ tag, kind = .dollarQuoted tag := by
  cases kind with
  | dollarQuoted tag => cases h; exact ⟨fun _ => ⟨tag, rfl⟩, fun _ => by decide⟩
  | _ => cases h; exact ⟨fun hw => absurd hw (by decide), nofun⟩

namespace Segment
variable {text : List Char} {c : Char} {r : Region}

theorem RegionBehind.wellFormed_fits (h : RegionBehind (ofText text) c r) :
    r.WellFormed ∧ r.kind.Fits (some c) := by
  obtain ⟨front, chars, back, hs⟩ := h
  rw [List.append_cons] at hs
  obtain ⟨shape, fits, -⟩ := region_of_ofText hs
  exact ⟨shape, by simpa [Segment.text, List.getLast?_append] using fits⟩

/-- For the scan, a name ends where a block begins. -/
theorem BlockBehind.not_isNameChar (h : BlockBehind (ofText text) c) : isNameChar c = false := by
  obtain ⟨r, tag, hr, hk⟩ := h
  simpa [hk, Region.Kind.Fits] using hr.wellFormed_fits.2

/-- Of the characters of words, those outside names are the ones beyond ASCII. -/
theorem BlockBehind.inWord_iff (h : BlockBehind (ofText text) c) :
    Token.inWord c ↔ 128 ≤ c.toNat := by
  simp [Token.inWord, h.not_isNameChar]

theorem cutsWord_iff_blockBehind :
    CutsWord (ofText text) c ↔ BlockBehind (ofText text) c ∧ Token.inWord c := by
  constructor
  · rintro ⟨r, d, hr, hd, hc, hw⟩
    rw [hr.wellFormed_fits.1.head?_text] at hd
    obtain ⟨tag, hk⟩ := (Region.Kind.inWord_opening_iff hd).mp hw
    exact ⟨⟨r, tag, hr, hk⟩, hc⟩
  · rintro ⟨⟨r, tag, hr, hk⟩, hc⟩
    have hd : r.text.head? = some '$' := by
      rw [hr.wellFormed_fits.1.head?_text, hk]
      rfl
    exact ⟨r, '$', hr, hd, hc, by decide⟩

/-- The scan keeps words whole, except behind a character beyond ASCII that a delimiter follows. -/
theorem cutsWord_ofText (text : String) (c : Char) :
    (BlockBehind (ofText text.toList) c → c.toNat < 128 → Token.inWord c = false) ∧
      (CutsWord (ofText text.toList) c ↔ BlockBehind (ofText text.toList) c ∧ 128 ≤ c.toNat) := by
  constructor
  · intro h hc
    rw [Bool.eq_false_iff, Ne, h.inWord_iff]
    omega
  · rw [cutsWord_iff_blockBehind]
    exact and_congr_right fun h => h.inWord_iff

/-- A block does begin inside a word: behind a letter beyond ASCII. -/
theorem not_all_blocks_outside_words :
    ¬ ∀ (text : String) (c : Char),
      BlockBehind (ofText text.toList) c → Token.inWord c = false := by
  intro h
  have hs : ofText "SELECT café$usd$ FROM t".toList = [.code "SELECT café".toList,
      .region ⟨.dollarQuoted "usd".toList, "$usd$ FROM t".toList, false⟩] := by
    decide +kernel
  have hb : BlockBehind (ofText "SELECT café$usd$ FROM t".toList) 'é' :=
    ⟨_, _, ⟨[], "SELECT caf".toList, [], hs⟩, rfl⟩
  exact absurd (h _ _ hb) (by decide)

end Segment

end NamedSql
