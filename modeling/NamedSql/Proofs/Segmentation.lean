import Mathlib.Data.List.Chain
import NamedSql.Proofs.Bytes
import NamedSql.Proofs.Lexeme

namespace NamedSql

/-- The ranges follow each other from `start` to `stop`, and none of them is empty. -/
inductive Tiles : Nat → List (Nat × Nat) → Nat → Prop
  | nil {stop : Nat} : Tiles stop [] stop
  | cons {start middle stop : Nat} {ranges : List (Nat × Nat)} (forward : start < middle)
      (rest : Tiles middle ranges stop) : Tiles start ((start, middle) :: ranges) stop

namespace Segment

/-- The first byte of each segment and the byte after its last one. -/
def ranges (segments : List Segment) : List (Nat × Nat) :=
  (locate .origin segments).map fun (p, s) => (p.byte, (p.after s.text).byte)

def isCode : Segment → Bool
  | .code _ => true
  | .region _ => false

end Segment

open Segment

/-- The segments cut the script into code and regions as a scan from each of its bytes would. -/
structure Segmentation (script : String) (segments : List Segment) : Prop where
  text : join segments = script.toList
  count : segments.length ≤ script.utf8ByteSize
  tiles : Tiles 0 (ranges segments) script.utf8ByteSize
  boundary : ∀ range ∈ ranges segments,
    (String.Pos.Raw.mk range.1).IsValid script ∧ (String.Pos.Raw.mk range.2).IsValid script
  region : ∀ p r, (p, .region r) ∈ locate .origin segments →
    Region.at? script.toList p.byte = some r
  code : ∀ p cs, (p, .code cs) ∈ locate .origin segments →
    ∀ k, p.byte ≤ k → k < (p.after cs).byte → Region.at? script.toList k = none
  apart : segments.IsChain fun s t => ¬ (s.isCode ∧ t.isCode)
  closed : ∀ front r back, segments = front ++ .region r :: back → r.terminated = false → back = []

theorem Tiles.length_le {start stop : Nat} {ranges : List (Nat × Nat)}
    (h : Tiles start ranges stop) : start + ranges.length ≤ stop := by
  induction h with
  | nil => simp
  | cons forward _ ih =>
    rw [List.length_cons]
    omega

theorem Region.at?_append (before rest : List Char) :
    Region.at? (before ++ rest) (byteLength before) =
      (Region.scan? before.getLast? rest).map (·.1) := by
  rw [Region.at?, cutAtByte?_eq_some_iff.mpr ⟨rfl, rfl⟩]
  rfl

namespace Segment

@[simp] theorem join_append (front back : List Segment) :
    join (front ++ back) = join front ++ join back := by
  simp [join]

@[simp] theorem length_locate (start : Position) (segments : List Segment) :
    (locate start segments).length = segments.length := by
  rw [← List.length_map (·.2), map_locate_snd]

theorem mem_locate_iff {start p : Position} {segments : List Segment} {s : Segment} :
    (p, s) ∈ locate start segments ↔
      ∃ front back, segments = front ++ s :: back ∧ p = start.after (join front) := by
  induction segments generalizing start with
  | nil => simp [locate]
  | cons t rest ih =>
    rw [locate, List.mem_cons, ih]
    constructor
    · intro h
      rcases h with he | ⟨front, back, rfl, rfl⟩
      · cases he
        exact ⟨[], rest, rfl, rfl⟩
      · exact ⟨t :: front, back, rfl, by rw [join_cons, Position.after_append]⟩
    · intro h
      obtain ⟨front, back, he, rfl⟩ := h
      cases front with
      | nil =>
        cases he
        exact .inl rfl
      | cons u front =>
        cases he
        exact .inr ⟨front, back, rfl, by rw [join_cons, Position.after_append]⟩

theorem tiles_locate {segments : List Segment} (h : ∀ s ∈ segments, s.text ≠ [])
    (start : Position) :
    Tiles start.byte ((locate start segments).map fun (p, s) => (p.byte, (p.after s.text).byte))
      (start.after (join segments)).byte := by
  induction segments generalizing start with
  | nil => exact .nil
  | cons s rest ih =>
    rw [join_cons, Position.after_append]
    refine .cons ?_ (ih (fun t ht => h t (List.mem_cons_of_mem s ht)) (start.after s.text))
    have := byteLength_pos (h s (List.mem_cons_self ..))
    simp only [Position.byte_after]
    omega

theorem isChain_addCode {c : Char} {segments : List Segment}
    (h : segments.IsChain fun s t => ¬ (s.isCode ∧ t.isCode)) :
    (addCode c segments).IsChain fun s t => ¬ (s.isCode ∧ t.isCode) := by
  unfold addCode
  split
  · rename_i cs rest
    cases rest with
    | nil => exact .singleton _
    | cons t rest =>
      obtain ⟨ht, hr⟩ := List.isChain_cons_cons.mp h
      exact .cons_cons (by simpa [isCode] using ht) hr
  · rename_i hs
    cases segments with
    | nil => exact .singleton _
    | cons t rest =>
      cases t with
      | code cs => exact absurd rfl (hs cs rest)
      | region r => exact .cons_cons (by simp [isCode]) h

theorem isChain_lex (before : Option Char) (text : List Char) :
    (lex before text).IsChain fun s t => ¬ (s.isCode ∧ t.isCode) := by
  fun_induction lex before text with
  | case1 => exact .nil
  | case2 before c cs r rest _ _ ih => exact List.isChain_cons.mpr ⟨by simp [isCode], ih⟩
  | case3 before c cs _ ih => exact isChain_addCode ih

/-- The lexemes from a segment on, seen from the character in front of it. -/
theorem scanned_of_ofText {text : List Char} {front back : List Segment} {s : Segment}
    (h : ofText text = front ++ s :: back) :
    Lexeme.Scanned (join front).getLast? (s.lexemes ++ back.flatMap lexemes) := by
  have hs := Lexeme.scanned_scan none text
  rw [Lexeme.scan, show lex none text = _ from h, List.flatMap_append, List.flatMap_cons] at hs
  simpa using hs.drop

/-- What holds of a region of a text and its two neighbours. -/
theorem region_of_ofText {text : List Char} {front back : List Segment} {r : Region}
    (h : ofText text = front ++ .region r :: back) :
    r.WellFormed ∧ r.kind.Fits (join front).getLast? ∧ r.Released (join back) := by
  have hs := scanned_of_ofText h
  rw [lexemes, List.singleton_append] at hs
  obtain ⟨shape, fits, released, -⟩ := Lexeme.scanned_region_iff.mp hs
  rw [Lexeme.join_flatMap_lexemes] at released
  exact ⟨shape, fits, released⟩

theorem at?_region {text : List Char} {front back : List Segment} {r : Region}
    (h : ofText text = front ++ .region r :: back) :
    Region.at? text (byteLength (join front)) = some r := by
  obtain ⟨shape, fits, released⟩ := region_of_ofText h
  have ht : text = join front ++ (r.text ++ join back) := by
    rw [← join_ofText text, h, join_append, join_cons]
    rfl
  rw [ht, Region.at?_append, Region.scan?_eq_some_iff.mpr ⟨rfl, shape, fits, released⟩]
  rfl

theorem at?_code {text cs : List Char} {front back : List Segment} {k : Nat}
    (h : ofText text = front ++ .code cs :: back) (hk : byteLength (join front) ≤ k)
    (hl : k < byteLength (join front) + byteLength cs) : Region.at? text k = none := by
  have ht : text = join front ++ (cs ++ join back) := by
    rw [← join_ofText text, h, join_append, join_cons]
    rfl
  cases hcut : cutAtByte? k text with
  | none => rw [Region.at?, hcut, Option.bind_none]
  | some parts =>
    -- The offset is a boundary inside the code: `cs` is cut there as well.
    obtain ⟨before, after⟩ := parts
    obtain ⟨hba, rfl⟩ := cutAtByte?_eq_some_iff.mp hcut
    obtain ⟨es, rfl, he⟩ := append_of_byteLength_le (ht.symm.trans hba) hk
    rw [byteLength_append] at hl
    obtain ⟨fs, rfl, hf⟩ := append_of_byteLength_le he.symm (by omega)
    cases fs with
    | nil => simp at hl
    | cons c fs =>
      have hs := scanned_of_ofText h
      rw [lexemes, List.map_append, List.map_cons, List.append_assoc] at hs
      obtain ⟨free, -⟩ := Lexeme.scanned_code_iff.mp hs.drop
      have hfree :
          Region.Kind.opens? (join front ++ es).getLast? (c :: fs ++ join back) = none := by
        simpa [List.getLast?_append] using free
      rw [hba, hf, Region.at?_append, Region.scan?, hfree]
      rfl

/-- A region that is left open takes the rest of the text. -/
theorem eq_nil_of_not_terminated {text : List Char} {front back : List Segment} {r : Region}
    (h : ofText text = front ++ .region r :: back) (hr : r.terminated = false) : back = [] := by
  obtain ⟨-, -, released⟩ := region_of_ofText h
  have hj : join back = [] := by simpa [Region.Released, hr] using released
  cases back with
  | nil => rfl
  | cons s back =>
    have hne : s.text ≠ [] := text_ne_nil_of_mem_lex (show s ∈ ofText text by simp [h])
    exact absurd (List.append_eq_nil_iff.mp hj).1 hne

theorem isValid_of_mem_ranges {script : String} {segments : List Segment}
    (ht : join segments = script.toList) :
    ∀ range ∈ ranges segments, (String.Pos.Raw.mk range.1).IsValid script ∧
      (String.Pos.Raw.mk range.2).IsValid script := by
  intro range hr
  obtain ⟨⟨p, s⟩, hm, rfl⟩ := List.mem_map.mp hr
  obtain ⟨front, back, rfl, rfl⟩ := mem_locate_iff.mp hm
  rw [join_append, join_cons] at ht
  have hstart := isValid_of_append ht.symm
  rw [← List.append_assoc] at ht
  have hstop := isValid_of_append ht.symm
  simpa [Position.origin] using And.intro hstart hstop

theorem tiles_ranges {script : String} {segments : List Segment}
    (ht : join segments = script.toList) (h : ∀ s ∈ segments, s.text ≠ []) :
    Tiles 0 (ranges segments) script.utf8ByteSize := by
  have := tiles_locate h .origin
  rw [ht] at this
  simpa [ranges, Position.origin, utf8ByteSize_eq_byteLength] using this

end Segment

/-- The segments of a script tile it, and each is what a scan finds at its place. -/
theorem segmentation_ofText (script : String) :
    Segmentation script (Segment.ofText script.toList) := by
  have ht := join_ofText script.toList
  have htiles := tiles_ranges ht fun s hs => text_ne_nil_of_mem_lex hs
  refine ⟨ht, ?_, htiles, isValid_of_mem_ranges ht, ?_, ?_, isChain_lex none _, ?_⟩
  · have := htiles.length_le
    simpa [ranges] using this
  · intro p r hm
    obtain ⟨front, back, hs, rfl⟩ := mem_locate_iff.mp hm
    simpa [Position.origin] using at?_region hs
  · intro p cs hm k hk hl
    obtain ⟨front, back, hs, rfl⟩ := mem_locate_iff.mp hm
    exact at?_code hs (by simpa [Position.origin] using hk) (by simpa [Position.origin] using hl)
  · intro front r back hs hr
    exact eq_nil_of_not_terminated hs hr

end NamedSql
