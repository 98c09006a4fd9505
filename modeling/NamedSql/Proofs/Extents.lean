import NamedSql.Proofs.LineStarts
import NamedSql.Template.Outline

namespace NamedSql

/-- A region without its content: where it begins, and how many bytes it has. -/
structure Extent where
  start : Nat
  kind : Region.Kind
  length : Nat
  terminated : Bool
deriving DecidableEq

/-- The text ends, or its first line does. -/
def AtLineEnd (text : List Char) : Prop :=
  ∀ c ∈ text.head?, c = '\n'

/-- The opaque regions of a script without their content. -/
def Outline.extents (script : List Char) : List Extent :=
  (opaqueRegions script).map fun (start, r) => ⟨start, r.kind, byteLength r.text, r.terminated⟩

/-- Characters that are in no delimiter. -/
def isPlain (c : Char) : Bool :=
  !(['-', '/', '*', '\'', '"', '$'].contains c)

theorem isPlain_of_all {p : Char → Bool}
    (hp : (['-', '/', '*', '\'', '"', '$'].all fun d => !p d) = true) {c : Char} (h : p c) :
    isPlain c := by
  rw [isPlain, Bool.not_eq_true', List.contains_eq_mem, decide_eq_false_iff_not]
  intro hm
  have hn := List.all_eq_true.mp hp c hm
  simp [h] at hn

theorem isQuiet_of_isPlain {c : Char} (h : isPlain c) : Region.isQuiet c := by
  simp only [isPlain, Region.isQuiet, Bool.not_eq_true', List.contains_eq_mem,
    decide_eq_false_iff_not, List.mem_cons] at h ⊢
  tauto

theorem Region.Kind.opens?_plain {c : Char} (h : isPlain c) (before : Option Char)
    (text : List Char) : opens? before (c :: text) = none := by
  rw [opens?_cons_eq_none_iff]
  refine ⟨?_, ?_, ?_, ?_, ?_⟩ <;> rintro rfl <;> simp [isPlain] at h

namespace Lexeme

def extents (start : Nat) : List Lexeme → List Extent
  | [] => []
  | .code c :: ls => extents (start + c.utf8Size) ls
  | .region r :: ls =>
    (if r.kind = .lineComment then [] else [⟨start, r.kind, byteLength r.text, r.terminated⟩]) ++
      extents (start + byteLength r.text) ls

theorem extents_append (start : Nat) (as bs : List Lexeme) :
    extents start (as ++ bs) = extents start as ++ extents (start + byteLength (join as)) bs := by
  induction as generalizing start with
  | nil => rfl
  | cons l as ih =>
    cases l with
    | code c => simp [extents, ih, text, Nat.add_assoc]
    | region r => simp [extents, ih, text, Nat.add_assoc]

theorem extents_map_code (start : Nat) (cs : List Char) : extents start (cs.map .code) = [] := by
  induction cs generalizing start with
  | nil => rfl
  | cons c cs ih => exact ih (start + c.utf8Size)

theorem extents_flatMap_lexemes (start : Position) (segments : List Segment) :
    extents start.byte (segments.flatMap Segment.lexemes) =
      ((Segment.locate start segments).filterMap fun (p, segment) =>
        match segment with
        | .region r => if r.kind = .lineComment then none else some (p.byte, r)
        | .code _ => none).map fun (first, r) =>
          ⟨first, r.kind, byteLength r.text, r.terminated⟩ := by
  induction segments generalizing start with
  | nil => rfl
  | cons s rest ih =>
    rw [List.flatMap_cons, extents_append, join_lexemes, ← Position.byte_after, ih, Segment.locate]
    cases s with
    | code cs =>
      rw [Segment.lexemes, extents_map_code]
      rfl
    | region r =>
      by_cases hk : r.kind = .lineComment <;> simp [Segment.lexemes, extents, hk]

theorem extents_scan (script : List Char) :
    extents 0 (scan none script) = Outline.extents script :=
  extents_flatMap_lexemes .origin (Segment.ofText script)

theorem scan_of_atLineEnd {post : List Char} (hp : AtLineEnd post) (before : Option Char) :
    scan before post = scan none post := by
  have hs := scanned_scan none post
  have hb : Scanned before (scan none post) := hs.congr_before fun hd => by
    rw [join_scan] at hd
    exact absurd (hp '$' hd) (by decide)
  have hj := hb.scan_join
  rwa [join_scan] at hj

/-- Plain characters are code, and the scan goes on behind them. -/
theorem scan_append_plain {cs : List Char} (h : ∀ c ∈ cs, isPlain c) (more : List Char)
    (before : Option Char) : ∃ behind,
      scan before (cs ++ more) = cs.map .code ++ scan behind more := by
  induction cs generalizing before with
  | nil => exact ⟨before, rfl⟩
  | cons c cs ih =>
    have ho := Region.Kind.opens?_plain (h c (List.mem_cons_self ..)) before (cs ++ more)
    obtain ⟨behind, hb⟩ := ih (fun d hd => h d (List.mem_cons_of_mem c hd)) (some c)
    refine ⟨behind, ?_⟩
    rw [List.cons_append, scan_of_code ho, hb, List.map_cons, List.cons_append]

theorem extents_scan_plain {cs : List Char} (h : ∀ c ∈ cs, isPlain c) (more : List Char)
    (before : Option Char) (start : Nat) : ∃ behind,
      extents start (scan before (cs ++ more)) =
        extents (start + byteLength cs) (scan behind more) := by
  obtain ⟨behind, hs⟩ := scan_append_plain h more before
  refine ⟨behind, ?_⟩
  rw [hs, extents_append, extents_map_code, join_map_code, List.nil_append]

theorem extents_scan_comment {cs post : List Char} (h : '\n' ∉ cs) (hp : AtLineEnd post)
    (before : Option Char) (start : Nat) :
    extents start (scan before ('-' :: '-' :: (cs ++ post))) =
      extents (start + byteLength ('-' :: '-' :: cs)) (scan none post) := by
  have hc : Region.Kind.lineComment.close? cs = some (cs, []) :=
    Region.Kind.close?_lineComment_iff.mpr fun c hc hn => h (hn ▸ hc)
  have hs : Region.scan? before ('-' :: '-' :: (cs ++ post)) =
      some (⟨.lineComment, '-' :: '-' :: cs, true⟩, post) :=
    Region.scan?_eq_some_iff.mpr ⟨rfl, ⟨trivial, cs, rfl, hc⟩, trivial, hp⟩
  rw [scan_of_region hs, extents, if_pos rfl, List.nil_append, scan_of_atLineEnd hp]

/-- A line that opens no region and closes none, line comments apart. -/
structure Transparent (line : List Char) : Prop where
  quiet : ∀ c ∈ line, Region.isQuiet c
  passes : ∀ {post : List Char}, AtLineEnd post → ∀ start,
    extents start (scan none (line ++ post)) = extents (start + byteLength line) (scan none post)

theorem Transparent.of_plain {line : List Char} (h : ∀ c ∈ line, isPlain c) :
    Transparent line := by
  refine ⟨fun c hc => isQuiet_of_isPlain (h c hc), ?_⟩
  intro post hp start
  obtain ⟨behind, hb⟩ := extents_scan_plain h post none start
  rw [hb, scan_of_atLineEnd hp]

/-- A line comment with plain characters in front of it. -/
theorem Transparent.of_comment {lead body : List Char} (hl : ∀ c ∈ lead, isPlain c)
    (hb : ∀ c ∈ body, Region.isQuiet c) (hn : '\n' ∉ body) :
    Transparent (lead ++ '-' :: '-' :: body) := by
  refine ⟨?_, ?_⟩
  · intro c hc
    rcases List.mem_append.mp hc with hc | hc
    · exact isQuiet_of_isPlain (hl c hc)
    · rcases List.mem_cons.mp hc with rfl | hc
      · decide
      · rcases List.mem_cons.mp hc with rfl | hc
        · decide
        · exact hb c hc
  · intro post hp start
    obtain ⟨behind, hc⟩ := extents_scan_plain hl ('-' :: '-' :: (body ++ post)) none start
    have hj : lead ++ '-' :: '-' :: body ++ post = lead ++ '-' :: '-' :: (body ++ post) := by simp
    rw [hj, hc, extents_scan_comment hn hp, byteLength_append, Nat.add_assoc]

/-- What an open region becomes does not depend on the line that follows, but for its length. -/
theorem extents_resume {r : Region} (hk : r.kind ≠ .lineComment) {old new : List Char}
    (ho : ∀ c ∈ old, Region.isQuiet c) (hn : ∀ c ∈ new, Region.isQuiet c)
    (hlen : byteLength new = byteLength old) (post : List Char) (start : Nat) :
    extents start (resume r (new ++ post)) = extents start (resume r (old ++ post)) := by
  unfold resume
  rw [Region.Kind.close?_append_quiet hk ho, Region.Kind.close?_append_quiet hk hn]
  cases hc : r.kind.close? post with
  | none => simp [extents, hk, hlen]
  | some parts =>
    obtain ⟨inner, rest⟩ := parts
    obtain ⟨c, cs, hd, -⟩ := r.kind.exists_opening_cons
    have hl : inner.getLast? = some c := by
      rw [Region.Kind.getLast?_of_close? hk hc, hd, List.head?_cons]
    simp [extents, hk, hlen, hl]

theorem extents_replace {lines old new post : List Char} (hl : AtLineStart lines)
    (ho : Transparent old) (hn : Transparent new) (hlen : byteLength new = byteLength old)
    (hp : AtLineEnd post) :
    Outline.extents (lines ++ (new ++ post)) = Outline.extents (lines ++ (old ++ post)) := by
  rw [← extents_scan, ← extents_scan]
  rcases scan_lines hl with h | ⟨front, r, hk, h⟩
  · rw [h, h, extents_append, extents_append, hn.passes hp, ho.passes hp, hlen]
  · rw [h, h, extents_append, extents_append, extents_resume hk ho.quiet hn.quiet hlen]

end Lexeme

end NamedSql
