import NamedSql.Comment
import NamedSql.Proofs.Offsets.Segments
import NamedSql.Proofs.StatementPlaces

namespace NamedSql.Offsets

/-- The offsets of the semicolons in a text. -/
def semicolons : List Char → List Nat
  | [] => []
  | c :: cs =>
    let later := (semicolons cs).map (c.utf8Size + ·)
    if c = ';' then 0 :: later else later

/-- How far a script is split: where the next statement begins, and the ones before it. -/
structure Splitting where
  start : Nat
  spans : List (Nat × Nat)
deriving DecidableEq

/-- Puts the trimmed text between two offsets behind the spans, unless it is empty. -/
def pushTrimmed (text : List Char) (start stop : Nat) (spans : List (Nat × Nat)) :
    Option (List (Nat × Nat)) := do
  let part ← slice? text start stop
  if (trim part).isEmpty then return spans
  else
    let blanks ← sub? (byteLength part) (byteLength (trimStart part))
    let first := start + blanks
    return spans ++ [(first, first + byteLength (trim part))]

/-- Ends a statement at a semicolon of the code that begins at `codeStart`. -/
def endStatement (text : List Char) (codeStart : Nat) (split : Splitting) (offset : Nat) :
    Option Splitting := do
  let boundary := codeStart + offset
  return ⟨boundary + 1, ← pushTrimmed text split.start boundary split.spans⟩

/-- Ends the statements that end in a segment. -/
def splitSegment (text : List Char) (split : Splitting) : SegmentAt → Option Splitting
  | .code start stop => do
    (semicolons (← slice? text start stop)).foldlM (endStatement text start) split
  | .region _ => return split

/-- Ends the last statement. -/
def finish (text : List Char) (split : Splitting) : Option (List (Nat × Nat)) :=
  pushTrimmed text split.start (byteLength text) split.spans

/-- The spans of the statements of a script. -/
def splitSpans (text : List Char) : Option (List (Nat × Nat)) := do
  finish text (← (← segments text).foldlM (splitSegment text) ⟨0, []⟩)

/-- The part of a text that a span is. -/
def sliceSpan? (text : List Char) (span : Nat × Nat) : Option (List Char) :=
  slice? text span.1 span.2

/-- The statements of a script. -/
def splitTexts (text : List Char) : Option (List (List Char)) := do
  (← splitSpans text).mapM (sliceSpan? text)

/-- What a segment leaves behind when the comments go. -/
def withoutComment (text : List Char) : SegmentAt → Option (List Char)
  | .code start stop => slice? text start stop
  | .region r =>
    match r.kind with
    | .lineComment => return []
    | .blockComment => return [' ']
    | _ => slice? text r.start r.stop

/-- The text without its comments. -/
def removeComments (text : List Char) : Option (List Char) := do
  return trim (← (← segments text).mapM (withoutComment text)).flatten

/-- The spans of the pieces that are not blank, when the first piece begins at `start`. -/
def spansOf (start : Position) (ps : List (List Char)) : List (Nat × Nat) :=
  (((Excerpt.locate start ps).map Excerpt.trim).filter fun e => !e.chars.isEmpty).map Excerpt.span

theorem spansOf_cons (start : Position) (piece : List Char) (ps : List (List Char)) :
    spansOf start (piece :: ps) =
      spansOf start [piece] ++ spansOf (start.after (piece ++ [';'])) ps := by
  rw [spansOf, Excerpt.locate, List.map_cons, List.filter_cons]
  split
  · rename_i h
    simp [spansOf, Excerpt.locate, h]
  · rename_i h
    simp [spansOf, Excerpt.locate, h]

variable {text before opened : List Char}

theorem pushTrimmed_append (before part after : List Char) (spans : List (Nat × Nat)) :
    pushTrimmed (before ++ (part ++ after)) (byteLength before)
      (byteLength before + byteLength part) spans =
        some (spans ++ spansOf (.after .origin before) [part]) := by
  rw [pushTrimmed, slice?_append, Option.bind_eq_bind, Option.bind_some]
  have hsub : sub? (byteLength part) (byteLength (trimStart part)) =
      some (byteLength (part.takeWhile isBlank)) := by
    have hlen := congrArg byteLength (takeWhile_append_trimStart part)
    rw [byteLength_append, Nat.add_comm] at hlen
    rw [← hlen, sub?_add]
  split
  · rename_i h
    simp [spansOf, Excerpt.locate, Excerpt.trim, List.isEmpty_iff.mp h]
  · rename_i h
    rw [hsub]
    simp [spansOf, Excerpt.locate, Excerpt.trim, Excerpt.span, Excerpt.stop, h, Position.origin]

theorem extendPiece_extendPiece (cs ds : List Char) (ps : List (List Char)) :
    extendPiece cs (extendPiece ds ps) = extendPiece (cs ++ ds) ps := by
  cases ps with
  | nil => rfl
  | cons piece ps => simp [extendPiece]

/-- The rest of a script is split as it should be, from any statement that was begun in front of
it. -/
def Splits (text : List Char) (rest : List Segment) : Prop :=
  ∀ before opened spans, text = before ++ (opened ++ Segment.join rest) →
    ((located (.after .origin (before ++ opened)) rest).foldlM (splitSegment text)
      ⟨byteLength before, spans⟩ >>= finish text) =
        some (spans ++ spansOf (.after .origin before) (extendPiece opened (pieces rest)))

theorem splits_nil : Splits text [] := by
  rintro before opened spans rfl
  have h := pushTrimmed_append before opened [] spans
  rw [← byteLength_append, List.append_nil] at h
  simpa [located, Segment.locate, pieces, extendPiece, finish] using h

theorem splits_region {r : Region} {rest : List Segment} (h : Splits text rest) :
    Splits text (.region r :: rest) := by
  intro before opened spans ht
  have hr := h before (opened ++ r.text) spans (by rw [ht]; simp [Segment.text])
  rw [← List.append_assoc, Position.after_append] at hr
  rw [pieces, extendPiece_extendPiece, ← hr]
  rfl

theorem foldr_extendCode_ne_nil (chars : List Char) {ps : List (List Char)} (h : ps ≠ []) :
    chars.foldr extendCode ps ≠ [] := by
  cases chars with
  | nil => exact h
  | cons c cs => exact extendCode_ne_nil _ _

/-- A semicolon ends the statement in front of it. -/
theorem endStatement_append {rest : List Char} {codeStart offset : Nat}
    (ht : text = before ++ (opened ++ ';' :: rest))
    (ho : codeStart + offset = byteLength (before ++ opened)) (spans : List (Nat × Nat)) :
    endStatement text codeStart ⟨byteLength before, spans⟩ offset =
      some ⟨byteLength (before ++ (opened ++ [';'])),
        spans ++ spansOf (.after .origin before) [opened]⟩ := by
  have hp := pushTrimmed_append before opened (';' :: rest) spans
  rw [← ht, ← byteLength_append, ← ho] at hp
  rw [endStatement, hp, ← List.append_assoc, byteLength_concat (by decide), ← ho]
  rfl

theorem spansOf_semicolon (before opened : List Char) {ps : List (List Char)} (h : ps ≠ []) :
    spansOf (.after .origin before) (extendPiece opened (extendCode ';' ps)) =
      spansOf (.after .origin before) [opened] ++
        spansOf (.after .origin (before ++ (opened ++ [';']))) (extendPiece [] ps) := by
  obtain ⟨piece, ps, rfl⟩ := List.exists_cons_of_ne_nil h
  have hsplit : extendPiece opened (extendCode ';' (piece :: ps)) =
      opened :: extendPiece [] (piece :: ps) := by
    simp [extendCode, extendPiece]
  rw [hsplit, spansOf_cons, ← Position.after_append]

/-- The semicolons of code end the statements that they should end. -/
theorem splits_semicolons {rest : List Segment} (h : Splits text rest)
    {before opened chars : List Char} {codeStart k : Nat} (spans : List (Nat × Nat))
    (ht : text = before ++ (opened ++ (chars ++ Segment.join rest)))
    (hk : codeStart + k = byteLength (before ++ opened)) :
    (((semicolons chars).map (k + ·)).foldlM (endStatement text codeStart)
      ⟨byteLength before, spans⟩ >>= fun split =>
        (located (.after .origin (before ++ opened ++ chars)) rest).foldlM (splitSegment text) split
          >>= finish text) =
            some (spans ++ spansOf (.after .origin before)
              (extendPiece opened (chars.foldr extendCode (pieces rest)))) := by
  induction chars generalizing before opened k spans with
  | nil =>
    rw [List.append_nil]
    exact h before opened spans ht
  | cons c cs ih =>
    have hshift (offsets : List Nat) : (offsets.map (c.utf8Size + ·)).map (k + ·) =
        offsets.map (k + c.utf8Size + ·) := by
      simp [Function.comp_def, Nat.add_assoc]
    have hk' : codeStart + (k + c.utf8Size) = byteLength (before ++ (opened ++ [c])) := by
      rw [← Nat.add_assoc, hk]
      simp [Nat.add_assoc]
    by_cases hc : c = ';'
    · have ht' : text = (before ++ (opened ++ [c])) ++ ([] ++ (cs ++ Segment.join rest)) := by
        rw [ht]
        simp
      have hnext := ih (spans ++ spansOf (.after .origin before) [opened]) ht'
        (by rwa [List.append_nil])
      subst hc
      rw [semicolons, if_pos rfl, List.map_cons, hshift, List.foldlM_cons, Nat.add_zero,
        endStatement_append ht hk, List.foldr_cons,
        spansOf_semicolon _ _ (foldr_extendCode_ne_nil cs (pieces_ne_nil rest)),
        ← List.append_assoc spans, ← hnext]
      simp
    · have ht' : text = before ++ ((opened ++ [c]) ++ (cs ++ Segment.join rest)) := by
        rw [ht]
        simp
      have hnext := ih spans ht' hk'
      rw [semicolons, if_neg hc, hshift, List.foldr_cons, extendCode, if_neg hc,
        extendPiece_extendPiece, ← hnext]
      simp

theorem splits_code {chars : List Char} {rest : List Segment} (h : Splits text rest) :
    Splits text (.code chars :: rest) := by
  intro before opened spans ht
  rw [Segment.join_cons, Segment.text] at ht
  have hslice := slice?_append (before ++ opened) chars (Segment.join rest)
  rw [List.append_assoc, ← ht] at hslice
  have hs := splits_semicolons h spans ht (Nat.add_zero (byteLength (before ++ opened)))
  simp only [Nat.zero_add, List.map_id'] at hs
  rw [located_cons, List.foldlM_cons, byte_after_origin, SegmentAt.ofSegment, splitSegment, hslice]
  rw [pieces, ← hs, Segment.text, ← Position.after_append]
  simp [Option.bind_assoc]

/-- The spans are those of the statements of the script. -/
theorem splitSpans_eq (script : String) :
    splitSpans script.toList = some (statementSpans script) := by
  have hs (segs : List Segment) : Splits script.toList segs := by
    induction segs with
    | nil => exact splits_nil
    | cons s rest ih =>
      cases s with
      | code chars => exact splits_code ih
      | region r => exact splits_region ih
  have h := hs (Segment.ofText script.toList) [] [] [] (by simp)
  obtain ⟨piece, ps, hps⟩ :=
    List.exists_cons_of_ne_nil (pieces_ne_nil (Segment.ofText script.toList))
  have hpieces : extendPiece [] (pieces (Segment.ofText script.toList)) =
      pieces (Segment.ofText script.toList) := by
    rw [hps]
    rfl
  rw [List.append_nil, Position.after_nil, hpieces] at h
  rw [splitSpans, segments_eq]
  exact h

theorem mapM_eq_some_map {α β : Type} {xs : List α} {f : α → Option β} {g : α → β}
    (h : ∀ x ∈ xs, f x = some (g x)) : xs.mapM f = some (xs.map g) := by
  induction xs with
  | nil => rfl
  | cons x xs ih =>
    rw [List.forall_mem_cons] at h
    rw [List.mapM_cons, h.1, ih h.2]
    rfl

/-- The slices at those spans are the statements. -/
theorem splitTexts_eq (script : String) :
    splitTexts script.toList = some ((splitStatements script).map String.toList) := by
  have hslice : ∀ e ∈ Excerpt.ofScript .origin script.toList,
      sliceSpan? script.toList e.span = some e.chars := by
    intro e he
    obtain ⟨before, after, ht, hs, -⟩ := Excerpt.eq_append_of_mem_ofScript he
    have hpart := slice?_append before e.chars after
    rw [sliceSpan?, Excerpt.span, Excerpt.stop, Position.byte_after, hs, byte_after_origin, ht]
    exact hpart
  have hm := mapM_eq_some_map hslice
  rw [splitTexts, splitSpans_eq, statementSpans, Option.bind_eq_bind, Option.bind_some,
    List.mapM_map, splitStatements, List.map_map]
  simpa [Function.comp_def] using hm

/-- What is read off each segment by its offsets is read off its characters. -/
theorem mapM_located {β : Type} {text : List Char} {read : SegmentAt → Option β}
    {result : Segment → β}
    (h : ∀ front s back, Segment.ofText text = front ++ s :: back →
      read (.ofSegment (byteLength (Segment.join front)) s) = some (result s)) :
    (located .origin (Segment.ofText text)).mapM read =
      some ((Segment.ofText text).map result) := by
  have hm : ∀ found ∈ Segment.locate .origin (Segment.ofText text),
      read (.ofSegment found.1.byte found.2) = some (result found.2) := by
    intro found hfound
    obtain ⟨front, back, hs, hp⟩ := Segment.mem_locate_iff.mp hfound
    rw [hp, byte_after_origin]
    exact h front found.2 back hs
  have hsnd := congrArg (List.map result) (Segment.map_locate_snd .origin (Segment.ofText text))
  rw [List.map_map] at hsnd
  rw [located, List.mapM_map, ← hsnd]
  exact mapM_eq_some_map hm

theorem foldlM_eq_some_foldl {α β : Type} {xs : List α} {f : β → α → Option β} {g : β → α → β}
    (h : ∀ x ∈ xs, ∀ found, f found x = some (g found x)) (found : β) :
    xs.foldlM f found = some (xs.foldl g found) := by
  induction xs generalizing found with
  | nil => rfl
  | cons x xs ih =>
    rw [List.forall_mem_cons] at h
    rw [List.foldlM_cons, h.1, List.foldl_cons]
    exact ih h.2 _

/-- What is collected from the segments by their offsets is collected from their characters. -/
theorem foldlM_located {β : Type} {text : List Char} {read : β → SegmentAt → Option β}
    {result : β → Segment → β}
    (h : ∀ front s back, Segment.ofText text = front ++ s :: back → ∀ found,
      read found (.ofSegment (byteLength (Segment.join front)) s) = some (result found s))
    (found : β) : (located .origin (Segment.ofText text)).foldlM read found =
      some ((Segment.ofText text).foldl result found) := by
  have hm : ∀ place ∈ Segment.locate .origin (Segment.ofText text), ∀ found,
      read found (.ofSegment place.1.byte place.2) = some (result found place.2) := by
    intro place hplace
    obtain ⟨front, back, hs, hp⟩ := Segment.mem_locate_iff.mp hplace
    rw [hp, byte_after_origin]
    exact h front place.2 back hs
  have hsnd := congrArg (List.foldl result found)
    (Segment.map_locate_snd .origin (Segment.ofText text))
  rw [List.foldl_map] at hsnd
  rw [located, List.foldlM_map, ← hsnd]
  exact foldlM_eq_some_foldl hm found

theorem eq_append_of_ofText {text : List Char} {front back : List Segment} {s : Segment}
    (h : Segment.ofText text = front ++ s :: back) :
    text = Segment.join front ++ (s.text ++ Segment.join back) := by
  rw [← Segment.join_ofText text, h, Segment.join_append, Segment.join_cons]

theorem withoutComment_append (before : List Char) (s : Segment) (after : List Char) :
    withoutComment (before ++ (s.text ++ after)) (.ofSegment (byteLength before) s) =
      some s.withoutComment := by
  have hslice := slice?_append before s.text after
  cases s with
  | code chars => exact hslice
  | region r =>
    obtain ⟨kind, chars, terminated⟩ := r
    cases kind with
    | lineComment => rfl
    | blockComment => rfl
    | _ => exact hslice

/-- The text without its comments is what the segments leave behind. -/
theorem removeComments_eq (text : List Char) :
    removeComments text = some (stripComments text) := by
  have h : (located .origin (Segment.ofText text)).mapM (withoutComment text) =
      some ((Segment.ofText text).map Segment.withoutComment) := by
    apply mapM_located
    intro front s back hs
    rw [eq_append_of_ofText hs]
    exact withoutComment_append ..
  rw [removeComments, segments_eq, Option.bind_eq_bind, Option.bind_some, h, stripComments,
    List.flatMap_def]
  rfl

end NamedSql.Offsets
