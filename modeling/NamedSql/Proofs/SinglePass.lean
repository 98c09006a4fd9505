import NamedSql.Proofs.TemplateLayout

namespace NamedSql

namespace Line

variable {l : Line} {pre more : List Char} {start : Position}

/-- A separator behind a clear line start divides the statements. -/
theorem ofScript_separator (hc : l.content ≠ []) (hn : '\n' ∉ l.content)
    (hl : l.start = start.after pre) (h : Clear pre) (more : List Char) :
    Excerpt.ofScript start (pre ++ (l.separator.content ++ more)) =
      Excerpt.ofScript start pre ++ Excerpt.ofScript l.contentStop more := by
  have hplace : (start.after (pre ++ [';'])).after (List.replicate (byteLength l.content - 1) ' ') =
      l.contentStop := by
    have hbytes := byteLength_separator hc
    have hlines : l.separator.content.count '\n' = l.content.count '\n' := by
      rw [List.count_eq_zero_of_not_mem hn,
        List.count_eq_zero_of_not_mem (newline_not_mem_separator l)]
    rw [Line.contentStop, hl, ← Position.after_congr hbytes hlines, ← Position.after_append,
      ← Position.after_append, separator, List.append_assoc, List.singleton_append]
  rw [separator, List.cons_append,
    Excerpt.ofScript_of_scan (h.scan_append isInert_semicolon _) start,
    Excerpt.ofScript_append_blanks isBlank_of_mem_spaces, hplace]

theorem clear_of_separator (h : Clear pre) (hw : Clear (pre ++ (l.separator.content ++ more))) :
    Clear more := by
  rw [separator, List.cons_append] at hw
  exact (h.of_append isInert_semicolon hw).of_append_blanks isBlank_of_mem_spaces

end Line

namespace Outline
variable {marker? : Line → Option Marker}

/-- Splitting lines with separators for their markers is splitting the text in front of the first
marker and each section by itself. `pre` is the part of the first section in front of the lines. -/
theorem ofScript_separate {lines : List Line} {pre : List Char} {start : Position}
    (hf : Line.Follows (start.after pre) lines)
    (hc : ∀ l ∈ lines, (marker? l).isSome → l.content ≠ [])
    (hclear : ∀ front l back, lines = front ++ l :: back → (marker? l).isSome →
      Clear (pre ++ Line.join (front.map (separate marker?)))) :
    Excerpt.ofScript start (pre ++ Line.join (lines.map (separate marker?))) =
      Excerpt.ofScript start (pre ++ (cutAtMarkers marker? lines).1) ++
        (cutAtMarkers marker? lines).2.flatMap Section.excerpts := by
  induction lines generalizing pre start with
  | nil => simp [cutAtMarkers, Line.join]
  | cons l lines ih =>
    have hrest : ∀ k ∈ lines, (marker? k).isSome → k.content ≠ [] := fun k hk =>
      hc k (List.mem_cons_of_mem l hk)
    rw [List.map_cons, Line.join_cons, cutAtMarkers]
    cases hm : marker? l with
    | none =>
      rw [separate_of_none hm]
      have hf' : Line.Follows (start.after (pre ++ l.text)) lines := by
        rw [Position.after_append]
        exact hf.tail
      have hi := ih hf' hrest fun front k back hl hk => by
        have := hclear (l :: front) k back (by rw [hl, List.cons_append]) hk
        rwa [List.map_cons, separate_of_none hm, Line.join_cons, ← List.append_assoc] at this
      simpa [List.append_assoc] using hi
    | some m =>
      rw [separate_of_some hm]
      have hmark : (marker? l).isSome := by simp [hm]
      have hne := hc l (List.mem_cons_self ..) hmark
      have hl : l.start = start.after pre := hf.start_head
      have hpre : Clear pre := by simpa [Line.join] using hclear [] l lines rfl hmark
      have hf' : Line.Follows (l.contentStop.after l.ending) lines := by
        rw [Line.contentStop, ← Position.after_append, hl]
        exact hf.tail
      have hi := ih hf' hrest fun front k back hl hk => by
        have := hclear (l :: front) k back (by rw [hl, List.cons_append]) hk
        rw [List.map_cons, separate_of_some hm, Line.join_cons, Line.text, List.append_assoc] at this
        exact Line.clear_of_separator hpre this
      rw [Line.text, List.append_assoc,
        Line.ofScript_separator hne (hf.newline_not_mem (List.mem_cons_self ..)) hl hpre,
        show l.separator.ending = l.ending from rfl, hi, List.append_nil, List.flatMap_cons]
      rfl

end Outline

namespace Section

theorem map_snd_named (s : Section) : s.named.map Prod.snd = s.statements := by
  unfold named
  cases s.statements with
  | nil => rfl
  | cons first rest => simp [Function.comp_def]

end Section

theorem Outline.map_snd_named (o : Outline) :
    o.named.map Prod.snd = o.sections.flatMap Section.statements := by
  rw [Outline.named, List.map_flatMap]
  exact congrArg (List.flatMap · o.sections) (funext Section.map_snd_named)

theorem Outline.statements_toTemplate (policy : CommentPolicy) (o : Outline) :
    (o.toTemplate policy).statements =
      o.named.zipIdx.map fun x => .ofExcerpt policy x.2 x.1.1 x.1.2 := rfl

/-- The statements of a template in the order of the text. -/
theorem Outline.map_statement_toTemplate (policy : CommentPolicy) (o : Outline) :
    (o.toTemplate policy).statements.map (·.statement) =
      (o.named.map Prod.snd).zipIdx.map fun (e, i) => Statement.ofSource policy i e.chars := by
  rw [Outline.toTemplate, List.map_map, List.zipIdx_map, List.map_map]
  rfl

namespace Template.Layout
variable {text : String} (L : Layout text)

theorem excerpts_eq : L.excerpts = L.outline.sections.flatMap Section.excerpts := by
  have hf : Line.Follows (Position.origin.after []) L.lines := L.follows
  exact Outline.ofScript_separate hf (fun _ _ hm => content_ne_nil hm) fun _ _ _ hl hm =>
    clear_separated hl hm

theorem statements_eq : L.statements = L.outline.named.map Prod.snd := by
  rw [Outline.map_snd_named, statements, excerpts_eq, List.filter_flatMap]
  rfl

/-- The statements one by one as the template numbers them. -/
theorem statements_eq_zipIdx : L.statements = L.outline.named.zipIdx.map fun x => x.1.2 := by
  rw [L.statements_eq, ← List.zipIdx_map_fst 0 L.outline.named, List.map_map, List.zipIdx_map_fst]
  rfl

end Template.Layout

namespace Template
variable {policy : CommentPolicy} {text : String} {template : Template}

theorem sources_eq {o : Outline} (h : Outline.ofText text.toList = .ok o) :
    sources text = o.named.map Prod.snd := by
  rw [sources, h]

/-- The template has the statements of one pass over its script, in which the marker lines are
separators. -/
structure SinglePass (policy : CommentPolicy) (L : Layout text) (template : Template) : Prop where
  className : template.className = L.className
  size : byteLength L.script = text.utf8ByteSize
  sources : Template.sources text = L.statements
  statements : template.statements.map (·.statement) =
    L.statements.zipIdx.map fun (e, i) => Statement.ofSource policy i e.chars
  ordinals : template.statements.map (·.statement.ordinal) = List.range template.statements.length

theorem Layout.singlePass {L : Layout text} (h : Outline.ofText text.toList = .ok L.outline) :
    SinglePass policy L (L.outline.toTemplate policy) := by
  refine ⟨rfl, L.byteLength_script, ?_, ?_, ?_⟩
  · rw [sources_eq h, L.statements_eq]
  · rw [Outline.map_statement_toTemplate, L.statements_eq]
  · rw [ordinals_toTemplate]
    simp [Outline.toTemplate]

/-- A marker is a statement separator and nothing else. -/
theorem singlePass_of_parse (h : parse policy text = .ok template) :
    ∃ L : Layout text, SinglePass policy L template := by
  obtain ⟨L, ho, rfl, -⟩ := exists_layout_of_parse h
  exact ⟨L, Layout.singlePass ho⟩

theorem singlePass_of_parse_rejected_marker :
    (∃ L : Layout "# A\n#a\nSELECT ';' -- ;\n--name: b\r\n;/**/;DO $$\n#c\n$$", SinglePass .strip L
      ⟨some "A", [
        ⟨some "a", 3, ⟨"SELECT ';'", 0, .fetch⟩, ⟨.select, .fetch, [], false⟩⟩,
        ⟨some "b", 5, ⟨"DO $$\n#c\n$$", 1, .execute⟩, ⟨.other, .execute, [], false⟩⟩]⟩) ∧
    (sources "# A\n#a\nSELECT ';' -- ;\n--name: b\r\n;/**/;DO $$\n#c\n$$").map Excerpt.span =
      [(7, 22), (40, 51)] :=
  ⟨singlePass_of_parse (by decide +kernel), by decide +kernel⟩

end Template

end NamedSql
