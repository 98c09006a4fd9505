import NamedSql.Proofs.Pieces
import NamedSql.Proofs.Trim
import NamedSql.Template.Outline

namespace NamedSql

namespace Line

/-- Lines that follow each other from `start` on: all but the last one end in a newline. -/
inductive Follows : Position → List Line → Prop
  | nil {start : Position} : Follows start []
  | last {start : Position} {l : Line} (place : l.start = start) (content : '\n' ∉ l.content)
      (returns : ∀ c ∈ l.ending, c = '\r') : Follows start [l]
  | cons {start : Position} {l : Line} {lines : List Line} {returns : List Char}
      (place : l.start = start) (content : '\n' ∉ l.content)
      (ending : l.ending = returns ++ ['\n']) (onlyReturns : ∀ c ∈ returns, c = '\r')
      (rest : Follows (start.after l.text) lines) : Follows start (l :: lines)

theorem cut_of_not_mem {text : List Char} (hne : text ≠ []) (h : '\n' ∉ text) :
    cut text = [text] := by
  induction text with
  | nil => exact absurd rfl hne
  | cons c cs ih =>
    have hc : c ≠ '\n' := fun hc => h (hc ▸ List.mem_cons_self ..)
    rw [cut, if_neg hc]
    cases cs with
    | nil => rfl
    | cons d ds => rw [ih (List.cons_ne_nil d ds) fun hm => h (List.mem_cons_of_mem c hm)]

theorem cut_append_newline {body : List Char} (h : '\n' ∉ body) (rest : List Char) :
    cut (body ++ '\n' :: rest) = (body ++ ['\n']) :: cut rest := by
  induction body with
  | nil => exact if_pos rfl
  | cons c cs ih =>
    have hc : c ≠ '\n' := fun hc => h (hc ▸ List.mem_cons_self ..)
    rw [List.cons_append, cut, if_neg hc, ih fun hm => h (List.mem_cons_of_mem c hm)]
    rfl

/-- A line without its newline is its content and the carriage returns behind that. -/
theorem ofChars_body {body : List Char} (h : '\n' ∉ body) (newline : List Char)
    (hn : ∀ c ∈ newline, isEnding c) (start : Position) :
    ∃ content returns, ofChars start (body ++ newline) = ⟨start, content, returns ++ newline⟩ ∧
      '\n' ∉ content ∧ ∀ c ∈ returns, c = '\r' := by
  obtain ⟨returns, hb, hr⟩ := dropEndWhile_append isEnding body
  refine ⟨dropEndWhile isEnding body, returns, ?_, ?_, ?_⟩
  · simp only [ofChars, dropEndWhile_append_of_all hn]
    generalize dropEndWhile isEnding body = content at hb
    rw [hb, List.append_assoc, List.drop_left]
  · intro hm
    exact h (hb ▸ List.mem_append_left returns hm)
  · intro c hc
    have hne : c ≠ '\n' := by
      rintro rfl
      exact h (hb ▸ List.mem_append_right _ hc)
    simpa [isEnding, hne] using hr c hc

theorem ofChars_append {more : List Char} (h : ∀ c ∈ more, isEnding c) (start : Position)
    (chars : List Char) :
    ofChars start (chars ++ more) =
      { ofChars start chars with ending := (ofChars start chars).ending ++ more } := by
  obtain ⟨dropped, hc, -⟩ := dropEndWhile_append isEnding chars
  have hl : (dropEndWhile isEnding chars).length ≤ chars.length := by
    conv_rhs => rw [hc, List.length_append]
    exact Nat.le_add_right ..
  simp only [ofChars, dropEndWhile_append_of_all h, List.drop_append_of_le_length hl]

theorem follows_locate_cut (text : List Char) (start : Position) :
    Follows start (locate start (cut text)) := by
  induction text using separator_induction '\n' generalizing start with
  | last text h =>
    rcases eq_or_ne text [] with rfl | hne
    · exact .nil
    · obtain ⟨content, returns, ho, hc, hr⟩ := ofChars_body h [] (by simp) start
      rw [List.append_nil, List.append_nil] at ho
      rw [cut_of_not_mem hne h, locate, ho]
      exact .last rfl hc hr
  | cut body rest h ih =>
    obtain ⟨content, returns, ho, hc, hr⟩ := ofChars_body h ['\n'] (by simp [isEnding]) start
    rw [cut_append_newline h, locate]
    refine .cons ?_ ?_ ?_ hr ?_
    · rw [ho]
    · rwa [ho]
    · rw [ho]
    · rw [text_ofChars]
      exact ih _

theorem follows_ofText (text : List Char) : Follows .origin (ofText text) :=
  follows_locate_cut text .origin

/-- Blanking the first line moves none of the others. -/
theorem Follows.blank_head {l : Line} {lines : List Line} {start : Position}
    (h : Follows start (l :: lines)) : Follows start (l.blank :: lines) := by
  have hn : '\n' ∉ l.blank.content := by simp [blank]
  cases h with
  | last place _ returns => exact .last place hn returns
  | cons place content ending onlyReturns rest =>
    refine .cons place hn ending onlyReturns ?_
    have hp : start.after l.blank.text = start.after l.text := by
      simp [Position.after, blank, text, List.count_eq_zero_of_not_mem content,
        List.count_replicate]
    rwa [hp]

theorem Follows.newline_not_mem {start : Position} {lines : List Line} (h : Follows start lines)
    {l : Line} (hl : l ∈ lines) : '\n' ∉ l.content := by
  induction h with
  | nil => cases hl
  | last _ content _ => rwa [List.mem_singleton.mp hl]
  | cons _ content _ _ _ ih =>
    rcases List.mem_cons.mp hl with rfl | hl
    · exact content
    · exact ih hl

theorem Follows.tail {start : Position} {l : Line} {lines : List Line}
    (h : Follows start (l :: lines)) : Follows (start.after l.text) lines := by
  cases h with
  | last => exact .nil
  | cons _ _ _ _ rest => exact rest

theorem Follows.front {start : Position} {front back : List Line}
    (h : Follows start (front ++ back)) : Follows start front := by
  induction front generalizing start with
  | nil => exact .nil
  | cons k front ih =>
    rw [List.cons_append] at h
    have hrest := ih h.tail
    generalize hb : front ++ back = lines at h
    cases h with
    | last place content returns =>
      obtain ⟨rfl, -⟩ := List.append_eq_nil_iff.mp hb
      exact .last place content returns
    | cons place content ending onlyReturns _ => exact .cons place content ending onlyReturns hrest

/-- A line that another one follows ends in a newline. -/
theorem Follows.getLast?_ending {start : Position} {front back : List Line} {l : Line}
    (h : Follows start (front ++ l :: back)) : ∀ k ∈ front, k.ending.getLast? = some '\n' := by
  induction front generalizing start with
  | nil => simp
  | cons k front ih =>
    rw [List.cons_append] at h
    rw [List.forall_mem_cons]
    refine ⟨?_, ih h.tail⟩
    generalize hb : front ++ l :: back = lines at h
    cases h with
    | last => simp at hb
    | cons _ _ ending _ _ => simp [ending]

theorem Follows.isBlank_of_mem_ending {start : Position} {lines : List Line}
    (h : Follows start lines) {l : Line} (hl : l ∈ lines) : ∀ c ∈ l.ending, isBlank c := by
  have hreturn {returns : List Char} (hr : ∀ c ∈ returns, c = '\r') :
      ∀ c ∈ returns, isBlank c := by
    intro c hc
    rw [hr c hc]
    decide
  induction h with
  | nil => cases hl
  | last _ _ returns =>
    rw [List.mem_singleton.mp hl]
    exact hreturn returns
  | cons _ _ ending onlyReturns _ ih =>
    rcases List.mem_cons.mp hl with rfl | hl
    · rw [ending, List.forall_mem_append, List.forall_mem_singleton]
      exact ⟨hreturn onlyReturns, by decide⟩
    · exact ih hl

theorem Follows.start_head {start : Position} {l : Line} {lines : List Line}
    (h : Follows start (l :: lines)) : l.start = start := by
  cases h <;> assumption

/-- Each line begins where the text in front of it ends. -/
theorem Follows.start_eq {start : Position} {front back : List Line} {l : Line}
    (h : Follows start (front ++ l :: back)) : l.start = start.after (join front) := by
  induction front generalizing start with
  | nil => exact h.start_head
  | cons k front ih =>
    rw [List.cons_append] at h
    generalize hb : front ++ l :: back = lines at h
    cases h with
    | last => simp at hb
    | cons _ _ _ _ rest =>
      rw [ih (hb ▸ rest), ← Position.after_append]
      rfl

/-- A line is counted by the lines in front of it. -/
theorem Follows.line_start {start : Position} {front back : List Line} {l : Line}
    (h : Follows start (front ++ l :: back)) : l.start.line = start.line + front.length := by
  induction front generalizing start with
  | nil => exact congrArg Position.line h.start_head
  | cons k front ih =>
    rw [List.cons_append] at h
    generalize hb : front ++ l :: back = lines at h
    cases h with
    | last => simp at hb
    | cons _ content ending onlyReturns rest =>
      have hc : '\n' ∉ k.content ++ _ := List.not_mem_append content
        fun hm => absurd (onlyReturns _ hm) (by decide)
      rw [ih (hb ▸ rest), Position.line_after, text, ending, ← List.append_assoc,
        List.count_append, List.count_eq_zero_of_not_mem hc, List.length_cons]
      simp [Nat.add_assoc, Nat.add_comm 1]

end Line

end NamedSql
