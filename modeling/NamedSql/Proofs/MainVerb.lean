import NamedSql.Proofs.MarkerForm
import NamedSql.Proofs.Nesting
import NamedSql.Proofs.TokenJoin

namespace NamedSql

/-- The verbs that a statement can begin with behind common tables. -/
def verbs : List String :=
  ["SELECT", "VALUES", "INSERT", "UPDATE", "DELETE", "MERGE"]

/-- The word is one of the verbs in any ASCII case. -/
def IsVerb (word : List Char) : Prop :=
  String.ofList (Keyword.upper word) ∈ verbs

instance : DecidablePred IsVerb := fun _ =>
  inferInstanceAs (Decidable (_ ∈ verbs))

/-- The text begins with a verb as a whole word. -/
def BeginsWithVerb (text : List Char) : Prop :=
  ∃ word rest, text = word ++ rest ∧ IsVerb word ∧ ∀ c ∈ rest.head?, Token.inWord c = false

theorem isVerb_iff {word : List Char} :
    IsVerb word ↔ ∃ keyword, Keyword.ofWord? word = some keyword ∧ keyword.followsTables := by
  constructor
  · intro h
    have hfound : ∀ spelling ∈ verbs, (Keyword.all.find? fun keyword =>
        keyword.spelling.toList == spelling.toList).any Keyword.followsTables := by decide
    have hword := hfound _ h
    rw [String.toList_ofList] at hword
    obtain ⟨keyword, hk, hf⟩ := (Option.any_eq_true _ _).mp hword
    exact ⟨keyword, hk, hf⟩
  · rintro ⟨keyword, hk, hf⟩
    have hlisted : ∀ keyword ∈ Keyword.all, keyword.followsTables →
        keyword.spelling ∈ verbs := by decide
    unfold IsVerb
    rw [← Keyword.spelling_of_ofWord? hk, String.ofList_toList]
    exact hlisted keyword (Keyword.mem_all_of_ofWord? hk) hf

/-- A verb decides its statement alone. -/
theorem rows_ne_of_followsTables {word : List Char} {keyword : Keyword}
    (hk : Keyword.ofWord? word = some keyword) (hf : keyword.followsTables) :
    keyword.rows ≠ .ofMainVerb := by
  have hall : ∀ keyword ∈ Keyword.all, keyword.followsTables → keyword.rows ≠ .ofMainVerb := by
    decide
  exact hall keyword (Keyword.mem_all_of_ofWord? hk) hf

theorem isAlpha_of_isAlpha_toUpper {c : Char} (h : c.toUpper.isAlpha) : c.isAlpha := by
  by_cases hl : c.isLower
  · exact Bool.or_eq_true_iff.mpr (.inr hl)
  · have hn : ¬ ('a'.val ≤ c.val ∧ c.val ≤ 'z'.val) := fun hb =>
      hl (Bool.and_eq_true_iff.mpr ⟨decide_eq_true hb.1, decide_eq_true hb.2⟩)
    have hu : c.toUpper = c := dif_neg hn
    rwa [hu] at h

theorem IsVerb.isAlpha {word : List Char} (h : IsVerb word) : ∀ c ∈ word, c.isAlpha := by
  intro c hc
  have hall : ∀ spelling ∈ verbs, spelling.toList.all Char.isAlpha := by decide
  apply isAlpha_of_isAlpha_toUpper
  apply List.all_eq_true.mp (hall _ h)
  rw [String.toList_ofList]
  exact List.mem_map_of_mem hc

theorem IsVerb.ne_nil {word : List Char} (h : IsVerb word) : word ≠ [] := by
  rintro rfl
  exact absurd h (by decide)

section Tokens
variable {word : List Char} {ts : List Token} {depth : Nat}

theorem mainVerb?_with (ts : List Token) :
    mainVerb? (.word "WITH".toList :: ts) = verbAfterTables? 0 ts := by
  rfl

theorem mainVerb?_openParen (ts : List Token) : mainVerb? (.openParen :: ts) = mainVerb? ts := by
  unfold mainVerb? leadingWord?
  rfl

/-- A verb is the main verb of the statement that it begins. -/
theorem IsVerb.mainVerb? (h : IsVerb word) (ts : List Token) : ∃ keyword,
    Keyword.ofWord? word = some keyword ∧
      NamedSql.mainVerb? (.word word :: ts) = some (keyword, ts) := by
  obtain ⟨keyword, hk, hf⟩ := isVerb_iff.mp h
  refine ⟨keyword, hk, ?_⟩
  have hlead : leadingWord? (.word word :: ts) = some (word, ts) := rfl
  simp only [NamedSql.mainVerb?, hlead, hk, Option.bind_eq_bind, Option.bind_some,
    if_neg (rows_ne_of_followsTables hk hf)]

/-- The first verb outside parentheses is found. -/
theorem IsVerb.verbAfterTables? (h : IsVerb word) (ts : List Token) :
    NamedSql.verbAfterTables? 0 (.word word :: ts) = NamedSql.mainVerb? (.word word :: ts) := by
  obtain ⟨keyword, hk, hm⟩ := h.mainVerb? ts
  obtain ⟨keyword', hk', hf⟩ := isVerb_iff.mp h
  obtain rfl : keyword' = keyword := Option.some.inj (hk'.symm.trans hk)
  have hs : (some keyword').filter (fun keyword => 0 == 0 && keyword.followsTables) =
      some keyword' := by
    rw [Option.filter_some, if_pos (by simpa using hf)]
  rw [hm, NamedSql.verbAfterTables?, hk, hs]

/-- Another word, and a verb in parentheses, is passed over. -/
theorem verbAfterTables?_word (h : depth = 0 → ¬ IsVerb word) (ts : List Token) :
    verbAfterTables? depth (.word word :: ts) = verbAfterTables? depth ts := by
  have hn : (Keyword.ofWord? word).filter
      (fun keyword => depth == 0 && keyword.followsTables) = none := by
    rw [Option.filter_eq_none_iff]
    intro keyword hk hf
    obtain ⟨hd, hf⟩ := Bool.and_eq_true_iff.mp hf
    exact h (eq_of_beq hd) (isVerb_iff.mpr ⟨keyword, hk, hf⟩)
  rw [verbAfterTables?, hn]

/-- The search passes over balanced tokens, where a verb can stand inside parentheses only. -/
theorem verbAfterTables?_append (hb : Token.Balanced ts)
    (hv : depth = 0 → ∀ word, Token.Outer ts word → ¬ IsVerb word) (more : List Token) :
    verbAfterTables? depth (ts ++ more) = verbAfterTables? depth more := by
  induction hb generalizing depth more with
  | nil => rfl
  | @cons t ts opens closes _ ih =>
    have hts := ih (fun hd word hw => hv hd word (hw.cons opens)) more
    cases t with
    | openParen => exact absurd rfl opens
    | closeParen => exact absurd rfl closes
    | other => exact hts
    | word word =>
      rw [List.cons_append, verbAfterTables?_word, hts]
      exact fun hd => hv hd word ⟨[], Token.wordAt_self word ts, .nil⟩
  | @nest inner rest inside _ ih ih' =>
    have hrest := ih' (fun hd word hw => hv hd word (hw.nest inside)) more
    rw [List.cons_append, verbAfterTables?, List.append_assoc, ih fun hd => absurd hd (by simp)]
    exact hrest

end Tokens

theorem isPlain_of_mem_verb {word : List Char} (h : IsVerb word) : ∀ c ∈ word, isPlain c :=
  fun c hc => isPlain_of_all (p := Char.isAlpha) (by decide) (h.isAlpha c hc)

theorem inWord_of_mem_verb {word : List Char} (h : IsVerb word) : ∀ c ∈ word, Token.inWord c := by
  intro c hc
  have ha := h.isAlpha c hc
  simp [Token.inWord, isNameChar, isIdentifierRest, Char.isAlphanum, ha]

/-- The verb is all that stands in front of the first character that is in no word. -/
theorem beginsWithVerb_iff {text : List Char} :
    BeginsWithVerb text ↔ IsVerb (text.takeWhile Token.inWord) := by
  constructor
  · rintro ⟨word, rest, rfl, hv, hr⟩
    have hrest : rest.takeWhile Token.inWord = [] := by
      cases rest with
      | nil => rfl
      | cons c cs => simp [hr c rfl]
    rwa [List.takeWhile_append_of_pos (inWord_of_mem_verb hv), hrest, List.append_nil]
  · intro hv
    refine ⟨_, _, List.takeWhile_append_dropWhile.symm, hv, fun c hc => ?_⟩
    have hstop := List.head?_dropWhile_not Token.inWord text
    rwa [Option.mem_def.mp hc] at hstop

instance : DecidablePred BeginsWithVerb := fun _ =>
  decidable_of_iff _ beginsWithVerb_iff.symm

namespace BeginsWithVerb
variable {text : List Char}

theorem flush (h : BeginsWithVerb text) : Flush text := by
  obtain ⟨word, rest, rfl, hv, -⟩ := h
  obtain ⟨c, cs, rfl⟩ := List.exists_cons_of_ne_nil hv.ne_nil
  exact ⟨c, cs ++ rest, rfl, isPlain_of_mem_verb hv c List.mem_cons_self,
    isBlank_eq_false_of_isAlpha (hv.isAlpha c List.mem_cons_self)⟩

/-- The first token of the statement is the verb. -/
theorem exists_statementTokens (h : BeginsWithVerb text) :
    ∃ word ts, IsVerb word ∧ statementTokens text = .word word :: ts := by
  obtain ⟨word, rest, rfl, hv, hr⟩ := h
  obtain ⟨ts, ht⟩ := statementTokens_word_append hv.ne_nil (isPlain_of_mem_verb hv)
    (inWord_of_mem_verb hv) (fun c hc => isBlank_eq_false_of_isAlpha (hv.isAlpha c hc)) hr
  exact ⟨word, ts, hv, ht⟩

end BeginsWithVerb

end NamedSql
