import NamedSql.Proofs.LetterCase
import NamedSql.Proofs.MainVerb

namespace NamedSql

open Token

/-- The verb stands among the tokens outside the parentheses opened there, and is the first to. -/
def FirstVerb (ts : List Token) (verb : List Char) : Prop :=
  ∃ front, WordAt ts front verb ∧ Settled front ∧ IsVerb verb ∧
    ∀ word, Outer front word → ¬ IsVerb word

/-- The tokens begin with WITH, behind any opening parentheses, and `rest` stands behind it. -/
def BeginsWithTables (ts rest : List Token) : Prop :=
  ∃ n word, ts = List.replicate n .openParen ++ .word word :: rest ∧
    Keyword.upper word = "WITH".toList

/-- The family that a first word in upper case names. -/
def Family.ofSpelling : String → Family
  | "SELECT" => .select
  | "INSERT" => .insert
  | "UPDATE" => .update
  | "DELETE" => .delete
  | "WITH" => .commonTables
  | "VALUES" => .values
  | "SHOW" => .setting
  | "EXPLAIN" => .plan
  | "DESC" => .description
  | "DESCRIBE" => .description
  | _ => .other

/-- The family, the mode and the RETURNING clause of a statement do not contradict each other. -/
structure Analysis.Coherent (sql : String) (info : Analysis) : Prop where
  family : info.family = ((leadingWord sql).map Family.ofSpelling).getD .other
  returning : info.hasReturning → info.mode = .fetch
  rows : info.family ∈ [.select, .values, .setting, .plan, .description] → info.mode = .fetch
  effect : info.family ∈ [.insert, .update, .delete, .other] →
    (info.mode = .fetch ↔ info.hasReturning)
  tables : info.family = .commonTables → ∃ rest,
    BeginsWithTables (statementTokens sql.toList) rest ∧
      (info.mode = .fetch ↔ info.hasReturning ∨
        ∃ verb, FirstVerb rest verb ∧ String.ofList (Keyword.upper verb) ∈ ["SELECT", "VALUES"])

/-- The table of keywords and the list of families agree on every word. -/
theorem Family.ofSpelling_eq (word : List Char) :
    ofSpelling (String.ofList (Keyword.upper word)) = ofWord word := by
  rw [ofWord, ← Keyword.ofWord?_upper]
  have hu := Keyword.upper_upper word
  generalize Keyword.upper word = spelling at hu ⊢
  obtain ⟨s, rfl⟩ : ∃ s : String, spelling = s.toList := ⟨.ofList spelling, by simp⟩
  rw [String.ofList_toList, Keyword.ofWord?, hu]
  cases hk : Keyword.all.find? fun keyword => keyword.spelling.toList == s.toList with
  | some keyword =>
    have hall : ∀ keyword ∈ Keyword.all, ofSpelling keyword.spelling = keyword.family := by decide
    have hs : keyword.spelling = s := String.toList_injective (eq_of_beq (List.find?_some hk :))
    rw [← hs]
    exact hall keyword (List.mem_of_find?_eq_some hk)
  | none =>
    unfold ofSpelling
    split
    case h_11 => rfl
    all_goals exact absurd hk (by decide)

theorem Family.ofWord_upper (word : List Char) : ofWord (Keyword.upper word) = ofWord word := by
  rw [ofWord, ofWord, Keyword.ofWord?_upper]

/-- What the family of a keyword says about its rows. -/
theorem rows_of_family : ∀ keyword ∈ Keyword.all,
    (keyword.family ∈ [.select, .values, .setting, .plan, .description] → keyword.rows = .always) ∧
    (keyword.family ∈ [.insert, .update, .delete, .other] → keyword.rows = .ifReturning) ∧
    (keyword.family = .commonTables → keyword.rows = .ofMainVerb) := by
  decide

section Tokens
variable {ts : List Token}

/-- The search finds the keyword of the first verb that stands where no parenthesis is open. -/
theorem exists_verbAfterTables?_iff {depth : Nat} {keyword : Keyword} :
    (∃ back, verbAfterTables? depth ts = some (keyword, back)) ↔
      ∃ verb, Keyword.ofWord? verb = some keyword ∧ IsVerb verb ∧ ∃ front, WordAt ts front verb ∧
        front.foldl depthAfter depth = 0 ∧ ∀ word ∈ outerWords depth front, ¬ IsVerb word := by
  induction ts generalizing depth with
  | nil => simp [verbAfterTables?, not_wordAt_nil]
  | cons t ts ih =>
    simp only [exists_wordAt_cons, List.foldl_cons, List.foldl_nil]
    cases t with
    | openParen => simp [verbAfterTables?, ih, outerWords, depthAfter]
    | closeParen => simp [verbAfterTables?, ih, outerWords, depthAfter]
    | other => simp [verbAfterTables?, ih, outerWords, depthAfter]
    | word word =>
      by_cases hv : depth = 0 ∧ IsVerb word
      · obtain ⟨rfl, hv⟩ := hv
        obtain ⟨found, hk, hm⟩ := hv.mainVerb? ts
        rw [hv.verbAfterTables?, hm]
        constructor
        · rintro ⟨back, he⟩
          obtain ⟨rfl, -⟩ := Prod.mk.inj (Option.some.inj he)
          exact ⟨word, hk, hv, .inl ⟨rfl, rfl, by simp [outerWords]⟩⟩
        · rintro ⟨verb, hk', -, ⟨he, -⟩ | ⟨front, -, -, hn⟩⟩
          · obtain rfl := Token.word.inj he
            obtain rfl := Option.some.inj (hk.symm.trans hk')
            exact ⟨ts, rfl⟩
          · exact absurd hv (hn word (by simp [outerWords]))
      · have hpass : depth = 0 → ¬ IsVerb word := fun hd hw => hv ⟨hd, hw⟩
        have hnone (front : List Token) :
            (∀ w ∈ outerWords depth (.word word :: front), ¬ IsVerb w) ↔
              ∀ w ∈ outerWords depth front, ¬ IsVerb w := by
          rw [outerWords]
          split
          · rename_i hd
            rw [List.forall_mem_cons, and_iff_right (hpass hd)]
          · exact Iff.rfl
        simp only [verbAfterTables?_word hpass, ih, hnone, depthAfter]
        refine exists_congr fun verb => and_congr_right fun _ => and_congr_right fun hverb => ?_
        refine (or_iff_right ?_).symm
        rintro ⟨he, hd, -⟩
        exact hpass hd (Token.word.inj he ▸ hverb)

theorem firstVerb_iff {verb : List Char} : FirstVerb ts verb ↔ IsVerb verb ∧ ∃ front,
    WordAt ts front verb ∧ front.foldl depthAfter 0 = 0 ∧
      ∀ word ∈ outerWords 0 front, ¬ IsVerb word := by
  simp only [FirstVerb, settled_iff, outer_iff]
  constructor
  · rintro ⟨front, hw, hs, hv, hn⟩
    exact ⟨hv, front, hw, hs, hn⟩
  · rintro ⟨hv, front, hw, hs, hn⟩
    exact ⟨front, hw, hs, hv, hn⟩

/-- The verb behind the tables returns rows in any case when it is SELECT or VALUES. -/
theorem always_verbAfterTables?_iff :
    (∃ found ∈ verbAfterTables? 0 ts, found.1.rows = .always) ↔
      ∃ verb, FirstVerb ts verb ∧ String.ofList (Keyword.upper verb) ∈ ["SELECT", "VALUES"] := by
  have hall : ∀ keyword ∈ Keyword.all, keyword.followsTables →
      (keyword.rows = .always ↔ keyword.spelling ∈ ["SELECT", "VALUES"]) := by decide
  have hrows {verb : List Char} {keyword : Keyword} (hv : IsVerb verb)
      (hk : Keyword.ofWord? verb = some keyword) :
      keyword.rows = .always ↔ String.ofList (Keyword.upper verb) ∈ ["SELECT", "VALUES"] := by
    obtain ⟨keyword', hk', hf⟩ := isVerb_iff.mp hv
    obtain rfl := Option.some.inj (hk.symm.trans hk')
    rw [hall keyword (Keyword.mem_all_of_ofWord? hk) hf, ← Keyword.spelling_of_ofWord? hk,
      String.ofList_toList]
  simp only [firstVerb_iff]
  constructor
  · rintro ⟨⟨keyword, back⟩, hf, hr⟩
    obtain ⟨verb, hk, hv, hfirst⟩ := exists_verbAfterTables?_iff.mp ⟨back, hf⟩
    exact ⟨verb, ⟨hv, hfirst⟩, (hrows hv hk).mp hr⟩
  · rintro ⟨verb, ⟨hv, hfirst⟩, hs⟩
    obtain ⟨keyword, hk, -⟩ := isVerb_iff.mp hv
    obtain ⟨back, hf⟩ := exists_verbAfterTables?_iff.mpr ⟨verb, hk, hv, hfirst⟩
    exact ⟨(keyword, back), hf, (hrows hv hk).mpr hs⟩

theorem leadingWord?_eq_some {word : List Char} {rest : List Token}
    (h : leadingWord? ts = some (word, rest)) :
    ∃ n, ts = List.replicate n .openParen ++ .word word :: rest := by
  unfold leadingWord? at h
  split at h
  · rename_i hd
    obtain ⟨rfl, rfl⟩ := Prod.mk.inj (Option.some.inj h)
    refine ⟨(ts.takeWhile (· == .openParen)).length, ?_⟩
    have hopen : ts.takeWhile (· == .openParen) =
        List.replicate (ts.takeWhile (· == .openParen)).length .openParen :=
      List.eq_replicate_of_mem fun t ht => eq_of_beq (List.all_eq_true.mp List.all_takeWhile t ht)
    rw [← hopen, ← hd, List.takeWhile_append_dropWhile]
  · cases h

theorem mainVerb?_of_leadingWord? {word : List Char} {rest : List Token}
    (h : leadingWord? ts = some (word, rest)) : mainVerb? ts =
      (Keyword.ofWord? word).bind fun keyword =>
        if keyword.rows = .ofMainVerb then verbAfterTables? 0 rest else some (keyword, rest) := by
  rw [mainVerb?, h]
  rfl

/-- The verb that decides a statement is never WITH. -/
theorem rows_ne_of_mainVerb? {found : Keyword × List Token} (h : mainVerb? ts = some found) :
    found.1.rows ≠ .ofMainVerb := by
  cases hl : leadingWord? ts with
  | none => simp [mainVerb?, hl] at h
  | some leading =>
    rw [mainVerb?_of_leadingWord? hl] at h
    obtain ⟨keyword, -, hk⟩ := Option.bind_eq_some_iff.mp h
    split at hk
    · obtain ⟨verb, hverb, hv, -⟩ := exists_verbAfterTables?_iff.mp ⟨found.2, hk⟩
      obtain ⟨keyword', hk', hf⟩ := isVerb_iff.mp hv
      obtain rfl := Option.some.inj (hverb.symm.trans hk')
      exact rows_ne_of_followsTables hverb hf
    · rename_i hr
      rwa [← Option.some.inj hk]

/-- Rows come back with a RETURNING clause, and from a verb that always returns them. -/
theorem ofTokens_eq_fetch_iff : Mode.ofTokens ts = .fetch ↔
    hasReturningOfTokens ts ∨ ∃ found ∈ mainVerb? ts, found.1.rows = .always := by
  unfold Mode.ofTokens hasReturningOfTokens
  cases hm : mainVerb? ts with
  | none => simp
  | some found =>
    have hr := rows_ne_of_mainVerb? hm
    obtain ⟨keyword, rest⟩ := found
    cases hrows : keyword.rows with
    | always => simp [hrows]
    | ifReturning => simp [hrows]
    | ofMainVerb => exact absurd hrows hr

end Tokens

theorem Analysis.family_ofStatement (sql : String) : (ofStatement sql).family =
    (((leadingWord? (statementTokens sql.toList)).bind fun leading =>
      Keyword.ofWord? leading.1).map Keyword.family).getD .other := by
  unfold ofStatement leadingWordOfStatement?
  cases leadingWord? (statementTokens sql.toList) with
  | none => rfl
  | some leading => exact Family.ofWord_upper leading.1

theorem Analysis.family_eq_ofSpelling (sql : String) : (ofStatement sql).family =
    ((leadingWord sql).map Family.ofSpelling).getD .other := by
  rw [family_ofStatement, leadingWord, leadingWordOfStatement?]
  cases leadingWord? (statementTokens sql.toList) with
  | none => rfl
  | some leading => exact (Family.ofSpelling_eq leading.1).symm

/-- A statement begins with no keyword, with one that decides it, or with WITH. -/
theorem Analysis.family_cases (sql : String) :
    ((ofStatement sql).family = .other ∧ mainVerb? (statementTokens sql.toList) = none) ∨
    (∃ keyword ∈ Keyword.all, ∃ rest, keyword.rows ≠ .ofMainVerb ∧
      (ofStatement sql).family = keyword.family ∧
        mainVerb? (statementTokens sql.toList) = some (keyword, rest)) ∨
    (∃ rest, BeginsWithTables (statementTokens sql.toList) rest ∧
      (ofStatement sql).family = .commonTables ∧
        mainVerb? (statementTokens sql.toList) = verbAfterTables? 0 rest) := by
  rw [family_ofStatement]
  cases hl : leadingWord? (statementTokens sql.toList) with
  | none => exact .inl ⟨rfl, by rw [mainVerb?, hl]; rfl⟩
  | some leading =>
    obtain ⟨word, rest⟩ := leading
    rw [mainVerb?_of_leadingWord? hl, Option.bind_some]
    cases hk : Keyword.ofWord? word with
    | none => exact .inl ⟨rfl, rfl⟩
    | some keyword =>
      have hmem := Keyword.mem_all_of_ofWord? hk
      rw [Option.bind_some]
      by_cases hr : keyword.rows = .ofMainVerb
      · have hwith : ∀ keyword ∈ Keyword.all, keyword.rows = .ofMainVerb →
            keyword.family = .commonTables ∧ keyword.spelling = "WITH" := by decide
        obtain ⟨hf, hs⟩ := hwith keyword hmem hr
        obtain ⟨n, hts⟩ := leadingWord?_eq_some hl
        refine .inr (.inr ⟨rest, ⟨n, word, hts, ?_⟩, hf, if_pos hr⟩)
        rw [← Keyword.spelling_of_ofWord? hk, hs]
      · exact .inr (.inl ⟨keyword, hmem, rest, hr, rfl, if_neg hr⟩)

/-- What is known of a statement is coherent, whatever its text. -/
theorem Analysis.coherent_ofStatement (sql : String) : Coherent sql (ofStatement sql) := by
  have hfetch : (ofStatement sql).mode = .fetch ↔ (ofStatement sql).hasReturning ∨
      ∃ found ∈ mainVerb? (statementTokens sql.toList), found.1.rows = .always :=
    ofTokens_eq_fetch_iff
  have hcases := family_cases sql
  refine ⟨family_eq_ofSpelling sql, fun h => hfetch.mpr (.inl h), ?_, ?_, ?_⟩
  · intro hfamily
    rcases hcases with ⟨hf, -⟩ | ⟨keyword, hk, rest, -, hf, hm⟩ | ⟨rest, -, hf, -⟩
    · exact absurd (hf ▸ hfamily) (by decide)
    · exact hfetch.mpr (.inr ⟨_, hm, (rows_of_family keyword hk).1 (hf ▸ hfamily)⟩)
    · exact absurd (hf ▸ hfamily) (by decide)
  · intro hfamily
    rw [hfetch, or_iff_left]
    rintro ⟨found, hfound, ha⟩
    rcases hcases with ⟨-, hm⟩ | ⟨keyword, hk, rest, -, hf, hm⟩ | ⟨rest, -, hf, -⟩
    · simp [hm] at hfound
    · obtain rfl := Option.some.inj (hm.symm.trans hfound)
      exact absurd (((rows_of_family keyword hk).2.1 (hf ▸ hfamily)).symm.trans ha) (by decide)
    · exact absurd (hf ▸ hfamily) (by decide)
  · intro hfamily
    rcases hcases with ⟨hf, -⟩ | ⟨keyword, hk, rest, hr, hf, -⟩ | ⟨rest, hb, -, hm⟩
    · exact absurd (hf.symm.trans hfamily) (by decide)
    · exact absurd ((rows_of_family keyword hk).2.2 (hf.symm.trans hfamily)) hr
    · exact ⟨rest, hb, by rw [hfetch, hm, always_verbAfterTables?_iff]⟩

end NamedSql
