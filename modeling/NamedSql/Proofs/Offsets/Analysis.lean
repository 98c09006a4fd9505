import NamedSql.Proofs.Offsets.Words
import NamedSql.Statement

namespace NamedSql.Offsets

/-- The tokens from an index on. There are none behind the end. -/
def tokensAt? (tokens : List Token) (index : Nat) : Option (List Token) :=
  if index ≤ tokens.length then some (tokens.drop index) else none

/-- The first word behind the opening parentheses, with its index. -/
def leadingWordAt? (tokens : List Token) : Option (Nat × List Char) :=
  let index := tokens.findIdx (· != .openParen)
  match tokens[index]? with
  | some (.word word) => some (index, word)
  | _ => none

/-- The first verb that can follow common tables, with its index. `index` is the one of the first
token, and `depth` parentheses are open. -/
def verbAt? (depth index : Nat) : List Token → Option (Nat × Keyword)
  | [] => none
  | .openParen :: rest => verbAt? (depth + 1) (index + 1) rest
  | .closeParen :: rest => verbAt? (depth - 1) (index + 1) rest
  | .other :: rest => verbAt? depth (index + 1) rest
  | .word word :: rest =>
    match (Keyword.ofWord? word).filter fun keyword => depth == 0 && keyword.followsTables with
    | some keyword => some (index, keyword)
    | none => verbAt? depth (index + 1) rest

/-- The keyword that decides the statement, with its index. -/
def mainVerbAt (tokens : List Token) : Option (Option (Nat × Keyword)) :=
  match leadingWordAt? tokens with
  | none => return none
  | some (index, word) =>
    match Keyword.ofWord? word with
    | none => return none
    | some keyword =>
      if keyword.rows = .ofMainVerb then do
        return verbAt? 0 (index + 1) (← tokensAt? tokens (index + 1))
      else return some (index, keyword)

/-- Whether RETURNING stands outside parentheses among the tokens from an index on. -/
def returningFrom (tokens : List Token) (index : Nat) : Option Bool := do
  return hasReturningAt 0 (← tokensAt? tokens index)

/-- Whether the main verb has a RETURNING clause. -/
def returningOf (tokens : List Token) : Option Bool := do
  match ← mainVerbAt tokens with
  | none => return false
  | some (index, _) => returningFrom tokens index

/-- The mode of the statement with these tokens. -/
def modeOfTokens (tokens : List Token) : Option Mode := do
  match ← mainVerbAt tokens with
  | none => return .execute
  | some (index, keyword) =>
    match keyword.rows with
    | .always => return .fetch
    | .ifReturning => return if ← returningFrom tokens index then .fetch else .execute
    | .ofMainVerb => return .execute

/-- The tokens of a statement, its comments removed. -/
def statementTokens (sql : List Char) : Option (List Token) := do
  tokens (← removeComments sql)

def modeOf (sql : List Char) : Option Mode := do
  modeOfTokens (← statementTokens sql)

/-- The family of a statement, after its first word. -/
def familyOf (sql : List Char) : Option Family := do
  let word := (leadingWordAt? (← statementTokens sql)).map fun found => Keyword.upper found.2
  return (word.map Family.ofWord).getD .other

def analyze (sql : List Char) : Option Analysis := do
  return {
    family := ← familyOf sql
    mode := ← modeOf sql
    parameters := (← parameters sql).map String.ofList
    hasReturning := ← returningOf (← statementTokens sql) }

/-- The text of a statement under the policy. -/
def applyPolicy : CommentPolicy → List Char → Option (List Char)
  | .strip, sql => removeComments sql
  | .keep, sql => return trim sql

/-- The statement with the given source text and number. -/
def statementOf (policy : CommentPolicy) (ordinal : Nat) (sql : List Char) : Option Statement := do
  let text ← applyPolicy policy sql
  return ⟨String.ofList text, ordinal, ← modeOf text⟩

theorem tokensAt?_of_lt {tokens : List Token} {index : Nat} {token : Token}
    (h : tokens[index]? = some token) :
    tokensAt? tokens index = some (token :: tokens.drop (index + 1)) := by
  obtain ⟨hlt, rfl⟩ := List.getElem?_eq_some_iff.mp h
  rw [tokensAt?, if_pos (Nat.le_of_lt hlt), List.drop_eq_getElem_cons hlt]

/-- The leading word with its index, and with the tokens behind it. -/
theorem leadingWordAt?_spec (tokens : List Token) :
    leadingWordAt? tokens = none ∧ leadingWord? tokens = none ∨
      ∃ index word, leadingWordAt? tokens = some (index, word) ∧
        tokens[index]? = some (.word word) ∧
          leadingWord? tokens = some (word, tokens.drop (index + 1)) := by
  induction tokens with
  | nil => exact .inl ⟨rfl, rfl⟩
  | cons token rest ih =>
    cases token with
    | word chars => exact .inr ⟨0, chars, rfl, rfl, rfl⟩
    | closeParen => exact .inl ⟨rfl, rfl⟩
    | other => exact .inl ⟨rfl, rfl⟩
    | openParen =>
      have hat : leadingWordAt? (.openParen :: rest) =
          (leadingWordAt? rest).map fun found => (found.1 + 1, found.2) := by
        rw [leadingWordAt?, leadingWordAt?, List.findIdx_cons]
        simp only [bne_self_eq_false, Bool.cond_false, List.getElem?_cons_succ]
        split <;> rfl
      have hword : leadingWord? (.openParen :: rest) = leadingWord? rest := rfl
      rw [hat, hword]
      rcases ih with ⟨hn, hw⟩ | ⟨index, word, hs, hi, hw⟩
      · exact .inl ⟨by rw [hn]; rfl, hw⟩
      · exact .inr ⟨index + 1, word, by rw [hs]; rfl, hi, hw⟩

/-- A verb with its index among the tokens, and with the tokens behind it. -/
inductive Found (tokens : List Token) :
    Option (Nat × Keyword) → Option (Keyword × List Token) → Prop
  | none : Found tokens none none
  | some {index : Nat} {word : List Char} {keyword : Keyword}
      (token : tokens[index]? = some (.word word)) (spelled : Keyword.ofWord? word = some keyword) :
      Found tokens (some (index, keyword)) (some (keyword, tokens.drop (index + 1)))

theorem found_verbAt? (front rest : List Token) (depth : Nat) :
    Found (front ++ rest) (verbAt? depth front.length rest) (verbAfterTables? depth rest) := by
  induction rest generalizing front depth with
  | nil => exact .none
  | cons token rest ih =>
    have hnext (depth : Nat) : Found (front ++ token :: rest)
        (verbAt? depth (front.length + 1) rest) (verbAfterTables? depth rest) := by
      have h := ih (front ++ [token]) depth
      rwa [List.append_assoc, List.length_append] at h
    cases token with
    | openParen => exact hnext (depth + 1)
    | closeParen => exact hnext (depth - 1)
    | other => exact hnext depth
    | word word =>
      rw [verbAt?, verbAfterTables?]
      cases hk : (Keyword.ofWord? word).filter fun keyword =>
          depth == 0 && keyword.followsTables with
      | none => exact hnext depth
      | some keyword =>
        have hat : (front ++ .word word :: rest)[front.length]? = some (.word word) := by simp
        have hdrop : (front ++ .word word :: rest).drop (front.length + 1) = rest := by simp
        have hfound := Found.some hat (Option.filter_eq_some_iff.mp hk).1
        rwa [hdrop] at hfound

/-- The main verb is found, and the tokens are cut behind the first word at most. -/
theorem exists_mainVerbAt (tokens : List Token) :
    ∃ found, mainVerbAt tokens = some found ∧ Found tokens found (mainVerb? tokens) := by
  rcases leadingWordAt?_spec tokens with ⟨hn, hw⟩ | ⟨index, word, hs, hi, hw⟩
  · refine ⟨none, ?_, ?_⟩
    · rw [mainVerbAt, hn]
      rfl
    · rw [mainVerb?, hw]
      exact .none
  rw [mainVerbAt, mainVerb?, hs, hw]
  simp only [Option.bind_eq_bind, Option.bind_some]
  cases hk : Keyword.ofWord? word with
  | none => exact ⟨none, rfl, .none⟩
  | some keyword =>
    simp only [Option.bind_some]
    split
    · have hle : index + 1 ≤ tokens.length := (List.getElem?_eq_some_iff.mp hi).1
      have hverb := found_verbAt? (tokens.take (index + 1)) (tokens.drop (index + 1)) 0
      rw [List.take_append_drop, List.length_take, Nat.min_eq_left hle] at hverb
      refine ⟨_, ?_, hverb⟩
      rw [tokensAt?, if_pos hle]
      rfl
    · exact ⟨_, rfl, .some hi hk⟩

theorem isReturning_eq_false {word : List Char} {keyword : Keyword}
    (h : Keyword.ofWord? word = some keyword) : Keyword.isReturning word = false := by
  have hall : ∀ keyword ∈ Keyword.all, keyword.spelling ≠ "RETURNING" := by decide
  refine Bool.eq_false_iff.mpr fun hr => hall keyword (Keyword.mem_all_of_ofWord? h) ?_
  apply String.toList_injective
  rw [Keyword.spelling_of_ofWord? h]
  exact eq_of_beq hr

/-- The verb itself is no RETURNING clause. -/
theorem returningFrom_eq {tokens : List Token} {index : Nat} {word : List Char} {keyword : Keyword}
    (h : tokens[index]? = some (.word word)) (hk : Keyword.ofWord? word = some keyword) :
    returningFrom tokens index = some (hasReturningAt 0 (tokens.drop (index + 1))) := by
  rw [returningFrom, tokensAt?_of_lt h, Option.bind_eq_bind, Option.bind_some, hasReturningAt,
    isReturning_eq_false hk, Bool.and_false, Bool.false_or]
  rfl

theorem returningOf_eq (tokens : List Token) :
    returningOf tokens = some (hasReturningOfTokens tokens) := by
  obtain ⟨found, hat, hfound⟩ := exists_mainVerbAt tokens
  rw [returningOf, hat, hasReturningOfTokens]
  generalize mainVerb? tokens = verb at hfound ⊢
  cases hfound with
  | none => rfl
  | some token spelled => exact returningFrom_eq token spelled

theorem modeOfTokens_eq (tokens : List Token) :
    modeOfTokens tokens = some (Mode.ofTokens tokens) := by
  obtain ⟨found, hat, hfound⟩ := exists_mainVerbAt tokens
  rw [modeOfTokens, hat, Mode.ofTokens]
  generalize mainVerb? tokens = verb at hfound ⊢
  cases hfound with
  | none => rfl
  | @some index word keyword token spelled =>
    simp only [Option.bind_eq_bind, Option.bind_some, returningFrom_eq token spelled]
    cases keyword.rows <;> rfl

theorem statementTokens_eq (sql : List Char) :
    statementTokens sql = some (NamedSql.statementTokens sql) := by
  rw [statementTokens, removeComments_eq, Option.bind_eq_bind, Option.bind_some, tokens_eq]
  rfl

theorem modeOf_eq (sql : List Char) : modeOf sql = some (Mode.ofStatement sql) := by
  rw [modeOf, statementTokens_eq, Option.bind_eq_bind, Option.bind_some, modeOfTokens_eq]
  rfl

theorem familyOf_eq (sql : List Char) : familyOf sql =
    some (((leadingWordOfStatement? sql).map Family.ofWord).getD .other) := by
  rw [familyOf, statementTokens_eq, leadingWordOfStatement?]
  rcases leadingWordAt?_spec (NamedSql.statementTokens sql) with ⟨hn, hw⟩ | ⟨_, _, hs, -, hw⟩
  · rw [hw]
    simp [hn]
  · rw [hw]
    simp [hs]

/-- The analysis is the one of the statement. -/
theorem analyze_eq (sql : String) : analyze sql.toList = some (Analysis.ofStatement sql) := by
  rw [analyze, familyOf_eq, modeOf_eq, parameters_eq, statementTokens_eq]
  simp only [Option.bind_eq_bind, Option.bind_some, returningOf_eq]
  rfl

/-- The statement is the one with that source text. -/
theorem statementOf_eq (policy : CommentPolicy) (ordinal : Nat) (sql : List Char) :
    statementOf policy ordinal sql = some (Statement.ofSource policy ordinal sql) := by
  have h : applyPolicy policy sql = some (policy.apply sql) := by
    cases policy with
    | strip => exact removeComments_eq sql
    | keep => rfl
  rw [statementOf, h, Option.bind_eq_bind, Option.bind_some, modeOf_eq]
  rfl

end NamedSql.Offsets
