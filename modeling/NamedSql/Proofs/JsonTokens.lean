import Mathlib.Data.List.Chain
import NamedSql.Identifier
import NamedSql.Json.Token

namespace NamedSql.Json.Token

/-- A token of letters or digits, which only ends where they end. -/
def isBare : Token → Bool
  | .null | .bool _ | .number _ => true
  | _ => false

/-- Between two bare tokens stands another token. -/
def Apart (tokens : List Token) : Prop :=
  tokens.IsChain fun token next => ¬(token.isBare ∧ next.isBare)

/-- The literal of a number is one. -/
structure IsNumeral (literal : List Char) : Prop where
  form : isNumber literal = true
  chars : ∀ c ∈ literal, isNumberChar c = true

/-- Letters and digits end where the text goes on. -/
def EndsWord (text : List Char) : Prop :=
  ∀ c ∈ text.head?, c.isAlpha = false ∧ isNumberChar c = false

variable {token : Token} {tokens : List Token} {text : List Char}

theorem ofText?_cons {c : Char} {cs rest : List Char} (hs : isSpace c = false)
    (hn : next? c cs = some (token, rest)) :
    ofText? (c :: cs) = (ofText? rest).map (token :: ·) := by
  rw [ofText?, if_neg (by simp [hs])]
  split
  · rename_i h
    rw [hn] at h
    cases h
  · rename_i h
    rw [hn] at h
    cases h
    rfl

theorem takeWhile_of_endsWord {p : Char → Bool} {front : List Char} (hf : ∀ c ∈ front, p c = true)
    (ht : ∀ c ∈ text.head?, p c = false) :
    (front ++ text).takeWhile p = front ∧ (front ++ text).dropWhile p = text := by
  rw [List.takeWhile_append_of_pos hf, List.dropWhile_append_of_pos hf]
  cases text with
  | nil => exact ⟨List.append_nil front, rfl⟩
  | cons c cs =>
    have hc : ¬p c = true := by simp [ht c rfl]
    rw [List.takeWhile_cons_of_neg hc, List.dropWhile_cons_of_neg hc]
    exact ⟨List.append_nil front, rfl⟩

/-- Letters and the characters of numbers begin neither a blank nor a string. -/
theorem plain_of_word {c : Char} (h : c.isAlpha = true ∨ isNumberChar c = true) :
    isSpace c = false ∧ c ≠ '"' := by
  constructor
  · by_contra hs
    simp only [isSpace, Bool.not_eq_false, Bool.or_eq_true, beq_iff_eq] at hs
    rcases hs with ((rfl | rfl) | rfl) | rfl <;> exact absurd h (by decide)
  · rintro rfl
    exact absurd h (by decide)

/-- A number does not begin with a letter. -/
theorem not_isAlpha_of_isNumber {c : Char} {cs : List Char} (h : isNumber (c :: cs) = true) :
    c.isAlpha = false := by
  unfold isNumber at h
  split at h
  · rename_i heq
    rw [(List.cons.inj heq).1]
    decide
  · by_contra ha
    have hd : ¬c.isDigit = true := by
      simp [isDigit_eq_false_of_isAlpha (Bool.not_eq_false _ ▸ ha)]
    have hnone : afterWhole? (c :: cs) = none := by
      unfold afterWhole?
      split
      · rename_i heq
        rw [(List.cons.inj heq).1] at hd
        exact absurd hd (by decide)
      · rename_i heq
        rw [(List.cons.inj heq).1] at hd
        exact if_neg hd
      · rfl
    dsimp only at h
    rw [hnone] at h
    cases h

theorem ofText?_word {word : List Char} (hne : word ≠ []) (ha : word.all Char.isAlpha = true)
    (hw : ofWord? word = some token) (ht : EndsWord text) :
    ofText? (word ++ text) = (ofText? text).map (token :: ·) := by
  cases word with
  | nil => exact absurd rfl hne
  | cons c cs =>
    obtain ⟨hc, hcs⟩ := List.forall_mem_cons.mp (List.all_eq_true.mp ha)
    obtain ⟨hs, hq⟩ := plain_of_word (.inl hc)
    obtain ⟨htake, hdrop⟩ := takeWhile_of_endsWord hcs fun d hd => (ht d hd).1
    rw [List.cons_append]
    refine ofText?_cons hs ?_
    rw [next?, if_neg hq, if_pos hc, htake, hdrop, hw]
    rfl

theorem ofText?_number {literal : List Char} (hl : IsNumeral literal) (ht : EndsWord text) :
    ofText? (literal ++ text) = (ofText? text).map (.number literal :: ·) := by
  cases literal with
  | nil => exact absurd hl.form (by decide)
  | cons c cs =>
    obtain ⟨hc, hcs⟩ := List.forall_mem_cons.mp hl.chars
    obtain ⟨hs, hq⟩ := plain_of_word (.inr hc)
    have ha : ¬c.isAlpha = true := by simp [not_isAlpha_of_isNumber hl.form]
    obtain ⟨htake, hdrop⟩ := takeWhile_of_endsWord hcs fun d hd => (ht d hd).2
    rw [List.cons_append]
    refine ofText?_cons hs ?_
    simp only [next?, if_neg hq, if_neg ha, if_pos hc, htake, hdrop]
    exact if_pos hl.form

theorem ofText?_string (value : List Char) :
    ofText? ((Token.string value).text ++ text) = (ofText? text).map (.string value :: ·) := by
  change ofText? ('"' :: (value.flatMap escape ++ ['"'] ++ text)) = _
  rw [List.append_assoc]
  refine ofText?_cons (by decide) ?_
  change next? '"' (value.flatMap escape ++ '"' :: text) = _
  rw [next?, if_pos rfl, readString?_flatMap_escape]
  rfl

/-- A token that is read first is the one that was written, when nothing runs into it. -/
theorem ofText?_text_append (hn : ∀ literal, token = .number literal → IsNumeral literal)
    (ht : token.isBare = true → EndsWord text) :
    ofText? (token.text ++ text) = (ofText? text).map (token :: ·) := by
  cases token with
  | null => exact ofText?_word (by decide) rfl rfl (ht rfl)
  | bool value =>
    cases value with
    | true => exact ofText?_word (by decide) rfl rfl (ht rfl)
    | false => exact ofText?_word (by decide) rfl rfl (ht rfl)
  | number literal => exact ofText?_number (hn literal rfl) (ht rfl)
  | string value => exact ofText?_string value
  | _ => exact ofText?_cons (by decide) rfl

theorem ofText?_mark (h : token.isBare = false) :
    ofText? (token.text ++ text) = (ofText? text).map (token :: ·) :=
  ofText?_text_append (by rintro literal rfl; cases h) fun hb => by rw [h] at hb; cases hb

theorem isBare_of_isOpening (h : token.isOpening = true) : token.isBare = false := by
  cases token <;> first | rfl | cases h

theorem isBare_of_isClosing (h : token.isClosing = true) : token.isBare = false := by
  cases token <;> first | rfl | cases h

theorem ofText?_space : ofText? (' ' :: text) = ofText? text := by
  rw [ofText?, if_pos (by decide)]

theorem ofText?_newLine (depth : Nat) : ofText? (newLine depth ++ text) = ofText? text := by
  rw [newLine, List.cons_append, ofText?, if_pos (by decide)]
  generalize 2 * depth = n
  induction n with
  | zero => rfl
  | succ n ih => rw [List.replicate_succ, List.cons_append, ofText?_space, ih]

theorem endsWord_cons {c : Char} (h : c.isAlpha = false ∧ isNumberChar c = false) :
    EndsWord (c :: text) := by
  rintro d ⟨⟩
  exact h

theorem endsWord_text_append (h : token.isBare = false) : EndsWord (token.text ++ text) := by
  cases token with
  | null | bool | number => cases h
  | _ => exact endsWord_cons (by decide)

/-- A word ends in front of a token that is not bare. -/
theorem endsWord_layout {depth : Nat} (h : ∀ next ∈ tokens.head?, next.isBare = false) :
    EndsWord (layout depth tokens) := by
  fun_cases layout depth tokens with
  | case1 => rintro c ⟨⟩
  | case4 token =>
    rw [← List.append_nil token.text]
    exact endsWord_text_append (h token rfl)
  | case5 => exact endsWord_cons (by decide)
  | case7 | case8 => exact endsWord_text_append (h _ rfl)
  | _ =>
    rw [List.append_assoc]
    exact endsWord_text_append (h _ rfl)

/-- What was laid out is read back, token by token. -/
theorem ofText?_layout {depth : Nat} (hn : ∀ literal, .number literal ∈ tokens → IsNumeral literal)
    (ha : Apart tokens) : ofText? (layout depth tokens) = some tokens := by
  fun_induction layout depth tokens with
  | case1 => rw [ofText?]
  | case2 depth token ho next after hc ih =>
    rw [List.append_assoc, ofText?_mark (isBare_of_isOpening ho),
      ofText?_mark (isBare_of_isClosing hc), ih (fun l hl => hn l (by simp [hl])) ha.tail.tail]
    rfl
  | case3 depth token ho next after hc ih =>
    rw [List.append_assoc, ofText?_mark (isBare_of_isOpening ho), ofText?_newLine,
      ih (fun l hl => hn l (List.mem_cons_of_mem _ hl)) ha.tail]
    rfl
  | case4 depth token ho =>
    rw [← List.append_nil token.text, ofText?_mark (isBare_of_isOpening ho), ofText?]
    rfl
  | case5 depth token rest ho hc ih =>
    rw [List.append_assoc, ofText?_newLine, ofText?_mark (isBare_of_isClosing hc),
      ih (fun l hl => hn l (List.mem_cons_of_mem _ hl)) ha.tail]
    rfl
  | case6 depth rest ho hc ih =>
    rw [List.append_assoc, ofText?_mark rfl, ofText?_newLine,
      ih (fun l hl => hn l (List.mem_cons_of_mem _ hl)) ha.tail]
    rfl
  | case7 depth rest ho hc hm ih =>
    rw [ofText?_mark rfl, ofText?_space,
      ih (fun l hl => hn l (List.mem_cons_of_mem _ hl)) ha.tail]
    rfl
  | case8 depth token rest ho hc hm hl ih =>
    have hnumber : ∀ literal, token = .number literal → IsNumeral literal := by
      rintro literal rfl
      exact hn literal List.mem_cons_self
    have hends (hb : token.isBare = true) : EndsWord (layout depth rest) :=
      endsWord_layout fun next hnext => by simpa [hb] using ha.rel_head? hnext
    rw [ofText?_text_append hnumber hends,
      ih (fun l hl => hn l (List.mem_cons_of_mem _ hl)) ha.tail]
    rfl

end NamedSql.Json.Token
