import NamedSql.Json
import NamedSql.Proofs.JsonTokens

namespace NamedSql.Json

theorem apart_cons {token : Token} {tokens : List Token} (h : token.isBare = false) :
    Token.Apart (token :: tokens) ↔ Token.Apart tokens := by
  rw [Token.Apart, List.isChain_cons]
  simp [h, Token.Apart]

theorem apart_append_cons {token : Token} {front back : List Token} (h : token.isBare = false) :
    Token.Apart (front ++ token :: back) ↔ Token.Apart front ∧ Token.Apart back := by
  rw [Token.Apart, List.isChain_append, ← Token.Apart, ← Token.Apart, apart_cons h]
  simp [h]

mutual

theorem apart_tokens (value : Json) : Token.Apart value.tokens := by
  cases value with
  | null | bool | number | string => exact List.isChain_singleton _
  | array items =>
    rw [tokens, apart_cons rfl, apart_append_cons rfl]
    exact ⟨apart_tokensOfItems items, List.isChain_nil⟩
  | object fields =>
    rw [tokens, apart_cons rfl, apart_append_cons rfl]
    exact ⟨apart_tokensOfFields fields, List.isChain_nil⟩

theorem apart_tokensOfItems (items : List Json) : Token.Apart (tokensOfItems items) := by
  match items with
  | [] => exact List.isChain_nil
  | [item] => exact apart_tokens item
  | item :: next :: rest =>
    rw [tokensOfItems, apart_append_cons rfl]
    exact ⟨apart_tokens item, apart_tokensOfItems (next :: rest)⟩

theorem apart_tokensOfFields (fields : List (String × Json)) :
    Token.Apart (tokensOfFields fields) := by
  match fields with
  | [] => exact List.isChain_nil
  | [(key, item)] =>
    rw [tokensOfFields, apart_cons rfl, apart_cons rfl]
    exact apart_tokens item
  | (key, item) :: next :: rest =>
    rw [tokensOfFields, apart_cons rfl, apart_cons rfl, apart_append_cons rfl]
    exact ⟨apart_tokens item, apart_tokensOfFields (next :: rest)⟩

end

/-- No value begins with what closes a list or an object. -/
theorem exists_tokens_eq_cons (value : Json) :
    ∃ token rest, value.tokens = token :: rest ∧ token.isClosing = false := by
  cases value <;> exact ⟨_, _, by rw [tokens], rfl⟩

theorem exists_tokensOfItems_eq_cons (item : Json) (items : List Json) :
    ∃ token rest, tokensOfItems (item :: items) = token :: rest ∧ token.isClosing = false := by
  obtain ⟨token, rest, ht, hc⟩ := exists_tokens_eq_cons item
  cases items with
  | nil => exact ⟨token, rest, by rw [tokensOfItems, ht], hc⟩
  | cons next items =>
    exact ⟨token, _, by rw [tokensOfItems, ht, List.cons_append], hc⟩

theorem exists_tokensOfFields_eq_cons (field : String × Json) (fields : List (String × Json)) :
    ∃ key rest, tokensOfFields (field :: fields) = .string key :: rest := by
  cases fields <;> exact ⟨_, _, by rw [tokensOfFields]⟩

theorem readValue_openBracket {fuel : Nat} {token : Token} {rest : List Token}
    (h : token.isClosing = false) :
    readValue (fuel + 1) (.openBracket :: token :: rest) =
      (readItems fuel (token :: rest)).map fun (items, rest) => (.array items, rest) := by
  cases token <;> first | rfl | cases h

theorem readValue_openBrace {fuel : Nat} {key : List Char} {rest : List Token} :
    readValue (fuel + 1) (.openBrace :: .string key :: rest) =
      (readFields fuel (.string key :: rest)).map fun (fields, rest) => (.object fields, rest) :=
  rfl

mutual

/-- Reading takes back the tokens of a value, and as many units of fuel as there are tokens, and one
more, are enough. -/
theorem readValue_tokens (fuel : Nat) (value : Json) (rest : List Token)
    (h : value.tokens.length < fuel) : readValue fuel (value.tokens ++ rest) = some (value, rest) := by
  obtain ⟨fuel, rfl⟩ : ∃ n, fuel = n + 1 := ⟨fuel - 1, by omega⟩
  cases value with
  | null => rfl
  | bool => rfl
  | number => rfl
  | string value =>
    rw [tokens]
    simp [readValue]
  | array items =>
    cases items with
    | nil => rfl
    | cons item items =>
      -- The two brackets pay for this call and for the call on what stands between them.
      rw [tokens, List.length_cons, List.length_append, List.length_singleton] at h
      have hitems := readItems_tokens fuel item items rest (by omega)
      obtain ⟨token, more, htokens, hclosing⟩ := exists_tokensOfItems_eq_cons item items
      rw [htokens, List.cons_append] at hitems
      simp only [tokens, htokens, List.cons_append, List.append_assoc, List.nil_append,
        readValue_openBracket hclosing, hitems, Option.map_some]
  | object fields =>
    cases fields with
    | nil => rfl
    | cons field fields =>
      rw [tokens, List.length_cons, List.length_append, List.length_singleton] at h
      have hfields := readFields_tokens fuel field fields rest (by omega)
      obtain ⟨key, more, htokens⟩ := exists_tokensOfFields_eq_cons field fields
      rw [htokens, List.cons_append] at hfields
      simp only [tokens, htokens, List.cons_append, List.append_assoc, List.nil_append,
        readValue_openBrace, hfields, Option.map_some]

theorem readItems_tokens (fuel : Nat) (item : Json) (items : List Json) (rest : List Token)
    (h : (tokensOfItems (item :: items)).length + 1 < fuel) :
    readItems fuel (tokensOfItems (item :: items) ++ .closeBracket :: rest) =
      some (item :: items, rest) := by
  obtain ⟨fuel, rfl⟩ : ∃ n, fuel = n + 1 := ⟨fuel - 1, by omega⟩
  cases items with
  | nil =>
    rw [tokensOfItems] at h ⊢
    rw [readItems, readValue_tokens fuel item _ (by omega)]
  | cons next items =>
    rw [tokensOfItems, List.length_append, List.length_cons] at h
    have hnext := readItems_tokens fuel next items rest (by omega)
    rw [tokensOfItems, List.append_assoc, List.cons_append, readItems,
      readValue_tokens fuel item _ (by omega)]
    simp only [hnext]
    rfl

theorem readFields_tokens (fuel : Nat) (field : String × Json) (fields : List (String × Json))
    (rest : List Token) (h : (tokensOfFields (field :: fields)).length + 1 < fuel) :
    readFields fuel (tokensOfFields (field :: fields) ++ .closeBrace :: rest) =
      some (field :: fields, rest) := by
  obtain ⟨fuel, rfl⟩ : ∃ n, fuel = n + 1 := ⟨fuel - 1, by omega⟩
  obtain ⟨key, item⟩ := field
  cases fields with
  | nil =>
    simp only [tokensOfFields, List.length_cons] at h
    simp only [tokensOfFields, List.cons_append, readFields, String.ofList_toList,
      readValue_tokens fuel item _ (by omega)]
  | cons next fields =>
    simp only [tokensOfFields, List.length_cons, List.length_append] at h
    have hnext := readFields_tokens fuel next fields rest (by omega)
    simp only [tokensOfFields, List.cons_append, List.append_assoc, readFields,
      String.ofList_toList, readValue_tokens fuel item _ (by omega), hnext]
    rfl

end

theorem ofTokens?_tokens (value : Json) : ofTokens? value.tokens = some value := by
  have hread := readValue_tokens _ value [] (Nat.lt_succ_self _)
  rw [List.append_nil] at hread
  rw [ofTokens?, hread]

/-- Every number in a value is written as one. -/
def HasNumerals (value : Json) : Prop :=
  ∀ literal, .number literal ∈ value.tokens → Token.IsNumeral literal

theorem hasNumerals_string (value : String) : HasNumerals (.string value) := by
  intro literal h
  simp [tokens] at h

theorem hasNumerals_bool (value : Bool) : HasNumerals (.bool value) := by
  intro literal h
  simp [tokens] at h

theorem head?_toDigits_ne {n : Nat} (h : 0 < n) : (Nat.toDigits 10 n).head? ≠ some '0' := by
  induction n using Nat.strongRecOn with
  | ind n ih =>
    rw [Nat.toDigits_eq_if (by decide)]
    split
    · rename_i hn
      have hall : ∀ k : Fin 10, 0 < k.val → k.val.digitChar ≠ '0' := by decide
      simpa using hall ⟨n, hn⟩ h
    · rw [List.head?_append_of_ne_nil _ Nat.toDigits_ne_nil]
      exact ih (n / 10) (by omega) (by omega)

/-- Digits are a number unless there are more of them behind a zero. -/
theorem isNumeral_of_digits {c : Char} {cs : List Char} (hd : ∀ d ∈ c :: cs, d.isDigit = true)
    (hz : c = '0' → cs = []) : Token.IsNumeral (c :: cs) := by
  obtain ⟨hc, hcs⟩ := List.forall_mem_cons.mp hd
  have hdrop : (cs ++ []).dropWhile Char.isDigit = [] := List.dropWhile_append_of_pos hcs
  rw [List.append_nil] at hdrop
  have hwhole : Token.afterWhole? (c :: cs) = some [] := by
    unfold Token.afterWhole?
    split
    · rename_i heq
      obtain ⟨hzero, rfl⟩ := List.cons.inj heq
      rw [hz hzero]
    · rename_i heq
      obtain ⟨rfl, rfl⟩ := List.cons.inj heq
      rw [if_pos hc, hdrop]
    · rename_i heq
      cases heq
  refine ⟨?_, fun d h => by simp [Token.isNumberChar, hd d h]⟩
  unfold Token.isNumber
  split
  · rename_i heq
    rw [(List.cons.inj heq).1] at hc
    exact absurd hc (by decide)
  · dsimp only
    rw [hwhole]
    rfl

theorem hasNumerals_ofNat (n : Nat) : HasNumerals (ofNat n) := by
  intro literal h
  obtain rfl : literal = Nat.toDigits 10 n := by simpa [ofNat, tokens] using h
  have hd : ∀ d ∈ Nat.toDigits 10 n, d.isDigit = true := fun d hd =>
    Nat.isDigit_of_mem_toDigits (by decide) (by decide) hd
  -- A zero in front would be the whole number, so it has to stand alone.
  rcases Nat.eq_zero_or_pos n with rfl | hn
  · exact isNumeral_of_digits hd fun _ => rfl
  · have hz := head?_toDigits_ne hn
    cases hl : Nat.toDigits 10 n with
    | nil => exact absurd hl Nat.toDigits_ne_nil
    | cons c cs =>
      rw [hl] at hz hd
      exact isNumeral_of_digits hd fun hc => absurd (congrArg some hc) hz

theorem mem_tokensOfItems {literal : List Char} {items : List Json}
    (h : .number literal ∈ tokensOfItems items) : ∃ item ∈ items, .number literal ∈ item.tokens := by
  match items with
  | [] => cases h
  | [item] => exact ⟨item, List.mem_cons_self, h⟩
  | item :: next :: rest =>
    rw [tokensOfItems, List.mem_append, List.mem_cons] at h
    rcases h with h | h | h
    · exact ⟨item, List.mem_cons_self, h⟩
    · cases h
    · obtain ⟨other, ho, h⟩ := mem_tokensOfItems h
      exact ⟨other, List.mem_cons_of_mem _ ho, h⟩

theorem mem_tokensOfFields {literal : List Char} {fields : List (String × Json)}
    (h : .number literal ∈ tokensOfFields fields) :
    ∃ field ∈ fields, .number literal ∈ field.2.tokens := by
  match fields with
  | [] => cases h
  | [(key, item)] =>
    simp only [tokensOfFields, List.mem_cons, reduceCtorEq, false_or] at h
    exact ⟨_, List.mem_cons_self, h⟩
  | (key, item) :: next :: rest =>
    simp only [tokensOfFields, List.mem_cons, List.mem_append, reduceCtorEq, false_or] at h
    rcases h with h | h
    · exact ⟨_, List.mem_cons_self, h⟩
    · obtain ⟨other, ho, h⟩ := mem_tokensOfFields h
      exact ⟨other, List.mem_cons_of_mem _ ho, h⟩

theorem hasNumerals_array {items : List Json} (h : ∀ item ∈ items, HasNumerals item) :
    HasNumerals (.array items) := by
  intro literal hl
  simp only [tokens, List.mem_cons, List.mem_append, reduceCtorEq, false_or, or_false,
    List.not_mem_nil] at hl
  obtain ⟨item, hi, hl⟩ := mem_tokensOfItems hl
  exact h item hi literal hl

theorem hasNumerals_object {fields : List (String × Json)}
    (h : ∀ field ∈ fields, HasNumerals field.2) : HasNumerals (.object fields) := by
  intro literal hl
  simp only [tokens, List.mem_cons, List.mem_append, reduceCtorEq, false_or, or_false,
    List.not_mem_nil] at hl
  obtain ⟨field, hf, hl⟩ := mem_tokensOfFields hl
  exact h field hf literal hl

/-- What was written is read back. -/
theorem parse?_pretty {value : Json} (h : HasNumerals value) : parse? value.pretty = some value := by
  rw [parse?, pretty, String.toList_ofList, Token.ofText?_layout h (apart_tokens value)]
  exact ofTokens?_tokens value

end NamedSql.Json
