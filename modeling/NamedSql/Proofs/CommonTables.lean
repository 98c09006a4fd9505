import NamedSql.Proofs.MainVerb

namespace NamedSql

open Lexeme

/-- The mode and the RETURNING clause are read off the main verb and the tokens behind it. -/
theorem ofTokens_congr {old new : List Token} (h : mainVerb? new = mainVerb? old) :
    Mode.ofTokens new = Mode.ofTokens old ∧
      hasReturningOfTokens new = hasReturningOfTokens old := by
  unfold Mode.ofTokens hasReturningOfTokens
  rw [h]
  exact ⟨rfl, rfl⟩

variable {tables main : List Char} {sep : Char}

section Name
variable {name : List Char}

/-- An identifier with a space behind it is a token. -/
theorem ofText_identifier_append (h : isIdentifier name) (cs : List Char) :
    Token.ofText (name ++ ' ' :: cs) = .word name :: Token.ofText cs := by
  have hne : name ≠ [] := by
    rintro rfl
    exact absurd h (by decide)
  have hword : ∀ c ∈ name, Token.inWord c := by
    intro c hc
    simp [Token.inWord, isNameChar, all_rest_of_isIdentifier h c hc]
  rw [(whole_identifier h).ofText_append isInert_space (by decide),
    ofText_word hne (isPlain_of_mem_identifier h) hword]
  rfl

end Name

theorem isIdentifier_with : isIdentifier "WITH".toList := by
  decide

theorem flush_with (cs : List Char) : Flush ("WITH".toList ++ cs) :=
  ⟨'W', _, rfl, by decide, by decide⟩

theorem statementTokens_with (hi : isInert sep) (hs : Token.isSpace sep)
    (hc : Closed (scan none tables)) (hl : EndsInLineComment (scan none tables) → sep = '\n')
    (hm : Flush main) :
    statementTokens ("WITH".toList ++ ' ' :: tables ++ sep :: main) =
      .word "WITH".toList :: (Token.ofText tables ++ statementTokens main) := by
  have hwith := whole_identifier isIdentifier_with
  have hclosed : Closed (scan none ("WITH".toList ++ ' ' :: tables)) :=
    (hwith.closed_append_iff isInert_space).mpr hc
  have hended : EndsInLineComment (scan none ("WITH".toList ++ ' ' :: tables)) → sep = '\n' :=
    fun he => hl ((hwith.endsInLineComment_append_iff isInert_space).mp he)
  rw [statementTokens_append (flush_with _) hm hi (Token.inWord_of_isSpace hs) hclosed hended,
    ofText_identifier_append isIdentifier_with, Token.ofChar?_of_isSpace hs]
  rfl

/-- When the search passes over the tables, the main verb is that of the statement behind them. -/
theorem mainVerb?_of_passes {ts : List Token} (hm : BeginsWithVerb main)
    (hp : verbAfterTables? 0 (ts ++ statementTokens main) =
      verbAfterTables? 0 (statementTokens main)) :
    mainVerb? (.word "WITH".toList :: (ts ++ statementTokens main)) =
      mainVerb? (statementTokens main) := by
  obtain ⟨word, rest, hv, ht⟩ := hm.exists_statementTokens
  rw [mainVerb?_with, hp, ht]
  exact hv.verbAfterTables? rest

/-- WITH and tables that show no verb outside parentheses change neither the mode of the statement
behind them nor whether it has a RETURNING clause. -/
theorem commonTables_transparent {tables main : String}
    (closed : ∀ r, .region r ∈ Segment.ofText tables.toList → r.terminated)
    (balanced : Token.Balanced (Token.ofText tables.toList))
    (outer : ∀ word, Token.Outer (Token.ofText tables.toList) word → ¬ IsVerb word)
    (begins : BeginsWithVerb main.toList) :
    modeOf ("WITH " ++ tables ++ "\n" ++ main) = modeOf main ∧
      hasReturning ("WITH " ++ tables ++ "\n" ++ main) = hasReturning main := by
  have ht : ("WITH " ++ tables ++ "\n" ++ main).toList =
      "WITH".toList ++ ' ' :: tables.toList ++ '\n' :: main.toList := by simp
  have hm := mainVerb?_of_passes begins (verbAfterTables?_append balanced (fun _ => outer) _)
  rw [← statementTokens_with isInert_newline (by decide) (closed_scan_of closed) (fun _ => rfl)
    begins.flush, ← ht] at hm
  exact ofTokens_congr hm

theorem commonTables_transparent_nested :
    modeOf ("WITH " ++ "a AS (DELETE FROM t WHERE x <> ')' RETURNING x), b AS ((SELECT 1)) -- (" ++
        "\n" ++ "Insert INTO u SELECT x FROM a") =
      modeOf "Insert INTO u SELECT x FROM a" ∧
    hasReturning ("WITH " ++
        "a AS (DELETE FROM t WHERE x <> ')' RETURNING x), b AS ((SELECT 1)) -- (" ++
        "\n" ++ "Insert INTO u SELECT x FROM a") =
      hasReturning "Insert INTO u SELECT x FROM a" := by
  have hsegments : Segment.ofText
      "a AS (DELETE FROM t WHERE x <> ')' RETURNING x), b AS ((SELECT 1)) -- (".toList =
      [.code "a AS (DELETE FROM t WHERE x <> ".toList,
        .region ⟨.singleQuoted, "')'".toList, true⟩,
        .code " RETURNING x), b AS ((SELECT 1)) ".toList,
        .region ⟨.lineComment, "-- (".toList, true⟩] := by decide +kernel
  apply commonTables_transparent
  · rw [hsegments]
    simp
  · decide +kernel
  · decide +kernel
  · decide +kernel

section Table
variable {name body : List Char}

/-- The definition of a table. -/
def tableOf (name body : List Char) : List Char :=
  name ++ ' ' :: ("AS".toList ++ ' ' :: '(' :: (body ++ [')']))

theorem isIdentifier_as : isIdentifier "AS".toList := by
  decide

theorem whole_tableOf (hn : isIdentifier name) (hb : Whole body) : Whole (tableOf name body) :=
  (whole_identifier hn).append
    ((whole_identifier isIdentifier_as).append hb.closeParen.openParen isInert_space) isInert_space

theorem ofText_tableOf (hn : isIdentifier name) (hb : Whole body) :
    Token.ofText (tableOf name body) =
      .word name :: .word "AS".toList :: .openParen :: (Token.ofText body ++ [.closeParen]) := by
  rw [tableOf, ofText_identifier_append hn, ofText_identifier_append isIdentifier_as,
    ofText_openParen, hb.ofText_closeParen]

end Table

/-- The name of a table and what stands in its parentheses do not decide the mode of the statement,
unless the name is a verb. -/
theorem modeOf_with_table {name body main : String} (named : isIdentifier name.toList)
    (closed : ∀ r, .region r ∈ Segment.ofText body.toList → r.terminated)
    (ended : ∀ r, (Segment.ofText body.toList).getLast? = some (.region r) →
      r.kind ≠ .lineComment)
    (balanced : Token.Balanced (Token.ofText body.toList)) (begins : BeginsWithVerb main.toList)
    (other : ¬ IsVerb name.toList) :
    modeOf ("WITH " ++ name ++ " AS (" ++ body ++ ") " ++ main) = modeOf main := by
  have ht : ("WITH " ++ name ++ " AS (" ++ body ++ ") " ++ main).toList =
      "WITH".toList ++ ' ' :: tableOf name.toList body.toList ++ ' ' :: main.toList := by
    simp [tableOf]
  have hbody : Whole body.toList := ⟨closed_scan_of closed, not_endsInLineComment_scan ended⟩
  have htable := whole_tableOf named hbody
  have hp : verbAfterTables? 0 (Token.ofText (tableOf name.toList body.toList) ++
        statementTokens main.toList) = verbAfterTables? 0 (statementTokens main.toList) := by
    rw [ofText_tableOf named hbody]
    simp only [List.cons_append, List.append_assoc, List.nil_append]
    rw [verbAfterTables?_word fun _ => other, verbAfterTables?_word fun _ => by decide,
      verbAfterTables?, verbAfterTables?_append balanced fun hd => absurd hd (by decide)]
    rfl
  have hm := mainVerb?_of_passes begins hp
  rw [← statementTokens_with isInert_space (by decide) htable.closed
    (fun he => absurd he htable.ended) begins.flush, ← ht] at hm
  exact (ofTokens_congr hm).1

theorem modeOf_with_table_show :
    modeOf ("WITH " ++ "show" ++ " AS (" ++ "SELECT ')' /* ( */ UNION (SELECT 2)" ++ ") " ++
      "delete FROM t") = modeOf "delete FROM t" := by
  have hsegments : Segment.ofText "SELECT ')' /* ( */ UNION (SELECT 2)".toList =
      [.code "SELECT ".toList, .region ⟨.singleQuoted, "')'".toList, true⟩, .code [' '],
        .region ⟨.blockComment, "/* ( */".toList, true⟩,
        .code " UNION (SELECT 2)".toList] := by decide +kernel
  apply modeOf_with_table
  · decide
  · rw [hsegments]
    simp
  · rw [hsegments]
    simp
  · decide +kernel
  · decide +kernel
  · decide

/-- A table called update is taken for the verb, although the verb behind it is another one. -/
theorem not_all_names_passed_over :
    ¬ ∀ name body main : String, isIdentifier name.toList →
      (∀ r, .region r ∈ Segment.ofText body.toList → r.terminated) →
      (∀ r, (Segment.ofText body.toList).getLast? = some (.region r) → r.kind ≠ .lineComment) →
      Token.Balanced (Token.ofText body.toList) → BeginsWithVerb main.toList →
        modeOf ("WITH " ++ name ++ " AS (" ++ body ++ ") " ++ main) = modeOf main := by
  intro h
  have hsegments : Segment.ofText "SELECT 1".toList = [.code "SELECT 1".toList] := by
    decide +kernel
  have hmode : modeOf ("WITH " ++ "update" ++ " AS (" ++ "SELECT 1" ++ ") " ++
      "SELECT * FROM update") = modeOf "SELECT * FROM update" := by
    apply h
    · decide
    · rw [hsegments]
      simp
    · rw [hsegments]
      simp
    · decide +kernel
    · decide +kernel
  exact absurd hmode (by decide +kernel)

theorem hasReturningAt_eq_false {ts : List Token} (h : ∀ word, .word word ∉ ts) (depth : Int) :
    hasReturningAt depth ts = false := by
  induction ts generalizing depth with
  | nil => rfl
  | cons t ts ih =>
    have hts := ih fun word hw => h word (List.mem_cons_of_mem t hw)
    cases t with
    | openParen => exact hts _
    | closeParen => exact hts _
    | other => exact hts _
    | word word => exact absurd List.mem_cons_self (h word)

theorem hasReturningAt_append {ts more : List Token} (h : ∀ word, .word word ∉ more)
    (depth : Int) : hasReturningAt depth (ts ++ more) = hasReturningAt depth ts := by
  induction ts generalizing depth with
  | nil => exact hasReturningAt_eq_false h depth
  | cons t ts ih =>
    cases t with
    | openParen => exact ih _
    | closeParen => exact ih _
    | other => exact ih _
    | word word => rw [List.cons_append, hasReturningAt, ih, hasReturningAt]

/-- Tokens that are no words, put behind a statement, do not change its mode. -/
theorem IsVerb.ofTokens_append {word : List Char} {ts more : List Token} (h : IsVerb word)
    (hmore : ∀ other, .word other ∉ more) :
    Mode.ofTokens (.word word :: (ts ++ more)) = Mode.ofTokens (.word word :: ts) := by
  obtain ⟨keyword, hk, hm⟩ := h.mainVerb? (ts ++ more)
  obtain ⟨keyword', hk', hm'⟩ := h.mainVerb? ts
  obtain rfl : keyword = keyword' := Option.some.inj (hk.symm.trans hk')
  unfold Mode.ofTokens
  rw [hm, hm']
  simp only [hasReturningAt_append hmore]

theorem Mode.ofTokens_openParen (ts : List Token) :
    Mode.ofTokens (.openParen :: ts) = Mode.ofTokens ts := by
  unfold Mode.ofTokens
  rw [mainVerb?_openParen]

theorem plain_scan_of {text : List Char}
    (h : ∀ r, .region r ∈ Segment.ofText text → r.kind.isComment = false) :
    Plain (scan none text) := by
  intro r hr
  apply h r
  rw [← Segment.mem_regions_iff, ← Segment.regions_flatMap_lexemes]
  exact hr

theorem modeOf_openParen {main : String} (hw : Whole main.toList)
    (hp : Plain (scan none main.toList)) (begins : BeginsWithVerb main.toList)
    (ascii : ∀ c ∈ main.toList.reverse.takeWhile isBlank, c.toNat < 128) :
    modeOf ("(" ++ main ++ ")") = modeOf main := by
  have ht : ("(" ++ main ++ ")").toList = '(' :: main.toList ++ [')'] := by simp
  have hf : Flush ('(' :: main.toList) := ⟨'(', _, rfl, by decide, by decide⟩
  obtain ⟨others, ho, hothers⟩ := begins.flush.exists_ofText_eq hp hw.closed ascii
  obtain ⟨word, ts, hv, hts⟩ := begins.exists_statementTokens
  have hmore : ∀ other, .word other ∉ others ++ [.closeParen] := by
    intro other hm
    rcases List.mem_append.mp hm with hm | hm
    · exact absurd (hothers _ hm) (by simp)
    · simp at hm
  unfold modeOf Mode.ofStatement
  rw [ht, hf.statementTokens_closeParen hw.openParen, ofText_openParen, ho, hts,
    List.cons_append, Mode.ofTokens_openParen, List.append_assoc, List.cons_append,
    hv.ofTokens_append hmore]

/-- The search for the verb ends without one when the statement behind the tables stands in
parentheses. -/
theorem modeOf_with_openParen {tables main : String} (ht : Whole tables.toList)
    (hm : Whole main.toList) (balanced : Token.Balanced (Token.ofText tables.toList))
    (outer : ∀ word, Token.Outer (Token.ofText tables.toList) word → ¬ IsVerb word)
    (balanced' : Token.Balanced (Token.ofText main.toList)) :
    modeOf ("WITH " ++ tables ++ " (" ++ main ++ ")") = .execute := by
  have htext : ("WITH " ++ tables ++ " (" ++ main ++ ")").toList =
      "WITH".toList ++ ' ' :: (tables.toList ++ ' ' :: '(' :: main.toList) ++ [')'] := by simp
  have hwhole := (whole_identifier isIdentifier_with).append
    (ht.append hm.openParen isInert_space) isInert_space
  have hnone : mainVerb? (.word "WITH".toList :: (Token.ofText tables.toList ++
      (.openParen :: (Token.ofText main.toList ++ [.closeParen])))) = none := by
    rw [mainVerb?_with, verbAfterTables?_append balanced fun _ => outer, verbAfterTables?,
      verbAfterTables?_append balanced' fun hd => absurd hd (by decide)]
    rfl
  unfold modeOf Mode.ofStatement Mode.ofTokens
  rw [htext, (flush_with _).statementTokens_closeParen hwhole,
    ofText_identifier_append isIdentifier_with, ht.ofText_append isInert_space (by decide),
    ofText_openParen]
  simp only [Token.ofChar?_of_isSpace (c := ' ') (by decide), Option.toList_none, List.nil_append,
    List.cons_append, List.append_assoc, hnone]

/-- Parentheses around a statement are looked through when the blanks at its end are ASCII. Behind
common tables they hide its verb, so that it keeps its mode only if that is to be run for its
effect. -/
theorem modeOf_parenthesized {main : String}
    (uncommented : ∀ r, .region r ∈ Segment.ofText main.toList → r.kind.isComment = false)
    (closed : ∀ r, .region r ∈ Segment.ofText main.toList → r.terminated)
    (balanced : Token.Balanced (Token.ofText main.toList)) (begins : BeginsWithVerb main.toList) :
    ((∀ c ∈ main.toList.reverse.takeWhile isBlank, c.toNat < 128) →
      modeOf ("(" ++ main ++ ")") = modeOf main) ∧
    ∀ tables : String, (∀ r, .region r ∈ Segment.ofText tables.toList → r.terminated) →
      (∀ r, (Segment.ofText tables.toList).getLast? = some (.region r) → r.kind ≠ .lineComment) →
      Token.Balanced (Token.ofText tables.toList) →
      (∀ word, Token.Outer (Token.ofText tables.toList) word → ¬ IsVerb word) →
        (modeOf ("WITH " ++ tables ++ " (" ++ main ++ ")") = modeOf main ↔
          modeOf main = .execute) := by
  have hmain : Whole main.toList := by
    refine ⟨closed_scan_of closed, not_endsInLineComment_scan fun r hr => ?_⟩
    exact Region.Kind.ne_lineComment (uncommented r (List.mem_of_getLast? hr))
  constructor
  · exact modeOf_openParen hmain (plain_scan_of uncommented) begins
  · intro tables closed' ended balanced' outer
    have htables : Whole tables.toList := ⟨closed_scan_of closed', not_endsInLineComment_scan ended⟩
    rw [modeOf_with_openParen htables hmain balanced' outer balanced]
    exact eq_comm

theorem modeOf_parenthesized_insert :
    modeOf ("(" ++ "INSERT INTO t VALUES (1)\n" ++ ")") = modeOf "INSERT INTO t VALUES (1)\n" ∧
      (modeOf ("WITH " ++ "c AS (SELECT 1)" ++ " (" ++ "INSERT INTO t VALUES (1)\n" ++ ")") =
          modeOf "INSERT INTO t VALUES (1)\n" ↔
        modeOf "INSERT INTO t VALUES (1)\n" = .execute) := by
  have hmain : Segment.ofText "INSERT INTO t VALUES (1)\n".toList =
      [.code "INSERT INTO t VALUES (1)\n".toList] := by decide +kernel
  have htables : Segment.ofText "c AS (SELECT 1)".toList = [.code "c AS (SELECT 1)".toList] := by
    decide +kernel
  have hbegins : BeginsWithVerb "INSERT INTO t VALUES (1)\n".toList := by decide +kernel
  have hblanks : "INSERT INTO t VALUES (1)\n".toList.reverse.takeWhile isBlank = ['\n'] := by
    decide +kernel
  have hboth := modeOf_parenthesized (by rw [hmain]; simp) (by rw [hmain]; simp)
    (by decide +kernel) hbegins
  constructor
  · apply hboth.1
    rw [hblanks]
    simp
  · apply hboth.2
    · rw [htables]
      simp
    · rw [htables]
      simp
    · decide +kernel
    · decide +kernel

/-- Behind a table the parentheses hide a statement that returns rows. -/
theorem not_all_parentheses_looked_through :
    ¬ ∀ tables main : String,
      (∀ r, .region r ∈ Segment.ofText tables.toList → r.terminated) →
      Token.Balanced (Token.ofText tables.toList) →
      (∀ word, Token.Outer (Token.ofText tables.toList) word → ¬ IsVerb word) →
      (∀ r, .region r ∈ Segment.ofText main.toList → r.kind.isComment = false) →
      (∀ r, .region r ∈ Segment.ofText main.toList → r.terminated) →
      Token.Balanced (Token.ofText main.toList) → BeginsWithVerb main.toList →
        modeOf ("WITH " ++ tables ++ " (" ++ main ++ ")") = modeOf main := by
  intro h
  have htables : Segment.ofText "c AS (SELECT 1)".toList = [.code "c AS (SELECT 1)".toList] := by
    decide +kernel
  have hmain : Segment.ofText "SELECT 2".toList = [.code "SELECT 2".toList] := by
    decide +kernel
  have hmode : modeOf ("WITH " ++ "c AS (SELECT 1)" ++ " (" ++ "SELECT 2" ++ ")") =
      modeOf "SELECT 2" := by
    apply h
    · rw [htables]
      simp
    · decide +kernel
    · decide +kernel
    · rw [hmain]
      simp
    · rw [hmain]
      simp
    · decide +kernel
    · decide +kernel
  exact absurd hmode (by decide +kernel)

end NamedSql
