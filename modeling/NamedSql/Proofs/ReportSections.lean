import NamedSql.Proofs.ReportRows

namespace NamedSql

namespace Report

/-- Numbers of rows: of all, of those that are fetched and of those that are executed. -/
structure Tally where
  all : Nat
  fetched : Nat
  executed : Nat
deriving DecidableEq

def Tally.ofRows (rows : List Row) : Tally where
  all := rows.length
  fetched := rows.countP fun row => row.mode == .fetch
  executed := rows.countP fun row => row.mode == .execute

def Tally.ofLine? (line : List Char) : Option Tally :=
  match (line.splitOn ' ').map String.ofList with
  | [all, "statements:", fetched, "fetch,", executed, "execute"] => do
    return {
      all := ← number? all
      fetched := ← number? fetched
      executed := ← number? executed }
  | _ => none

/-- What a section has in front of its counts line. -/
def heading (manifest : Manifest) : List Char :=
  ("\n## " ++ manifest.className ++ " (\x60" ++ manifest.source ++ "\x60)\n\n").toList

def headLine : List Char :=
  "| # | Name | Line | Type | Kind | Parameters | Notes |".toList

def ruleLine : List Char :=
  "|---|------|------|------|------|------------|-------|".toList

/-- The section of a manifest is its heading, the line `counts`, which gives the numbers of entries,
and what stands `behind` that line. -/
structure Counted (manifest : Manifest) (counts behind : List Char) : Prop where
  parts : (manifestSection manifest).toList = heading manifest ++ counts ++ '\n' :: behind
  tally : Tally.ofLine? counts = some (.ofRows (manifest.entries.map Row.ofEntry))
  sum : ∀ tally ∈ Tally.ofLine? counts, tally.fetched + tally.executed = tally.all

/-- What stands behind the counts line is a table that has the lines `rows` for the entries in their
order, and no others below its head. Without entries it is nothing. -/
structure Legible (manifest : Manifest) (behind : List Char) (rows : List (List Char)) : Prop where
  lines : behind.splitOn '\n' =
    if rows = [] then [[]] else [] :: headLine :: ruleLine :: (rows ++ [[]])
  rows : List.Forall₂ Tells manifest.entries rows

variable {manifest : Manifest}

/-- The lines of the rows of a manifest. -/
def rowLines (manifest : Manifest) : List (List Char) :=
  manifest.entries.map fun entry => rowLine (cells entry)

theorem headLine_eq :
    headLine = rowLine ["#", "Name", "Line", "Type", "Kind", "Parameters", "Notes"] := by
  decide +kernel

theorem toList_tableHead : tableHead.toList = headLine ++ '\n' :: (ruleLine ++ ['\n']) := by
  have hrule : "|---|------|------|------|------|------------|-------|\n".toList =
      ruleLine ++ ['\n'] := by
    decide +kernel
  rw [tableHead, String.toList_append, toList_row, ← headLine_eq, hrule, List.append_assoc,
    List.singleton_append]

theorem toList_table (h : manifest.entries ≠ []) :
    (table manifest).toList =
      ([] :: headLine :: ruleLine :: rowLines manifest).flatMap (· ++ ['\n']) := by
  have hrow (entry : Manifest.Entry) :
      (row (cells entry)).toList = rowLine (cells entry) ++ ['\n'] := toList_row _ _
  simp [table, h, toList_tableHead, hrow, rowLines, List.flatMap_map]

theorem splitOn_table (h : ∀ e ∈ manifest.entries, e.Tabular) :
    (table manifest).toList.splitOn '\n' =
      if rowLines manifest = [] then [[]]
      else [] :: headLine :: ruleLine :: (rowLines manifest ++ [[]]) := by
  by_cases he : manifest.entries = []
  · -- Without a table there is only the end of the counts line, and nothing behind it.
    simp [table, rowLines, he]
  · rw [toList_table he, if_neg (by simpa [rowLines] using he)]
    refine splitOn_flatMap_append ?_
    simp only [List.forall_mem_cons]
    refine ⟨List.not_mem_nil, ?_, by decide +kernel, List.forall_mem_map.mpr fun entry hm => ?_⟩
    · rw [headLine_eq]
      exact newline_not_mem_rowLine (by decide)
    · exact newline_not_mem_rowLine (not_mem_of_mem_cells (h entry hm) (by decide) (by decide))

def countsWords (manifest : Manifest) : List String :=
  [toString manifest.entries.length, "statements:", toString (manifest.count .fetch), "fetch,",
    toString (manifest.count .execute), "execute"]

def countsText (manifest : Manifest) : List Char :=
  [' '].intercalate ((countsWords manifest).map String.toList)

theorem toList_countsLine (manifest : Manifest) :
    (countsLine manifest).toList = countsText manifest ++ ['\n'] := by
  simp [countsLine, countsText, countsWords, List.intercalate_cons_cons]

theorem splitOn_countsText (manifest : Manifest) :
    (countsText manifest).splitOn ' ' = (countsWords manifest).map String.toList := by
  have hn (n : Nat) : ' ' ∉ (toString n).toList :=
    not_mem_of_isIdentifierPart (isIdentifierPart_toString n) (by decide)
  refine List.splitOn_intercalate ' ' (List.forall_mem_map.mpr ?_) (List.cons_ne_nil _ _)
  simp only [countsWords, List.forall_mem_cons]
  exact ⟨hn _, by decide, hn _, by decide, hn _, by decide, List.forall_mem_nil _⟩

theorem Tally.ofRows_map_ofEntry (manifest : Manifest) :
    Tally.ofRows (manifest.entries.map Row.ofEntry) =
      ⟨manifest.entries.length, manifest.count .fetch, manifest.count .execute⟩ := by
  simp [Tally.ofRows, Manifest.count, List.countP_map, Function.comp_def, Row.ofEntry]

theorem ofLine?_countsText (manifest : Manifest) :
    Tally.ofLine? (countsText manifest) = some (.ofRows (manifest.entries.map Row.ofEntry)) := by
  have hwords : ((countsText manifest).splitOn ' ').map String.ofList = countsWords manifest := by
    rw [splitOn_countsText, List.map_map]
    exact List.map_id'' (fun _ => String.ofList_toList) _
  rw [Tally.ofLine?, hwords, Tally.ofRows_map_ofEntry]
  simp only [countsWords, number?_toString]
  rfl

theorem counted_countsText (manifest : Manifest) :
    Counted manifest (countsText manifest) (table manifest).toList := by
  refine ⟨?_, ofLine?_countsText manifest, ?_⟩
  · simp [manifestSection, heading, toList_countsLine]
  · rw [ofLine?_countsText, Tally.ofRows_map_ofEntry]
    rintro _ ⟨⟩
    exact manifest.count_add_count

theorem legible_table (h : ∀ e ∈ manifest.entries, e.Tabular) :
    Legible manifest (table manifest).toList (rowLines manifest) := by
  refine ⟨splitOn_table h, ?_⟩
  rw [rowLines, List.forall₂_map_right_iff, List.forall₂_same]
  exact fun entry he => tells_rowLine (h entry he)

/-- A report is its title with a section for each manifest. A section gives the numbers of entries,
and the entries of a template that was read can be read in its table. -/
theorem legible_sections (manifests : List Manifest) :
    report manifests =
      "# sql2bind Statement Report\n" ++ String.join (manifests.map manifestSection) ∧
    ∀ manifest ∈ manifests, ∃ counts behind, Counted manifest counts behind ∧
      (manifest.IsParsed → ∃ rows, Legible manifest behind rows) := by
  refine ⟨rfl, fun manifest _ => ⟨_, _, counted_countsText manifest, fun h => ?_⟩⟩
  exact ⟨_, legible_table h.tabular⟩

theorem legible_sections_barred :
    ∃ template, Template.parse .strip
        "#a\n'|`\n' = :x + :_y2;SHOW t\n--name: b\nDELETE FROM t RETURNING '|'" = .ok template ∧
      let manifest := Manifest.ofTemplate template "|`\n1 statements" "q"
      manifest.IsParsed ∧
      (∃ counts behind rows, Counted manifest counts behind ∧ Legible manifest behind rows) ∧
      manifestSection manifest = "\n## Q (`|`\n1 statements`)\n\n" ++
        "3 statements: 2 fetch, 1 execute\n\n" ++
        "| # | Name | Line | Type | Kind | Parameters | Notes |\n" ++
        "|---|------|------|------|------|------------|-------|\n" ++
        "| 0 | a | 2 | execute | other | `x`, `_y2` |  |\n" ++
        "| 1 | statement_1 | 3 | fetch | show | - |  |\n" ++
        "| 2 | b | 5 | fetch | delete | - | RETURNING |\n" := by
  have h : Template.parse .strip
      "#a\n'|`\n' = :x + :_y2;SHOW t\n--name: b\nDELETE FROM t RETURNING '|'" = .ok ⟨none, [
        ⟨some "a", 2, ⟨"'|`\n' = :x + :_y2", 0, .execute⟩, ⟨.other, .execute, ["x", "_y2"], false⟩⟩,
        ⟨none, 3, ⟨"SHOW t", 1, .fetch⟩, ⟨.setting, .fetch, [], false⟩⟩,
        ⟨some "b", 5, ⟨"DELETE FROM t RETURNING '|'", 2, .fetch⟩,
          ⟨.delete, .fetch, [], true⟩⟩]⟩ := by
    decide +kernel
  refine ⟨_, h, ⟨_, _, _, _, _, h, rfl⟩, ?_, by decide +kernel⟩
  obtain ⟨counts, behind, hcounted, hlegible⟩ :=
    (legible_sections [_]).2 _ (List.mem_singleton_self _)
  obtain ⟨rows, hrows⟩ := hlegible ⟨_, _, _, _, _, h, rfl⟩
  exact ⟨counts, behind, rows, hcounted, hrows⟩

end Report

end NamedSql
