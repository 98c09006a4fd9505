import NamedSql.Manifest.Json
import NamedSql.Proofs.JsonValues

namespace NamedSql.Json

theorem toList?_map {α : Type} {read : Json → Option α} {write : α → Json} {values : List α}
    (h : ∀ value ∈ values, read (write value) = some value) :
    (Json.array (values.map write)).toList? read = some values := by
  rw [toList?]
  induction values with
  | nil => rfl
  | cons value rest ih =>
    obtain ⟨hv, hr⟩ := List.forall_mem_cons.mp h
    rw [List.map_cons, List.mapM_cons, hv, ih hr]
    rfl

end NamedSql.Json

namespace NamedSql.Manifest

/-- The numbers of an entry fit 64 bits. -/
structure Entry.Fits (entry : Entry) : Prop where
  ordinal : entry.ordinal ≤ Json.maxWord
  line : entry.line ≤ Json.maxWord

/-- The numbers of a manifest fit 64 bits. -/
def Fits (manifest : Manifest) : Prop :=
  ∀ entry ∈ manifest.entries, entry.Fits

theorem Entry.hasNumerals_toJson (entry : Entry) : entry.toJson.HasNumerals := by
  refine Json.hasNumerals_object ?_
  simp only [List.forall_mem_cons]
  refine ⟨Json.hasNumerals_string _, Json.hasNumerals_ofNat _, Json.hasNumerals_ofNat _,
    Json.hasNumerals_string _, Json.hasNumerals_string _, Json.hasNumerals_string _, ?_,
    Json.hasNumerals_bool _, List.forall_mem_nil _⟩
  exact Json.hasNumerals_array (List.forall_mem_map.mpr fun _ _ => Json.hasNumerals_string _)

theorem hasNumerals_toJson (manifest : Manifest) : manifest.toJson.HasNumerals := by
  refine Json.hasNumerals_object ?_
  simp only [List.forall_mem_cons]
  refine ⟨Json.hasNumerals_string _, Json.hasNumerals_string _, ?_, List.forall_mem_nil _⟩
  exact Json.hasNumerals_array (List.forall_mem_map.mpr fun entry _ => entry.hasNumerals_toJson)

theorem Entry.ofJson?_toJson {entry : Entry} (h : entry.Fits) :
    Entry.ofJson? entry.toJson = some entry := by
  have hordinal := Json.toNat?_ofNat h.ordinal
  have hline := Json.toNat?_ofNat h.line
  have hmode : Mode.ofJson? (.string entry.mode.label) = some entry.mode := Mode.ofLabel?_label _
  have hfamily : Family.ofJson? (.string entry.family.label) = some entry.family :=
    Family.ofLabel?_label _
  have hparameters : (Json.array (entry.parameters.map .string)).toList? Json.toString? =
      some entry.parameters := Json.toList?_map fun _ _ => rfl
  simp [Entry.ofJson?, Entry.toJson, Json.toRecord?, Json.isSingle, List.lookup_cons, Json.toString?,
    Json.toBool?, hordinal, hline, hmode, hfamily, hparameters]

theorem ofJson?_toJson {manifest : Manifest} (h : manifest.Fits) :
    ofJson? manifest.toJson = some manifest := by
  have hentries : (Json.array (manifest.entries.map Entry.toJson)).toList? Entry.ofJson? =
      some manifest.entries := Json.toList?_map fun entry he => Entry.ofJson?_toJson (h entry he)
  simp [ofJson?, toJson, Json.toRecord?, Json.isSingle, List.lookup_cons, Json.toString?, hentries]

theorem parse?_text {manifest : Manifest} (h : manifest.Fits) :
    parse? manifest.text = some manifest := by
  rw [parse?, text, Json.parse?_pretty manifest.hasNumerals_toJson, Option.bind_some,
    ofJson?_toJson h]

/-- A manifest whose numbers fit 64 bits is read back from its text, and no other has that text. -/
theorem parse?_text_unique {manifest : Manifest} (h : manifest.Fits) :
    parse? manifest.text = some manifest ∧
      ∀ other : Manifest, other.Fits → other.text = manifest.text → other = manifest := by
  refine ⟨parse?_text h, fun other ho htext => ?_⟩
  have hread := parse?_text ho
  rw [htext, parse?_text h] at hread
  exact (Option.some.inj hread).symm

/-- Quotes, backslashes, control characters, letters beyond ASCII, the largest number and a list
without items. -/
def escapedManifest : Manifest where
  className := ""
  source := "\"\\/\x00\t\n\x1f\x7f\u2028é😀"
  entries := [⟨"a", Json.maxWord, 0, "SELECT '\"'", .fetch, .select, ["id", ""], false⟩,
    ⟨"", 0, Json.maxWord, "", .execute, .other, [], true⟩]

theorem parse?_text_escapedManifest :
    escapedManifest.Fits ∧ parse? escapedManifest.text = some escapedManifest := by
  have hfits : escapedManifest.Fits := by
    refine List.forall_mem_cons.mpr ⟨⟨by decide, by decide⟩, ?_⟩
    exact List.forall_mem_singleton.mpr ⟨by decide, by decide⟩
  exact ⟨hfits, (parse?_text_unique hfits).1⟩

end NamedSql.Manifest
