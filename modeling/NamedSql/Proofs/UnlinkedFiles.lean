import NamedSql.Proofs.FileWrites

namespace NamedSql.FileSystem
variable {fs fs' : FileSystem} {there location other : Location} {dir name : Path}
  {names : List Path} {text : String}

/-- What stands at the location is no symbolic link, and its file stands nowhere else. -/
structure Unlinked (fs : FileSystem) (location : Location) : Prop where
  no_link : ∀ target, fs.node? location ≠ some (.link target)
  alone : ∀ number other, fs.node? location = some (.file number) →
    fs.node? other = some (.file number) → other = location

/-- No link stands under any of the names in the directory that the path leads to. -/
def UnlinkedIn (fs : FileSystem) (dir : Path) (names : List Path) : Prop :=
  ∀ there, fs.LeadsTo dir there → ∀ name ∈ names, fs.Unlinked (there ++ [name])

/-- The file at the location holds the text. -/
def HoldsAt (fs : FileSystem) (location : Location) (text : String) : Prop :=
  ∃ number, fs.node? location = some (.file number) ∧ fs.content number = .text text

theorem unlinked_of_node?_eq_none (h : fs.node? location = none) : fs.Unlinked location := by
  constructor
  · intro target hl
    rw [h] at hl
    cases hl
  · intro number other hf
    rw [h] at hf
    cases hf

theorem MakesAlong.file {start : Location} {number : Nat} (h : MakesAlong start names fs fs')
    (hf : fs'.node? location = some (.file number)) : fs.node? location = some (.file number) := by
  by_cases hn : fs'.node? location = fs.node? location
  · rwa [← hn]
  · rw [(h.made location hn).1] at hf
    cases hf

theorem Unlinked.of_makesAlong {start : Location} (h : fs.Unlinked location)
    (hm : MakesAlong start names fs fs') : fs'.Unlinked location where
  no_link target hl := h.no_link target (hm.keeps.links location target hl)
  alone number other hf ho := h.alone number other (hm.file hf) (hm.file ho)

theorem HoldsAt.of_makesAlong {start : Location} (h : fs.HoldsAt location text)
    (hm : MakesAlong start names fs fs') : fs'.HoldsAt location text := by
  obtain ⟨number, hn, hc⟩ := h
  exact ⟨number, hm.keeps.nodes location _ hn, (hm.contents number).trans hc⟩

section Writes
variable {number : Nat} {content : Content}

theorem Writes.holdsAt (hw : Writes location number (.text text) fs fs') :
    fs'.HoldsAt location text :=
  ⟨number, hw.node, hw.content⟩

/-- The file that is written stands at no other location at which no link is. -/
theorem Writes.ne_number (hw : Writes location number content fs fs') (h : fs.Unlinked other)
    (hne : other ≠ location) : fs.node? other ≠ some (.file number) := by
  intro ho
  rcases hw.known with hl | hnew
  · exact hne (h.alone number location ho hl).symm
  · exact hnew other ho

theorem Unlinked.of_writes (h : fs.Unlinked other) (hw : Writes location number content fs fs') :
    fs'.Unlinked other where
  no_link target hl := h.no_link target (hw.keeps.links other target hl)
  alone n third hf ht := by
    by_cases ho : other = location
    · -- The file is the one that is written, which stood at no third location.
      subst ho
      obtain rfl : number = n := by
        rw [hw.node] at hf
        cases hf
        rfl
      refine Decidable.byContradiction fun hne => ?_
      rw [hw.others third hne] at ht
      rcases hw.known with hl | hnew
      · exact hne (h.alone number third hl ht)
      · exact hnew third ht
    · rw [hw.others other ho] at hf
      by_cases hl : third = location
      · subst hl
        rw [hw.node] at ht
        cases ht
        exact absurd hf (hw.ne_number h ho)
      · rw [hw.others third hl] at ht
        exact h.alone n third hf ht

theorem HoldsAt.of_writes (h : fs.HoldsAt other text) (hu : fs.Unlinked other)
    (hne : other ≠ location) (hw : Writes location number content fs fs') :
    fs'.HoldsAt other text := by
  obtain ⟨n, hn, hc⟩ := h
  have hnumber : n ≠ number := by
    rintro rfl
    exact hw.ne_number hu hne hn
  exact ⟨n, (hw.others other hne).trans hn, (hw.contents n hnumber).trans hc⟩

end Writes

/-- Writing under a name in a directory writes the file of that name there. -/
theorem exists_writes_of_write_join (hu : fs.UnlinkedIn dir names) (hm : name ∈ names)
    (hn : Path.IsName name) (h : fs.write (Path.join dir name) text = (fs', .ok ())) :
    ∃ there number, fs.LeadsTo dir there ∧
      Writes (there ++ [name]) number (.text text) fs fs' := by
  rcases write_cases fs (Path.join dir name) text with
    ⟨cause, he⟩ | ⟨location, number, content, hl, hw, hc⟩
  · rw [h] at he
    cases he
  · rw [h] at hw hc
    obtain rfl := hc rfl
    obtain ⟨there, hd, hplace⟩ := exists_leadsTo_of_locate_join hn hl
    obtain rfl := hplace (hu there hd name hm).no_link
    exact ⟨there, number, hd, hw⟩

/-- A way that is there already is the only one. -/
theorem UnlinkedIn.of_keeps (h : fs.UnlinkedIn dir names) (hd : fs.LeadsTo dir there)
    (hk : Keeps fs fs') (hl : ∀ location, fs.Unlinked location → fs'.Unlinked location) :
    fs'.UnlinkedIn dir names := by
  intro place hp name hn
  obtain rfl := hp.unique (hk.leadsTo hd)
  exact hl _ (h _ hd name hn)

theorem UnlinkedIn.write (h : fs.UnlinkedIn dir names) (hn : Path.IsName name) (text : String) :
    (fs.write (Path.join dir name) text).1.UnlinkedIn dir names := by
  rcases write_cases fs (Path.join dir name) text with
    ⟨cause, he⟩ | ⟨location, number, content, hl, hw, -⟩
  · rwa [he]
  · obtain ⟨there, hd, -⟩ := exists_leadsTo_of_locate_join hn hl
    exact h.of_keeps hd hw.keeps fun _ hu => hu.of_writes hw

end NamedSql.FileSystem
