import NamedSql.Proofs.OutputFiles

namespace NamedSql

namespace FileSystem
variable {fs fs' fs₁ : FileSystem} {location : Location}

/-- What stands at the location is another thing in `fs'`, or its file holds something else. -/
def Changes (fs fs' : FileSystem) (location : Location) : Prop :=
  fs'.node? location ≠ fs.node? location ∨
    ∃ number, fs.node? location = some (.file number) ∧ fs'.content number ≠ fs.content number

theorem not_changes_self (fs : FileSystem) (location : Location) : ¬ Changes fs fs location := by
  rintro (hn | ⟨number, -, hc⟩)
  · exact hn rfl
  · exact hc rfl

theorem Changes.of_trans (h : Changes fs fs' location) (hk : Keeps fs fs₁) :
    Changes fs fs₁ location ∨ Changes fs₁ fs' location := by
  rcases h with hn | ⟨number, hn, hc⟩
  · by_cases hs : fs'.node? location = fs₁.node? location
    · exact .inl (.inl (hs ▸ hn))
    · exact .inr (.inl hs)
  · by_cases hs : fs'.content number = fs₁.content number
    · exact .inl (.inr ⟨number, hn, hs ▸ hc⟩)
    · exact .inr (.inr ⟨number, hk.nodes _ _ hn, hs⟩)

theorem Writes.node_of_changes {number : Nat} {content : Content} {other : Location}
    (h : Writes location number content fs fs') (hc : Changes fs fs' other) :
    fs'.node? other = some (.file number) := by
  rcases hc with hn | ⟨n, hn, hc⟩
  · have ho : other = location := Decidable.byContradiction fun hne => hn (h.others other hne)
    rw [ho, h.node]
  · have he : n = number := Decidable.byContradiction fun hne => hc (h.contents n hne)
    rw [← he]
    exact h.keeps.nodes other _ hn

theorem MakesAlong.node_of_changes {start : Location} {names : List Path}
    (h : MakesAlong start names fs fs') (hc : Changes fs fs' location) :
    fs'.node? location ≠ fs.node? location := by
  rcases hc with hn | ⟨number, -, hc⟩
  · exact hn
  · exact absurd (h.contents number) hc

end FileSystem

namespace Output
variable {fs fs' fs₁ : FileSystem} {dir : Path} {name other : String} {manifest : Manifest}
  {location : Location}

/-- The location has the file that one of the two paths of an output leads to. -/
def Reaches (fs : FileSystem) (dir : Path) (name : String) (location : Location) : Prop :=
  ∃ file ∈ fileNames name, ∃ place number, fs.locate (Path.join dir file) = .ok place ∧
    fs.node? place = some (.file number) ∧ fs.node? location = some (.file number)

/-- At the location a directory was made on the way to an output. -/
structure OnWay (dir : Path) (fs fs' : FileSystem) (location : Location) : Prop where
  before : fs.node? location = none
  after : fs'.node? location = some .directory
  way : fs'.OnWay dir location

/-- From `fs` to `fs'` nothing changes but the files that the paths of an output lead to, and
directories on the way to them that were missing. -/
structure Touches (dir : Path) (name : String) (fs fs' : FileSystem) : Prop where
  keeps : FileSystem.Keeps fs fs'
  changed : ∀ location, FileSystem.Changes fs fs' location →
    OnWay dir fs fs' location ∨ Reaches fs' dir name location

theorem Reaches.of_keeps (h : Reaches fs dir name location) (hk : FileSystem.Keeps fs fs') :
    Reaches fs' dir name location := by
  obtain ⟨file, hf, place, number, hl, hp, hn⟩ := h
  exact ⟨file, hf, place, number, hk.locate hl, hk.nodes _ _ hp, hk.nodes _ _ hn⟩

namespace Touches

theorem refl (dir : Path) (name : String) (fs : FileSystem) : Touches dir name fs fs :=
  ⟨.refl fs, fun _ hc => absurd hc (FileSystem.not_changes_self _ _)⟩

theorem trans (h : Touches dir name fs fs₁) (h' : Touches dir name fs₁ fs') :
    Touches dir name fs fs' := by
  refine ⟨h.keeps.trans h'.keeps, fun location hc => ?_⟩
  rcases hc.of_trans h.keeps with hc | hc
  · rcases h.changed location hc with ho | hr
    · exact .inl ⟨ho.before, h'.keeps.nodes _ _ ho.after, h'.keeps.onWay ho.way⟩
    · exact .inr (hr.of_keeps h'.keeps)
  · rcases h'.changed location hc with ho | hr
    · refine .inl ⟨?_, ho.after, ho.way⟩
      cases hn : fs.node? location with
      | none => rfl
      | some node =>
        rw [← h.keeps.nodes location node hn]
        exact ho.before
    · exact .inr hr

end Touches

theorem touches_makeDirectory (fs : FileSystem) (dir : Path) (name : String) :
    Touches dir name fs (fs.makeDirectory dir).1 := by
  have hm := FileSystem.makesAlong_makeDirectory fs dir
  refine ⟨hm.keeps, fun location hc => ?_⟩
  have hn := hm.node_of_changes hc
  obtain ⟨hd, front, hp, hf⟩ := hm.made location hn
  refine .inl ⟨hm.keeps.node?_eq_none hn, hd, front, hp, ?_⟩
  rwa [hm.keeps.start_eq]

theorem touches_writeFile {file : Path} (hf : file ∈ fileNames name) (fs : FileSystem) (dir : Path)
    (text : String) : Touches dir name fs (fs.write (Path.join dir file) text).1 := by
  rcases FileSystem.write_cases fs (Path.join dir file) text with
    ⟨cause, he⟩ | ⟨place, number, content, hl, hw, -⟩
  · rw [he]
    exact .refl ..
  · exact ⟨hw.keeps, fun location hc =>
      .inr ⟨file, hf, place, number, hw.keeps.locate hl, hw.node, hw.node_of_changes hc⟩⟩

/-- Whether an action fails or not, what holds of the files behind it and is kept by what follows
holds in the end. -/
theorem run_bind_snd {p : FileSystem → Prop} {action : StateM FileSystem (Except SystemError Unit)}
    {failure : SystemError → OutputError} {next : StateM FileSystem (Except OutputError Notice)}
    (h : p (action.run fs).2) (hn : ∀ fs₁, p fs₁ → p (next.run fs₁).2) :
    p ((action >>= fun
      | .error cause => return .error (failure cause)
      | .ok () => next).run fs).2 := by
  rw [FileSystem.run_bind]
  cases (action.run fs).1 with
  | error cause => exact h
  | ok done => exact hn _ h

/-- What holds of the files once the directory is made, and is kept when one of the two files is
written, holds wherever the writing of an output stops. -/
theorem run_write_snd {p : FileSystem → Prop} (hf : OutputName.fault? name = none)
    (h : p (fs.makeDirectory dir).1)
    (hw : ∀ fs₁, p fs₁ → ∀ file ∈ fileNames name, ∀ text,
      p (fs₁.write (Path.join dir file) text).1) :
    p ((write FileSystem.disk dir name manifest).run fs).2 := by
  rw [write, hf]
  refine run_bind_snd h fun fs₁ h₁ => ?_
  refine run_bind_snd (hw fs₁ h₁ (manifestFile name) (by simp [fileNames]) _) fun fs₂ h₂ => ?_
  exact run_bind_snd (hw fs₂ h₂ (reportFile name) (by simp [fileNames]) _) fun _ h₃ => h₃

/-- Wherever the writing of an output stops, it has touched nothing else. -/
theorem touches_write (fs : FileSystem) (dir : Path) (name : String) (manifest : Manifest) :
    Touches dir name fs ((write FileSystem.disk dir name manifest).run fs).2 := by
  cases hf : OutputName.fault? name with
  | some fault =>
    rw [run_write_of_fault? hf]
    exact .refl ..
  | none =>
    exact run_write_snd hf (touches_makeDirectory ..) fun fs₁ h₁ file hm text =>
      h₁.trans (touches_writeFile hm fs₁ dir text)

/-- No link comes to where an output is written. -/
theorem unlinkedIn_write (hf : OutputName.fault? name = none) (hu : Unlinked fs dir name) :
    ((write FileSystem.disk dir name manifest).run fs).2.UnlinkedIn dir (fileNames name) :=
  run_write_snd (p := fun fs => fs.UnlinkedIn dir (fileNames name)) hf hu
    fun _ h₁ file hm text => h₁.write (isName_of_mem_fileNames hf file hm) text

/-- Once the name is accepted, no failure blames it. -/
theorem run_write_ne_invalidName {fault : OutputName.Fault} (h : OutputName.fault? name = none) :
    ((write FileSystem.disk dir name manifest).run fs).1 ≠ .error (.invalidName name fault) := by
  rw [write, h, FileSystem.run_bind]
  split
  · rintro ⟨⟩
  · rw [FileSystem.run_bind]
    split
    · rintro ⟨⟩
    · rw [FileSystem.run_bind]
      split <;> rintro ⟨⟩

/-- Without links the files of an output are those in the directory itself. -/
theorem Reaches.exists_place (hr : Reaches fs dir name location)
    (hf : OutputName.fault? name = none) (hu : fs.UnlinkedIn dir (fileNames name)) :
    ∃ there, fs.LeadsTo dir there ∧ ∃ file ∈ fileNames name, location = there ++ [file] := by
  obtain ⟨file, hm, place, number, hl, hp, hn⟩ := hr
  obtain ⟨there, hd, hplace⟩ :=
    FileSystem.exists_leadsTo_of_locate_join (isName_of_mem_fileNames hf file hm) hl
  have hplain := hu there hd file hm
  obtain rfl := hplace hplain.no_link
  exact ⟨there, hd, file, hm, hplain.alone number location hp hn⟩

/-- What comes of writing an output: its result and the files afterwards. -/
structure Contained (dir : Path) (name : String) (manifest : Manifest) (fs : FileSystem)
    (outcome : Except OutputError Notice × FileSystem) : Prop where
  refused : (∃ fault, outcome.1 = .error (.invalidName name fault)) ↔ OutputName.Unfit name
  untouched : OutputName.Unfit name → outcome.2 = fs
  /-- Links are followed. -/
  touches : Touches dir name fs outcome.2
  placed : Unlinked fs dir name → ∀ location, FileSystem.Changes fs outcome.2 location →
    OnWay dir fs outcome.2 location ∨
      ∃ there, outcome.2.LeadsTo dir there ∧ ∃ file ∈ fileNames name, location = there ++ [file]
  holds : Unlinked fs dir name → ∀ notice, outcome.1 = .ok notice →
    Holds outcome.2 dir name manifest
  /-- The files for another name are other files. -/
  apart : ∀ other, name ≠ other → ∀ file ∈ fileNames name, ∀ theirs ∈ fileNames other,
    file ≠ theirs

/-- An unfit name is refused and nothing is touched. Any other output changes the files that its two
paths lead to and nothing else, whatever fails. If no link stands there, these are its two files in
the directory itself, and they hold the manifest and the report when the writing succeeds. -/
theorem contained_write (fs : FileSystem) (dir : Path) (name : String) (manifest : Manifest) :
    Contained dir name manifest fs ((write FileSystem.disk dir name manifest).run fs) := by
  cases hf : OutputName.fault? name with
  | some fault =>
    have hunfit : OutputName.Unfit name := by
      by_contra hn
      rw [OutputName.fault?_eq_none_iff.mpr hn] at hf
      cases hf
    have hrun : (write FileSystem.disk dir name manifest).run fs =
        (.error (.invalidName name fault), fs) := run_write_of_fault? hf
    exact {
      refused := by simp [hrun, hunfit]
      untouched := fun _ => by rw [hrun]
      touches := touches_write ..
      placed := fun _ location hc => by
        rw [hrun] at hc
        exact absurd hc (FileSystem.not_changes_self _ _)
      holds := by simp [hrun]
      apart := fun _ => ne_of_mem_fileNames }
  | none =>
    have hfit : ¬ OutputName.Unfit name := OutputName.fault?_eq_none_iff.mp hf
    exact {
      refused := iff_of_false (fun ⟨_, he⟩ => run_write_ne_invalidName hf he) hfit
      untouched := fun h => absurd h hfit
      touches := touches_write ..
      placed := fun hu location hc => ((touches_write ..).changed location hc).imp_right
        fun hr => hr.exists_place hf (unlinkedIn_write hf hu)
      holds := fun hu notice hok => holds_of_write hu (Prod.ext hok rfl)
      apart := fun _ => ne_of_mem_fileNames }

/-- A directory in which the name of a manifest is a link to a file outside. -/
def linkedFiles : FileSystem where
  workingDirectory := [utf8Bytes "w"]
  nodes := [([utf8Bytes "w"], .directory), ([utf8Bytes "w", utf8Bytes "kept"], .file 0),
    ([utf8Bytes "w", utf8Bytes "out"], .directory),
    ([utf8Bytes "w", utf8Bytes "out", utf8Bytes "q.json"], .link (utf8Bytes "../kept"))]
  contents := [(0, .text "kept")]

theorem contained_write_linkedFiles :
    let outcome (name : String) :=
      (write FileSystem.disk (utf8Bytes "out") name ⟨"Q", "q.sql", []⟩).run linkedFiles
    (outcome "..").2 = linkedFiles ∧ Unlinked linkedFiles (utf8Bytes "out") "r" ∧
      ∃ notice, (outcome "r").1 = .ok notice ∧
        Holds (outcome "r").2 (utf8Bytes "out") "r" ⟨"Q", "q.sql", []⟩ := by
  intro outcome
  have hunlinked : Unlinked linkedFiles (utf8Bytes "out") "r" := by
    have hd : (linkedFiles.makeDirectory (utf8Bytes "out")).1.LeadsTo (utf8Bytes "out")
        [utf8Bytes "w", utf8Bytes "out"] := by
      decide +kernel
    refine unlinked_of_leadsTo hd ?_
    · exact forall_mem_fileNames.mpr ⟨by decide +kernel, by decide +kernel⟩
  have hok : (outcome "r").1 = .ok (wrote (utf8Bytes "out") "r") := by decide +kernel
  have hcontained (name : String) : Contained (utf8Bytes "out") name ⟨"Q", "q.sql", []⟩ linkedFiles
      (outcome name) := contained_write ..
  exact ⟨(hcontained "..").untouched (.inr (.inr (.inr rfl))), hunlinked, _, hok,
    (hcontained "r").holds hunlinked _ hok⟩

/-- Through a link a file outside the directory is written. -/
theorem changes_linkedFiles :
    FileSystem.Changes linkedFiles
      ((write FileSystem.disk (utf8Bytes "out") "q" ⟨"Q", "q.sql", []⟩).run linkedFiles).2
      [utf8Bytes "w", utf8Bytes "kept"] :=
  .inr ⟨0, by decide +kernel, by decide +kernel⟩

end Output

end NamedSql
