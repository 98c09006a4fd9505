import NamedSql.Command
import NamedSql.Proofs.Offsets.Text
import NamedSql.Proofs.Trim
import NamedSql.Proofs.UnlinkedFiles

namespace NamedSql

/-- The name is blank, holds a separator of paths or leads to the upper directory. -/
def OutputName.Unfit (name : String) : Prop :=
  (∀ c ∈ name.toList, isBlank c) ∨ '/' ∈ name.toList ∨ '\\' ∈ name.toList ∨ name = ".."

/-- Only a slash has the byte of a slash. -/
theorem slash_mem_utf8Bytes_iff {text : String} :
    Path.slash ∈ utf8Bytes text ↔ '/' ∈ text.toList := by
  rw [utf8Bytes, List.mem_flatMap]
  constructor
  · rintro ⟨c, hc, hb⟩
    have hslash : Char.ofUInt8 Path.slash = '/' := by decide
    rwa [((Offsets.isByteOf_of_mem hb).eq_iff (by decide)).mp hslash] at hc
  · intro h
    exact ⟨'/', h, by decide⟩

/-- Without a slash a name has itself as its only part. -/
theorem Path.mem_names_iff {name part : Path} (h : slash ∉ name) :
    part ∈ names name ↔ part = name ∧ name ≠ [] := by
  rw [names, segments_of_not_mem h]
  by_cases hn : name = []
  · simp [hn]
  · have hne : name.isEmpty = false := by simpa using hn
    simp [hne, hn]

/-- The checks refuse no other name. -/
theorem OutputName.fault?_eq_none_iff {name : String} : fault? name = none ↔ ¬ Unfit name := by
  have hblank : (trim name.toList).isEmpty ↔ ∀ c ∈ name.toList, isBlank c := by
    rw [List.isEmpty_iff, trim_eq_nil_iff]
  have hseparator : (name.toList.any fun c => c == '/' || c == '\\') ↔
      '/' ∈ name.toList ∨ '\\' ∈ name.toList := by
    simp [and_or_left, exists_or]
  have hslash (h : '/' ∉ name.toList) : Path.slash ∉ utf8Bytes name :=
    mt slash_mem_utf8Bytes_iff.mp h
  have habsolute (h : '/' ∉ name.toList) : Path.isAbsolute (utf8Bytes name) = false :=
    Bool.eq_false_iff.mpr fun ha => hslash h (List.mem_of_mem_head? (eq_of_beq ha))
  have hupper (h : '/' ∉ name.toList) :
      (Path.names (utf8Bytes name)).contains Path.upper ↔ name = ".." := by
    rw [List.contains_iff_mem, Path.mem_names_iff (hslash h)]
    have hu : Path.upper = utf8Bytes ".." := by decide
    constructor
    · exact fun hn => (utf8Bytes_injective (hu.symm.trans hn.1)).symm
    · rintro rfl
      exact ⟨hu, hu ▸ List.cons_ne_nil _ _⟩
  -- Without a slash only the text itself can be absolute or lead up, and with one the last check
  -- refuses it.
  by_cases hs : '/' ∈ name.toList
  · have hany := hseparator.mpr (.inl hs)
    refine iff_of_false ?_ (not_not_intro (.inr (.inl hs)))
    rw [fault?, if_pos hany]
    split_ifs <;> exact not_false
  · rw [fault?, habsolute hs, Unfit]
    simp only [hblank, hupper hs, hseparator, hs, false_or, Bool.false_eq_true, if_false]
    split_ifs <;> simp_all

theorem OutputName.no_slash_of_fault? {name : String} (h : fault? name = none) :
    '/' ∉ name.toList :=
  fun hs => fault?_eq_none_iff.mp h (.inr (.inl hs))

theorem Path.isName_append {stem ending : String} (hs : '/' ∉ stem.toList)
    (he : '/' ∉ ending.toList) (hl : 3 ≤ (utf8Bytes ending).length) :
    IsName (utf8Bytes (stem ++ ending)) := by
  have hne {other : Path} (ho : other.length < 3) : utf8Bytes (stem ++ ending) ≠ other := by
    rintro rfl
    rw [utf8Bytes_append, List.length_append] at ho
    omega
  refine ⟨hne (by decide), ?_, hne (by decide), hne (by decide)⟩
  rw [slash_mem_utf8Bytes_iff, String.toList_append, List.mem_append, not_or]
  exact ⟨hs, he⟩

namespace Output
variable {fs fs' : FileSystem} {dir : Path} {name other : String} {manifest written : Manifest}
  {notice : Notice}

/-- The names of the files of an output. -/
def fileNames (name : String) : List Path :=
  [manifestFile name, reportFile name]

/-- The files of an output with their texts. -/
def files (name : String) (manifest : Manifest) : List (Path × String) :=
  [(manifestFile name, manifest.text), (reportFile name, NamedSql.report [manifest])]

/-- In its directory, which is made if need be, no link stands under the two names of an output. -/
def Unlinked (fs : FileSystem) (dir : Path) (name : String) : Prop :=
  (fs.makeDirectory dir).1.UnlinkedIn dir (fileNames name)

/-- The files for `name` stand in the directory, and they are those of the manifest. -/
def Holds (fs : FileSystem) (dir : Path) (name : String) (manifest : Manifest) : Prop :=
  ∃ there, fs.LeadsTo dir there ∧
    ∀ file ∈ files name manifest, fs.HoldsAt (there ++ [file.1]) file.2

theorem unlinked_of_leadsTo {there : Location} (hd : (fs.makeDirectory dir).1.LeadsTo dir there)
    (hn : ∀ file ∈ fileNames name, (fs.makeDirectory dir).1.node? (there ++ [file]) = none) :
    Unlinked fs dir name := by
  intro place hp file hf
  obtain rfl := hp.unique hd
  exact FileSystem.unlinked_of_node?_eq_none (hn file hf)

theorem forall_mem_files {p : Path × String → Prop} :
    (∀ file ∈ files name manifest, p file) ↔
      p (manifestFile name, manifest.text) ∧ p (reportFile name, NamedSql.report [manifest]) := by
  simp [files]

theorem forall_mem_fileNames {p : Path → Prop} :
    (∀ file ∈ fileNames name, p file) ↔ p (manifestFile name) ∧ p (reportFile name) := by
  simp [fileNames]

theorem mem_fileNames_of_mem_files :
    ∀ file ∈ files name manifest, file.1 ∈ fileNames name := by
  simp [files, fileNames]

theorem isName_of_mem_fileNames (h : OutputName.fault? name = none) :
    ∀ file ∈ fileNames name, Path.IsName file :=
  have hs := OutputName.no_slash_of_fault? h
  forall_mem_fileNames.mpr
    ⟨Path.isName_append hs (by decide) (by decide), Path.isName_append hs (by decide) (by decide)⟩

/-- A manifest and a report never have one name. -/
theorem manifestFile_ne_reportFile (name other : String) :
    manifestFile name ≠ reportFile other := by
  intro h
  have hl := congrArg (fun s : String => s.toList.getLast?) (utf8Bytes_injective h)
  simp at hl

/-- The files for two names have no name in common. -/
theorem ne_of_mem_fileNames (h : name ≠ other) :
    ∀ file ∈ fileNames name, ∀ theirs ∈ fileNames other, file ≠ theirs := by
  have hjson : manifestFile name ≠ manifestFile other := fun he =>
    h ((String.append_left_inj _).mp (utf8Bytes_injective he))
  have hreport : reportFile name ≠ reportFile other := fun he =>
    h ((String.append_left_inj _).mp (utf8Bytes_injective he))
  simp only [forall_mem_fileNames]
  exact ⟨⟨hjson, manifestFile_ne_reportFile name other⟩,
    (manifestFile_ne_reportFile other name).symm, hreport⟩

theorem run_write_of_fault? {fault : OutputName.Fault} (h : OutputName.fault? name = some fault) :
    (write FileSystem.disk dir name manifest).run fs = (.error (.invalidName name fault), fs) := by
  rw [write, h]
  rfl

/-- A run goes past an action only when that succeeds. -/
theorem run_bind_eq_ok {action : StateM FileSystem (Except SystemError Unit)}
    {failure : SystemError → OutputError} {next : StateM FileSystem (Except OutputError Notice)}
    (h : (action >>= fun
      | .error cause => return .error (failure cause)
      | .ok () => next).run fs = (.ok notice, fs')) :
    ∃ fs₁, action.run fs = (.ok (), fs₁) ∧ next.run fs₁ = (.ok notice, fs') := by
  rw [FileSystem.run_bind] at h
  rcases ha : action.run fs with ⟨cause | done, fs₁⟩
  · rw [ha] at h
    cases h
  · rw [ha] at h
    exact ⟨fs₁, rfl, h⟩

theorem run_write_eq_ok (h : (write FileSystem.disk dir name manifest).run fs = (.ok notice, fs')) :
    OutputName.fault? name = none ∧ ∃ fs₁ fs₂, fs.makeDirectory dir = (fs₁, .ok ()) ∧
      fs₁.write (manifestPath dir name) manifest.text = (fs₂, .ok ()) ∧
        fs₂.write (reportPath dir name) (NamedSql.report [manifest]) = (fs', .ok ()) := by
  cases hf : OutputName.fault? name with
  | some fault =>
    rw [run_write_of_fault? hf] at h
    cases h
  | none =>
    rw [write, hf] at h
    obtain ⟨fs₁, hm, h⟩ := run_bind_eq_ok h
    obtain ⟨fs₂, hw, h⟩ := run_bind_eq_ok h
    obtain ⟨fs₃, hr, h⟩ := run_bind_eq_ok h
    obtain rfl : fs₃ = fs' := congrArg Prod.snd h
    exact ⟨rfl, fs₁, fs₂, congrArg Prod.swap hm, congrArg Prod.swap hw, congrArg Prod.swap hr⟩

/-- The files for one name hold one manifest. -/
theorem Holds.text_unique (h : Holds fs dir name manifest) (h' : Holds fs dir name written) :
    manifest.text = written.text := by
  obtain ⟨there, hd, hf⟩ := h
  obtain ⟨place, hp, hf'⟩ := h'
  obtain rfl := hd.unique hp
  obtain ⟨number, hn, hc⟩ := (forall_mem_files.mp hf).1
  obtain ⟨other, ho, hc'⟩ := (forall_mem_files.mp hf').1
  rw [hn] at ho
  cases ho
  rw [hc] at hc'
  exact Content.text.inj hc'

/-- Writing the files of an output into a directory, one after the other. -/
structure Puts (there : Location) (name : String) (manifest : Manifest)
    (fs fs₁ fs' : FileSystem) : Prop where
  text : ∃ number, FileSystem.Writes (there ++ [manifestFile name]) number (.text manifest.text)
    fs fs₁
  report : ∃ number, FileSystem.Writes (there ++ [reportFile name]) number
    (.text (NamedSql.report [manifest])) fs₁ fs'

namespace Puts
variable {there location : Location} {fs₁ : FileSystem}

theorem keeps (h : Puts there name manifest fs fs₁ fs') : FileSystem.Keeps fs fs' := by
  obtain ⟨_, ht⟩ := h.text
  obtain ⟨_, hr⟩ := h.report
  exact ht.keeps.trans hr.keeps

theorem unlinked (h : Puts there name manifest fs fs₁ fs') (hu : fs.Unlinked location) :
    fs'.Unlinked location := by
  obtain ⟨_, ht⟩ := h.text
  obtain ⟨_, hr⟩ := h.report
  exact (hu.of_writes ht).of_writes hr

theorem holdsAt (h : Puts there name manifest fs fs₁ fs')
    (hu : fs.Unlinked (there ++ [manifestFile name])) :
    ∀ file ∈ files name manifest, fs'.HoldsAt (there ++ [file.1]) file.2 := by
  obtain ⟨_, ht⟩ := h.text
  obtain ⟨_, hr⟩ := h.report
  have hne : there ++ [manifestFile name] ≠ there ++ [reportFile name] := by
    simpa using manifestFile_ne_reportFile name name
  exact forall_mem_files.mpr ⟨ht.holdsAt.of_writes (hu.of_writes ht) hne hr, hr.holdsAt⟩

/-- What another file holds it still holds. -/
theorem holdsAt_other {text : String} (h : Puts there name manifest fs fs₁ fs')
    (hu : fs.Unlinked location) (hne : ∀ file ∈ fileNames name, location ≠ there ++ [file])
    (hh : fs.HoldsAt location text) : fs'.HoldsAt location text := by
  obtain ⟨_, ht⟩ := h.text
  obtain ⟨_, hr⟩ := h.report
  obtain ⟨hm, hp⟩ := forall_mem_fileNames.mp hne
  exact (hh.of_writes hu hm ht).of_writes (hu.of_writes ht) hp hr

end Puts

theorem exists_puts_of_write (hu : Unlinked fs dir name)
    (h : (write FileSystem.disk dir name manifest).run fs = (.ok notice, fs')) :
    ∃ there fs₁, (fs.makeDirectory dir).1.LeadsTo dir there ∧
      Puts there name manifest (fs.makeDirectory dir).1 fs₁ fs' := by
  obtain ⟨hf, made, fs₁, hm, hw, hr⟩ := run_write_eq_ok h
  obtain ⟨hmanifest, hreport⟩ := forall_mem_fileNames.mp (isName_of_mem_fileNames hf)
  obtain rfl : (fs.makeDirectory dir).1 = made := congrArg Prod.fst hm
  obtain rfl : ((fs.makeDirectory dir).1.write (manifestPath dir name) manifest.text).1 = fs₁ :=
    congrArg Prod.fst hw
  have hu₁ := FileSystem.UnlinkedIn.write hu hmanifest manifest.text
  obtain ⟨there, number, hd, ht⟩ :=
    FileSystem.exists_writes_of_write_join hu (by simp [fileNames]) hmanifest hw
  obtain ⟨place, other, hp, hr⟩ :=
    FileSystem.exists_writes_of_write_join hu₁ (by simp [fileNames]) hreport hr
  obtain rfl := hp.unique (ht.keeps.leadsTo hd)
  exact ⟨place, _, hd, ⟨⟨number, ht⟩, ⟨other, hr⟩⟩⟩

theorem holds_of_write (hu : Unlinked fs dir name)
    (h : (write FileSystem.disk dir name manifest).run fs = (.ok notice, fs')) :
    Holds fs' dir name manifest := by
  obtain ⟨there, fs₁, hd, hp⟩ := exists_puts_of_write hu h
  have hplace := hu there hd _ (forall_mem_fileNames.mp fun _ h => h).1
  exact ⟨there, hp.keeps.leadsTo hd, hp.holdsAt hplace⟩

/-- Whatever output is written into the directory, no link comes into it. -/
theorem Unlinked.write {third : String} (ht : Unlinked fs dir third) (hu : Unlinked fs dir name)
    (h : (Output.write FileSystem.disk dir name manifest).run fs = (.ok notice, fs')) :
    Unlinked fs' dir third := by
  obtain ⟨there, fs₁, hd, hp⟩ := exists_puts_of_write hu h
  have hm := FileSystem.makesAlong_makeDirectory fs' dir
  exact ht.of_keeps hd (hp.keeps.trans hm.keeps) fun _ hl => (hp.unlinked hl).of_makesAlong hm

/-- The files for one name are not touched when those for another name are written. -/
theorem Holds.write (hh : Holds fs dir name manifest) (hn : Unlinked fs dir name)
    (hu : Unlinked fs dir other) (hne : name ≠ other)
    (h : (Output.write FileSystem.disk dir other written).run fs = (.ok notice, fs')) :
    Holds fs' dir name manifest := by
  obtain ⟨there, hl, hfiles⟩ := hh
  obtain ⟨place, fs₁, hd, hp⟩ := exists_puts_of_write hu h
  have hm := FileSystem.makesAlong_makeDirectory fs dir
  obtain rfl := hd.unique (hm.keeps.leadsTo hl)
  refine ⟨place, hp.keeps.leadsTo hd, fun file hf => ?_⟩
  have hname := mem_fileNames_of_mem_files file hf
  refine hp.holdsAt_other (hn place hd _ hname) (fun theirs ht => ?_)
    ((hfiles file hf).of_makesAlong hm)
  simpa using ne_of_mem_fileNames hne file.1 hname theirs ht

end Output

namespace Command
variable {fs fs' : FileSystem} {dir : Path} {notices : List Notice}

theorem run_writeJobs_cons {job : Job} {rest : List Job}
    (h : (writeJobs FileSystem.disk dir (job :: rest)).run fs = ((notices, .ok ()), fs')) :
    ∃ notice more fs₁,
      (Output.write FileSystem.disk dir job.stem job.manifest).run fs = (.ok notice, fs₁) ∧
        (writeJobs FileSystem.disk dir rest).run fs₁ = ((more, .ok ()), fs') := by
  rw [writeJobs, FileSystem.run_bind] at h
  rcases hw : (Output.write FileSystem.disk dir job.stem job.manifest).run fs with
    ⟨error | notice, fs₁⟩
  · rw [hw] at h
    cases h
  rw [hw] at h
  simp only [FileSystem.run_bind] at h
  rcases hr : (writeJobs FileSystem.disk dir rest).run fs₁ with ⟨⟨more, result⟩, fs₂⟩
  rw [hr] at h
  cases h
  exact ⟨notice, more, fs₁, rfl, hr⟩

/-- Files stay while jobs are written, unless a job of that stem has another manifest. -/
theorem holds_of_run_writeJobs {stem : String} {manifest : Manifest} {jobs : List Job}
    (hh : Output.Holds fs dir stem manifest) (hs : Output.Unlinked fs dir stem)
    (hu : ∀ job ∈ jobs, Output.Unlinked fs dir job.stem)
    (hj : ∀ job ∈ jobs, job.stem = stem → job.manifest = manifest)
    (h : (writeJobs FileSystem.disk dir jobs).run fs = ((notices, .ok ()), fs')) :
    Output.Holds fs' dir stem manifest := by
  induction jobs generalizing fs notices with
  | nil =>
    cases h
    exact hh
  | cons job rest ih =>
    obtain ⟨notice, more, fs₁, hw, hr⟩ := run_writeJobs_cons h
    obtain ⟨hjob, hrest⟩ := List.forall_mem_cons.mp hj
    obtain ⟨hfirst, hu⟩ := List.forall_mem_cons.mp hu
    have hkept : ∀ later ∈ rest, Output.Unlinked fs₁ dir later.stem := fun later hl =>
      (hu later hl).write hfirst hw
    refine ih ?_ (hs.write hfirst hw) hkept hrest hr
    -- A job of the same stem writes what is there already.
    by_cases he : job.stem = stem
    · rw [← he, ← hjob he]
      exact Output.holds_of_write hfirst hw
    · exact hh.write hs hfirst (Ne.symm he) hw

/-- When all jobs were written, each finds its manifest and its report, unless a later job of the
same stem has another manifest. -/
theorem holds_of_mem_writeJobs {front back : List Job} {job : Job}
    (hu : ∀ each ∈ front ++ job :: back, Output.Unlinked fs dir each.stem)
    (hj : ∀ later ∈ back, later.stem = job.stem → later.manifest = job.manifest)
    (h : (writeJobs FileSystem.disk dir (front ++ job :: back)).run fs = ((notices, .ok ()), fs')) :
    Output.Holds fs' dir job.stem job.manifest := by
  induction front generalizing fs notices with
  | nil =>
    obtain ⟨notice, more, fs₁, hw, hr⟩ := run_writeJobs_cons h
    obtain ⟨hfirst, hback⟩ := List.forall_mem_cons.mp hu
    exact holds_of_run_writeJobs (Output.holds_of_write hfirst hw) (hfirst.write hfirst hw)
      (fun later hl => (hback later hl).write hfirst hw) hj hr
  | cons first front ih =>
    obtain ⟨notice, more, fs₁, hw, hr⟩ := run_writeJobs_cons h
    obtain ⟨hfirst, hrest⟩ := List.forall_mem_cons.mp hu
    exact ih (fun each he => (hrest each he).write hfirst hw) hr

end Command

end NamedSql
