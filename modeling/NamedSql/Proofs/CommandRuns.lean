import NamedSql.Proofs.CommandInputs

namespace NamedSql.Command

namespace Arguments

/-- The arguments that name inputs and nothing else. -/
def ofInputs (inputs : List Path) : Arguments :=
  { empty with inputs := inputs }

/-- The directory for the output. -/
def outputDirectory (a : Arguments) : Path :=
  a.outputDir.getD defaultOutputDir

end Arguments

/-- The outcome of the command on a file system, and the file system that it leaves. -/
def result (fs : FileSystem) (words : List Path) : Outcome × FileSystem :=
  (run FileSystem.disk words).run fs

/-- The command fails, prints nothing and touches no file. -/
structure Rejects (fs : FileSystem) (words : List Path) : Prop where
  code : (result fs words).1.code = 2
  stdout : (result fs words).1.stdout = ""
  files : (result fs words).2 = fs

theorem Rejects.code_ne_zero {fs : FileSystem} {words : List Path} (h : Rejects fs words) :
    (result fs words).1.code ≠ 0 := by
  rw [h.code]
  decide

/-- What a dry run prints: the manifests in their order, each with a line feed. -/
def printed (manifests : List Manifest) : String :=
  String.join (manifests.map fun manifest => manifest.text ++ "\n")

variable {fs fs' : FileSystem} {a : Arguments} {words paths : List Path} {jobs : List Job}
  {notices : List Notice}

theorem result_eq {performed : Except Failure String} (h : Arguments.read words = .run a)
    (hp : (perform FileSystem.disk a).run fs = ((notices, performed), fs')) :
    result fs words = (Outcome.ofResult a.verbose notices performed, fs') := by
  rw [result, run, h]
  simp only [FileSystem.run_bind, hp]
  rfl

theorem run_perform_eq (hp : (prepare FileSystem.disk a).run fs = ((notices, .ok jobs), fs)) :
    (perform FileSystem.disk a).run fs =
      if a.dryRun then ((notices, .ok (printed (jobs.map Job.manifest))), fs)
      else
        let written := (writeJobs FileSystem.disk a.outputDirectory jobs).run fs
        ((notices ++ written.1.1, written.1.2.map fun () => ""), written.2) := by
  rw [perform, FileSystem.run_bind, hp]
  dsimp only
  split
  · rw [printed, List.map_map]
    rfl
  · rw [FileSystem.run_bind]
    rfl

theorem Ready.run_prepare (h : Ready fs a paths jobs) :
    ∃ notices, (prepare FileSystem.disk a).run fs = ((notices, .ok jobs), fs) := by
  have hj := run_prepare_fst_eq_ok_iff.mpr ⟨paths, h⟩
  have hfs := run_prepare_snd fs a
  rcases hp : (prepare FileSystem.disk a).run fs with ⟨⟨notices, _⟩, _⟩
  rw [hp] at hj hfs
  cases hj
  cases hfs
  exact ⟨notices, rfl⟩

/-- A run whose inputs are not ready is rejected. -/
theorem ready_or_rejects (fs : FileSystem) (h : Arguments.read words = .run a) :
    (∃ paths jobs, Ready fs a paths jobs) ∨ Rejects fs words := by
  have hfs := run_prepare_snd fs a
  rcases hp : (prepare FileSystem.disk a).run fs with ⟨⟨notices, failure | jobs⟩, fs₁⟩
  · rw [hp] at hfs
    have hperform : (perform FileSystem.disk a).run fs = ((notices, .error failure), fs₁) := by
      rw [perform, FileSystem.run_bind, hp]
      rfl
    have hr := result_eq h hperform
    exact .inr ⟨by rw [hr]; rfl, by rw [hr]; rfl, by rw [hr]; exact hfs⟩
  · obtain ⟨paths, hready⟩ := run_prepare_fst_eq_ok_iff.mp (congrArg (·.1.2) hp)
    exact .inl ⟨paths, jobs, hready⟩

/-- Any other run that succeeds has written its jobs. -/
theorem Ready.run_writeJobs (hr : Ready fs a paths jobs) (h : Arguments.read words = .run a)
    (hd : a.dryRun = false) (hc : (result fs words).1.code = 0) :
    ∃ notices, (writeJobs FileSystem.disk a.outputDirectory jobs).run fs =
      ((notices, .ok ()), (result fs words).2) := by
  obtain ⟨notices, hp⟩ := hr.run_prepare
  have hperform := run_perform_eq hp
  rw [hd, if_neg Bool.false_ne_true] at hperform
  have hres := result_eq h hperform
  rw [hres] at hc ⊢
  rcases hw : (writeJobs FileSystem.disk a.outputDirectory jobs).run fs with
    ⟨⟨more, failure | done⟩, fs₁⟩
  · rw [hw] at hc
    exact absurd hc (by decide : (2 : UInt32) ≠ 0)
  · exact ⟨more, rfl⟩

theorem Ready.gives {path : Path} (hr : Ready fs a paths jobs) (hm : path ∈ paths) :
    ∃ manifest, Gives fs a.policy path manifest := by
  obtain ⟨front, back, rfl⟩ := List.append_of_mem hm
  obtain ⟨-, job, -, -, hp, -⟩ := exists_job_of_forall₂ hr.prepared
  exact ⟨job.manifest, hp.2⟩

/-- When all jobs were written, the last input of a stem finds its manifest and its report. -/
theorem holds_of_last {front back : List Path} {path dir : Path} {manifest : Manifest}
    (hj : List.Forall₂ (Prepares fs a.policy) (front ++ path :: back) jobs)
    (hu : ∀ input ∈ front ++ path :: back, Output.Unlinked fs dir (outputStem input))
    (hlast : ∀ later ∈ back, outputStem later = outputStem path → later = path)
    (hg : Gives fs a.policy path manifest)
    (hw : (writeJobs FileSystem.disk dir jobs).run fs = ((notices, .ok ()), fs')) :
    Output.Holds fs' dir (outputStem path) manifest := by
  have hunlinked : ∀ job ∈ jobs, Output.Unlinked fs dir job.stem := by
    intro job hm
    obtain ⟨input, hi, hstem, -⟩ := exists_input_of_forall₂ hj hm
    exact hstem ▸ hu input hi
  obtain ⟨before, job, after, rfl, ⟨hs, hp⟩, hback⟩ := exists_job_of_forall₂ hj
  rw [← hs, hg.unique hp]
  refine holds_of_mem_writeJobs hunlinked (fun later hl hsame => ?_) hw
  obtain ⟨other, ho, hstem, hother⟩ := exists_input_of_forall₂ hback hl
  have heq : other = path := hlast other ho (hstem.symm.trans (hsame.trans hs))
  rw [heq] at hother
  exact hother.unique hp

/-- The location of names that are text. -/
def locationOf (names : List String) : Location :=
  names.map utf8Bytes

/-- In a run that succeeds, each input gives a manifest, and the last one of its stem finds it. No
link may stand under the names of the outputs. -/
theorem exists_holds_of_last {fs : FileSystem} {words front back : List Path} {path : Path}
    {a : Arguments} (h : Arguments.read words = .run a) (hd : a.dryRun = false)
    (hc : (result fs words).1.code = 0) (hi : Inputs fs a (front ++ path :: back))
    (hu : ∀ input ∈ front ++ path :: back,
      Output.Unlinked fs a.outputDirectory (outputStem input))
    (hlast : ∀ later ∈ back, outputStem later = outputStem path → later = path) :
    ∃ manifest, Gives fs a.policy path manifest ∧
      Output.Holds (result fs words).2 a.outputDirectory (outputStem path) manifest := by
  rcases ready_or_rejects fs h with ⟨paths, jobs, hr⟩ | hr
  · obtain rfl := hr.inputs.unique hi
    obtain ⟨notices, hw⟩ := hr.run_writeJobs h hd hc
    obtain ⟨manifest, hg⟩ := hr.gives (List.mem_append_right front List.mem_cons_self)
    exact ⟨manifest, hg, holds_of_last hr.prepared hu hlast hg hw⟩
  · exact absurd hc hr.code_ne_zero

/-- Two templates of one stem, one of them in a directory. -/
def twinFiles : FileSystem where
  workingDirectory := locationOf ["w"]
  nodes := [(locationOf ["w"], .directory), (locationOf ["w", "a.sql"], .file 0),
    (locationOf ["w", "x"], .directory), (locationOf ["w", "x", "a.sql"], .file 1)]
  contents := [(0, .text "SELECT 1"), (1, .text "SELECT 2")]

theorem exists_holds_of_last_twinFiles :
    let words := ["x/a.sql", "a.sql"].map utf8Bytes
    Arguments.read words = .run (.ofInputs words) ∧ (result twinFiles words).1.code = 0 ∧
      ∃ manifest, Gives twinFiles .strip (utf8Bytes "a.sql") manifest ∧
        Output.Holds (result twinFiles words).2 defaultOutputDir "a" manifest := by
  intro words
  have hread : Arguments.read words = .run (.ofInputs words) := by decide +kernel
  have hcode : (result twinFiles words).1.code = 0 := by decide +kernel
  have hstem : outputStem (utf8Bytes "a.sql") = "a" := by decide +kernel
  have hinputs : Inputs twinFiles (.ofInputs words)
      ([utf8Bytes "x/a.sql"] ++ [utf8Bytes "a.sql"]) := .named rfl
  have hunlinked : ∀ path ∈ [utf8Bytes "x/a.sql"] ++ [utf8Bytes "a.sql"],
      Output.Unlinked twinFiles defaultOutputDir (outputStem path) := by
    have hd : (twinFiles.makeDirectory defaultOutputDir).1.LeadsTo defaultOutputDir
        (locationOf ["w", "sql2bind-output"]) := by decide +kernel
    have hn : ∀ path ∈ [utf8Bytes "x/a.sql"] ++ [utf8Bytes "a.sql"],
        ∀ file ∈ Output.fileNames (outputStem path),
          (twinFiles.makeDirectory defaultOutputDir).1.node?
            (locationOf ["w", "sql2bind-output"] ++ [file]) = none := by decide +kernel
    exact fun path hp => Output.unlinked_of_leadsTo hd (hn path hp)
  have hlast := exists_holds_of_last hread rfl hcode hinputs hunlinked (by simp)
  rw [hstem] at hlast
  exact ⟨hread, hcode, hlast⟩

/-- An input does not always find its files: those of a later input of the same stem replace them,
and the run still succeeds. -/
theorem not_all_inputs_hold :
    ¬ ∀ (fs : FileSystem) (words paths : List Path) (a : Arguments),
      Arguments.read words = .run a → a.dryRun = false → (result fs words).1.code = 0 →
        Inputs fs a paths → ∀ path ∈ paths, ∃ manifest, Gives fs a.policy path manifest ∧
          Output.Holds (result fs words).2 a.outputDirectory (outputStem path) manifest := by
  intro h
  let words := ["a.sql", "x/a.sql"].map utf8Bytes
  have hread : Arguments.read words = .run (.ofInputs words) := by decide +kernel
  have hcode : (result twinFiles words).1.code = 0 := by decide +kernel
  have hall := h twinFiles _ _ _ hread rfl hcode (.named rfl)
  obtain ⟨manifest, hg, hh⟩ := hall (utf8Bytes "a.sql") List.mem_cons_self
  obtain ⟨other, hg', hh'⟩ := hall (utf8Bytes "x/a.sql") (List.mem_cons_of_mem _ List.mem_cons_self)
  have hstem : outputStem (utf8Bytes "a.sql") = outputStem (utf8Bytes "x/a.sql") := by
    decide +kernel
  -- One file would hold both manifests, and these differ in their sources.
  have htext : manifest.text = other.text := by
    rw [hstem] at hh
    exact hh.text_unique hh'
  obtain ⟨content, template, hr, hp, rfl⟩ := hg
  obtain ⟨content', template', hr', hp', rfl⟩ := hg'
  obtain rfl : "SELECT 1" = content := Reading.text.inj (.trans (by decide +kernel) hr)
  obtain rfl : "SELECT 2" = content' := Reading.text.inj (.trans (by decide +kernel) hr')
  have hne : (Template.parse .strip "SELECT 1").toOption.map
        (fun template => (Manifest.ofTemplate template (Path.display (utf8Bytes "a.sql"))
          (outputStem (utf8Bytes "a.sql"))).text) ≠
      (Template.parse .strip "SELECT 2").toOption.map
        (fun template => (Manifest.ofTemplate template (Path.display (utf8Bytes "x/a.sql"))
          (outputStem (utf8Bytes "x/a.sql"))).text) := by
    decide +kernel
  change Template.parse .strip _ = _ at hp hp'
  rw [hp, hp'] at hne
  exact hne (congrArg some htext)

end NamedSql.Command
