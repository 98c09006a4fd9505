import Mathlib.Data.List.Forall2
import NamedSql.Proofs.OutputFiles

namespace NamedSql.Path

theorem le_total (p q : Path) : le p q ∨ le q p := by
  induction p generalizing q with
  | nil => exact .inl rfl
  | cons a as ih =>
    cases q with
    | nil => exact .inr rfl
    | cons b bs =>
      rcases Nat.lt_trichotomy a.toNat b.toNat with h | h | h
      · exact .inl (by simp [le, h])
      · obtain rfl := UInt8.toNat_inj.mp h
        simpa [le] using ih bs
      · exact .inr (by simp [le, h])

theorem le_antisymm {p q : Path} (h : le p q) (h' : le q p) : p = q := by
  induction p generalizing q with
  | nil =>
    cases q with
    | nil => rfl
    | cons => cases h'
  | cons a as ih =>
    cases q with
    | nil => cases h
    | cons b bs =>
      simp only [le, Bool.or_eq_true, decide_eq_true_eq, Bool.and_eq_true, beq_iff_eq] at h h'
      rcases h with h | ⟨rfl, h⟩
      · rcases h' with h' | ⟨rfl, -⟩
        · exact absurd h (Nat.lt_asymm h')
        · exact absurd h (Nat.lt_irrefl _)
      · rcases h' with h' | ⟨-, h'⟩
        · exact absurd h' (Nat.lt_irrefl _)
        · rw [ih h h']

theorem le_trans {p q r : Path} (h : le p q) (h' : le q r) : le p r := by
  induction p generalizing q r with
  | nil => rfl
  | cons a as ih =>
    cases q with
    | nil => cases h
    | cons b bs =>
      cases r with
      | nil => cases h'
      | cons c cs =>
        simp only [le, Bool.or_eq_true, decide_eq_true_eq, Bool.and_eq_true, beq_iff_eq] at h h' ⊢
        rcases h with h | ⟨rfl, h⟩
        · rcases h' with h' | ⟨rfl, -⟩
          · exact .inl (Nat.lt_trans h h')
          · exact .inl h
        · rcases h' with h' | ⟨rfl, h'⟩
          · exact .inl h'
          · exact .inr ⟨rfl, ih h h'⟩

end NamedSql.Path

namespace NamedSql.Command

/-- What becomes of comments in a run with these arguments. -/
def Arguments.policy (a : Arguments) : CommentPolicy :=
  if a.keepComments then .keep else .strip

/-- The inputs of a run: those that are named, then the SQL files of the template directory, sorted
by their paths. An entry of the directory that fails is no input. -/
inductive Inputs (fs : FileSystem) (a : Arguments) : List Path → Prop
  | named (absent : a.templateDir = none) : Inputs fs a a.inputs
  | found {dir : Path} {entries : List (Except SystemError Path)} {paths : List Path}
      (given : a.templateDir = some dir) (listed : fs.list dir = .ok entries)
      (perm : paths.Perm
        (((entries.filterMap Except.toOption).map (Path.join dir)).filter Path.isSql))
      (sorted : paths.Pairwise fun p q => Path.le p q) : Inputs fs a (a.inputs ++ paths)

/-- The file under a path is a template, and this is its manifest. -/
def Gives (fs : FileSystem) (policy : CommentPolicy) (path : Path) (manifest : Manifest) : Prop :=
  ∃ content template, fs.read path = .text content ∧ Template.parse policy content = .ok template ∧
    manifest = .ofTemplate template (Path.display path) (outputStem path)

/-- The job that an input gives. -/
def Prepares (fs : FileSystem) (policy : CommentPolicy) (path : Path) (job : Job) : Prop :=
  job.stem = outputStem path ∧ Gives fs policy path job.manifest

/-- The inputs of a run all give manifests, and these are its jobs. -/
structure Ready (fs : FileSystem) (a : Arguments) (paths : List Path) (jobs : List Job) :
    Prop where
  nonempty : paths ≠ []
  inputs : Inputs fs a paths
  prepared : List.Forall₂ (Prepares fs a.policy) paths jobs

variable {fs : FileSystem} {policy : CommentPolicy} {a : Arguments}

theorem sqlFiles_perm (dir : Path) (names : List Path) :
    (sqlFiles dir names).Perm ((names.map (Path.join dir)).filter Path.isSql) :=
  List.mergeSort_perm ..

theorem pairwise_sqlFiles (dir : Path) (names : List Path) :
    (sqlFiles dir names).Pairwise fun p q => Path.le p q := by
  have htrans (p q r : Path) (h : Path.le p q = true) (h' : Path.le q r = true) :
      Path.le p r = true := Path.le_trans h h'
  have htotal (p q : Path) : (Path.le p q || Path.le q p) = true := by
    simpa using Path.le_total p q
  exact List.pairwise_mergeSort htrans htotal _

/-- The order of the inputs leaves no choice. -/
theorem Inputs.unique {paths others : List Path} (h : Inputs fs a paths)
    (ho : Inputs fs a others) : paths = others := by
  cases h with
  | named absent =>
    cases ho with
    | named => rfl
    | found given => rw [absent] at given; cases given
  | found given listed perm sorted =>
    cases ho with
    | named absent => rw [absent] at given; cases given
    | found given' listed' perm' sorted' =>
      rw [given] at given'
      cases given'
      rw [listed] at listed'
      cases listed'
      have hperm := perm.trans perm'.symm
      rw [hperm.eq_of_pairwise (fun _ _ _ _ => Path.le_antisymm) sorted sorted']

theorem run_findInputs_snd (fs : FileSystem) (a : Arguments) :
    ((findInputs FileSystem.disk a).run fs).2 = fs := by
  rw [findInputs]
  split
  · rfl
  · rw [FileSystem.run_bind, FileSystem.run_list]
    split <;> rfl

theorem run_findInputs_fst_eq_ok_iff {paths : List Path} :
    ((findInputs FileSystem.disk a).run fs).1 = .ok paths ↔ Inputs fs a paths := by
  have hfound : ∀ paths, ((findInputs FileSystem.disk a).run fs).1 = .ok paths →
      Inputs fs a paths := by
    intro paths h
    rw [findInputs] at h
    split at h
    · cases h
      exact .named ‹_›
    · rename_i dir hd
      rw [FileSystem.run_bind, FileSystem.run_list] at h
      split at h
      · cases h
      · rename_i entries hl
        cases h
        exact .found hd hl (sqlFiles_perm dir _) (pairwise_sqlFiles dir _)
  refine ⟨hfound paths, fun h => ?_⟩
  cases hr : ((findInputs FileSystem.disk a).run fs).1 with
  | ok others => rw [(hfound others hr).unique h]
  | error failure =>
    rw [findInputs] at hr
    cases h with
    | named absent =>
      rw [absent] at hr
      cases hr
    | found given listed =>
      simp only [given, FileSystem.run_bind, FileSystem.run_list, listed] at hr
      cases hr

theorem Gives.unique {path : Path} {manifest other : Manifest}
    (h : Gives fs policy path manifest) (ho : Gives fs policy path other) : manifest = other := by
  obtain ⟨content, template, hr, hp, rfl⟩ := h
  obtain ⟨content', template', hr', hp', rfl⟩ := ho
  rw [hr] at hr'
  cases hr'
  rw [hp] at hp'
  cases hp'
  rfl

theorem ofReading_snd_eq_ok_iff {path : Path} {job : Job} :
    (Job.ofReading policy path (fs.read path)).2 = .ok job ↔ Prepares fs policy path job := by
  constructor
  · intro h
    cases hr : fs.read path with
    | missing =>
      rw [hr] at h
      cases h
    | unreadable cause =>
      rw [hr] at h
      cases h
    | text content =>
      rw [hr] at h
      simp only [Job.ofReading, Template.ofReading] at h
      cases hp : Template.parse policy content with
      | error error =>
        rw [hp] at h
        cases h
      | ok template =>
        rw [hp] at h
        cases h
        exact ⟨rfl, content, template, hr, hp, rfl⟩
  · rintro ⟨hs, content, template, hr, hp, hm⟩
    obtain ⟨stem, manifest⟩ := job
    dsimp only at hs hm
    subst hs hm
    rw [hr]
    simp only [Job.ofReading, Template.ofReading, hp]
    rfl

theorem run_readJobs_snd (fs : FileSystem) (policy : CommentPolicy) (paths : List Path) :
    ((readJobs FileSystem.disk policy paths).run fs).2 = fs := by
  induction paths with
  | nil => rfl
  | cons path rest ih =>
    rw [readJobs, FileSystem.run_bind, FileSystem.run_read]
    split
    · rfl
    · rw [FileSystem.run_bind]
      exact ih

/-- All inputs are read exactly when each of them gives its job. -/
theorem run_readJobs_fst_eq_ok_iff {paths : List Path} {jobs : List Job} :
    ((readJobs FileSystem.disk policy paths).run fs).1.2 = .ok jobs ↔
      List.Forall₂ (Prepares fs policy) paths jobs := by
  induction paths generalizing jobs with
  | nil =>
    rw [List.forall₂_nil_left_iff]
    exact ⟨fun h => by cases h; rfl, fun h => by rw [h]; rfl⟩
  | cons path rest ih =>
    rw [readJobs, FileSystem.run_bind, FileSystem.run_read, List.forall₂_cons_left_iff]
    simp only [← ofReading_snd_eq_ok_iff, ← ih]
    rcases hj : Job.ofReading policy path (fs.read path) with ⟨notices, failure | job⟩
    · constructor
      · intro h
        cases h
      · rintro ⟨job, others, ⟨⟩, -⟩
    · simp only [FileSystem.run_bind]
      rcases hr : (readJobs FileSystem.disk policy rest).run fs with ⟨⟨more, failure | others⟩, fs₁⟩
      · constructor
        · intro h
          cases h
        · rintro ⟨first, others, -, ⟨⟩, -⟩
      · constructor
        · intro h
          cases h
          exact ⟨job, others, rfl, rfl, rfl⟩
        · rintro ⟨first, remaining, ⟨⟩, ⟨⟩, rfl⟩
          rfl

/-- An input and its job stand at the same place. -/
theorem exists_job_of_forall₂ {front back : List Path} {path : Path} {jobs : List Job}
    (h : List.Forall₂ (Prepares fs policy) (front ++ path :: back) jobs) :
    ∃ before job after, jobs = before ++ job :: after ∧ Prepares fs policy path job ∧
      List.Forall₂ (Prepares fs policy) back after := by
  induction front generalizing jobs with
  | nil =>
    cases h with
    | @cons _ job _ after hp hb => exact ⟨[], job, after, rfl, hp, hb⟩
  | cons first front ih =>
    cases h with
    | @cons _ other _ _ _ hf =>
      obtain ⟨before, job, after, rfl, hp, hb⟩ := ih hf
      exact ⟨other :: before, job, after, rfl, hp, hb⟩

theorem exists_input_of_forall₂ {paths : List Path} {jobs : List Job} {job : Job}
    (h : List.Forall₂ (Prepares fs policy) paths jobs) (hm : job ∈ jobs) :
    ∃ path ∈ paths, Prepares fs policy path job := by
  induction h with
  | nil => cases hm
  | @cons path _ _ _ hp _ ih =>
    rcases List.mem_cons.mp hm with rfl | hm
    · exact ⟨path, List.mem_cons_self, hp⟩
    · obtain ⟨other, ho, hp⟩ := ih hm
      exact ⟨other, List.mem_cons_of_mem _ ho, hp⟩

theorem run_prepare_snd (fs : FileSystem) (a : Arguments) :
    ((prepare FileSystem.disk a).run fs).2 = fs := by
  rw [prepare, FileSystem.run_bind, run_findInputs_snd]
  split
  · rfl
  · rfl
  · exact run_readJobs_snd ..

/-- The jobs of a run are those of its inputs, in their order. There must be some. -/
theorem run_prepare_fst_eq_ok_iff {jobs : List Job} :
    ((prepare FileSystem.disk a).run fs).1.2 = .ok jobs ↔ ∃ paths, Ready fs a paths jobs := by
  rw [prepare, FileSystem.run_bind, run_findInputs_snd]
  cases hf : ((findInputs FileSystem.disk a).run fs).1 with
  | error failure =>
    constructor
    · intro h
      cases h
    · rintro ⟨paths, hready⟩
      rw [run_findInputs_fst_eq_ok_iff.mpr hready.inputs] at hf
      cases hf
  | ok found =>
    have hi := run_findInputs_fst_eq_ok_iff.mp hf
    cases found with
    | nil =>
      constructor
      · intro h
        cases h
      · rintro ⟨paths, hready⟩
        exact absurd (hready.inputs.unique hi) hready.nonempty
    | cons path rest =>
      constructor
      · intro h
        exact ⟨path :: rest, List.cons_ne_nil _ _, hi, run_readJobs_fst_eq_ok_iff.mp h⟩
      · rintro ⟨paths, hready⟩
        have hp := hready.prepared
        rw [hready.inputs.unique hi] at hp
        exact run_readJobs_fst_eq_ok_iff.mpr hp

end NamedSql.Command
