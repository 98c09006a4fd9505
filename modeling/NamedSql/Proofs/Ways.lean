import NamedSql.FileSystem

namespace NamedSql

namespace Path

/-- A name that something in a directory can have. -/
structure IsName (name : Path) : Prop where
  ne_nil : name ≠ []
  no_slash : slash ∉ name
  ne_here : name ≠ here
  ne_upper : name ≠ upper

theorem segments_of_not_mem {path : Path} (h : slash ∉ path) : segments path = [path] := by
  induction path with
  | nil => rfl
  | cons b bs ih =>
    simp only [List.mem_cons, not_or] at h
    rw [segments, if_neg (Ne.symm h.1), ih h.2]

theorem segments_ne_nil (path : Path) : segments path ≠ [] := by
  cases path with
  | nil => exact List.cons_ne_nil _ _
  | cons b bs =>
    rw [segments]
    split
    · exact List.cons_ne_nil _ _
    · split <;> exact List.cons_ne_nil _ _

theorem segments_append_slash (front back : Path) :
    segments (front ++ slash :: back) = segments front ++ segments back := by
  induction front with
  | nil => rfl
  | cons b bs ih =>
    rw [List.cons_append, segments, segments, ih]
    split
    · rfl
    · obtain ⟨s, rest, hs⟩ := List.exists_cons_of_ne_nil (segments_ne_nil bs)
      simp only [hs, List.cons_append]

theorem names_append_slash (front back : Path) :
    names (front ++ slash :: back) = names front ++ names back := by
  simp [names, segments_append_slash]

theorem names_of_isName {name : Path} (h : IsName name) : names name = [name] := by
  simp [names, segments_of_not_mem h.no_slash, h.ne_nil]

theorem names_join (dir : Path) {name : Path} (h : IsName name) :
    names (join dir name) = names dir ++ [name] := by
  rw [join]
  split
  · rename_i hd
    rcases Bool.or_eq_true_iff.mp hd with hd | hd
    · rw [List.isEmpty_iff.mp hd, List.nil_append, names_of_isName h]
      rfl
    · -- A slash between two parts of a path does not count when there is one already.
      obtain ⟨front, rfl⟩ := List.getLast?_eq_some_iff.mp (eq_of_beq hd)
      rw [List.append_assoc, List.singleton_append, names_append_slash, names_append_slash,
        names_of_isName h]
      simp [names, segments]
  · rw [names_append_slash, names_of_isName h]

theorem isAbsolute_join (dir : Path) {name : Path} (h : IsName name) :
    isAbsolute (join dir name) = isAbsolute dir := by
  cases dir with
  | nil =>
    obtain ⟨b, bs, rfl⟩ := List.exists_cons_of_ne_nil h.ne_nil
    have hb : b ≠ slash := fun he => h.no_slash (he ▸ List.mem_cons_self)
    simp [isAbsolute, join, hb]
  | cons b bs =>
    rw [join]
    split <;> rfl

theorem endsInSlash_join (dir : Path) {name : Path} (h : IsName name) :
    endsInSlash (join dir name) = false := by
  obtain ⟨front, hf⟩ : ∃ front, join dir name = front ++ name := by
    rw [join]
    split
    · exact ⟨dir, rfl⟩
    · exact ⟨dir ++ [slash], by simp⟩
  have hl := List.getLast?_eq_some_getLast h.ne_nil
  have hs : name.getLast h.ne_nil ≠ slash := fun he => h.no_slash (he ▸ List.getLast_mem _)
  simp [endsInSlash, hf, List.getLast?_append, hl, hs]

theorem steps_join (dir : Path) {name : Path} (h : IsName name) :
    steps (join dir name) = names dir ++ [name] := by
  rw [steps, endsInSlash_join dir h, names_join dir h]
  rfl

end Path

namespace FileSystem

/-- What follows an action runs on the files that the action leaves. -/
theorem run_bind {α β : Type} (action : StateM FileSystem α) (next : α → StateM FileSystem β)
    (fs : FileSystem) :
    (action >>= next).run fs = (next (action.run fs).1).run (action.run fs).2 := rfl

variable {fs fs' : FileSystem} {here there location : Location} {name path : Path}
  {names : List Path} {links : Nat}

theorem directory_of_step (h : fs.step here name = .ok there) :
    fs.node? here = some .directory := by
  rw [step] at h
  split at h
  · assumption
  · cases h
  · cases h

theorem step_isName (hn : Path.IsName name) (h : fs.step here name = .ok there) :
    there = here ++ [name] := by
  simp only [step, directory_of_step h, hn.ne_here, hn.ne_upper, if_false] at h
  split at h
  · cases h
  · split at h <;> cases h
    rfl

/-- The way that names take from a directory, through no more than the given number of links. -/
inductive Leads (fs : FileSystem) : Nat → Location → List Path → Location → Prop
  | nil {links : Nat} {here : Location} : Leads fs links here [] here
  | step {links : Nat} {here there location : Location} {name : Path} {rest : List Path}
      (hs : fs.step here name = .ok there) (hn : ∀ target, fs.node? there ≠ some (.link target))
      (hr : Leads fs links there rest location) : Leads fs links here (name :: rest) location
  | jump {links : Nat} {here there location : Location} {name target : Path} {rest : List Path}
      (hs : fs.step here name = .ok there) (hl : fs.node? there = some (.link target))
      (hr : Leads fs links (startFrom here target) (Path.steps target ++ rest) location) :
      Leads fs (links + 1) here (name :: rest) location

theorem leads_of_walk {jump : Location → List Path → Except SystemError Location}
    (h : fs.walk jump here names = .ok location)
    (hj : ∀ base rest, jump base rest = .ok location →
      ∃ fewer, links = fewer + 1 ∧ Leads fs fewer base rest location) :
    Leads fs links here names location := by
  induction names generalizing here with
  | nil =>
    cases h
    exact .nil
  | cons name rest ih =>
    rw [walk] at h
    cases hs : fs.step here name with
    | error cause =>
      rw [hs] at h
      cases h
    | ok there =>
      rw [hs] at h
      dsimp only at h
      split at h
      · rename_i target hl
        obtain ⟨fewer, rfl, hr⟩ := hj _ _ h
        exact .jump hs hl hr
      · rename_i hn
        exact .step hs hn (ih h)

theorem leads_of_followThrough (h : fs.followThrough links here names = .ok location) :
    Leads fs links here names location := by
  induction links generalizing here names with
  | zero => exact leads_of_walk h fun _ _ hr => nomatch hr
  | succ links ih => exact leads_of_walk h fun _ _ hr => ⟨links, rfl, ih hr⟩

theorem Leads.followThrough (h : Leads fs links here names location) :
    fs.followThrough links here names = .ok location := by
  induction h with
  | @nil links => cases links <;> rfl
  | @step links _ there _ _ _ hs hn _ ih =>
    cases links <;>
    · rw [FileSystem.followThrough, walk, hs]
      dsimp only
      split
      · exact absurd ‹_› (hn _)
      · exact ih
  | jump hs hl _ ih =>
    rw [FileSystem.followThrough, walk, hs]
    simp only [hl]
    exact ih

theorem follow_eq_ok_iff :
    fs.follow here names = .ok location ↔ Leads fs maxLinks here names location :=
  ⟨leads_of_followThrough, Leads.followThrough⟩

theorem Leads.exists_of_append {front back : List Path}
    (h : Leads fs links here (front ++ back) location) :
    ∃ fewer there, Leads fs links here front there ∧ Leads fs fewer there back location := by
  generalize hn : front ++ back = names at h
  induction h generalizing front with
  | @nil links here =>
    obtain ⟨rfl, rfl⟩ := List.append_eq_nil_iff.mp hn
    exact ⟨links, here, .nil, .nil⟩
  | @step links here _ _ name rest hs hnl hr ih =>
    cases front with
    | nil =>
      cases hn
      exact ⟨links, here, .nil, .step hs hnl hr⟩
    | cons first front =>
      obtain ⟨rfl, hrest⟩ := List.cons.inj hn
      obtain ⟨fewer, there, hf, hb⟩ := ih hrest
      exact ⟨fewer, there, .step hs hnl hf, hb⟩
  | @jump links here _ _ name target rest hs hl hr ih =>
    cases front with
    | nil =>
      cases hn
      exact ⟨links + 1, here, .nil, .jump hs hl hr⟩
    | cons first front =>
      obtain ⟨rfl, hrest⟩ := List.cons.inj hn
      obtain ⟨fewer, there, hf, hb⟩ := ih ((List.append_assoc ..).trans (congrArg _ hrest))
      exact ⟨fewer, there, .jump hs hl hf, hb⟩

theorem Leads.concat (h : Leads fs links here names there) (hs : fs.step there name = .ok location)
    (hn : ∀ target, fs.node? location ≠ some (.link target)) :
    Leads fs links here (names ++ [name]) location := by
  induction h with
  | nil => exact .step hs hn .nil
  | step hs' hn' _ ih => exact .step hs' hn' (ih hs)
  | jump hs' hl _ ih => exact .jump hs' hl (List.append_assoc .. ▸ ih hs)

/-- The path leads to the location, past directories and through links. -/
def LeadsTo (fs : FileSystem) (path : Path) (location : Location) : Prop :=
  fs.follow (fs.start path) (Path.names path) = .ok location

/-- Some of the first names of the path lead to the location. -/
def OnWay (fs : FileSystem) (path : Path) (location : Location) : Prop :=
  ∃ front, front <+: Path.parts path ∧ fs.follow (fs.start path) front = .ok location

instance (fs : FileSystem) (path : Path) (location : Location) :
    Decidable (fs.LeadsTo path location) :=
  match h : fs.follow (fs.start path) (Path.names path) with
  | .ok there => decidable_of_iff (there = location) (by simp [LeadsTo, h])
  | .error _ => .isFalse (by simp [LeadsTo, h])

theorem LeadsTo.unique (h : fs.LeadsTo path here) (h' : fs.LeadsTo path there) : here = there :=
  Except.ok.inj (h.symm.trans h')

theorem locate_eq_ok_iff :
    fs.locate path = .ok location ↔ checkPath path = .ok () ∧ path ≠ [] ∧
      fs.follow (fs.start path) (Path.steps path) = .ok location := by
  rw [locate]
  cases checkPath path with
  | error cause => simp [bind, Except.bind]
  | ok u =>
    by_cases hp : path = []
    · subst hp
      simp [bind, Except.bind, throw, throwThe, MonadExceptOf.throw]
    · simp [bind, Except.bind, hp]

/-- A path in a directory leads to the place of its name there, unless a link stands there. -/
theorem exists_leadsTo_of_locate_join {dir : Path} (hn : Path.IsName name)
    (h : fs.locate (Path.join dir name) = .ok location) :
    ∃ there, fs.LeadsTo dir there ∧
      ((∀ target, fs.node? (there ++ [name]) ≠ some (.link target)) →
        location = there ++ [name]) := by
  obtain ⟨-, -, hf⟩ := locate_eq_ok_iff.mp h
  rw [Path.steps_join dir hn, start, startFrom, Path.isAbsolute_join dir hn, follow_eq_ok_iff] at hf
  obtain ⟨fewer, there, hd, hl⟩ := hf.exists_of_append
  refine ⟨there, follow_eq_ok_iff.mpr hd, fun hplain => ?_⟩
  cases hl with
  | step hs _ hr =>
    cases hr
    exact step_isName hn hs
  | jump hs hl _ =>
    rw [step_isName hn hs] at hl
    exact absurd hl (hplain _)

/-- Whatever stands somewhere in `fs` stands there in `fs'`, no link is new, and relative paths
begin where they did. -/
structure Keeps (fs fs' : FileSystem) : Prop where
  start : fs'.workingDirectory = fs.workingDirectory
  trouble : fs'.trouble = fs.trouble
  nodes : ∀ location node, fs.node? location = some node → fs'.node? location = some node
  links : ∀ location target, fs'.node? location = some (.link target) →
    fs.node? location = some (.link target)

namespace Keeps

theorem refl (fs : FileSystem) : Keeps fs fs :=
  ⟨rfl, rfl, fun _ _ h => h, fun _ _ h => h⟩

theorem trans {fs₁ : FileSystem} (h : Keeps fs fs₁) (h' : Keeps fs₁ fs') : Keeps fs fs' where
  start := h'.start.trans h.start
  trouble := h'.trouble.trans h.trouble
  nodes location node hn := h'.nodes location node (h.nodes location node hn)
  links location target hl := h.links location target (h'.links location target hl)

theorem step (h : Keeps fs fs') (hs : fs.step here name = .ok there) :
    fs'.step here name = .ok there := by
  have hd := directory_of_step hs
  rw [FileSystem.step, h.nodes here _ hd, h.trouble]
  rwa [FileSystem.step, hd] at hs

theorem leads (h : Keeps fs fs') (hl : Leads fs links here names location) :
    Leads fs' links here names location := by
  induction hl with
  | nil => exact .nil
  | step hs hn _ ih => exact .step (h.step hs) (fun target ht => hn target (h.links _ _ ht)) ih
  | jump hs hl _ ih => exact .jump (h.step hs) (h.nodes _ _ hl) ih

theorem follow (h : Keeps fs fs') (hf : fs.follow here names = .ok location) :
    fs'.follow here names = .ok location :=
  follow_eq_ok_iff.mpr (h.leads (follow_eq_ok_iff.mp hf))

theorem start_eq (h : Keeps fs fs') (path : Path) : fs'.start path = fs.start path := by
  rw [FileSystem.start, FileSystem.start, h.start]

theorem leadsTo (h : Keeps fs fs') (hl : fs.LeadsTo path location) : fs'.LeadsTo path location := by
  rw [LeadsTo, h.start_eq]
  exact h.follow hl

theorem onWay (h : Keeps fs fs') (ho : fs.OnWay path location) : fs'.OnWay path location := by
  obtain ⟨front, hp, hf⟩ := ho
  refine ⟨front, hp, ?_⟩
  rw [h.start_eq]
  exact h.follow hf

theorem locate (h : Keeps fs fs') (hl : fs.locate path = .ok location) :
    fs'.locate path = .ok location := by
  obtain ⟨hc, hp, hf⟩ := locate_eq_ok_iff.mp hl
  refine locate_eq_ok_iff.mpr ⟨hc, hp, h.follow ?_⟩
  rwa [h.start_eq]

/-- Only a location at which nothing stands can get something new. -/
theorem node?_eq_none (h : Keeps fs fs') (hn : fs'.node? location ≠ fs.node? location) :
    fs.node? location = none := by
  cases hs : fs.node? location with
  | none => rfl
  | some node => exact absurd ((h.nodes location node hs).trans hs.symm) hn

end Keeps

theorem keeps_put {node : Node} (h : fs.node? location = none)
    (hn : ∀ target, node ≠ .link target) : Keeps fs (fs.put location node) := by
  have hroot := ne_nil_of_node?_eq_none h
  refine ⟨rfl, rfl, fun other there ho => ?_, fun other target ho => ?_⟩
  · have hne : other ≠ location := by
      rintro rfl
      rw [h] at ho
      cases ho
    rwa [node?_put_of_ne fs node hne]
  · by_cases hne : other = location
    · rw [hne, node?_put_self fs node hroot] at ho
      exact absurd (Option.some.inj ho) (hn target)
    · rwa [node?_put_of_ne fs node hne] at ho

end FileSystem

end NamedSql
