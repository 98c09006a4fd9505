import NamedSql.Proofs.Ways

namespace NamedSql.FileSystem
variable {fs fs' : FileSystem} {here there location : Location} {name : Path} {names : List Path}
  {number : Nat}

/-- From `fs` to `fs'` nothing changes but that directories are made which some of the first names
lead to. -/
structure MakesAlong (start : Location) (names : List Path) (fs fs' : FileSystem) : Prop where
  keeps : Keeps fs fs'
  contents : ∀ number, fs'.content number = fs.content number
  made : ∀ location, fs'.node? location ≠ fs.node? location →
    fs'.node? location = some .directory ∧
      ∃ front, front <+: names ∧ fs'.follow start front = .ok location

namespace MakesAlong
variable {start : Location}

theorem refl (start : Location) (names : List Path) (fs : FileSystem) :
    MakesAlong start names fs fs :=
  ⟨.refl fs, fun _ => rfl, fun _ h => absurd rfl h⟩

theorem trans {fs₁ : FileSystem} (h : MakesAlong start names fs fs₁)
    (h' : MakesAlong start names fs₁ fs') : MakesAlong start names fs fs' := by
  refine ⟨h.keeps.trans h'.keeps, fun number => (h'.contents number).trans (h.contents number),
    fun location hl => ?_⟩
  by_cases hs : fs'.node? location = fs₁.node? location
  · -- Only the first change is seen here, and the second keeps the ways to it.
    obtain ⟨hd, front, hp, hf⟩ := h.made location (hs ▸ hl)
    exact ⟨hs.trans hd, front, hp, h'.keeps.follow hf⟩
  · exact h'.made location hs

theorem of_prefix {longer : List Path} (h : MakesAlong start names fs fs') (hp : names <+: longer) :
    MakesAlong start longer fs fs' := by
  refine ⟨h.keeps, h.contents, fun location hl => ?_⟩
  obtain ⟨hd, front, hf, hw⟩ := h.made location hl
  exact ⟨hd, front, hf.trans hp, hw⟩

end MakesAlong

theorem makesAlong_make (fs : FileSystem) (start : Location) (front : List Path) (name : Path) :
    MakesAlong start (front ++ [name]) fs (fs.make start front name).1 := by
  rw [make]
  split
  · exact .refl ..
  · rename_i here hf
    split
    · exact .refl ..
    · rename_i there hs
      split
      · exact .refl ..
      · rename_i hnode
        split
        · exact .refl ..
        · have hnone : fs.node? there = none := by simpa using hnode
          have hk : Keeps fs (fs.put there .directory) := keeps_put hnone (fun _ h => nomatch h)
          have hself := node?_put_self fs .directory (ne_nil_of_node?_eq_none hnone)
          refine ⟨hk, fun _ => rfl, fun location hl => ?_⟩
          obtain rfl : location = there :=
            Decidable.byContradiction fun hne => hl (node?_put_of_ne fs .directory hne)
          refine ⟨hself, front ++ [name], List.prefix_refl _, follow_eq_ok_iff.mpr ?_⟩
          refine (hk.leads (follow_eq_ok_iff.mp hf)).concat (hk.step hs) fun target ht => ?_
          rw [hself] at ht
          cases ht

theorem makesAlong_ensure (fs : FileSystem) (start : Location) (front : List Path) (name : Path) :
    MakesAlong start (front ++ [name]) fs (fs.ensure start front name).1 := by
  have hm := makesAlong_make fs start front name
  rw [ensure]
  split
  · rename_i made h
    rwa [h] at hm
  · exact .refl ..

theorem makesAlong_makeAfter {start : Location} {front : List Path} {name : Path}
    {above : FileSystem × Except SystemError Unit} (h : MakesAlong start front fs above.1) :
    MakesAlong start (front ++ [name]) fs (fs.makeAfter start front name above).1 := by
  unfold makeAfter
  split
  · split
    · exact h.of_prefix (List.prefix_append ..)
    · exact (h.of_prefix (List.prefix_append ..)).trans (makesAlong_ensure ..)
  · exact makesAlong_ensure ..

theorem makesAlong_makeAll (fs : FileSystem) (start : Location) (names : List Path) :
    MakesAlong start names.reverse fs (fs.makeAll start names).1 := by
  induction names with
  | nil => exact .refl ..
  | cons name above ih =>
    rw [makeAll, List.reverse_cons]
    exact makesAlong_makeAfter ih

/-- A dot names a directory that is there already. -/
theorem make_here (fs : FileSystem) (start : Location) (front : List Path) :
    ∃ cause, fs.make start front Path.here = (fs, .error cause) := by
  rw [make]
  split
  · exact ⟨_, rfl⟩
  · rename_i here hf
    split
    · exact ⟨_, rfl⟩
    · rename_i there hs
      have hd := directory_of_step hs
      obtain rfl : there = here := by
        simp only [step, hd, if_true] at hs
        split at hs <;> cases hs
        rfl
      rw [hd]
      exact ⟨_, rfl⟩

theorem ensure_here (fs : FileSystem) (start : Location) (front : List Path) :
    (fs.ensure start front Path.here).1 = fs := by
  obtain ⟨cause, h⟩ := make_here fs start front
  rw [ensure, h]

theorem makesAlong_makeDirectory (fs : FileSystem) (path : Path) :
    MakesAlong (fs.start path) (Path.parts path) fs (fs.makeDirectory path).1 := by
  have hall (names : List Path) (hp : names <+: Path.parts path) :
      MakesAlong (fs.start path) (Path.parts path) fs
        (fs.makeAll (fs.start path) names.reverse).1 := by
    have h := makesAlong_makeAll fs (fs.start path) names.reverse
    rw [List.reverse_reverse] at h
    exact h.of_prefix hp
  rw [makeDirectory]
  split
  · exact .refl ..
  · split
    · have h := hall _ (List.dropLast_prefix _)
      generalize fs.makeAll (fs.start path) (Path.parts path).dropLast.reverse = above at h
      unfold makeAfter
      split
      · split
        · exact h
        · rwa [ensure_here]
      · rw [ensure_here]
        exact .refl ..
    · exact hall _ (List.prefix_refl _)

/-- From `fs` to `fs'` the file at the location gets a content. It is made if nothing was there. -/
structure Writes (location : Location) (number : Nat) (content : Content)
    (fs fs' : FileSystem) : Prop where
  keeps : Keeps fs fs'
  node : fs'.node? location = some (.file number)
  others : ∀ other, other ≠ location → fs'.node? other = fs.node? other
  content : fs'.content number = content
  contents : ∀ other, other ≠ number → fs'.content other = fs.content other
  /-- A file that is made is a new one. -/
  known : fs.node? location = some (.file number) ∨ ∀ other, fs.node? other ≠ some (.file number)

theorem writes_fill (h : fs.node? location = some (.file number)) (content : Content) :
    Writes location number content fs (fs.fill number content) where
  keeps := ⟨rfl, rfl, fun _ _ hn => hn, fun _ _ hl => hl⟩
  node := h
  others _ _ := rfl
  content := content_fill_self ..
  contents _ hne := content_fill_of_ne fs content hne
  known := .inl h

theorem writes_put_fill (h : fs.node? location = none) (content : Content) :
    Writes location fs.fresh content fs
      ((fs.put location (.file fs.fresh)).fill fs.fresh content) := by
  have hk : Keeps fs (fs.put location (.file fs.fresh)) := keeps_put h (fun _ h => nomatch h)
  have hself := node?_put_self fs (.file fs.fresh) (ne_nil_of_node?_eq_none h)
  have hw := writes_fill hself content
  exact {
    keeps := hk.trans hw.keeps
    node := hw.node
    others := fun other hne => (hw.others other hne).trans (node?_put_of_ne fs _ hne)
    content := hw.content
    contents := hw.contents
    known := .inr fs.node?_ne_fresh }

/-- A write changes nothing, or it changes the file that the path leads to. Only when it succeeds
the file has the whole text for sure. -/
theorem write_cases (fs : FileSystem) (path : Path) (text : String) :
    (∃ cause, fs.write path text = (fs, .error cause)) ∨
      ∃ location number content, fs.locate path = .ok location ∧
        Writes location number content fs (fs.write path text).1 ∧
          ((fs.write path text).2 = .ok () → content = .text text) := by
  rw [write]
  split
  · exact .inl ⟨_, rfl⟩
  · rename_i location hl
    split
    · rename_i hn
      split
      · exact .inl ⟨_, rfl⟩
      · rw [overwrite]
        split
        · exact .inr ⟨location, _, _, hl, writes_put_fill hn _, fun h => nomatch h⟩
        · exact .inr ⟨location, _, _, hl, writes_put_fill hn _, fun _ => rfl⟩
    · rename_i number hn
      split
      · exact .inl ⟨_, rfl⟩
      · rw [overwrite]
        split
        · exact .inr ⟨location, _, _, hl, writes_fill hn _, fun h => nomatch h⟩
        · exact .inr ⟨location, _, _, hl, writes_fill hn _, fun _ => rfl⟩
    · exact .inl ⟨_, rfl⟩

end NamedSql.FileSystem
