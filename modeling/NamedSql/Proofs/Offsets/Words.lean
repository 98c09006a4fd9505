import NamedSql.Proofs.FirstAppearance
import NamedSql.Proofs.Offsets.Statements
import NamedSql.Proofs.ParameterRuns
import NamedSql.Token

namespace NamedSql.Offsets

/-- Where a run of bytes ends that pass the test. It does not go on behind `stop`. -/
def runEnd (test : Char → Bool) (text : List Char) (stop pos : Nat) : Option Nat :=
  if pos < stop then do
    if test (← byteAt? text pos) then runEnd test text stop (pos + 1) else return pos
  else return pos
termination_by stop - pos

/-- Whether a parameter begins at a colon. -/
def startsParameter (text : List Char) (colon : Nat) : Option Bool := do
  let cast ← afterByte (· == ':') text colon
  return !cast && (byteAt? text (colon + 1)).any isIdentifierStart

/-- Puts a name behind those found before it, unless it is one of them. -/
def addName (names : List (List Char)) (name : List Char) : List (List Char) :=
  if names.contains name then names else names ++ [name]

/-- The names found before, and those between two offsets. -/
def namesFrom (text : List Char) (stop pos : Nat) (names : List (List Char)) :
    Option (List (List Char)) :=
  if pos < stop then do
    let starts ← if (← byteAt? text pos) = ':' then startsParameter text pos else some false
    if starts then
      let last ← runEnd isIdentifierRest text stop (pos + 1)
      let name ← slice? text (pos + 1) last
      let next ← ahead? pos last
      namesFrom text stop next (addName names name)
    else namesFrom text stop (pos + 1) names
  else return names
termination_by stop - pos
decreasing_by
  · have := next.2
    omega
  · omega

/-- The names found before, and those in a segment. -/
def namesIn (text : List Char) (names : List (List Char)) :
    SegmentAt → Option (List (List Char))
  | .code start stop => namesFrom text stop start names
  | .region _ => return names

/-- The parameters of a text. -/
def parameters (text : List Char) : Option (List (List Char)) := do
  (← segments text).foldlM (namesIn text) []

/-- The tokens between two offsets. -/
def tokensFrom (text : List Char) (stop pos : Nat) : Option (List Token) :=
  if pos < stop then do
    let b ← byteAt? text pos
    if Token.inWord b then
      let last ← runEnd Token.inWord text stop pos
      let word ← slice? text pos last
      let next ← ahead? pos last
      return .word word :: (← tokensFrom text stop next)
    else return (Token.ofChar? b).toList ++ (← tokensFrom text stop (pos + 1))
  else return []
termination_by stop - pos
decreasing_by
  · have := next.2
    omega
  · omega

/-- The tokens of a segment. -/
def tokensIn (text : List Char) : SegmentAt → Option (List Token)
  | .code start stop => tokensFrom text stop start
  | .region r => return if r.kind.isComment then [] else [.other]

/-- The tokens of a text. -/
def tokens (text : List Char) : Option (List Token) := do
  return (← (← segments text).mapM (tokensIn text)).flatten

variable {before chars after : List Char} {test : Char → Bool}

theorem runEnd_append {wide : Bool} (ht : ∀ c : Char, 128 ≤ c.toNat → test c = wide)
    (before chars after : List Char) :
    runEnd test (before ++ (chars ++ after)) (byteLength (before ++ chars)) (byteLength before) =
      some (byteLength (before ++ chars.takeWhile test)) := by
  induction chars generalizing before with
  | nil =>
    rw [List.append_nil, runEnd, if_neg (Nat.lt_irrefl _)]
    simp
  | cons c cs ih =>
    by_cases hc : test c
    · have hskip : runEnd test (before ++ c :: (cs ++ after)) (byteLength (before ++ c :: cs))
          (byteLength before) = runEnd test (before ++ c :: (cs ++ after))
            (byteLength (before ++ c :: cs)) (byteLength (before ++ [c])) := by
        apply skip_char
        intro i hi b hb hof
        have hlt : byteLength before + i < byteLength (before ++ c :: cs) := by
          simp
          omega
        rw [runEnd, if_pos hlt, hb, Option.bind_eq_bind, Option.bind_some, hof.congr ht, if_pos hc]
      have hnext := ih (before ++ [c])
      simp only [List.append_assoc, List.singleton_append] at hnext
      rw [List.cons_append, hskip, hnext, List.takeWhile_cons_of_pos hc]
    · obtain ⟨b, hb, hof⟩ := exists_byteAt? before (cs ++ after) c.utf8Size_pos
      rw [Nat.add_zero] at hb
      rw [List.cons_append, runEnd, if_pos (lt_byteLength_append before c cs), hb,
        Option.bind_eq_bind, Option.bind_some, hof.congr ht, if_neg hc,
        List.takeWhile_cons_of_neg hc, List.append_nil]
      rfl

theorem inWord_wide (c : Char) (h : 128 ≤ c.toNat) : Token.inWord c = true := by
  simp [Token.inWord, h]

theorem tokensFrom_append (before chars after : List Char) :
    tokensFrom (before ++ (chars ++ after)) (byteLength (before ++ chars)) (byteLength before) =
      some (Token.ofCode chars) := by
  fun_induction Token.ofCode chars generalizing before with
  | case1 =>
    rw [List.append_nil, tokensFrom, if_neg (Nat.lt_irrefl _)]
    rfl
  | case2 c cs hc _ ih =>
    obtain ⟨b, hb, hof⟩ := exists_byteAt? before (cs ++ after) c.utf8Size_pos
    have hrun := runEnd_append inWord_wide before (c :: cs) after
    rw [List.takeWhile_cons_of_pos hc] at hrun
    have hword := slice?_append before (c :: cs.takeWhile Token.inWord)
      (cs.dropWhile Token.inWord ++ after)
    have hnext := ih (before ++ c :: cs.takeWhile Token.inWord)
    have hcs : cs.takeWhile Token.inWord ++ cs.dropWhile Token.inWord = cs :=
      List.takeWhile_append_dropWhile
    simp only [List.append_assoc, List.cons_append, ← byteLength_append, hcs,
      ← List.append_assoc (cs.takeWhile Token.inWord)] at hrun hword hnext ⊢
    rw [Nat.add_zero] at hb
    rw [tokensFrom, if_pos (lt_byteLength_append before c cs), hb, Option.bind_eq_bind,
      Option.bind_some, hof.congr inWord_wide, if_pos hc]
    simp only [Option.bind_eq_bind, Option.bind_some, hrun, hword, hnext,
      ahead?_of_lt (lt_byteLength_append before c _)]
    rfl
  | case3 c cs hc ih =>
    obtain ⟨b, hb, hof⟩ := exists_byteAt? before (cs ++ after) c.utf8Size_pos
    rw [Nat.add_zero] at hb
    obtain ⟨rfl, hascii⟩ : b = c ∧ c.toNat < 128 := by
      rcases hof with h | ⟨-, hwide⟩
      · exact h
      · exact absurd (inWord_wide c hwide) hc
    have hnext := ih (before ++ [b])
    simp only [List.append_assoc, List.singleton_append] at hnext
    rw [List.cons_append, tokensFrom, if_pos (lt_byteLength_append before b cs), hb,
      Option.bind_eq_bind, Option.bind_some, if_neg hc, ← byteLength_concat hascii, hnext]
    rfl

theorem tokens_eq (text : List Char) : tokens text = some (Token.ofText text) := by
  have h : (located .origin (Segment.ofText text)).mapM (tokensIn text) =
      some ((Segment.ofText text).map Token.ofSegment) := by
    apply mapM_located
    intro front s back hs
    rw [eq_append_of_ofText hs]
    cases s with
    | code chars =>
      have := tokensFrom_append (Segment.join front) chars (Segment.join back)
      rw [byteLength_append] at this
      exact this
    | region r => rfl
  rw [tokens, segments_eq, Option.bind_eq_bind, Option.bind_some, h, Token.ofText, List.flatMap_def]
  rfl

theorem startsParameter_append (before rest : List Char) :
    startsParameter (before ++ ':' :: rest) (byteLength before) =
      some (!before.getLast?.any (· == ':') && rest.head?.any isIdentifierStart) := by
  have hcolon : (':').toNat < 128 := by decide
  have hwide (c : Char) (h : 128 ≤ c.toNat) : (c == ':') = false := by
    refine beq_eq_false_iff_ne.mpr ?_
    rintro rfl
    exact Nat.not_lt_of_le h hcolon
  have hnext : (byteAt? (before ++ ':' :: rest) (byteLength before + 1)).any isIdentifierStart =
      rest.head?.any isIdentifierStart := by
    rw [← byteLength_concat hcolon, ← List.singleton_append, ← List.append_assoc]
    cases rest with
    | nil =>
      rw [List.append_nil, byteAt?_end]
      rfl
    | cons c cs =>
      obtain ⟨b, hb, hof⟩ := exists_byteAt? (before ++ [':']) cs c.utf8Size_pos
      rw [Nat.add_zero] at hb
      rw [hb, Option.any_some, hof.congr isIdentifierStart_wide]
      rfl
  rw [startsParameter, afterByte_append hwide, Option.bind_eq_bind, Option.bind_some, hnext]
  rfl

theorem namesFrom_colon {text : List Char} {stop pos : Nat} {names : List (List Char)}
    {starts : Bool} (h : pos < stop) (hb : byteAt? text pos = some ':')
    (hs : startsParameter text pos = some starts) : namesFrom text stop pos names =
      if starts then do
        let last ← runEnd isIdentifierRest text stop (pos + 1)
        let name ← slice? text (pos + 1) last
        let next ← ahead? pos last
        namesFrom text stop next (addName names name)
      else namesFrom text stop (pos + 1) names := by
  rw [namesFrom, if_pos h, hb, Option.bind_eq_bind, Option.bind_some, if_pos rfl, hs]
  rfl

theorem namesFrom_skip {c : Char} (hc : c ≠ ':') {before after : List Char} {stop : Nat}
    (hs : byteLength (before ++ [c]) ≤ stop) (names : List (List Char)) :
    namesFrom (before ++ c :: after) stop (byteLength before) names =
      namesFrom (before ++ c :: after) stop (byteLength (before ++ [c])) names := by
  apply skip_char (f := fun pos => namesFrom (before ++ c :: after) stop pos names)
  intro i hi b hb hof
  have hlt : byteLength before + i < stop := by
    rw [byteLength_append, byteLength_cons] at hs
    omega
  have hne : b ≠ ':' := fun he => hc ((hof.eq_iff (by decide)).mp he)
  rw [namesFrom, if_pos hlt, hb, Option.bind_eq_bind, Option.bind_some, if_neg hne]
  rfl

theorem namesFrom_run {run : List Char} (hr : ∀ c ∈ run, c ≠ ':') {before : List Char}
    (after : List Char) {stop : Nat} (hs : byteLength (before ++ run) ≤ stop)
    (names : List (List Char)) :
    namesFrom (before ++ (run ++ after)) stop (byteLength before) names =
      namesFrom (before ++ (run ++ after)) stop (byteLength (before ++ run)) names := by
  induction run generalizing before with
  | nil => rw [List.append_nil]
  | cons c cs ih =>
    rw [List.forall_mem_cons] at hr
    have hle : byteLength (before ++ [c]) ≤ stop := by
      simp at hs ⊢
      omega
    have happ : before ++ c :: cs = (before ++ [c]) ++ cs := by simp
    have hnext := ih hr.2 (happ ▸ hs)
    simp only [List.append_assoc, List.singleton_append] at hnext
    rw [List.cons_append, namesFrom_skip hr.1 hle, hnext]

theorem isIdentifierRest_wide (c : Char) (h : 128 ≤ c.toNat) : isIdentifierRest c = false := by
  refine Bool.eq_false_iff.mpr fun hn => ?_
  exact Nat.not_lt_of_le h (toNat_of_isNameChar (isNameChar_of_rest hn))

/-- A name is cut out where its run ends. The loop goes on behind it, and could as well go on behind
the colon. -/
theorem namesFrom_name {before chars after : List Char} {d : Char} {ds : List Char}
    (hchars : chars = d :: ds) (hd : isIdentifierStart d)
    (hstarts : startsParameter (before ++ ':' :: (chars ++ after)) (byteLength before) = some true)
    (names : List (List Char)) :
    namesFrom (before ++ ':' :: (chars ++ after)) (byteLength (before ++ ':' :: chars))
      (byteLength before) names =
        namesFrom (before ++ ':' :: (chars ++ after)) (byteLength (before ++ ':' :: chars))
          (byteLength (before ++ [':'])) (addName names (chars.takeWhile isIdentifierRest)) := by
  have hbyte : byteAt? (before ++ ':' :: (chars ++ after)) (byteLength before) = some ':' :=
    (byteAt?_eq_some_iff (by decide)).mpr rfl
  have hrun := runEnd_append isIdentifierRest_wide (before ++ [':']) chars after
  have hsplit := List.takeWhile_append_dropWhile (p := isIdentifierRest) (l := chars)
  have hall : ∀ c ∈ chars.takeWhile isIdentifierRest, c ≠ ':' := by
    intro c hc
    have hrest := List.all_eq_true.mp List.all_takeWhile c hc
    rintro rfl
    exact absurd hrest (by decide)
  have hne : chars.takeWhile isIdentifierRest ≠ [] := by
    rw [hchars, List.takeWhile_cons_of_pos (isIdentifierRest_of_start hd)]
    exact List.cons_ne_nil _ _
  generalize chars.takeWhile isIdentifierRest = name at *
  generalize chars.dropWhile isIdentifierRest = rest at *
  obtain rfl := hsplit
  have hslice := slice?_append (before ++ [':']) name (rest ++ after)
  have hle : byteLength ((before ++ [':']) ++ name) ≤
      byteLength ((before ++ [':']) ++ (name ++ rest)) := by
    rw [← List.append_assoc, byteLength_append _ rest]
    exact Nat.le_add_right ..
  have hback := namesFrom_run hall (rest ++ after) hle (addName names name)
  have hahead : byteLength before < byteLength ((before ++ [':']) ++ name) := by
    have := byteLength_pos hne
    simp
    omega
  rw [← byteLength_append] at hslice
  simp only [List.append_assoc, List.singleton_append] at hrun hslice hback hahead hstarts hbyte ⊢
  rw [namesFrom_colon (lt_byteLength_append before ':' _) hbyte hstarts, if_pos rfl,
    ← byteLength_concat (show (':').toNat < 128 by decide), hrun]
  simp only [Option.bind_eq_bind, Option.bind_some, hslice, ahead?_of_lt hahead]
  exact hback.symm

/-- A colon gives the name behind it unless it follows another colon. -/
theorem parametersOfCode_colon (before : Option Char) (cs : List Char) :
    parametersOfCode before (':' :: cs) =
      (if !before.any (· == ':') && cs.head?.any isIdentifierStart then
        [cs.takeWhile isIdentifierRest] else []) ++ parametersOfCode (some ':') cs := by
  have hcast : before.any (· == ':') ↔ before = some ':' := by cases before <;> simp
  have hname : (identifierAt? cs).toList =
      if cs.head?.any isIdentifierStart then [cs.takeWhile isIdentifierRest] else [] := by
    cases cs with
    | nil => rfl
    | cons c cs =>
      rw [identifierAt?, List.head?_cons, Option.any_some]
      split <;> rfl
  rw [parametersOfCode]
  by_cases hb : before = some ':'
  · rw [if_neg fun h => h.2 hb, hcast.mpr hb]
    rfl
  · rw [if_pos ⟨rfl, hb⟩, hname, Bool.eq_false_iff.mpr fun h => hb (hcast.mp h)]
    rfl

/-- The names in code are added one by one. A name goes no further than the code. -/
theorem namesFrom_append {after : List Char} (ha : ∀ c ∈ after.head?, isIdentifierStart c = false)
    (before chars : List Char) (names : List (List Char)) :
    namesFrom (before ++ (chars ++ after)) (byteLength (before ++ chars)) (byteLength before)
      names = some ((parametersOfCode before.getLast? chars).foldl addName names) := by
  induction chars generalizing before names with
  | nil =>
    rw [List.append_nil, namesFrom, if_neg (Nat.lt_irrefl _)]
    rfl
  | cons c cs ih =>
    have hlast : (before ++ [c]).getLast? = some c := by simp
    have hnext (names : List (List Char)) := ih (before ++ [c]) names
    simp only [List.append_assoc, List.singleton_append, hlast] at hnext
    rw [List.cons_append]
    by_cases hc : c = ':'
    · subst hc
      have hbyte : byteAt? (before ++ ':' :: (cs ++ after)) (byteLength before) = some ':' :=
        (byteAt?_eq_some_iff (by decide)).mpr rfl
      have hhead : (cs ++ after).head?.any isIdentifierStart = cs.head?.any isIdentifierStart := by
        cases cs with
        | nil => simpa [Option.any_eq_false] using ha
        | cons d ds => rfl
      have hstarts := startsParameter_append before (cs ++ after)
      rw [hhead] at hstarts
      rw [parametersOfCode_colon]
      cases hflag : !before.getLast?.any (· == ':') && cs.head?.any isIdentifierStart with
      | true =>
        rw [hflag] at hstarts
        obtain ⟨d, hhead, hd⟩ := (Option.any_eq_true ..).mp (Bool.and_eq_true_iff.mp hflag).2
        obtain ⟨ds, hcs⟩ := List.head?_eq_some_iff.mp hhead
        rw [namesFrom_name hcs hd hstarts, hnext]
        rfl
      | false =>
        rw [hflag] at hstarts
        rw [namesFrom_colon (lt_byteLength_append before ':' cs) hbyte hstarts,
          if_neg Bool.false_ne_true, ← byteLength_concat (show (':').toNat < 128 by decide), hnext]
        rfl
    · have hle : byteLength (before ++ [c]) ≤ byteLength (before ++ c :: cs) := by simp
      rw [namesFrom_skip hc hle, hnext, parametersOfCode, if_neg fun h => hc h.1]

theorem addName_eraseDups (found : List (List Char)) (name : List Char) :
    addName found.eraseDups name = (found ++ [name]).eraseDups := by
  rw [addName, eraseDups_concat]
  simp

/-- Adding names one by one, each unless it is there, drops the repetitions. -/
theorem foldl_addName (names found : List (List Char)) :
    names.foldl addName found.eraseDups = (found ++ names).eraseDups := by
  induction names generalizing found with
  | nil => rw [List.foldl_nil, List.append_nil]
  | cons name names ih =>
    rw [List.foldl_cons, addName_eraseDups, ih, List.append_assoc, List.singleton_append]

theorem namesIn_ofSegment {text : List Char} {front back : List Segment} {s : Segment}
    (h : Segment.ofText text = front ++ s :: back) (names : List (List Char)) :
    namesIn text names (.ofSegment (byteLength (Segment.join front)) s) =
      some (s.parameters.foldl addName names) := by
  cases s with
  | region r => rfl
  | code chars =>
    have hafter : ∀ c ∈ (Segment.join back).head?, isIdentifierStart c = false := fun c hc =>
      not_isIdentifierStart (Segment.isIdentifierRest_head?_join h c hc)
    have hnames := namesFrom_append hafter (Segment.join front) chars names
    rw [parametersOfCode_congr (Segment.getLast?_ne_colon h), byteLength_append] at hnames
    rw [eq_append_of_ofText h]
    exact hnames

/-- The parameters are those of the text. -/
theorem parameters_eq (text : List Char) : parameters text = some (parametersOfText text) := by
  have hfold : (located .origin (Segment.ofText text)).foldlM (namesIn text) [] =
      some ((Segment.ofText text).foldl (fun names s => s.parameters.foldl addName names) []) :=
    foldlM_located (fun _ _ _ h names => namesIn_ofSegment h names) []
  rw [parameters, segments_eq, Option.bind_eq_bind, Option.bind_some, hfold, ← List.foldl_flatMap]
  exact congrArg some (foldl_addName _ [])

end NamedSql.Offsets
