import NamedSql.Proofs.Offsets.Text

namespace NamedSql.Offsets

/-- A region by its first and its past-the-last byte. -/
structure RegionAt where
  kind : Region.Kind
  start : Nat
  stop : Nat
  terminated : Bool
deriving DecidableEq

/-- Where a quoted region ends whose content goes on at `pos`, and whether its last quote is
there. -/
def quotedEnd (text : List Char) (quote : Char) (pos : Nat) : Nat × Bool :=
  match h : byteAt? text pos with
  | none => (byteLength text, false)
  | some b =>
    have := lt_of_byteAt? h
    if b = quote then
      if byteAt? text (pos + 1) = some quote then quotedEnd text quote (pos + 2)
      else (pos + 1, true)
    else quotedEnd text quote (pos + 1)
termination_by byteLength text - pos

/-- Where the dollar sign stands behind a tag that goes on at `pos`. -/
def tagEnd? (text : List Char) (pos : Nat) : Option Nat :=
  match h : byteAt? text pos with
  | none => none
  | some b =>
    have := lt_of_byteAt? h
    if b = '$' then some pos
    else if isNameChar b then tagEnd? text (pos + 1)
    else none
termination_by byteLength text - pos

/-- Whether the byte in front of an offset passes the test. There is none in front of the first. -/
def afterByte (test : Char → Bool) (text : List Char) (pos : Nat) : Option Bool :=
  if 0 < pos then do
    return test (← byteAt? text (← sub? pos 1))
  else return false

/-- The length of the delimiter of a dollar-quoted block that begins at a dollar sign, if any. -/
def delimiterLength (text : List Char) (start : Nat) : Option (Option Nat) := do
  let inName ← afterByte isNameChar text start
  if inName then return none
  else if byteAt? text (start + 1) = some '$' then return some 2
  else if (byteAt? text (start + 1)).any isIdentifierStart then
    match tagEnd? text (start + 2) with
    | some pos => return some (← sub? (pos + 1) start)
    | none => return none
  else return none

/-- The region between quotes that begins at an offset. -/
def quotedRegion (kind : Region.Kind) (quote : Char) (text : List Char) (start : Nat) : RegionAt :=
  let found := quotedEnd text quote (start + 1)
  ⟨kind, start, found.1, found.2⟩

/-- The region that begins at `start`, goes on at `body` and ends behind the closing delimiter. -/
def delimitedRegion (kind : Region.Kind) (closing text : List Char) (start body : Nat) : RegionAt :=
  match findFrom? text body closing with
  | some close => ⟨kind, start, close + byteLength closing, true⟩
  | none => ⟨kind, start, byteLength text, false⟩

/-- The comment that begins at an offset and ends with its line. -/
def lineComment (text : List Char) (start : Nat) : RegionAt :=
  let stop := (findFrom? text (start + 2) ['\n']).getD (byteLength text)
  ⟨.lineComment, start, stop, true⟩

/-- The dollar-quoted block that begins at a dollar sign, if any. -/
def dollarRegion (text : List Char) (start : Nat) : Option (Option RegionAt) := do
  match ← delimiterLength text start with
  | none => return none
  | some n =>
    let delimiter ← slice? text start (start + n)
    let tag ← slice? delimiter 1 (← sub? n 1)
    return some (delimitedRegion (.dollarQuoted tag) delimiter text start (start + n))

/-- The region that begins at an offset, if any. -/
def scanRegion (text : List Char) (start : Nat) : Option (Option RegionAt) :=
  let first := byteAt? text start
  let second := byteAt? text (start + 1)
  if first = some '-' ∧ second = some '-' then some (lineComment text start)
  else if first = some '/' ∧ second = some '*' then
    some (delimitedRegion .blockComment ['*', '/'] text start (start + 2))
  else if first = some '\'' then some (quotedRegion .singleQuoted '\'' text start)
  else if first = some '"' then some (quotedRegion .doubleQuoted '"' text start)
  else if first = some '$' then dollarRegion text start
  else some none

/-- The offsets of a region that begins at `start`. -/
def RegionAt.ofRegion (start : Nat) (r : Region) : RegionAt :=
  ⟨r.kind, start, start + byteLength r.text, r.terminated⟩

variable {before : List Char}

theorem quotedEnd_end (text : List Char) (quote : Char) :
    quotedEnd text quote (byteLength text) = (byteLength text, false) := by
  rw [quotedEnd]
  split
  · rfl
  · rename_i h
    rw [byteAt?_end] at h
    cases h

theorem quotedEnd_of_ne {text : List Char} {quote b : Char} {pos : Nat}
    (h : byteAt? text pos = some b) (hb : b ≠ quote) :
    quotedEnd text quote pos = quotedEnd text quote (pos + 1) := by
  rw [quotedEnd]
  split
  · simp_all
  · rename_i h'
    obtain rfl := Option.some.inj (h.symm.trans h')
    exact if_neg hb

theorem quotedEnd_of_eq {text : List Char} {quote : Char} {pos : Nat}
    (h : byteAt? text pos = some quote) : quotedEnd text quote pos =
      if byteAt? text (pos + 1) = some quote then quotedEnd text quote (pos + 2)
      else (pos + 1, true) := by
  rw [quotedEnd]
  split
  · simp_all
  · rename_i h'
    obtain rfl := Option.some.inj (h.symm.trans h')
    exact if_pos rfl

theorem quotedEnd_skip {quote c : Char} (hq : quote.toNat < 128) (hc : c ≠ quote)
    (after : List Char) : quotedEnd (before ++ c :: after) quote (byteLength before) =
      quotedEnd (before ++ c :: after) quote (byteLength (before ++ [c])) := by
  apply skip_char
  intro i _ b hb hof
  exact quotedEnd_of_ne hb fun he => hc ((hof.eq_iff hq).mp he)

theorem quotedEnd_append {quote : Char} (hq : quote.toNat < 128) (cs : List Char) :
    quotedEnd (before ++ cs) quote (byteLength before) =
      ((Region.throughQuote? quote cs).map fun found =>
        (byteLength (before ++ found.1), true)).getD (byteLength (before ++ cs), false) := by
  have hhead (before : List Char) (c : Char) (rest : List Char) (h : c.toNat < 128) :
      byteAt? (before ++ c :: rest) (byteLength before) = some c :=
    (byteAt?_eq_some_iff h).mpr rfl
  have happ (before : List Char) (c : Char) (rest : List Char) :
      before ++ c :: rest = (before ++ [c]) ++ rest := by simp
  fun_induction Region.throughQuote? quote cs generalizing before with
  | case1 =>
    rw [List.append_nil]
    exact quotedEnd_end before quote
  | case2 =>
    rw [quotedEnd_of_eq (hhead _ _ _ hq), if_neg]
    · rw [← byteLength_concat hq]
      rfl
    · rw [← byteLength_concat hq, byteAt?_end]
      simp
  | case3 c hc =>
    rw [quotedEnd_skip hq hc, quotedEnd_end]
    rfl
  | case4 c d cs hc ih =>
    rw [quotedEnd_skip hq hc, happ, ih]
    simp [Option.map_map, Function.comp_def]
  | case5 c d cs hc hd =>
    obtain rfl := Classical.not_not.mp hc
    rw [quotedEnd_of_eq (hhead _ _ _ hq), if_neg]
    · rw [← byteLength_concat hq]
      rfl
    · rw [← byteLength_concat hq, happ, byteAt?_eq_some_iff hq]
      simpa using hd
  | case6 c d cs hc hd ih =>
    obtain rfl := Classical.not_not.mp hc
    obtain rfl := Classical.not_not.mp hd
    have hnext : byteAt? (before ++ d :: d :: cs) (byteLength before + 1) = some d := by
      rw [← byteLength_concat hq, happ]
      exact hhead _ _ _ hq
    have htwo : byteLength before + 2 = byteLength ((before ++ [d]) ++ [d]) := by
      rw [byteLength_concat hq, byteLength_concat hq]
    rw [quotedEnd_of_eq (hhead _ _ _ hq), if_pos hnext, htwo, happ, happ, ih]
    simp [Option.map_map, Function.comp_def]

theorem toNat_of_isNameChar {c : Char} (h : isNameChar c) : c.toNat < 128 := by
  rcases Bool.or_eq_true_iff.mp h with h | h
  · have := toNat_of_isIdentifierRest h
    omega
  · rw [eq_of_beq h]
    decide

theorem isNameChar_wide (c : Char) (h : 128 ≤ c.toNat) : isNameChar c = false := by
  refine Bool.eq_false_iff.mpr fun hn => ?_
  exact Nat.not_lt_of_le h (toNat_of_isNameChar hn)

theorem isIdentifierStart_wide (c : Char) (h : 128 ≤ c.toNat) : isIdentifierStart c = false := by
  refine Bool.eq_false_iff.mpr fun hn => ?_
  have hc := isNameChar_of_rest (isIdentifierRest_of_start hn)
  exact Nat.not_lt_of_le h (toNat_of_isNameChar hc)

/-- The byte in front of an offset shows what the character there is. -/
theorem afterByte_append {test : Char → Bool} (ht : ∀ c : Char, 128 ≤ c.toNat → test c = false)
    (before cs : List Char) : afterByte test (before ++ cs) (byteLength before) =
      some (before.getLast?.any test) := by
  rcases List.eq_nil_or_concat before with rfl | ⟨front, c, rfl⟩
  · rfl
  · rw [List.concat_eq_append]
    obtain ⟨k, hk⟩ : ∃ k, c.utf8Size = k + 1 := Nat.exists_eq_add_one.mpr c.utf8Size_pos
    obtain ⟨b, hb, hc⟩ := exists_byteAt? front cs (show k < c.utf8Size by omega)
    have hlen : byteLength (front ++ [c]) = 1 + (byteLength front + k) := by
      simp
      omega
    have hpos : 0 < 1 + (byteLength front + k) := by omega
    rw [afterByte, hlen, if_pos hpos, sub?_add, List.append_assoc, List.singleton_append,
      Option.bind_eq_bind, Option.bind_some, hb]
    simp [hc.congr ht]

theorem tagEnd?_append (before cs : List Char) : tagEnd? (before ++ cs) (byteLength before) =
    if (cs.dropWhile isIdentifierRest).head? = some '$' then
      some (byteLength (before ++ cs.takeWhile isIdentifierRest))
    else none := by
  induction cs generalizing before with
  | nil =>
    rw [tagEnd?]
    split
    · rfl
    · rename_i h
      rw [List.append_nil, byteAt?_end] at h
      cases h
  | cons c cs ih =>
    obtain ⟨b, hb, hc⟩ := exists_byteAt? before cs c.utf8Size_pos
    have hd := hc.eq_iff (d := '$') (by decide)
    have hn := hc.congr isNameChar_wide
    rw [tagEnd?]
    split
    · simp_all
    · rename_i b' hb'
      obtain rfl := Option.some.inj (hb.symm.trans hb')
      by_cases hdollar : c = '$'
      · rw [if_pos (hd.mpr hdollar), hdollar]
        simp [isIdentifierRest]
      · rw [if_neg fun he => hdollar (hd.mp he), hn]
        by_cases hr : isIdentifierRest c
        · have hname := isNameChar_of_rest hr
          rw [if_pos hname, ← byteLength_concat (toNat_of_isNameChar hname),
            ← List.singleton_append, ← List.append_assoc, ih]
          simp [hr]
        · have hname : ¬ isNameChar c = true := by simp [isNameChar, hr, hdollar]
          rw [if_neg hname]
          simp [hr, hdollar]

theorem tag?_dollar (cs : List Char) : Region.tag? ('$' :: cs) = some [] := by
  simp [Region.tag?, isIdentifierRest]

theorem tag?_start {c : Char} (h : isIdentifierStart c) (cs : List Char) :
    Region.tag? (c :: cs) = if (cs.dropWhile isIdentifierRest).head? = some '$' then
      some (c :: cs.takeWhile isIdentifierRest)
    else none := by
  have hr := isIdentifierRest_of_start h
  have ht : isIdentifier (c :: cs.takeWhile isIdentifierRest) := by simp [isIdentifier, h]
  rw [Region.tag?, List.dropWhile_cons_of_pos hr, List.takeWhile_cons_of_pos hr]
  cases cs.dropWhile isIdentifierRest with
  | nil => rfl
  | cons d ds =>
    split
    · rename_i hd
      obtain ⟨rfl, -⟩ := List.cons.inj hd
      simp [ht]
    · rename_i hd
      rw [if_neg]
      intro he
      exact hd ds (by rw [Option.some.inj he])

theorem tag?_other {c : Char} (h : isIdentifierStart c = false) (hd : c ≠ '$') (cs : List Char) :
    Region.tag? (c :: cs) = none := by
  rw [Region.tag?]
  by_cases hr : isIdentifierRest c
  · rw [List.takeWhile_cons_of_pos hr]
    split
    · simp [isIdentifier, h]
    · rfl
  · rw [List.dropWhile_cons_of_neg hr]
    split
    · rename_i he
      exact absurd (List.cons.inj he).1 hd
    · rfl

theorem delimiterLength_append (rest : List Char) :
    delimiterLength (before ++ '$' :: rest) (byteLength before) =
      some (if before.getLast?.any isNameChar then none
        else (Region.tag? rest).map fun tag => byteLength ('$' :: (tag ++ ['$']))) := by
  have hdollar : ('$').toNat < 128 := by decide
  have happ : before ++ '$' :: rest = (before ++ ['$']) ++ rest := by simp
  rw [delimiterLength, afterByte_append isNameChar_wide, Option.bind_eq_bind, Option.bind_some]
  split
  · rfl
  simp only [happ, ← byteLength_concat hdollar before]
  cases rest with
  | nil =>
    rw [List.append_nil, byteAt?_end]
    rfl
  | cons c cs =>
    obtain ⟨b, hb, hc⟩ := exists_byteAt? (before ++ ['$']) cs c.utf8Size_pos
    rw [Nat.add_zero] at hb
    rw [hb, Option.any_some, hc.congr isIdentifierStart_wide]
    by_cases hd : c = '$'
    · rw [if_pos (congrArg some ((hc.eq_iff hdollar).mpr hd)), hd, tag?_dollar]
      rfl
    rw [if_neg fun he => hd ((hc.eq_iff hdollar).mp (Option.some.inj he))]
    by_cases hs : isIdentifierStart c
    · have hascii := toNat_of_isNameChar (isNameChar_of_rest (isIdentifierRest_of_start hs))
      have htwo : byteLength before + 2 = byteLength ((before ++ ['$']) ++ [c]) := by
        rw [byteLength_concat hascii, byteLength_concat hdollar]
      have htag := tagEnd?_append ((before ++ ['$']) ++ [c]) cs
      rw [List.append_assoc _ [c], List.singleton_append] at htag
      rw [if_pos hs, htwo, htag, tag?_start hs]
      by_cases hclose : (cs.dropWhile isIdentifierRest).head? = some '$'
      · have hlen : byteLength (((before ++ ['$']) ++ [c]) ++ cs.takeWhile isIdentifierRest) + 1 =
            byteLength before +
              byteLength ('$' :: ((c :: cs.takeWhile isIdentifierRest) ++ ['$'])) := by
          simp [utf8Size_eq_one hdollar]
          omega
        simp only [if_pos hclose, hlen, sub?_add]
        rfl
      · simp only [if_neg hclose]
        rfl
    · rw [if_neg hs, tag?_other (Bool.eq_false_iff.mpr hs) hd]
      rfl

theorem ofRegion_ofBody (start : Nat) (kind : Region.Kind) (body : List Char) :
    RegionAt.ofRegion start (Region.ofBody kind body).1 =
      ((kind.close? body).map fun found =>
        ⟨kind, start, start + byteLength (kind.opening ++ found.1), true⟩).getD
          ⟨kind, start, start + byteLength (kind.opening ++ body), false⟩ := by
  rw [Region.ofBody]
  cases kind.close? body <;> rfl

theorem quotedRegion_append {kind : Region.Kind} {quote : Char} (hq : quote.toNat < 128)
    (ho : kind.opening = [quote]) (hc : ∀ body, kind.close? body = Region.throughQuote? quote body)
    (body : List Char) : quotedRegion kind quote (before ++ quote :: body) (byteLength before) =
      .ofRegion (byteLength before) (Region.ofBody kind body).1 := by
  have happ : before ++ quote :: body = (before ++ [quote]) ++ body := by simp
  rw [quotedRegion, ← byteLength_concat hq, happ, quotedEnd_append hq, ofRegion_ofBody, hc, ho]
  cases Region.throughQuote? quote body with
  | none => simp
  | some found => simp

theorem delimitedRegion_append {kind : Region.Kind} {closing : List Char}
    (hc : ∀ body, kind.close? body = Region.through? closing body) (body : List Char) :
    delimitedRegion kind closing (before ++ (kind.opening ++ body)) (byteLength before)
      (byteLength before + byteLength kind.opening) =
        .ofRegion (byteLength before) (Region.ofBody kind body).1 := by
  have hf := map_find? closing body
  rw [delimitedRegion, ← List.append_assoc, ← byteLength_append, findFrom?_append, ofRegion_ofBody,
    hc]
  cases hfind : find? closing body with
  | none =>
    rw [hfind, Option.map_none, eq_comm, Option.map_eq_none_iff] at hf
    simp [hf, Nat.add_assoc]
  | some n =>
    rw [hfind, Option.map_some, eq_comm, Option.map_eq_some_iff] at hf
    obtain ⟨found, hfound, hlen⟩ := hf
    simp [hfound, hlen, Nat.add_assoc]

theorem find?_newline (cs : List Char) :
    (find? ['\n'] cs).getD (byteLength cs) = byteLength (cs.takeWhile (· != '\n')) := by
  induction cs with
  | nil => rfl
  | cons c cs ih =>
    rw [find?]
    by_cases hc : c = '\n'
    · simp [hc]
    · rw [if_neg (by simpa using Ne.symm hc), List.takeWhile_cons_of_pos (by simpa using hc),
        byteLength_cons, byteLength_cons, ← ih]
      cases find? ['\n'] cs <;> rfl

theorem take_two_eq_iff {cs : List Char} {c d : Char} :
    cs.take 2 = [c, d] ↔ ∃ rest, cs = c :: d :: rest := by
  constructor
  · intro h
    exact ⟨cs.drop 2, by rw [← List.take_append_drop 2 cs, h]; rfl⟩
  · rintro ⟨rest, rfl⟩
    rfl

theorem opens?_eq (front : Option Char) (cs : List Char) : Region.Kind.opens? front cs =
    if cs.take 2 = ['-', '-'] then some .lineComment
    else if cs.take 2 = ['/', '*'] then some .blockComment
    else if cs.head? = some '\'' then some .singleQuoted
    else if cs.head? = some '"' then some .doubleQuoted
    else if cs.head? = some '$' then
      if front.any isNameChar then none else (Region.tag? cs.tail).map .dollarQuoted
    else none := by
  unfold Region.Kind.opens?
  split
  case h_6 hline hblock hsingle hdouble hdollar =>
    have hhead {c : Char} (h : ∀ rest, cs = c :: rest → False) : ¬ cs.head? = some c := fun he =>
      (List.head?_eq_some_iff.mp he).elim h
    rw [if_neg fun h => (take_two_eq_iff.mp h).elim hline,
      if_neg fun h => (take_two_eq_iff.mp h).elim hblock, if_neg (hhead hsingle),
      if_neg (hhead hdouble), if_neg (hhead hdollar)]
  all_goals simp

/-- Two ASCII characters are found by their bytes. -/
theorem two_bytes_iff {cs : List Char} {c d : Char} (hc : c.toNat < 128) (hd : d.toNat < 128) :
    byteAt? (before ++ cs) (byteLength before) = some c ∧
      byteAt? (before ++ cs) (byteLength before + 1) = some d ↔ cs.take 2 = [c, d] := by
  have happ (rest : List Char) : before ++ c :: rest = (before ++ [c]) ++ rest := by simp
  rw [byteAt?_eq_some_iff hc, take_two_eq_iff, List.head?_eq_some_iff]
  constructor
  · rintro ⟨⟨rest, rfl⟩, hnext⟩
    rw [← byteLength_concat hc, happ, byteAt?_eq_some_iff hd, List.head?_eq_some_iff] at hnext
    obtain ⟨rest, rfl⟩ := hnext
    exact ⟨rest, rfl⟩
  · rintro ⟨rest, rfl⟩
    refine ⟨⟨_, rfl⟩, ?_⟩
    rw [← byteLength_concat hc, happ, byteAt?_eq_some_iff hd]
    rfl

theorem scan?_eq {front : Option Char} {kind : Region.Kind} {cs body : List Char}
    (h : Region.Kind.opens? front cs = some kind) (hb : cs = kind.opening ++ body) :
    Region.scan? front cs = some (Region.ofBody kind body) := by
  rw [Region.scan?, h, hb, Option.map_some, List.drop_left]

theorem lineComment_append (body : List Char) :
    lineComment (before ++ '-' :: '-' :: body) (byteLength before) =
      .ofRegion (byteLength before) (Region.ofBody .lineComment body).1 := by
  have happ : before ++ '-' :: '-' :: body = (before ++ ['-', '-']) ++ body := by simp
  have htwo : byteLength before + 2 = byteLength (before ++ ['-', '-']) := by
    rw [byteLength_append]
    rfl
  have hstop : ((find? ['\n'] body).map (byteLength (before ++ ['-', '-']) + ·)).getD
      (byteLength ((before ++ ['-', '-']) ++ body)) =
        byteLength (before ++ ['-', '-']) + byteLength (body.takeWhile (· != '\n')) := by
    rw [← find?_newline, byteLength_append _ body]
    cases find? ['\n'] body <;> rfl
  rw [lineComment, happ, htwo, findFrom?_append, hstop, ofRegion_ofBody, ← byteLength_append,
    List.append_assoc, byteLength_append before]
  rfl

theorem dollarRegion_append (body : List Char) :
    dollarRegion (before ++ '$' :: body) (byteLength before) =
      some ((Region.scan? before.getLast? ('$' :: body)).map fun found =>
        .ofRegion (byteLength before) found.1) := by
  have hopens : Region.Kind.opens? before.getLast? ('$' :: body) =
      if before.getLast?.any isNameChar then none
      else (Region.tag? body).map .dollarQuoted := rfl
  rw [dollarRegion, delimiterLength_append, Option.bind_eq_bind, Option.bind_some]
  by_cases hname : before.getLast?.any isNameChar
  · rw [if_pos hname] at hopens ⊢
    rw [Region.scan?, hopens]
    rfl
  rw [if_neg hname] at hopens ⊢
  cases htag : Region.tag? body with
  | none =>
    rw [htag, Option.map_none] at hopens
    rw [Region.scan?, hopens]
    rfl
  | some tag =>
    obtain ⟨rest, rfl⟩ := Region.tag?_eq_some htag
    rw [htag, Option.map_some] at hopens
    have hbody : '$' :: (tag ++ '$' :: rest) = ('$' :: (tag ++ ['$'])) ++ rest := by simp
    have hdelimiter := slice?_append before ('$' :: (tag ++ ['$'])) rest
    have htag : slice? ('$' :: (tag ++ ['$'])) 1 (1 + byteLength tag) = some tag :=
      slice?_append ['$'] tag ['$']
    have hsub : sub? (byteLength ('$' :: (tag ++ ['$']))) 1 = some (1 + byteLength tag) := by
      have hlen : byteLength ('$' :: (tag ++ ['$'])) = 1 + (1 + byteLength tag) := by
        rw [byteLength_cons, byteLength_append]
        exact congrArg (1 + ·) (Nat.add_comm _ 1)
      rw [hlen, sub?_add]
    have hclose (body : List Char) : (Region.Kind.dollarQuoted tag).close? body =
        Region.through? ('$' :: (tag ++ ['$'])) body := rfl
    rw [scan?_eq hopens hbody, hbody, Option.map_some, Option.map_some]
    simp only [Option.bind_eq_bind, Option.bind_some, hdelimiter, hsub, htag]
    exact congrArg (some ∘ some) (delimitedRegion_append hclose rest)

/-- At a character, the scan finds the region that begins there. -/
theorem scanRegion_append (before cs : List Char) : scanRegion (before ++ cs) (byteLength before) =
    some ((Region.scan? before.getLast? cs).map fun found =>
      .ofRegion (byteLength before) found.1) := by
  have hopens := opens?_eq before.getLast? cs
  simp only [scanRegion, two_bytes_iff (show ('-').toNat < 128 by decide)
    (show ('-').toNat < 128 by decide), two_bytes_iff (show ('/').toNat < 128 by decide)
    (show ('*').toNat < 128 by decide), byteAt?_eq_some_iff (show ('\'').toNat < 128 by decide),
    byteAt?_eq_some_iff (show ('"').toNat < 128 by decide),
    byteAt?_eq_some_iff (show ('$').toNat < 128 by decide)]
  by_cases hline : cs.take 2 = ['-', '-']
  · rw [if_pos hline] at hopens ⊢
    obtain ⟨body, rfl⟩ := take_two_eq_iff.mp hline
    rw [scan?_eq hopens rfl, lineComment_append]
    rfl
  rw [if_neg hline] at hopens ⊢
  by_cases hblock : cs.take 2 = ['/', '*']
  · rw [if_pos hblock] at hopens ⊢
    obtain ⟨body, rfl⟩ := take_two_eq_iff.mp hblock
    rw [scan?_eq hopens rfl]
    exact congrArg (some ∘ some) (delimitedRegion_append (fun _ => rfl) body)
  rw [if_neg hblock] at hopens ⊢
  by_cases hsingle : cs.head? = some '\''
  · rw [if_pos hsingle] at hopens ⊢
    obtain ⟨body, rfl⟩ := List.head?_eq_some_iff.mp hsingle
    rw [scan?_eq hopens rfl, quotedRegion_append (by decide) rfl fun _ => rfl]
    rfl
  rw [if_neg hsingle] at hopens ⊢
  by_cases hdouble : cs.head? = some '"'
  · rw [if_pos hdouble] at hopens ⊢
    obtain ⟨body, rfl⟩ := List.head?_eq_some_iff.mp hdouble
    rw [scan?_eq hopens rfl, quotedRegion_append (by decide) rfl fun _ => rfl]
    rfl
  rw [if_neg hdouble] at hopens ⊢
  by_cases hdollar : cs.head? = some '$'
  · rw [if_pos hdollar]
    obtain ⟨body, rfl⟩ := List.head?_eq_some_iff.mp hdollar
    exact dollarRegion_append body
  · rw [if_neg hdollar] at hopens ⊢
    rw [Region.scan?, hopens]
    rfl

/-- Inside a character that is not ASCII, the scan finds nothing. -/
theorem scanRegion_wide {text : List Char} {pos : Nat} {b : Char} (h : byteAt? text pos = some b)
    (hb : 128 ≤ b.toNat) : scanRegion text pos = some none := by
  have hne (c : Char) (hc : c.toNat < 128) : ¬ byteAt? text pos = some c := by
    rw [h, Option.some.injEq]
    rintro rfl
    exact Nat.not_lt_of_le hb hc
  rw [scanRegion, if_neg fun hl => hne '-' (by decide) hl.1,
    if_neg fun hl => hne '/' (by decide) hl.1, if_neg (hne '\'' (by decide)),
    if_neg (hne '"' (by decide)), if_neg (hne '$' (by decide))]

end NamedSql.Offsets
