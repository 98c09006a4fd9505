import NamedSql.Proofs.RegionEnds
import NamedSql.Proofs.Segmentation

namespace NamedSql

/-- What stands between two quotes: other characters, and quotes written twice. -/
inductive QuotedContent (quote : Char) : List Char → Prop
  | nil : QuotedContent quote []
  | other {c : Char} {cs : List Char} (ne : c ≠ quote) (rest : QuotedContent quote cs) :
      QuotedContent quote (c :: cs)
  | doubled {cs : List Char} (rest : QuotedContent quote cs) :
      QuotedContent quote (quote :: quote :: cs)

/-- A text between quotes, with each quote in it written twice. -/
def quotedText (quote : Char) (content : List Char) : List Char :=
  quote :: (content.flatMap (fun c => if c = quote then [c, c] else [c]) ++ [quote])

/-- In the text put together from the three parts, the middle one stands nowhere earlier. -/
def FirstBetween (front needle rest : List Char) : Prop :=
  ∀ front' rest', front' ++ needle ++ rest' = front ++ needle ++ rest →
    front.length ≤ front'.length

namespace Region

/-- The quote that a quoted region is written with. -/
def Kind.quote? : Kind → Option Char
  | .singleQuoted => some '\''
  | .doubleQuoted => some '"'
  | _ => none

/-- The delimiter that closes a region of the kind wherever it stands. -/
def Kind.closing? : Kind → Option (List Char)
  | .blockComment => some ['*', '/']
  | .dollarQuoted tag => some ('$' :: (tag ++ ['$']))
  | _ => none

/-- The delimiter opens a region of the kind behind the character `before`. -/
inductive Kind.OpenedBy (before : Option Char) : Kind → List Char → Prop
  | lineComment : OpenedBy before .lineComment ['-', '-']
  | blockComment : OpenedBy before .blockComment ['/', '*']
  | quoted {kind : Kind} {quote : Char} (written : kind.quote? = some quote) :
      OpenedBy before kind [quote]
  | dollarQuoted {tag : List Char} (tagged : tag = [] ∨ isIdentifier tag)
      (apart : ∀ c ∈ before, isNameChar c = false) :
      OpenedBy before (.dollarQuoted tag) ('$' :: (tag ++ ['$']))

/-- A region of the kind ends between the rest of its own text and the rest of the script. -/
inductive Kind.EndsBetween : Kind → List Char → List Char → Prop
  | line {inner rest : List Char} (inside : '\n' ∉ inner)
      (behind : rest = [] ∨ rest.head? = some '\n') : EndsBetween .lineComment inner rest
  | delimited {kind : Kind} {closing content rest : List Char}
      (written : kind.closing? = some closing) (first : FirstBetween content closing rest) :
      EndsBetween kind (content ++ closing) rest
  | quoted {kind : Kind} {quote : Char} {content rest : List Char}
      (written : kind.quote? = some quote) (inside : QuotedContent quote content)
      (behind : rest.head? ≠ some quote) : EndsBetween kind (content ++ [quote]) rest

/-- The region that an opening delimiter begins, when `body` is all that follows it. -/
inductive Covers (kind : Kind) (opening body : List Char) : Region → Prop
  | closed {inner rest : List Char} (text : body = inner ++ rest)
      (ends : kind.EndsBetween inner rest) : Covers kind opening body ⟨kind, opening ++ inner, true⟩
  | unclosed (never : ∀ inner rest, body = inner ++ rest → ¬ kind.EndsBetween inner rest) :
      Covers kind opening body ⟨kind, opening ++ body, false⟩

/-- A delimiter that opens a region of the kind begins at byte `offset`, and `body` follows it. -/
def OpensAt (text : List Char) (offset : Nat) (kind : Kind) (opening body : List Char) : Prop :=
  ∃ before, text = before ++ (opening ++ body) ∧ offset = byteLength before ∧
    kind.OpenedBy before.getLast? opening

/-- The scan of a text follows the grammar, from each of its bytes. -/
structure Grammatical (text : List Char) : Prop where
  opens : ∀ offset, (Region.at? text offset).isSome ↔
    ∃ kind opening body, OpensAt text offset kind opening body
  covers : ∀ offset r, Region.at? text offset = some r ↔
    ∃ kind opening body, OpensAt text offset kind opening body ∧ Covers kind opening body r
  literal : ∀ kind quote before content rest, Kind.quote? kind = some quote →
    text = before ++ (quotedText quote content ++ rest) → rest.head? ≠ some quote →
      Region.at? text (byteLength before) = some ⟨kind, quotedText quote content, true⟩

theorem Kind.quote?_eq_some_iff {kind : Kind} {quote : Char} : kind.quote? = some quote ↔
    kind = .singleQuoted ∧ quote = '\'' ∨ kind = .doubleQuoted ∧ quote = '"' := by
  cases kind <;> simp [quote?, eq_comm]

theorem any_isNameChar_eq_false_iff {before : Option Char} :
    before.any isNameChar = false ↔ ∀ c ∈ before, isNameChar c = false := by
  cases before <;> simp

/-- A region is a line comment, or closed by a delimiter, or by a quote. -/
theorem Kind.written_cases (kind : Kind) : kind = .lineComment ∨
    (∃ closing, kind.closing? = some closing) ∨ ∃ quote, kind.quote? = some quote := by
  cases kind <;> simp [closing?, quote?]

theorem Kind.openedBy_iff {before : Option Char} {kind : Kind} {opening : List Char} :
    kind.OpenedBy before opening ↔ opening = kind.opening ∧ kind.Tagged ∧ kind.Fits before := by
  constructor
  · intro h
    cases h with
    | lineComment => exact ⟨rfl, trivial, trivial⟩
    | blockComment => exact ⟨rfl, trivial, trivial⟩
    | quoted written =>
      rcases quote?_eq_some_iff.mp written with ⟨rfl, rfl⟩ | ⟨rfl, rfl⟩
      · exact ⟨rfl, trivial, trivial⟩
      · exact ⟨rfl, trivial, trivial⟩
    | dollarQuoted tagged apart => exact ⟨rfl, tagged, any_isNameChar_eq_false_iff.mpr apart⟩
  · rintro ⟨rfl, tagged, fits⟩
    cases kind with
    | singleQuoted => exact .quoted rfl
    | doubleQuoted => exact .quoted rfl
    | lineComment => exact .lineComment
    | blockComment => exact .blockComment
    | dollarQuoted tag => exact .dollarQuoted tagged (any_isNameChar_eq_false_iff.mp fits)

theorem firstBetween_cons_iff {c : Char} {front needle rest : List Char}
    (h : ¬ needle <+: c :: (front ++ needle ++ rest)) :
    FirstBetween (c :: front) needle rest ↔ FirstBetween front needle rest := by
  constructor
  · intro hf front' rest' he
    simpa using hf (c :: front') rest' (by simp [← he])
  · intro hf front' rest' he
    cases front' with
    | nil => exact absurd ⟨rest', by simpa using he⟩ h
    | cons d front' =>
      obtain ⟨-, he⟩ := List.cons.inj he
      exact Nat.succ_le_succ (hf front' rest' he)

theorem through?_eq_some_iff {needle text inner rest : List Char} (hn : needle ≠ []) :
    through? needle text = some (inner, rest) ↔ ∃ front, inner = front ++ needle ∧
      text = front ++ needle ++ rest ∧ FirstBetween front needle rest := by
  induction text generalizing inner with
  | nil => simp [through?, hn]
  | cons c cs ih =>
    rw [through?]
    split
    · rename_i hp
      obtain ⟨tail, htail⟩ := List.isPrefixOf_iff_prefix.mp hp
      rw [← htail, List.drop_left]
      constructor
      · intro he
        obtain ⟨rfl, rfl⟩ := Prod.mk.inj (Option.some.inj he)
        exact ⟨[], rfl, rfl, fun _ _ _ => Nat.zero_le _⟩
      · rintro ⟨front, rfl, he, hf⟩
        obtain rfl : front = [] := List.eq_nil_of_length_eq_zero
          (Nat.le_zero.mp (hf [] tail (by simpa using he)))
        simpa using he
    · rename_i hp
      rw [List.isPrefixOf_iff_prefix] at hp
      constructor
      · intro he
        obtain ⟨⟨b, r⟩, hb, hbr⟩ := Option.map_eq_some_iff.mp he
        obtain ⟨rfl, rfl⟩ := Prod.mk.inj hbr
        obtain ⟨front, rfl, rfl, hf⟩ := ih.mp hb
        exact ⟨c :: front, rfl, rfl, (firstBetween_cons_iff hp).mpr hf⟩
      · rintro ⟨front, rfl, he, hf⟩
        cases front with
        | nil => exact absurd ⟨rest, by simpa using he.symm⟩ hp
        | cons d front =>
          obtain ⟨rfl, rfl⟩ := List.cons.inj he
          rw [ih.mpr ⟨front, rfl, rfl, (firstBetween_cons_iff hp).mp hf⟩]
          rfl

theorem throughQuote?_of_content {quote : Char} {content rest : List Char}
    (h : QuotedContent quote content) (hr : rest.head? ≠ some quote) :
    throughQuote? quote (content ++ quote :: rest) = some (content ++ [quote], rest) := by
  induction h with
  | nil => exact throughQuote?_close hr
  | other ne _ ih => rw [List.cons_append, throughQuote?_content ne, ih]; rfl
  | doubled _ ih => rw [List.cons_append, List.cons_append, throughQuote?_doubled, ih]; rfl

theorem throughQuote?_eq_some_iff {quote : Char} {text inner rest : List Char} :
    throughQuote? quote text = some (inner, rest) ↔ ∃ content, inner = content ++ [quote] ∧
      text = content ++ quote :: rest ∧ QuotedContent quote content ∧ rest.head? ≠ some quote := by
  constructor
  · intro h
    fun_induction throughQuote? quote text generalizing inner with
    | case1 => cases h
    | case2 =>
      cases h
      exact ⟨[], rfl, rfl, .nil, by simp⟩
    | case3 => cases h
    | case4 c d cs hc ih =>
      obtain ⟨⟨b, r⟩, hb, he⟩ := Option.map_eq_some_iff.mp h
      cases he
      obtain ⟨content, rfl, he, hq, hr⟩ := ih hb
      exact ⟨c :: content, rfl, by rw [he]; rfl, .other hc hq, hr⟩
    | case5 c d cs hc hd =>
      obtain rfl := Classical.not_not.mp hc
      cases h
      exact ⟨[], rfl, rfl, .nil, by simpa using hd⟩
    | case6 c d cs hc hd ih =>
      obtain rfl := Classical.not_not.mp hc
      obtain rfl := Classical.not_not.mp hd
      obtain ⟨⟨b, r⟩, hb, he⟩ := Option.map_eq_some_iff.mp h
      cases he
      obtain ⟨content, rfl, rfl, hq, hr⟩ := ih hb
      exact ⟨d :: d :: content, rfl, rfl, .doubled hq, hr⟩
  · rintro ⟨content, rfl, rfl, hq, hr⟩
    exact throughQuote?_of_content hq hr

theorem Kind.close?_of_quote? {kind : Kind} {quote : Char} (h : kind.quote? = some quote)
    (body : List Char) : kind.close? body = throughQuote? quote body := by
  rcases quote?_eq_some_iff.mp h with ⟨rfl, rfl⟩ | ⟨rfl, rfl⟩ <;> rfl

theorem Kind.close?_of_closing? {kind : Kind} {closing : List Char}
    (h : kind.closing? = some closing) (body : List Char) :
    closing ≠ [] ∧ kind.close? body = through? closing body := by
  cases kind with
  | blockComment => cases h; exact ⟨by simp, rfl⟩
  | dollarQuoted tag => cases h; exact ⟨by simp, rfl⟩
  | _ => cases h

/-- A line comment takes what stands in front of the first newline. -/
theorem Kind.close?_lineComment_eq_some_iff {body inner rest : List Char} :
    Kind.lineComment.close? body = some (inner, rest) ↔
      body = inner ++ rest ∧ '\n' ∉ inner ∧ (rest = [] ∨ rest.head? = some '\n') := by
  have hreleased : Kind.lineComment.Released rest ↔ rest = [] ∨ rest.head? = some '\n' := by
    cases rest <;> simp [Released]
  have hinside : (∀ c ∈ inner, c ≠ '\n') ↔ '\n' ∉ inner :=
    ⟨fun h hm => h _ hm rfl, fun h c hc he => h (he ▸ hc)⟩
  rw [← hreleased, ← hinside, ← close?_lineComment_iff]
  constructor
  · intro h
    obtain rfl := append_of_close? h
    exact ⟨rfl, close?_append_iff.mp h⟩
  · rintro ⟨rfl, h⟩
    exact close?_append_iff.mpr h

/-- What follows an opening delimiter is split where the grammar ends the region. -/
theorem Kind.close?_eq_some_iff {kind : Kind} {body inner rest : List Char} :
    kind.close? body = some (inner, rest) ↔ body = inner ++ rest ∧ kind.EndsBetween inner rest := by
  constructor
  · intro h
    refine ⟨(append_of_close? h).symm, ?_⟩
    rcases kind.written_cases with rfl | ⟨closing, hc⟩ | ⟨quote, hq⟩
    · obtain ⟨-, inside, behind⟩ := close?_lineComment_eq_some_iff.mp h
      exact .line inside behind
    · obtain ⟨hn, hclose⟩ := close?_of_closing? hc body
      obtain ⟨content, rfl, -, first⟩ := (through?_eq_some_iff hn).mp (hclose ▸ h)
      exact .delimited hc first
    · rw [close?_of_quote? hq] at h
      obtain ⟨content, rfl, -, inside, behind⟩ := throughQuote?_eq_some_iff.mp h
      exact .quoted hq inside behind
  · rintro ⟨rfl, ends⟩
    cases ends with
    | line inside behind => exact close?_lineComment_eq_some_iff.mpr ⟨rfl, inside, behind⟩
    | @delimited _ closing content _ written first =>
      obtain ⟨hn, hclose⟩ := close?_of_closing? written (content ++ closing ++ rest)
      rw [hclose]
      exact (through?_eq_some_iff hn).mpr ⟨content, rfl, rfl, first⟩
    | @quoted _ quote content _ written inside behind =>
      rw [close?_of_quote? written]
      exact throughQuote?_eq_some_iff.mpr ⟨content, rfl, by simp, inside, behind⟩

theorem Kind.opens?_eq_some_iff {before : Option Char} {text : List Char} {kind : Kind} :
    opens? before text = some kind ↔
      ∃ opening body, text = opening ++ body ∧ kind.OpenedBy before opening := by
  simp only [openedBy_iff]
  constructor
  · intro h
    obtain ⟨body, rfl⟩ := opening_prefix_of_opens? h
    exact ⟨kind.opening, body, rfl, rfl, tagged_fits_of_opens? h⟩
  · rintro ⟨opening, body, rfl, rfl, tagged, fits⟩
    exact opens?_opening tagged fits body

/-- The region is the only one that covers what its delimiter opens. -/
theorem covers_iff {kind : Kind} {body : List Char} {r : Region} :
    Covers kind kind.opening body r ↔ (ofBody kind body).1 = r := by
  rw [ofBody]
  constructor
  · intro h
    cases h with
    | closed text ends => rw [Kind.close?_eq_some_iff.mpr ⟨text, ends⟩]
    | unclosed never =>
      have hnone : kind.close? body = none := by
        rw [Option.eq_none_iff_forall_ne_some]
        rintro ⟨inner, rest⟩ h
        obtain ⟨text, ends⟩ := Kind.close?_eq_some_iff.mp h
        exact never inner rest text ends
      rw [hnone]
  · rintro rfl
    cases hc : kind.close? body with
    | some found =>
      obtain ⟨text, ends⟩ := Kind.close?_eq_some_iff.mp hc
      exact .closed text ends
    | none =>
      refine .unclosed fun inner rest text ends => ?_
      simp [Kind.close?_eq_some_iff.mpr ⟨text, ends⟩] at hc

theorem at?_eq_some_iff {text : List Char} {offset : Nat} {r : Region} :
    Region.at? text offset = some r ↔
      ∃ kind opening body, OpensAt text offset kind opening body ∧ Covers kind opening body r := by
  constructor
  · intro h
    obtain ⟨⟨before, rest⟩, hcut, hscan⟩ := Option.bind_eq_some_iff.mp h
    obtain ⟨rfl, rfl⟩ := cutAtByte?_eq_some_iff.mp hcut
    obtain ⟨found, hs, rfl⟩ := Option.map_eq_some_iff.mp hscan
    obtain ⟨kind, hk, rfl⟩ := Option.map_eq_some_iff.mp hs
    obtain ⟨opening, body, rfl, opened⟩ := Kind.opens?_eq_some_iff.mp hk
    obtain ⟨rfl, -⟩ := Kind.openedBy_iff.mp opened
    refine ⟨kind, kind.opening, body, ⟨before, rfl, rfl, opened⟩, covers_iff.mpr ?_⟩
    rw [List.drop_left]
  · rintro ⟨kind, opening, body, ⟨before, rfl, rfl, opened⟩, covers⟩
    obtain ⟨rfl, tagged, fits⟩ := Kind.openedBy_iff.mp opened
    rw [at?_append, scan?, Kind.opens?_opening tagged fits, Option.map_some, List.drop_left,
      Option.map_some, covers_iff.mp covers]

theorem quotedContent_flatMap (quote : Char) (content : List Char) :
    QuotedContent quote (content.flatMap fun c => if c = quote then [c, c] else [c]) := by
  induction content with
  | nil => exact .nil
  | cons c content ih =>
    rw [List.flatMap_cons]
    split
    · rename_i hc
      subst hc
      exact .doubled ih
    · rename_i hc
      exact .other hc ih

/-- Every text follows the grammar. -/
theorem grammatical_scan (text : String) : Grammatical text.toList := by
  refine ⟨fun offset => ?_, fun _ _ => at?_eq_some_iff, ?_⟩
  · rw [Option.isSome_iff_exists]
    constructor
    · rintro ⟨r, h⟩
      obtain ⟨kind, opening, body, opens, -⟩ := at?_eq_some_iff.mp h
      exact ⟨kind, opening, body, opens⟩
    · rintro ⟨kind, opening, body, opens⟩
      obtain ⟨before, ht, hb, opened⟩ := opens
      obtain ⟨rfl, -⟩ := Kind.openedBy_iff.mp opened
      exact ⟨_, at?_eq_some_iff.mpr ⟨kind, _, body, ⟨before, ht, hb, opened⟩, covers_iff.mpr rfl⟩⟩
  · intro kind quote before content rest written ht behind
    refine at?_eq_some_iff.mpr ⟨kind, [quote], _, ⟨before, ?_, rfl, .quoted written⟩,
      .closed rfl (.quoted written (quotedContent_flatMap quote content) behind)⟩
    rw [ht]
    simp [quotedText]

end Region

end NamedSql
