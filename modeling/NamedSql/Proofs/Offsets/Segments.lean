import NamedSql.Proofs.Offsets.Regions
import NamedSql.Segment

namespace NamedSql.Offsets

inductive SegmentAt
  | code (start stop : Nat)
  | region (r : RegionAt)
deriving DecidableEq

def SegmentAt.stop : SegmentAt → Nat
  | .code _ stop => stop
  | .region r => r.stop

/-- Where the code ends that goes on at `pos`. -/
def codeEnd (text : List Char) (pos : Nat) : Option Nat :=
  if pos < byteLength text then do
    match ← scanRegion text pos with
    | some _ => return pos
    | none => codeEnd text (pos + 1)
  else return pos
termination_by byteLength text - pos

/-- The segment that begins at an offset in front of the end. -/
def segmentAt (text : List Char) (pos : Nat) : Option SegmentAt := do
  match ← scanRegion text pos with
  | some r => return .region r
  | none => return .code pos (← codeEnd text (pos + 1))

/-- The segments from an offset on. -/
def segmentsFrom (text : List Char) (pos : Nat) : Option (List SegmentAt) :=
  if pos < byteLength text then do
    let segment ← segmentAt text pos
    let next ← ahead? pos segment.stop
    return segment :: (← segmentsFrom text next)
  else return []
termination_by byteLength text - pos
decreasing_by
  have := next.2
  omega

/-- The segments of a text. -/
def segments (text : List Char) : Option (List SegmentAt) :=
  segmentsFrom text 0

/-- The offsets of a segment that begins at `start`. -/
def SegmentAt.ofSegment (start : Nat) : Segment → SegmentAt
  | .code chars => .code start (start + byteLength chars)
  | .region r => .region (.ofRegion start r)

/-- The offsets of segments the first of which begins at `start`. -/
def located (start : Position) (segments : List Segment) : List SegmentAt :=
  (Segment.locate start segments).map fun found => .ofSegment found.1.byte found.2

variable {before : List Char}

/-- The code that segments begin with. -/
def leadingCode : List Segment → List Char
  | .code chars :: _ => chars
  | _ => []

/-- The segments behind the code that they begin with. -/
def behindCode : List Segment → List Segment
  | .code _ :: rest => rest
  | segments => segments

theorem leadingCode_addCode (c : Char) (segments : List Segment) :
    leadingCode (Segment.addCode c segments) = c :: leadingCode segments := by
  cases segments with
  | nil => rfl
  | cons s rest => cases s <;> rfl

theorem behindCode_addCode (c : Char) (segments : List Segment) :
    behindCode (Segment.addCode c segments) = behindCode segments := by
  cases segments with
  | nil => rfl
  | cons s rest => cases s <;> rfl

theorem leadingCode_append_behindCode (c : Char) (segments : List Segment) :
    Segment.addCode c segments =
      .code (leadingCode (Segment.addCode c segments)) ::
        behindCode (Segment.addCode c segments) := by
  obtain ⟨cs, rest, h⟩ := Segment.exists_addCode c segments
  rw [h]
  rfl

@[simp] theorem byte_after_origin (cs : List Char) :
    (Position.origin.after cs).byte = byteLength cs :=
  Nat.zero_add _

theorem located_cons (start : Position) (s : Segment) (segments : List Segment) :
    located start (s :: segments) =
      .ofSegment start.byte s :: located (start.after s.text) segments :=
  rfl

variable {front : Option Char} {c : Char} {cs : List Char}

theorem codeEnd_end (text : List Char) :
    codeEnd text (byteLength text) = some (byteLength text) := by
  rw [codeEnd, if_neg (Nat.lt_irrefl _)]
  rfl

theorem codeEnd_of_region {text : List Char} {pos : Nat} {r : RegionAt}
    (h : pos < byteLength text) (hr : scanRegion text pos = some (some r)) :
    codeEnd text pos = some pos := by
  rw [codeEnd, if_pos h, hr]
  rfl

theorem codeEnd_of_code {text : List Char} {pos : Nat} (h : pos < byteLength text)
    (hr : scanRegion text pos = some none) : codeEnd text pos = codeEnd text (pos + 1) := by
  rw [codeEnd, if_pos h, hr]
  rfl

theorem codeEnd_skip (hf : before.getLast? = front) (h : Region.scan? front (c :: cs) = none) :
    codeEnd (before ++ c :: cs) (byteLength before) =
      codeEnd (before ++ c :: cs) (byteLength (before ++ [c])) := by
  apply skip_char
  intro i hi b hb hc
  apply codeEnd_of_code (lt_of_byteAt? hb)
  rcases hc with ⟨rfl, hascii⟩ | ⟨hwide, -⟩
  · obtain rfl : i = 0 := by
      rw [utf8Size_eq_one hascii] at hi
      omega
    rw [Nat.add_zero, scanRegion_append, hf, h]
    rfl
  · exact scanRegion_wide hb hwide

/-- Code goes on up to the first region. -/
theorem codeEnd_append (hf : before.getLast? = front) (cs : List Char) :
    codeEnd (before ++ cs) (byteLength before) =
      some (byteLength (before ++ leadingCode (Segment.lex front cs))) := by
  fun_induction Segment.lex front cs generalizing before with
  | case1 =>
    rw [List.append_nil, codeEnd_end]
    simp [leadingCode]
  | case2 front c cs r rest h _ ih =>
    have hr := scanRegion_append before (c :: cs)
    rw [hf, h] at hr
    have hlt : byteLength before < byteLength (before ++ c :: cs) := by
      have := c.utf8Size_pos
      simp
      omega
    rw [codeEnd_of_region hlt hr]
    simp [leadingCode]
  | case3 front c cs h ih =>
    have hc : (before ++ [c]).getLast? = some c := by simp
    have happ : before ++ c :: cs = (before ++ [c]) ++ cs := by simp
    rw [codeEnd_skip hf h, happ, ih hc, leadingCode_addCode]
    simp

theorem lt_byteLength_append (before : List Char) (c : Char) (cs : List Char) :
    byteLength before < byteLength (before ++ c :: cs) := by
  have := c.utf8Size_pos
  rw [byteLength_append, byteLength_cons]
  omega

theorem segmentsFrom_end (text : List Char) : segmentsFrom text (byteLength text) = some [] := by
  rw [segmentsFrom, if_neg (Nat.lt_irrefl _)]
  rfl

theorem segmentsFrom_of_segmentAt {text : List Char} {pos : Nat} {s : SegmentAt}
    (h : pos < byteLength text) (hs : segmentAt text pos = some s) (hlt : pos < s.stop) :
    segmentsFrom text pos = (segmentsFrom text s.stop).map (s :: ·) := by
  rw [segmentsFrom, if_pos h, hs]
  simp only [Option.bind_eq_bind, Option.bind_some, ahead?_of_lt hlt]
  cases segmentsFrom text s.stop <;> rfl

theorem segmentAt_code (hf : before.getLast? = front) (h : Region.scan? front (c :: cs) = none) :
    segmentAt (before ++ c :: cs) (byteLength before) =
      some (.code (byteLength before)
        (byteLength (before ++ leadingCode (Segment.lex front (c :: cs))))) := by
  have hr := scanRegion_append before (c :: cs)
  rw [hf, h] at hr
  rw [segmentAt, hr]
  simp only [Option.bind_eq_bind, Option.bind_some, Option.map_none,
    ← codeEnd_of_code (lt_byteLength_append before c cs) hr, codeEnd_append hf]
  rfl

/-- The segments at a place, when those behind the code there are known. -/
theorem segmentsFrom_of_behind (hf : before.getLast? = front)
    (h : segmentsFrom (before ++ cs) (byteLength (before ++ leadingCode (Segment.lex front cs))) =
      some (located (.after .origin (before ++ leadingCode (Segment.lex front cs)))
        (behindCode (Segment.lex front cs)))) :
    segmentsFrom (before ++ cs) (byteLength before) =
      some (located (.after .origin before) (Segment.lex front cs)) := by
  cases cs with
  | nil =>
    rw [List.append_nil, segmentsFrom_end, Segment.lex_nil]
    rfl
  | cons c cs =>
    cases hs : Region.scan? front (c :: cs) with
    | some found =>
      rw [Segment.lex_of_scan? hs] at h ⊢
      simpa [leadingCode, behindCode] using h
    | none =>
      have hlt : byteLength before <
          byteLength (before ++ leadingCode (Segment.lex front (c :: cs))) := by
        rw [Segment.lex_of_code hs, leadingCode_addCode]
        exact lt_byteLength_append ..
      rw [segmentsFrom_of_segmentAt (lt_byteLength_append before c cs) (segmentAt_code hf hs) hlt,
        SegmentAt.stop, h, Option.map_some, Segment.lex_of_code hs]
      generalize hl : Segment.addCode c (Segment.lex (some c) cs) = segments
      rw [leadingCode_append_behindCode] at hl
      rw [← hl, located_cons, byte_after_origin, SegmentAt.ofSegment, Segment.text,
        ← Position.after_append, ← byteLength_append]
      rfl

/-- The scan goes on behind the code at a place. -/
theorem segmentsFrom_behind (hf : before.getLast? = front) (cs : List Char) :
    segmentsFrom (before ++ cs) (byteLength (before ++ leadingCode (Segment.lex front cs))) =
      some (located (.after .origin (before ++ leadingCode (Segment.lex front cs)))
        (behindCode (Segment.lex front cs))) := by
  fun_induction Segment.lex front cs generalizing before with
  | case1 =>
    simp only [leadingCode, behindCode, List.append_nil]
    exact segmentsFrom_end before
  | case2 front c cs r rest h _ ih =>
    have hne := Region.text_ne_nil_of_scan? h
    have hlast : (before ++ r.text).getLast? = r.text.getLast? := by
      rw [List.getLast?_append, List.getLast?_eq_some_getLast hne, Option.some_or]
    have hs : segmentAt (before ++ c :: cs) (byteLength before) =
        some (.region (.ofRegion (byteLength before) r)) := by
      rw [segmentAt, scanRegion_append, hf, h]
      rfl
    have hlt : byteLength before < byteLength before + byteLength r.text := by
      have := byteLength_pos hne
      omega
    have hnext := segmentsFrom_of_behind hlast (ih hlast)
    rw [List.append_assoc, Region.append_of_scan? h, byteLength_append] at hnext
    simp only [leadingCode, behindCode, List.append_nil]
    rw [segmentsFrom_of_segmentAt (lt_byteLength_append before c cs) hs hlt]
    simp only [SegmentAt.stop, RegionAt.ofRegion]
    rw [hnext, located_cons, byte_after_origin, ← Position.after_append]
    rfl
  | case3 front c cs h ih =>
    have hc : (before ++ [c]).getLast? = some c := by simp
    rw [leadingCode_addCode, behindCode_addCode]
    simpa using ih hc

/-- The scan finds the segments of the text. -/
theorem segments_eq (text : List Char) :
    segments text = some (located .origin (Segment.ofText text)) := by
  have hf : ([] : List Char).getLast? = none := rfl
  exact segmentsFrom_of_behind hf (segmentsFrom_behind hf text)

end NamedSql.Offsets
