import NamedSql.Proofs.MarkerPlaces

namespace NamedSql

/-- The place in a text when another text stands in front of it. -/
def Position.behind (front : List Char) (p : Position) : Position :=
  ⟨byteLength front + p.byte, front.count '\n' + p.line⟩

theorem Position.behind_origin (front : List Char) : origin.behind front = origin.after front := by
  simp [behind, origin, after, Nat.add_comm]

theorem Position.behind_after (front : List Char) (p : Position) (cs : List Char) :
    (p.after cs).behind front = (p.behind front).after cs := by
  simp [behind, after, Nat.add_assoc]

def Line.behind (front : List Char) (l : Line) : Line :=
  { l with start := l.start.behind front }

def Marker.behind (front : List Char) (m : Marker) : Marker :=
  { m with line := front.count '\n' + m.line }

def Excerpt.behind (front : List Char) (e : Excerpt) : Excerpt :=
  { e with start := e.start.behind front }

def Section.behind (front : List Char) (s : Section) : Section :=
  ⟨s.marker.map (.behind front), s.start.behind front, s.text⟩

variable {front : List Char}

namespace Line

theorem locate_behind (front : List Char) (start : Position) (chars : List (List Char)) :
    locate (start.behind front) chars = (locate start chars).map (behind front) := by
  induction chars generalizing start with
  | nil => rfl
  | cons cs rest ih =>
    rw [locate, locate, List.map_cons, ← ih, ← Position.behind_after]
    rfl

theorem join_map_behind (front : List Char) (lines : List Line) :
    join (lines.map (behind front)) = join lines := by
  rw [join, join, List.flatMap_map]
  rfl

theorem contentStop_behind (front : List Char) (l : Line) :
    (l.behind front).contentStop = l.contentStop.behind front :=
  (Position.behind_after ..).symm

end Line

namespace Excerpt

theorem locate_behind (front : List Char) (start : Position) (ps : List (List Char)) :
    locate (start.behind front) ps = (locate start ps).map (behind front) := by
  induction ps generalizing start with
  | nil => rfl
  | cons piece rest ih =>
    rw [locate, locate, List.map_cons, ← ih, ← Position.behind_after]
    rfl

theorem trim_behind (front : List Char) (e : Excerpt) :
    (e.behind front).trim = e.trim.behind front := by
  rw [trim, trim, behind, behind, Position.behind_after]

theorem ofScript_behind (front : List Char) (start : Position) (text : List Char) :
    ofScript (start.behind front) text = (ofScript start text).map (behind front) := by
  have hm (es : List Excerpt) :
      (es.map (behind front)).map trim = (es.map trim).map (behind front) := by
    simp only [List.map_map, Function.comp_def, trim_behind]
  rw [ofScript, ofScript, locate_behind, hm, List.filter_map]
  rfl

end Excerpt

namespace Section

theorem excerpts_behind (front : List Char) (s : Section) :
    (s.behind front).excerpts = s.excerpts.map (.behind front) :=
  Excerpt.ofScript_behind front s.start s.text

theorem statements_behind (front : List Char) (s : Section) :
    (s.behind front).statements = s.statements.map (.behind front) := by
  rw [statements, statements, excerpts_behind, List.filter_map]
  rfl

theorem named_behind (front : List Char) (s : Section) :
    (s.behind front).named = s.named.map (Prod.map id (.behind front)) := by
  unfold named
  rw [statements_behind]
  cases s.statements with
  | nil => rfl
  | cons first rest =>
    cases hm : s.marker <;> simp [behind, Marker.behind, hm]

end Section

namespace Outline
variable {used used' : Line → Option Marker} {lines : List Line}

theorem cutAtMarkers_congr (h : ∀ l ∈ lines, used' l = used l) :
    cutAtMarkers used' lines = cutAtMarkers used lines := by
  induction lines with
  | nil => rfl
  | cons l lines ih =>
    obtain ⟨hl, hrest⟩ := List.forall_mem_cons.mp h
    rw [cutAtMarkers, cutAtMarkers, hl, ih hrest]

/-- Lines that stand behind a text are cut into the sections that they are cut into by themselves. -/
theorem cutAtMarkers_behind
    (h : ∀ l ∈ lines, used' (l.behind front) = (used l).map (.behind front)) :
    cutAtMarkers used' (lines.map (.behind front)) =
      ((cutAtMarkers used lines).1, (cutAtMarkers used lines).2.map (.behind front)) := by
  induction lines with
  | nil => rfl
  | cons l lines ih =>
    obtain ⟨hl, hrest⟩ := List.forall_mem_cons.mp h
    rw [List.map_cons, cutAtMarkers, cutAtMarkers, hl, ih hrest]
    cases used l with
    | none => rfl
    | some m =>
      rw [Line.contentStop_behind]
      rfl

end Outline

end NamedSql
