/-
Import lines, each once, in the order in which they were first recorded.

- `ImportLines`: the lines, with the invariant that none occurs twice.
- `insert`, `extend`: record one line, and the lines of another set.
-/
namespace GraphGen

/-- a line at the end of a list unless it is there already -/
def addLine (lines : List String) (line : String) : List String :=
  if lines.contains line then lines else lines ++ [line]

theorem nodup_addLine {lines : List String} (line : String) (h : lines.Nodup) : (addLine lines line).Nodup := by
  unfold addLine
  split
  · exact h
  · rename_i absent
    rw [List.nodup_append]
    refine ⟨h, by simp, ?_⟩
    intro a ha b hb
    simp only [List.mem_singleton] at hb
    subst hb
    exact fun e => absent (by simpa [e] using ha)

/-- lines, each once, in the order in which they were first recorded -/
structure ImportLines where
  lines : List String
  nodup : lines.Nodup

namespace ImportLines

/-- the set without lines -/
def empty : ImportLines := ⟨[], by simp⟩

instance : Inhabited ImportLines := ⟨empty⟩

/-- whether the line is recorded -/
def contains (s : ImportLines) (line : String) : Bool :=
  s.lines.contains line

/-- records a line -/
def insert (s : ImportLines) (line : String) : ImportLines :=
  ⟨addLine s.lines line, nodup_addLine line s.nodup⟩

/-- records lines one after another -/
def insertAll (s : ImportLines) (lines : List String) : ImportLines :=
  lines.foldl insert s

/-- the lines of a list, each once -/
def ofList (lines : List String) : ImportLines :=
  empty.insertAll lines

/-- records the lines of another set -/
def extend (s other : ImportLines) : ImportLines :=
  s.insertAll other.lines

/-- the number of lines -/
def size (s : ImportLines) : Nat :=
  s.lines.length

/-- whether no line is recorded -/
def isEmpty (s : ImportLines) : Bool :=
  s.lines.isEmpty

end ImportLines

end GraphGen
