/-
  Positions in the source text that a node of the program stands for, and how they are written
  in messages.
-/

namespace MiddleEnd

/-- A position: a file by its number, then line and column, both counted from 1. -/
structure Location where
  file : UInt64
  line : UInt32
  column : UInt32
  deriving DecidableEq, Repr

namespace Location

/-- The position of nodes that stand in no source text. -/
def unknown : Location := ⟨0, 0, 0⟩

/-- Line 0 marks a position as unknown, whatever file and column say. -/
def isUnknown (l : Location) : Bool := l.line == 0

/-- The position as messages show it. -/
def text (l : Location) : String :=
  if l.isUnknown then "<unknown>"
  else s!"{l.file.toNat}:{l.line.toNat}:{l.column.toNat}"

theorem text_unknown : unknown.text = "<unknown>" := rfl

end Location

end MiddleEnd
