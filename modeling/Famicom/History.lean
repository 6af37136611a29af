/-!
# Bounded history

A history keeps the newest lines up to its capacity and forgets the oldest first. Anything with
a label and a state can be recorded as a line.
-/

namespace Famicom

/-- Things that can be recorded. -/
class Traced (α : Type) where
  /-- The kind of thing. -/
  label : α → String
  /-- The state as text; nothing where there is nothing to tell. -/
  state : α → Option String

/-- The label and the state of a thing as one line. -/
def Traced.line {α : Type} [Traced α] (thing : α) : Option String :=
  (Traced.state thing).map fun state => Traced.label thing ++ " " ++ state

/-- The newest lines. -/
structure History where
  /-- How many lines are kept, at least one. -/
  capacity : Nat
  /-- The lines, oldest first. -/
  lines : List String := []
deriving DecidableEq, Repr

namespace History

/-- A history of at most `capacity` lines; it always has room for one. -/
def withCapacity (capacity : Nat) : History := { capacity := max capacity 1 }

/-- Record a line. -/
def write (history : History) (line : String) : History :=
  let kept :=
    if history.lines.length = history.capacity then history.lines.drop 1 else history.lines
  { history with lines := kept ++ [line] }

/-- Record the state of a thing, if it has one. -/
def log {α : Type} [Traced α] (history : History) (thing : α) : History :=
  match Traced.line thing with
  | none => history
  | some line => history.write line

/-- Forget all lines. -/
def clear (history : History) : History := { history with lines := [] }

/-- How many lines there are. -/
def length (history : History) : Nat := history.lines.length

/-- There are no lines. -/
def isEmpty (history : History) : Bool := history.lines.isEmpty

end History

end Famicom
