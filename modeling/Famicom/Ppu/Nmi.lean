/-!
# Announcing vertical blank

The picture unit drives the processor's non-maskable line. The line is high while vertical
blank lasts unread and the program has asked to be told. Its level is kept, and only an event
that touches one of the two conditions takes it to a new one.
-/

namespace Famicom

/-- What moves the line. -/
inductive NmiEvent where
  /-- Vertical blank begins. -/
  | vblankSet
  /-- The line before the picture begins. -/
  | vblankCleared
  /-- The program asks to be told. -/
  | enableSet
  /-- The program asks not to be told. -/
  | enableCleared
  /-- The program reads the status. -/
  | statusRead
deriving DecidableEq, Repr

/-- The two conditions behind the line, and its level. -/
structure Nmi where
  /-- The program has asked to be told. -/
  enabled : Bool := false
  /-- Vertical blank lasts unread. -/
  vblank : Bool := false
  /-- The level of the line, which stays until an event moves it. -/
  line : Bool := false
deriving DecidableEq, Repr

namespace Nmi

/-- Take the line to the level that the conditions ask for. -/
def settle (nmi : Nmi) : Nmi := { nmi with line := nmi.enabled && nmi.vblank }

/-- The conditions after an event, with the line where they take it. -/
def on (nmi : Nmi) : NmiEvent → Nmi
  | .vblankSet => { nmi with vblank := true }.settle
  | .vblankCleared | .statusRead => { nmi with vblank := false }.settle
  | .enableSet => { nmi with enabled := true }.settle
  | .enableCleared => { nmi with enabled := false }.settle

/-- The line is at the level that its conditions ask for. -/
def Settled (nmi : Nmi) : Prop := nmi.line = (nmi.enabled && nmi.vblank)

/-- Every event settles the line. -/
theorem settled_on (nmi : Nmi) (event : NmiEvent) : (nmi.on event).Settled := by
  cases event <;> rfl

end Nmi

end Famicom
