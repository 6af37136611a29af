import Famicom.Proofs.Ppu.HiddenLayers
import Famicom.Proofs.Ppu.Lines

/-!
# What the dots ask of the cartridge

Hardware on a cartridge can count the fetches of the picture unit, so their number and order and
the lines of their addresses are part of what it does. Three parts of the work of a dot ask for
patterns, and none of them waits for the answer to decide what is asked next. So a recorder between
the unit and a board notes a list that is known from the unit alone, dot by dot.
-/

namespace Famicom.Ppu

/-- The two reads of a line of a pattern: the low byte, and the high byte eight further. -/
def readRow (row : Nat) : List Access :=
  [.read (UInt16.ofNat row), .read (UInt16.ofNat (row + 8))]

/-- What a part of the work of a dot asks the cartridge. -/
def asks (ppu : Ppu) : DotOperation → List Access
  | .fetchPatternLow => [.read (UInt16.ofNat ppu.tileRowAddress)]
  | .fetchPatternHigh => [.read (UInt16.ofNat (ppu.tileRowAddress + 8))]
  | .fillSpriteUnit => readRow (ppu.spriteRowAddress (SpriteUnits.slotOf ((ppu.dot - 257) / 8)))
  | _ => []

/-- What a list of work asks the cartridge, leaving out what needs a visible layer when there is
none. -/
def asksAll (rendering : Bool) (board : Board) : List DotOperation → Ppu → List Access
  | [], _ => []
  | operation :: rest, ppu =>
    if operation.needsRendering && !rendering then asksAll rendering board rest ppu
    else ppu.asks operation ++ asksAll rendering board rest (ppu.perform operation board).1

/-- What the current dot asks the cartridge. -/
def asked (ppu : Ppu) (board : Board) : List Access :=
  asksAll ppu.mask.rendering board (Schedule.work ppu.scanline ppu.dot) ppu

/-- The accesses that a recorder notes during a number of dots, oldest first. -/
def patternTraffic (ppu : Ppu) (board : Board) (dots : Nat) : List Access :=
  (ppu.run dots ({ bus := board } : Recorded Board)).2.2.traffic.toList

/-- A part of the work does on a recorder what it does on the board, and the recorder notes what it
asks. -/
theorem perform_recorded (operation : DotOperation) (ppu : Ppu) (recorded : Recorded Board) :
    ppu.perform operation recorded =
      ((ppu.perform operation recorded.bus).1, recorded.noting (ppu.asks operation)) := by
  cases operation <;> rfl

/-- A list of work does on a recorder what it does on the board. -/
theorem performAll_recorded (rendering : Bool) (operations : List DotOperation) (ppu : Ppu)
    (recorded : Recorded Board) :
    performAll rendering operations ppu recorded =
      ((performAll rendering operations ppu recorded.bus).1,
        recorded.noting (asksAll rendering recorded.bus operations ppu)) := by
  induction operations generalizing ppu recorded with
  | nil => rfl
  | cons operation rest ih =>
    unfold performAll asksAll
    split
    · exact ih ppu recorded
    · change performAll rendering rest (ppu.perform operation recorded).1
        (ppu.perform operation recorded).2 = _
      rw [perform_recorded]
      dsimp only
      rw [ih, Recorded.noting_bus, Recorded.noting_noting, perform_board]

/-- A dot does on a recorder what it does on the board. -/
theorem tick_recorded (ppu : Ppu) (recorded : Recorded Board) :
    ppu.tick recorded =
      ((ppu.tick recorded.bus).1, (ppu.tick recorded.bus).2.1,
        recorded.noting (ppu.asked recorded.bus)) := by
  rw [tick, performAll_recorded]
  rfl

/-- Dots leave with a recorder what each of them asks. -/
theorem run_recorded (dots : Nat) (ppu : Ppu) (recorded : Recorded Board) :
    (ppu.run dots recorded).2.2 =
      recorded.noting
        ((List.range dots).flatMap fun dot => (ppu.after dot recorded.bus).asked recorded.bus) := by
  induction dots generalizing ppu recorded with
  | zero => rfl
  | succ dots ih =>
    rw [run_succ, tick_recorded]
    dsimp only
    rw [ih, Recorded.noting_bus, Recorded.noting_noting, List.range_succ_eq_map, List.flatMap_cons,
      List.flatMap_map]
    simp only [after_succ]
    rfl

/-- The traffic of a number of dots is what each of them asks, in order. -/
theorem patternTraffic_eq (ppu : Ppu) (board : Board) (dots : Nat) :
    ppu.patternTraffic board dots =
      (List.range dots).flatMap fun dot => (ppu.after dot board).asked board := by
  rw [patternTraffic, run_recorded, Recorded.noting_traffic]
  simp only [Array.toList_appendList, List.nil_append]

/-- The traffic of one dot. -/
theorem patternTraffic_one (ppu : Ppu) (board : Board) :
    ppu.patternTraffic board 1 = ppu.asked board := by
  rw [patternTraffic_eq]
  exact List.append_nil _

variable {board : Board} {rendering : Bool} {first second : List DotOperation} {ppu : Ppu}

/-- Work, followed by more of it. -/
theorem asksAll_append :
    asksAll rendering board (first ++ second) ppu =
      asksAll rendering board first ppu ++
        asksAll rendering board second (performAll rendering first ppu board).1 := by
  induction first generalizing ppu with
  | nil => rfl
  | cons operation rest ih =>
    simp only [List.cons_append, asksAll, performAll]
    split
    · exact ih
    · rw [ih, perform_board, List.append_assoc]

/-- Work of which no part asks for patterns asks for none. -/
theorem asksAll_of_quiet (h : ∀ operation ∈ first, ∀ ppu : Ppu, ppu.asks operation = []) :
    asksAll rendering board first ppu = [] := by
  induction first generalizing ppu with
  | nil => rfl
  | cons operation rest ih =>
    obtain ⟨hquiet, hrest⟩ := List.forall_mem_cons.mp h
    unfold asksAll
    split
    · exact ih hrest
    · rw [hquiet, ih hrest, List.nil_append]

/-- Dots with both layers hidden ask for nothing. -/
theorem patternTraffic_of_hidden (h : ppu.mask.rendering = false) (dots : Nat) :
    ppu.patternTraffic board dots = [] := by
  rw [patternTraffic, run_of_hidden h dots board]

end Famicom.Ppu
