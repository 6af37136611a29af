import Famicom.Proofs.Console.MemoryMap

/-!
# What the bus remembers

Besides the picture unit and the cartridge, the bus itself remembers three things: the bytes of
working memory, the byte that was read last, and the page of a request that has not been taken up.
Each of them is left by the newest use of the right kind, however many other uses come after it:
accesses elsewhere, dots, bytes of a transfer and resets of the rest leave it alone.
-/

namespace Famicom

/-- One use of the console's bus. -/
inductive BusUse where
  /-- An access, a dot, or a part of a transfer. -/
  | event (event : ConsoleEvent)
  /-- All but the memories goes back to its value at power-on. -/
  | reset
deriving DecidableEq, Repr

namespace ConsoleBus

/-- The bus after a use. -/
def afterUse (bus : ConsoleBus) : BusUse → ConsoleBus
  | .event event => bus.after event
  | .reset => bus.reset

/-- The bus after a history. -/
def afterUses (bus : ConsoleBus) (uses : List BusUse) : ConsoleBus := uses.foldl afterUse bus

/-- The byte that a use stores in a cell of working memory, which repeats every 2 KB. -/
def storedAt (cell : Nat) : BusUse → Option UInt8
  | .event (.access (.write address value)) =>
    if address.toNat < 0x2000 ∧ address.toNat % 0x800 = cell then some value else none
  | _ => none

/-- The byte that a use leaves on the data lines: a read leaves what it gives, a reset clears
them. -/
def leftOnLines (bus : ConsoleBus) : BusUse → Option UInt8
  | .event (.access (.read address)) => some (bus.read address).1
  | .reset => some 0
  | _ => none

/-- What a use makes of the request for a transfer: the transfer register sets it, and it is
dropped when it is taken up or with a reset. -/
def requested : BusUse → Option (Option UInt8)
  | .event (.access (.write address value)) =>
    if address.toNat = 0x4014 then some (some value) else none
  | .event .takeUp | .reset => some none
  | _ => none

/-- The newest of the values that the uses of a history leave, each on the bus that it finds. -/
def newest {α : Type} (leaves : ConsoleBus → BusUse → Option α) :
    List BusUse → ConsoleBus → Option α
  | [], _ => none
  | use :: rest, bus => (newest leaves rest (bus.afterUse use)).or (leaves bus use)

/-- What a use either leaves or keeps is, after a history, what was left newest. -/
theorem afterUses_newest {α : Type} (value : ConsoleBus → α)
    {leaves : ConsoleBus → BusUse → Option α}
    (hafter : ∀ bus use, value (bus.afterUse use) = (leaves bus use).getD (value bus))
    (bus : ConsoleBus) (uses : List BusUse) :
    value (bus.afterUses uses) = (newest leaves uses bus).getD (value bus) := by
  induction uses generalizing bus with
  | nil => rfl
  | cons use rest ih =>
    change value ((bus.afterUse use).afterUses rest) = _
    rw [ih, hafter, newest]
    cases newest leaves rest (bus.afterUse use) <;> rfl

/-- A read leaves working memory and the request alone, and its byte on the lines. -/
theorem read_leaves (bus : ConsoleBus) (address : UInt16) :
    (bus.read address).2.ram = bus.ram ∧ (bus.read address).2.openBus = (bus.read address).1 := by
  unfold read
  cases Region.of address <;> exact ⟨rfl, rfl⟩

/-- A write leaves the lines alone. -/
theorem write_openBus (bus : ConsoleBus) (address : UInt16) (value : UInt8) :
    (bus.write address value).openBus = bus.openBus := by
  unfold write
  cases Region.of address <;> rfl

/-- A write reaches the cell of working memory that its address leads to. -/
theorem write_ram (bus : ConsoleBus) (address : UInt16) (value : UInt8) (cell : Nat) :
    (bus.write address value).ram.get cell =
      if address.toNat < 0x2000 ∧ address.toNat % 0x800 = cell % 0x800 then value
      else bus.ram.get cell := by
  have hram := Region.of_eq_ram_iff address
  unfold write
  cases hregion : Region.of address with
  | ram =>
    simp only [hram.mp hregion, true_and]
    exact bus.ram.get_set address.toNat cell value
  | ppu | latches | cartridge =>
    refine (if_neg fun h => ?_).symm
    rw [hram.mpr h.1] at hregion
    cases hregion

/-- A write to the transfer register makes a request. -/
theorem write_dmaPage (bus : ConsoleBus) (address : UInt16) (value : UInt8) :
    (bus.write address value).dmaPage =
      if address.toNat = 0x4014 then some value else bus.dmaPage := by
  have hregister : address = dmaRegister ↔ address.toNat = 0x4014 := by
    rw [← UInt16.toNat_inj]
    rfl
  unfold write
  cases hregion : Region.of address with
  | latches => simp only [hregister]
  | ram | ppu | cartridge =>
    refine (if_neg fun h => ?_).symm
    rw [hregister.mpr h] at hregion
    cases hregion

section Uses

variable (bus : ConsoleBus) (use : BusUse)

/-- What a use leaves in a cell of working memory. -/
theorem afterUse_ram (cell : Nat) :
    (bus.afterUse use).ram.get cell = (storedAt (cell % 0x800) use).getD (bus.ram.get cell) := by
  rcases use with ((address | ⟨address, value⟩) | _ | _ | _) | _
  case event.access.read => exact congrArg (·.get cell) (bus.read_leaves address).1
  case event.access.write =>
    refine (bus.write_ram address value cell).trans ?_
    rw [storedAt]
    split <;> rfl
  all_goals rfl

/-- What a use leaves on the data lines. -/
theorem afterUse_openBus :
    (bus.afterUse use).openBus = (bus.leftOnLines use).getD bus.openBus := by
  rcases use with ((address | ⟨address, value⟩) | _ | _ | _) | _
  case event.access.read => exact (bus.read_leaves address).2
  case event.access.write => exact bus.write_openBus address value
  all_goals rfl

/-- What a use makes of the request. -/
theorem afterUse_dmaPage :
    (bus.afterUse use).dmaPage = (requested use).getD bus.dmaPage := by
  rcases use with ((address | ⟨address, value⟩) | _ | _ | _) | _
  case event.access.read => exact bus.read_dmaPage address
  case event.access.write =>
    refine (bus.write_dmaPage address value).trans ?_
    change _ = (if address.toNat = 0x4014 then some (some value) else none).getD bus.dmaPage
    split <;> rfl
  all_goals rfl

end Uses

/-- **What the bus remembers**, whatever has happened to it since it was built, with whatever board.
In working memory a read finds the byte that was stored last at an address with the same place in
2 KB, and 0 if there was none; no other use changes a byte there. Where nothing answers it finds the
byte that the last read gave since the last reset, and 0 if there was none. The request that waits
is the page written last to the transfer register, if it has not been taken up or dropped. -/
theorem remembers_newest (board : Board) (uses : List BusUse) :
    let start : ConsoleBus := { board }
    let bus := start.afterUses uses
    let line := (newest leftOnLines uses start).getD 0
    (∀ address, (bus.read address).1 =
        if address.toNat < 0x2000 then
          (newest (fun _ => storedAt (address.toNat % 0x800)) uses start).getD 0
        else if address.toNat < 0x4000 then bus.ppu.found (address.toNat % 8)
        else if address.toNat < 0x4020 then line
        else (bus.board.read address).getD line) ∧
      (∀ use, (∀ cell, storedAt cell use = none) → (bus.afterUse use).ram = bus.ram) ∧
      bus.dmaPage = (newest (fun _ => requested) uses start).getD none := by
  intro start bus line
  have hram (cell : Nat) : bus.ram.get cell =
      (newest (fun _ => storedAt (cell % 0x800)) uses start).getD 0 := by
    have hnewest := afterUses_newest (·.ram.get cell)
      (fun bus use => bus.afterUse_ram use cell) start uses
    rwa [Memory.get_filled] at hnewest
  have hline : bus.openBus = line := afterUses_newest (·.openBus) afterUse_openBus start uses
  have hrequest := afterUses_newest (·.dmaPage) afterUse_dmaPage start uses
  refine ⟨fun address => ?_, fun use hnone => ?_, hrequest⟩
  · rw [← bus.look_eq_read address, bus.look_eq_found address, found, hline, hram, Nat.mod_mod]
  · refine Memory.ext_get fun cell => ?_
    rw [bus.afterUse_ram use, hnone]
    rfl

end ConsoleBus

end Famicom
