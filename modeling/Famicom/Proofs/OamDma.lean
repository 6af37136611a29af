import Famicom.OamDma

/-!
# The course of a transfer

While a transfer is under way every cycle brings its end one cycle nearer, whatever bytes are
handed back. So a transfer ends after exactly the cycles that its start leaves to it: one to
wait, a second one on an odd cycle, and two for each byte of the page. What the engine does in a
cycle depends on the number of cycles gone since the start and on the byte handed back last, and on
nothing that came before the start.
-/

namespace Famicom

/-- One use of the transfer engine. -/
inductive OamDmaUse where
  /-- Begin a transfer. -/
  | start (page : UInt8) (oddCycle : Bool)
  /-- Hand back a byte. -/
  | latch (value : UInt8)
  /-- Go through one cycle. -/
  | step
deriving DecidableEq, Repr

namespace OamDmaUse

/-- The byte that a use hands back. -/
def handed : OamDmaUse → Option UInt8
  | latch value => some value
  | start _ _ | step => none

/-- The use begins a transfer. -/
def starts : OamDmaUse → Bool
  | start _ _ => true
  | latch _ | step => false

/-- The byte that is handed back last. -/
def lastHanded (uses : List OamDmaUse) : Option UInt8 := (uses.filterMap handed).getLast?

/-- A byte stays until the next one is handed back. -/
theorem lastHanded_latch (value : UInt8) (rest : List OamDmaUse) :
    lastHanded (latch value :: rest) = some ((lastHanded rest).getD value) := by
  have hfirst : (latch value).handed = some value := rfl
  rw [lastHanded, List.filterMap_cons_some hfirst, List.getLast?_cons]
  rfl

end OamDmaUse

namespace OamDma

/-- A transfer under way has reads or writes left. -/
def Sound (dma : OamDma) : Prop := dma.active = true → dma.done < length

/-- A transfer begins with all reads and writes left. -/
theorem sound_start (page : UInt8) (oddCycle : Bool) : Sound (start page oddCycle) :=
  fun _ => (by decide : 0 < length)

/-- The cycles of a transfer, counted at its start. -/
theorem remaining_start (page : UInt8) (oddCycle : Bool) :
    (start page oddCycle).remaining = 513 + oddCycle.toNat := by
  simp only [remaining, start, length, if_true]
  omega

/-- An idle engine has no cycles left. -/
theorem remaining_of_idle {dma : OamDma} (h : dma.active = false) : dma.remaining = 0 := by
  simp [remaining, h]

/-- A transfer under way has cycles left. -/
theorem remaining_pos {dma : OamDma} (hsound : Sound dma) (h : dma.active = true) :
    0 < dma.remaining := by
  have := hsound h
  simp only [remaining, h, if_true]
  omega

/-- What a cycle of a transfer does: it waits, reads a byte, or stores the byte read before. -/
theorem cycle_cases {dma : OamDma} (h : dma.active = true) :
    (0 < dma.waiting ∧ dma.action = .idle ∧
        dma.next = { dma with waiting := dma.waiting - 1 }) ∨
      (dma.waiting = 0 ∧ dma.done % 2 = 0 ∧
        dma.action = .read (dma.page.toUInt16 * 0x100 + UInt16.ofNat (dma.done / 2)) ∧
        dma.next = { dma with done := dma.done + 1, active := dma.done + 1 != length }) ∨
      (dma.waiting = 0 ∧ dma.done % 2 = 1 ∧ dma.action = .write dma.latched ∧
        dma.next = { dma with done := dma.done + 1, active := dma.done + 1 != length }) := by
  unfold action OamDma.next
  rw [h]
  rcases Nat.eq_zero_or_pos dma.waiting with hready | hwait
  · rcases Nat.mod_two_eq_zero_or_one dma.done with heven | hodd
    · exact .inr (.inl (by simp [hready, heven]))
    · exact .inr (.inr (by simp [hready, hodd]))
  · exact .inl (by simp [hwait])

/-- A cycle waits, or it does one of the reads and writes. -/
theorem next_cases {dma : OamDma} (h : dma.active = true) :
    (0 < dma.waiting ∧ dma.next = { dma with waiting := dma.waiting - 1 }) ∨
      (dma.waiting = 0 ∧
        dma.next = { dma with done := dma.done + 1, active := dma.done + 1 != length }) := by
  obtain ⟨hwait, -, hnext⟩ | ⟨hready, -, -, hnext⟩ | ⟨hready, -, -, hnext⟩ := cycle_cases h
  · exact .inl ⟨hwait, hnext⟩
  · exact .inr ⟨hready, hnext⟩
  · exact .inr ⟨hready, hnext⟩

/-- A cycle keeps a transfer sound. -/
theorem Sound.next {dma : OamDma} (hsound : Sound dma) : Sound dma.next := by
  intro hactive
  cases h : dma.active with
  | false => simp [OamDma.next, h] at hactive
  | true =>
    have hdone := hsound h
    obtain ⟨-, hnext⟩ | ⟨-, hnext⟩ := next_cases h
    · rw [hnext]
      exact hdone
    · rw [hnext] at hactive ⊢
      have hlast : dma.done + 1 ≠ length := bne_iff_ne.mp hactive
      exact Nat.lt_of_le_of_ne hdone hlast

/-- A cycle uses up one of the cycles left. -/
theorem remaining_next {dma : OamDma} (hsound : Sound dma) (h : dma.active = true) :
    dma.next.remaining + 1 = dma.remaining := by
  have hdone := hsound h
  obtain ⟨hwait, hnext⟩ | ⟨hready, hnext⟩ := next_cases h
  · simp only [hnext, remaining, h, if_true]
    omega
  · simp only [hnext, remaining, h, if_true]
    by_cases hlast : dma.done + 1 = length
    · simp only [hlast, bne_self_eq_false, Bool.false_eq_true, if_false]
      omega
    · simp only [bne_iff_ne.mpr hlast, if_true]
      omega

/-- The engine after a use. -/
def after (dma : OamDma) : OamDmaUse → OamDma
  | .start page oddCycle => start page oddCycle
  | .latch value => dma.latch value
  | .step => dma.step.2

/-- The engine after some uses in turn. -/
def afterAll (dma : OamDma) (uses : List OamDmaUse) : OamDma := uses.foldl after dma

/-- The cycles that a transfer waits before its first byte. -/
def waits (oddCycle : Bool) : Nat := 1 + oddCycle.toNat

/-- The engine when it has gone through some cycles of a transfer. -/
def gone (page : UInt8) (oddCycle : Bool) (cycles : Nat) (latched : UInt8) : OamDma where
  active := decide (cycles < waits oddCycle + length)
  page
  done := min (cycles - waits oddCycle) length
  latched
  waiting := waits oddCycle - cycles

section Course

variable (page : UInt8) (oddCycle : Bool) (latched : UInt8)

/-- A transfer begins with no cycle gone. -/
theorem gone_zero : gone page oddCycle 0 0 = start page oddCycle := by
  have hactive : 0 < waits oddCycle + length := by
    rw [length]
    omega
  have hwaits : waits oddCycle - 0 = 1 + oddCycle.toNat := rfl
  simp [gone, start, hactive, hwaits]

/-- A step is one more cycle gone, also behind the end of the transfer. -/
theorem next_gone (cycles : Nat) :
    (gone page oddCycle cycles latched).next = gone page oddCycle (cycles + 1) latched := by
  have hlength : length = 512 := rfl
  by_cases hcycles : cycles < waits oddCycle + length
  · have hactive : (gone page oddCycle cycles latched).active = true := decide_eq_true hcycles
    obtain ⟨hwait, hnext⟩ | ⟨hready, hnext⟩ := next_cases hactive
    · rw [hnext]
      simp only [gone, OamDma.mk.injEq, decide_eq_decide, true_and] at hwait ⊢
      omega
    · have hlast : (min (cycles - waits oddCycle) length + 1 != length) =
          decide (cycles + 1 < waits oddCycle + length) := by
        rw [Bool.eq_iff_iff, bne_iff_ne, decide_eq_true_iff]
        simp only [gone] at hready
        omega
      rw [hnext]
      simp only [gone, OamDma.mk.injEq, true_and] at hready ⊢
      exact ⟨hlast, by omega, by omega⟩
  · have hidle : (gone page oddCycle cycles latched).active = false := decide_eq_false hcycles
    have hnext : (gone page oddCycle cycles latched).next = gone page oddCycle cycles latched := by
      simp [OamDma.next, hidle]
    rw [hnext]
    simp only [gone, OamDma.mk.injEq, decide_eq_decide, true_and]
    omega

/-- Any uses that begin no transfer carry on the one under way: the steps among them are the cycles
gone by, and the engine holds the byte that came last. -/
theorem afterAll_gone {since : List OamDmaUse} (hsince : ∀ use ∈ since, use.starts = false)
    (cycles : Nat) :
    (gone page oddCycle cycles latched).afterAll since =
      gone page oddCycle (cycles + since.count .step)
        ((OamDmaUse.lastHanded since).getD latched) := by
  -- the closed form is its own invariant: a byte handed back changes the byte, a step the count
  induction since generalizing cycles latched with
  | nil => rfl
  | cons use rest ih =>
    have hrest : ∀ use ∈ rest, use.starts = false :=
      fun other hmem => hsince other (List.mem_cons_of_mem use hmem)
    change ((gone page oddCycle cycles latched).after use).afterAll rest = _
    cases use with
    | start otherPage otherCycle =>
      have hstarts := hsince _ List.mem_cons_self
      cases hstarts
    | latch value =>
      rw [List.count_cons_of_ne (by simp), OamDmaUse.lastHanded_latch]
      exact ih value hrest cycles
    | step =>
      rw [List.count_cons_self, Nat.add_comm _ 1, ← Nat.add_assoc]
      refine Eq.trans ?_ (ih latched hrest (cycles + 1))
      exact congrArg (afterAll · rest) (next_gone page oddCycle latched cycles)

/-- While a transfer waits, and when it is over, nothing is done. -/
theorem action_gone_idle {cycles : Nat}
    (h : cycles < waits oddCycle ∨ waits oddCycle + length ≤ cycles) :
    (gone page oddCycle cycles latched).action = .idle := by
  rcases h with hwait | hover
  · have hwaiting : 0 < (gone page oddCycle cycles latched).waiting := Nat.sub_pos_of_lt hwait
    simp [action, hwaiting]
  · have hactive : (gone page oddCycle cycles latched).active = false :=
      decide_eq_false (Nat.not_lt.mpr hover)
    simp [action, hactive]

/-- Between waiting and the end, the reads and writes done are the cycles gone since. -/
theorem action_gone {count : Nat} (h : count < length) :
    (gone page oddCycle (waits oddCycle + count) latched).action =
      if count % 2 = 0 then .read (page.toUInt16 * 0x100 + UInt16.ofNat (count / 2))
      else .write latched := by
  have hdone : min (waits oddCycle + count - waits oddCycle) length = count := by omega
  have hactive : decide (waits oddCycle + count < waits oddCycle + length) = true :=
    decide_eq_true (by omega)
  have hready : waits oddCycle - (waits oddCycle + count) = 0 := by omega
  simp only [action, gone, hactive, hready, hdone]
  rfl

end Course

/-- The address of a byte of a page, as a number. -/
theorem toNat_address (page : UInt8) {index : Nat} (h : index < 256) :
    (page.toUInt16 * 0x100 + UInt16.ofNat index).toNat = 256 * page.toNat + index := by
  have hpage := page.toNat_lt
  simp only [UInt16.toNat_add, UInt16.toNat_mul, UInt8.toNat_toUInt16, UInt16.reduceToNat,
    UInt16.toNat_ofNat']
  omega

/-- **The course of a transfer**, whatever the engine was doing when it began and whatever bytes are
handed back on the way. The engine waits for one cycle, and for a second one if it began on an odd
cycle; then it reads the 256 bytes of the page in order and writes after each of them the byte that
was handed back last. It is active before each of these 513 or 514 cycles and idle from then on. -/
theorem transfer_course (dma : OamDma) (page : UInt8) (oddCycle : Bool) (since : List OamDmaUse)
    (hsince : ∀ use ∈ since, use.starts = false) :
    let engine := dma.afterAll (.start page oddCycle :: since)
    let cycles := since.count .step
    (engine.active = true ↔ cycles < waits oddCycle + 512) ∧
      (cycles < waits oddCycle → engine.step.1 = .idle) ∧
      (∀ index < 256, cycles = waits oddCycle + 2 * index →
        ∃ address, engine.step.1 = .read address ∧
          address.toNat = 256 * page.toNat + index) ∧
      (∀ index < 256, cycles = waits oddCycle + 2 * index + 1 →
        engine.step.1 = .write ((OamDmaUse.lastHanded since).getD 0)) ∧
      (waits oddCycle + 512 ≤ cycles →
        engine.step.1 = .idle ∧ engine.step.2.active = false) ∧
      ∀ address, engine.step.1 = .read address → address.toNat / 256 = page.toNat := by
  intro engine cycles
  have hgone : engine = gone page oddCycle cycles ((OamDmaUse.lastHanded since).getD 0) := by
    have hcourse := afterAll_gone page oddCycle 0 hsince 0
    rwa [gone_zero, Nat.zero_add] at hcourse
  have hidle (h : cycles < waits oddCycle ∨ waits oddCycle + 512 ≤ cycles) :
      engine.step.1 = .idle := by
    rw [hgone]
    exact action_gone_idle _ _ _ h
  have hbyte (count : Nat) (hcount : count < 512) (hcycles : cycles = waits oddCycle + count) :
      engine.step.1 =
        if count % 2 = 0 then .read (page.toUInt16 * 0x100 + UInt16.ofNat (count / 2))
        else .write ((OamDmaUse.lastHanded since).getD 0) := by
    rw [hgone, hcycles]
    exact action_gone page oddCycle _ hcount
  refine ⟨?_, fun h => hidle (.inl h), fun index hindex hcycles => ?_,
    fun index hindex hcycles => ?_, fun h => ⟨hidle (.inr h), ?_⟩, fun address haddress => ?_⟩
  · rw [hgone]
    exact decide_eq_true_iff
  · have hread := hbyte (2 * index) (by omega) hcycles
    rw [if_pos (by omega), Nat.mul_div_cancel_left index (by decide)] at hread
    exact ⟨_, hread, toNat_address page hindex⟩
  · have hwrite := hbyte (2 * index + 1) (by omega) hcycles
    rwa [if_neg (by omega)] at hwrite
  · have hover : ¬cycles + 1 < waits oddCycle + 512 := by omega
    have hnext : engine.step.2 = _ := congrArg OamDma.next hgone
    rw [hnext, next_gone]
    exact decide_eq_false hover
  · by_cases hunder : waits oddCycle ≤ cycles ∧ cycles < waits oddCycle + 512
    · have hread := hbyte (cycles - waits oddCycle) (by omega) (by omega)
      split at hread
      · obtain rfl := OamDmaAction.read.inj (haddress.symm.trans hread)
        rw [toNat_address page (by omega)]
        omega
      · cases haddress.symm.trans hread
    · cases haddress.symm.trans (hidle (by omega))

/-- Uses in the midst of a transfer: two cycles of waiting, a read, and two bytes handed back. -/
def twiceHanded : List OamDmaUse := [.step, .latch 3, .step, .step, .latch 9, .latch 5]

/-- A transfer that is begun in the midst of another one starts anew, and of two bytes handed back
it writes the second. -/
theorem transfer_course_of_restart :
    let engine := (start 2 false).next.afterAll (.start 7 true :: twiceHanded)
    engine.active = true ∧ engine.step.1 = .write 5 := by
  intro engine
  obtain ⟨hactive, -, -, hwrite, -⟩ :=
    transfer_course (start 2 false).next 7 true twiceHanded (by decide)
  exact ⟨hactive.mpr (by decide), hwrite 0 (by decide) rfl⟩

end OamDma

end Famicom
