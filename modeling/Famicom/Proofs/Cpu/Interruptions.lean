import Famicom.Proofs.Cpu.BusUse
import Famicom.Proofs.Cpu.Cycles
import Famicom.Proofs.Cpu.Polling

/-!
# When interrupts are taken

Between two steps the surroundings of the processor may do anything, and they move the interrupt
lines as they like. What the processor does next can be seen on its bus: the way into a handler
begins with pushes and ends with the reads of the handler's vector, while an instruction begins
with the read of its opcode. So a run is a list of boundaries between steps, each with the levels
that the processor finds there.

Every rise of the non-maskable line between two looks is served once, by the step of the look that
sees it. The shared line is served by every other step that finds it high and not masked, and a
handler masks it from its first instruction on.
-/

namespace Famicom

variable {Bus : Type} [CpuBus Bus]

namespace Cpu

/-- The processor after a look at the lines that finds the non-maskable one at `level`. -/
def lookedAt (cpu : Cpu) (level : Bool) : Cpu := { cpu with nmiLevel := level, nmiPending := false }

/-- A step into a handler. -/
def entered (cpu : Cpu) (interrupt : Interrupt) (bus : Bus) : Nat × Cpu × Bus :=
  let (cpu, bus) := cpu.enter interrupt bus
  (interrupt.cycles, { cpu with cycles := cpu.cycles + interrupt.cycles }, bus)

/-- The accesses on the way into a handler: the program counter and the status are pushed, and
the handler's address is read. -/
def entryAccesses (cpu : Cpu) (interrupt : Interrupt) : List Access :=
  let sp := cpu.registers.sp
  [.write (stackAddress sp) (cpu.pc / 0x100).toUInt8,
    .write (stackAddress (sp - 1)) cpu.pc.toUInt8,
    .write (stackAddress (sp - 1 - 1)) (interrupt.pushedStatus cpu.registers.status).toByte,
    .read interrupt.vector, .read (interrupt.vector + 1)]

/-- The accesses on the way into a handler tell its vector. -/
theorem vector_of_entryAccesses {cpu : Cpu} {interrupt other : Interrupt}
    (h : cpu.entryAccesses interrupt = cpu.entryAccesses other) :
    interrupt.vector = other.vector := by
  simp only [entryAccesses, List.cons.injEq, Access.read.injEq] at h
  exact h.2.2.2.1

/-- The accesses of an instruction begin with the read of its opcode. -/
theorem runInstruction_reads_opcode (cpu : Cpu) (bus : Bus) :
    (cpu.runInstruction ({ bus } : Recorded Bus)).2.2.traffic.toList.head? =
      some (.read cpu.pc) := by
  let Begun (recorded : Recorded Bus) : Prop :=
    recorded.traffic.toList.head? = some (.read cpu.pc)
  have hpushed (recorded : Recorded Bus) (access : Access) (h : Begun recorded) :
      (recorded.traffic.push access).toList.head? = some (.read cpu.pc) := by
    rw [Array.toList_push, List.head?_append, h]
    rfl
  have hreads : CpuBus.KeptByReads Begun := fun recorded _ h => hpushed recorded _ h
  have hpushes : CpuBus.KeptByPushes Begun := fun recorded _ _ h => hpushed recorded _ h
  have hopcode : Begun (CpuBus.read ({ bus } : Recorded Bus) cpu.pc).2 := rfl
  unfold runInstruction
  dsimp only
  generalize decode (CpuBus.read ({ bus } : Recorded Bus) cpu.pc).1 = opcode
  obtain ⟨before, hbefore, hlast⟩ := execute_oneWriteOn hreads hpushes
    (keeps_resolve hreads hopcode opcode.mode cpu.registers (cpu.pc + 1)) opcode.operation
    (opcode.mode.resolve cpu.registers (cpu.pc + 1)
      (CpuBus.read ({ bus } : Recorded Bus) cpu.pc).2).1 _
  rcases hlast with heq | ⟨address, value, heq⟩
  · rw [heq]
    exact hbefore
  · rw [heq]
    exact hpushed before _ hbefore

/-- Only the stopping operation stops the processor. -/
theorem execute_jammed {operation : Operation} (h : operation ≠ .jam) (operand : Operand)
    (cpu : Cpu) (bus : Bus) : (operation.execute operand cpu bus).1.jammed = cpu.jammed := by
  cases operation with
  | jam => contradiction
  | branch flag level =>
    simp only [Operation.execute]
    split <;> rfl
  | _ => rfl

/-- An instruction stops the processor by the stopping operation only. -/
theorem runInstruction_jammed {cpu : Cpu} {bus : Bus}
    (h : (decode (CpuBus.read bus cpu.pc).1).operation ≠ .jam) :
    (cpu.runInstruction bus).2.1.jammed = cpu.jammed := by
  unfold runInstruction
  dsimp only
  exact execute_jammed h _ _ _

/-- What a look finds: the non-maskable line where its edge is new or waits, else the shared line
where it is high and not masked. -/
theorem poll_cases (cpu : Cpu) (nmi irq : Bool) :
    let edge := cpu.nmiPending || (nmi && !cpu.nmiLevel)
    let unmasked := irq && !cpu.registers.status.interruptDisable
    (edge = true ∧ cpu.poll nmi irq = (some .nmi, cpu.lookedAt nmi)) ∨
      (edge = false ∧ unmasked = true ∧ cpu.poll nmi irq = (some .irq, cpu.lookedAt nmi)) ∨
      (edge = false ∧ unmasked = false ∧ cpu.poll nmi irq = (none, cpu.lookedAt nmi)) := by
  intro edge unmasked
  unfold poll
  dsimp only
  cases hedge : edge with
  | true => exact .inl ⟨rfl, if_pos hedge⟩
  | false =>
    rw [if_neg (Bool.eq_false_iff.mp hedge)]
    cases hunmasked : unmasked with
    | true => exact .inr (.inl ⟨rfl, rfl, if_pos hunmasked⟩)
    | false => exact .inr (.inr ⟨rfl, rfl, if_neg (Bool.eq_false_iff.mp hunmasked)⟩)

end Cpu

/-- A moment between two steps: the processor as the last step left it, and the bus as the
surroundings have moved it since. -/
structure Boundary (Bus : Type) where
  cpu : Cpu
  bus : Bus

namespace Boundary

/-- The level of the non-maskable line that the processor finds. -/
def nmi (boundary : Boundary Bus) : Bool := CpuBus.nmiLine boundary.bus

/-- The level of the shared line that the processor finds. -/
def irq (boundary : Boundary Bus) : Bool := CpuBus.irqLine boundary.bus

/-- The shared line is masked. -/
def masked (boundary : Boundary Bus) : Bool := boundary.cpu.registers.status.interruptDisable

/-- The next step goes the way into a handler, as its accesses tell. -/
def Enters (boundary : Boundary Bus) (interrupt : Interrupt) : Prop :=
  boundary.cpu.accesses boundary.bus = boundary.cpu.entryAccesses interrupt

instance (boundary : Boundary Bus) (interrupt : Interrupt) :
    Decidable (boundary.Enters interrupt) :=
  inferInstanceAs (Decidable (_ = _))

/-- The next step runs the instruction at the program counter: its first access reads the opcode,
and all it does is what the instruction does. -/
def RunsInstruction (boundary : Boundary Bus) : Prop :=
  (boundary.cpu.accesses boundary.bus).head? = some (.read boundary.cpu.pc) ∧
    boundary.cpu.step boundary.bus =
      (boundary.cpu.lookedAt boundary.nmi).runInstruction boundary.bus

/-- The processor sees a new rise of the non-maskable line, or one that waits. -/
def edge (boundary : Boundary Bus) : Bool :=
  boundary.cpu.nmiPending || (boundary.nmi && !boundary.cpu.nmiLevel)

/-- The step into a handler that is due. -/
theorem step_of_poll_some {boundary : Boundary Bus} (hruns : boundary.cpu.jammed = false)
    {interrupt : Interrupt}
    (h : boundary.cpu.poll boundary.nmi boundary.irq =
      (some interrupt, boundary.cpu.lookedAt boundary.nmi)) :
    boundary.Enters interrupt ∧
      boundary.cpu.step boundary.bus =
        (boundary.cpu.lookedAt boundary.nmi).entered interrupt boundary.bus := by
  have hstep (Other : Type) [CpuBus Other] (bus : Other)
      (hnmi : CpuBus.nmiLine bus = boundary.nmi) (hirq : CpuBus.irqLine bus = boundary.irq) :
      boundary.cpu.step bus = (boundary.cpu.lookedAt boundary.nmi).entered interrupt bus := by
    unfold Cpu.step
    rw [if_neg (Bool.eq_false_iff.mp hruns), hnmi, hirq, h]
    rfl
  refine ⟨?_, hstep Bus boundary.bus rfl rfl⟩
  -- a recorder around the bus shows the same lines and notes the accesses
  rw [Enters, Cpu.accesses, hstep (Recorded Bus) { bus := boundary.bus } rfl rfl]
  rfl

/-- The step that runs an instruction, when no handler is due. -/
theorem step_of_poll_none {boundary : Boundary Bus} (hruns : boundary.cpu.jammed = false)
    (h : boundary.cpu.poll boundary.nmi boundary.irq =
      (none, boundary.cpu.lookedAt boundary.nmi)) : boundary.RunsInstruction := by
  have hstep (Other : Type) [CpuBus Other] (bus : Other)
      (hnmi : CpuBus.nmiLine bus = boundary.nmi) (hirq : CpuBus.irqLine bus = boundary.irq) :
      boundary.cpu.step bus = (boundary.cpu.lookedAt boundary.nmi).runInstruction bus := by
    unfold Cpu.step
    rw [if_neg (Bool.eq_false_iff.mp hruns), hnmi, hirq, h]
  refine ⟨?_, hstep Bus boundary.bus rfl rfl⟩
  rw [Cpu.accesses, hstep (Recorded Bus) { bus := boundary.bus } rfl rfl]
  exact (boundary.cpu.lookedAt boundary.nmi).runInstruction_reads_opcode boundary.bus

/-- A step goes one way only. -/
theorem Enters.vector_eq {boundary : Boundary Bus} {interrupt other : Interrupt}
    (h : boundary.Enters interrupt) (hother : boundary.Enters other) :
    interrupt.vector = other.vector :=
  Cpu.vector_of_entryAccesses (Eq.trans (Eq.symm h) hother)

/-- A step that runs an instruction enters no handler. -/
theorem RunsInstruction.not_enters {boundary : Boundary Bus} (h : boundary.RunsInstruction)
    (interrupt : Interrupt) : ¬boundary.Enters interrupt := by
  intro henters
  have hfirst := h.1
  rw [henters] at hfirst
  simp [Cpu.entryAccesses] at hfirst

/-- What a step of a running processor does, by the levels that it finds. -/
theorem course (boundary : Boundary Bus) (hruns : boundary.cpu.jammed = false) :
    (boundary.Enters .nmi ↔ boundary.edge = true) ∧
      (boundary.Enters .irq ↔
        boundary.edge = false ∧ boundary.irq = true ∧ boundary.masked = false) ∧
      (boundary.RunsInstruction ↔ ¬boundary.Enters .nmi ∧ ¬boundary.Enters .irq) := by
  have hvectors : Interrupt.nmi.vector ≠ Interrupt.irq.vector := by decide
  obtain ⟨hedge, hpoll⟩ | ⟨hedge, hirq, hpoll⟩ | ⟨hedge, hirq, hpoll⟩ :=
    boundary.cpu.poll_cases boundary.nmi boundary.irq
  · have hnmi := (step_of_poll_some hruns hpoll).1
    have hirq : ¬boundary.Enters .irq := fun h => hvectors (hnmi.vector_eq h)
    refine ⟨iff_of_true hnmi hedge, iff_of_false hirq ?_, iff_of_false ?_ ?_⟩
    · intro h
      exact Bool.false_ne_true (h.1.symm.trans hedge)
    · exact fun h => h.not_enters .nmi hnmi
    · exact fun h => h.1 hnmi
  · have hshared := (step_of_poll_some hruns hpoll).1
    have hnmi : ¬boundary.Enters .nmi := fun h => hvectors (h.vector_eq hshared)
    rw [Bool.and_eq_true, Bool.not_eq_true'] at hirq
    refine ⟨iff_of_false hnmi ?_, iff_of_true hshared ⟨hedge, hirq⟩, iff_of_false ?_ ?_⟩
    · exact fun h => Bool.false_ne_true (hedge.symm.trans h)
    · exact fun h => h.not_enters .irq hshared
    · exact fun h => h.2 hshared
  · have hinstruction := step_of_poll_none hruns hpoll
    have hnone := hinstruction.not_enters
    rw [Bool.and_eq_false_iff, Bool.not_eq_false'] at hirq
    refine ⟨iff_of_false (hnone .nmi) ?_, iff_of_false (hnone .irq) ?_,
      iff_of_true hinstruction ⟨hnone .nmi, hnone .irq⟩⟩
    · exact fun h => Bool.false_ne_true (hedge.symm.trans h)
    · rintro ⟨-, hhigh, hunmasked⟩
      rcases hirq with hlow | hmasked
      · exact Bool.false_ne_true (hlow.symm.trans hhigh)
      · exact Bool.false_ne_true (hunmasked.symm.trans hmasked)

/-- Whether a running processor enters the handler of the non-maskable line. -/
theorem decide_enters_nmi {boundary : Boundary Bus} (hruns : boundary.cpu.jammed = false) :
    decide (boundary.Enters .nmi) = boundary.edge := by
  rw [Bool.eq_iff_iff, decide_eq_true_iff]
  exact (boundary.course hruns).1

/-- A step into the handler of one of the lines. -/
theorem Enters.step_eq {boundary : Boundary Bus} {interrupt : Interrupt}
    (h : boundary.Enters interrupt) (hruns : boundary.cpu.jammed = false)
    (hline : interrupt ≠ .brk) :
    boundary.cpu.step boundary.bus =
      (boundary.cpu.lookedAt boundary.nmi).entered interrupt boundary.bus := by
  obtain ⟨-, hpoll⟩ | ⟨-, -, hpoll⟩ | ⟨-, -, hpoll⟩ :=
    boundary.cpu.poll_cases boundary.nmi boundary.irq
  · obtain ⟨henters, hstep⟩ := step_of_poll_some hruns hpoll
    have hvector := henters.vector_eq h
    cases interrupt with
    | nmi => exact hstep
    | brk | irq => contradiction
  · obtain ⟨henters, hstep⟩ := step_of_poll_some hruns hpoll
    have hvector := henters.vector_eq h
    cases interrupt with
    | irq => exact hstep
    | nmi | brk => contradiction
  · exact absurd h ((step_of_poll_none hruns hpoll).not_enters interrupt)

/-- The handler of a line begins with the shared line masked. -/
theorem Enters.masks {boundary : Boundary Bus} {interrupt : Interrupt}
    (h : boundary.Enters interrupt) (hruns : boundary.cpu.jammed = false)
    (hline : interrupt ≠ .brk) :
    (boundary.cpu.step boundary.bus).2.1.registers.status.interruptDisable = true := by
  rw [h.step_eq hruns hline]
  rfl

/-- A running processor goes on unless the opcode before it stops it. -/
theorem step_runs {boundary : Boundary Bus} (hruns : boundary.cpu.jammed = false)
    (hcode : (decode (CpuBus.read boundary.bus boundary.cpu.pc).1).operation ≠ .jam) :
    (boundary.cpu.step boundary.bus).2.1.jammed = false := by
  by_cases hnmi : boundary.Enters .nmi
  · rw [hnmi.step_eq hruns (by decide)]
    exact hruns
  · by_cases hirq : boundary.Enters .irq
    · rw [hirq.step_eq hruns (by decide)]
      exact hruns
    · let looked := boundary.cpu.lookedAt boundary.nmi
      have hgoes : (looked.runInstruction boundary.bus).2.1.jammed = looked.jammed :=
        Cpu.runInstruction_jammed hcode
      rw [((boundary.course hruns).2.2.mpr ⟨hnmi, hirq⟩).2, hgoes]
      exact hruns

end Boundary

/-- The boundaries of a run. Before each step the surroundings move once, lines and all. -/
def boundaries : List (Bus → Bus) → Cpu → Bus → List (Boundary Bus)
  | [], _, _ => []
  | move :: rest, cpu, bus =>
    { cpu, bus := move bus } ::
      boundaries rest (cpu.step (move bus)).2.1 (cpu.step (move bus)).2.2

/-- How often a line rises that was at the level `before`. -/
def rises : Bool → List Bool → Nat
  | _, [] => 0
  | before, level :: rest => (level && !before).toNat + rises level rest

section Run

variable {moves : List (Bus → Bus)} {cpu : Cpu} {bus : Bus}

/-- A run begins with a boundary and goes on after its step. -/
theorem boundaries_begin (move : Bus → Bus) (rest : List (Bus → Bus)) (cpu : Cpu) (bus : Bus) :
    ∃ first : Boundary Bus, first.cpu = cpu ∧ first.bus = move bus ∧
      boundaries (move :: rest) cpu bus =
        first :: boundaries rest (first.cpu.step first.bus).2.1 (first.cpu.step first.bus).2.2 :=
  ⟨{ cpu, bus := move bus }, rfl, rfl, rfl⟩

/-- A run goes on after any of its steps as a run of its own. -/
theorem boundaries_split {earlier later : List (Boundary Bus)} {boundary : Boundary Bus}
    (h : boundaries moves cpu bus = earlier ++ boundary :: later) :
    ∃ rest, later = boundaries rest (boundary.cpu.step boundary.bus).2.1
      (boundary.cpu.step boundary.bus).2.2 := by
  induction moves generalizing cpu bus earlier with
  | nil => simp [boundaries] at h
  | cons move rest ih =>
    rw [boundaries] at h
    cases earlier with
    | nil =>
      obtain ⟨rfl, hlater⟩ := List.cons_eq_cons.mp h
      exact ⟨rest, hlater.symm⟩
    | cons first earlier => exact ih (List.cons_eq_cons.mp h).2

/-- No edge waits at a boundary, and the processor remembers the level of the look before. -/
theorem boundaries_remember (hpending : cpu.nmiPending = false)
    (hruns : ∀ boundary ∈ boundaries moves cpu bus, boundary.cpu.jammed = false) :
    ∀ look ∈ (cpu.nmiLevel :: (boundaries moves cpu bus).map Boundary.nmi).zip
        (boundaries moves cpu bus),
      look.2.cpu.nmiPending = false ∧ look.2.cpu.nmiLevel = look.1 := by
  induction moves generalizing cpu bus with
  | nil => simp [boundaries]
  | cons move rest ih =>
    rw [boundaries] at hruns ⊢
    obtain ⟨hfirst, hrest⟩ := List.forall_mem_cons.mp hruns
    obtain ⟨hlevel, hnone⟩ := Cpu.step_nmi hfirst (move bus)
    have hlater := ih hnone hrest
    rw [hlevel] at hlater
    rw [List.map_cons, List.zip_cons_cons]
    exact List.forall_mem_cons.mpr ⟨⟨hpending, rfl⟩, hlater⟩

/-- The handler of the non-maskable line is entered once for each rise. -/
theorem countP_enters_nmi (hpending : cpu.nmiPending = false)
    (hruns : ∀ boundary ∈ boundaries moves cpu bus, boundary.cpu.jammed = false) :
    (boundaries moves cpu bus).countP (·.Enters .nmi) =
      rises cpu.nmiLevel ((boundaries moves cpu bus).map Boundary.nmi) := by
  induction moves generalizing cpu bus with
  | nil => rfl
  | cons move rest ih =>
    rw [boundaries] at hruns ⊢
    obtain ⟨hfirst, hrest⟩ := List.forall_mem_cons.mp hruns
    obtain ⟨hlevel, hnone⟩ := Cpu.step_nmi hfirst (move bus)
    have hlater := ih hnone hrest
    let boundary : Boundary Bus := { cpu, bus := move bus }
    have hone : (if decide (boundary.Enters .nmi) then 1 else 0) =
        (boundary.nmi && !cpu.nmiLevel).toNat := by
      rw [boundary.decide_enters_nmi hfirst, Boundary.edge, hpending, Bool.false_or]
      cases boundary.nmi && !cpu.nmiLevel <;> rfl
    rw [hlevel] at hlater
    rw [List.map_cons, List.countP_cons, rises, hlater, Nat.add_comm, hone]
    rfl

/-- **Interrupts follow the lines.** In a run without a stop, from a processor with no edge waiting,
the handler of the non-maskable line is entered by just the steps that find the line high after the
look before has found it low, so as often as the looks see it rise. Of the other steps those enter
the shared handler that find the shared line high and not masked, and the rest run an instruction
each. No edge waits before or after a step. When both lines ask at once, the shared one waits until
it is unmasked again, and is served there if it is still high and no new edge goes before it. -/
theorem interrupts_follow_lines (moves : List (Bus → Bus)) (cpu : Cpu) (bus : Bus)
    (hpending : cpu.nmiPending = false)
    (hruns : ∀ boundary ∈ boundaries moves cpu bus, boundary.cpu.jammed = false) :
    let run := boundaries moves cpu bus
    let levels := run.map Boundary.nmi
    (∀ before boundary, (before, boundary) ∈ (cpu.nmiLevel :: levels).zip run →
      (boundary.Enters .nmi ↔ before = false ∧ boundary.nmi = true) ∧
      (¬boundary.Enters .nmi →
        (boundary.Enters .irq ↔ boundary.irq = true ∧ boundary.masked = false)) ∧
      (boundary.RunsInstruction ↔ ¬boundary.Enters .nmi ∧ ¬boundary.Enters .irq) ∧
      (∀ interrupt ≠ .brk, boundary.Enters interrupt →
        boundary.cpu.step boundary.bus =
          (boundary.cpu.lookedAt boundary.nmi).entered interrupt boundary.bus) ∧
      boundary.cpu.nmiPending = false ∧
      (boundary.cpu.step boundary.bus).2.1.nmiPending = false) ∧
    run.countP (·.Enters .nmi) = rises cpu.nmiLevel levels ∧
    (∀ earlier first between later rest, run = earlier ++ first :: (between ++ later :: rest) →
      first.Enters .nmi → first.irq = true → (∀ boundary ∈ between, boundary.masked = true) →
      later.masked = false → later.irq = true → ¬later.Enters .nmi →
      ¬first.Enters .irq ∧ between ≠ [] ∧ (∀ boundary ∈ between, ¬boundary.Enters .irq) ∧
        later.Enters .irq) := by
  intro run levels
  refine ⟨?_, countP_enters_nmi hpending hruns, ?_⟩
  · intro before boundary hlook
    have hboundary : boundary.cpu.jammed = false := hruns boundary (List.of_mem_zip hlook).2
    obtain ⟨hnone, hlevel⟩ := boundaries_remember hpending hruns _ hlook
    obtain ⟨hnmi, hirq, hinstruction⟩ := boundary.course hboundary
    have hedge : boundary.edge = true ↔ before = false ∧ boundary.nmi = true := by
      rw [Boundary.edge, hnone, hlevel, Bool.false_or, Bool.and_eq_true, Bool.not_eq_true',
        and_comm]
    refine ⟨hnmi.trans hedge, ?_, hinstruction, ?_, hnone, (Cpu.step_nmi hboundary _).2⟩
    · intro hother
      rw [hnmi, Bool.not_eq_true] at hother
      rw [hirq, hother]
      exact and_iff_right rfl
    · exact fun interrupt hline henters => henters.step_eq hboundary hline
  · intro earlier first between later rest hrun hfirst hfirstIrq hbetween hlater hlaterIrq hquiet
    have hmem (boundary : Boundary Bus) (h : boundary ∈ first :: (between ++ later :: rest)) :
        boundary.cpu.jammed = false := by
      apply hruns
      change boundary ∈ run
      rw [hrun]
      exact List.mem_append_right earlier h
    have hfirstRuns := hmem first List.mem_cons_self
    have hlaterRuns := hmem later (by simp)
    have hmasks := hfirst.masks hfirstRuns (by decide)
    obtain ⟨moves', hsplit⟩ := boundaries_split hrun
    refine ⟨?_, ?_, ?_, ?_⟩
    · intro hshared
      exact absurd (hfirst.vector_eq hshared) (by decide)
    · -- the boundary after the entry is masked, so it is not the later one
      rintro rfl
      cases moves' with
      | nil => simp [boundaries] at hsplit
      | cons move moves' =>
        have hnext : later.cpu = (first.cpu.step first.bus).2.1 :=
          congrArg Boundary.cpu (List.cons_eq_cons.mp hsplit).1
        rw [Boundary.masked, hnext, hmasks] at hlater
        contradiction
    · intro boundary hin hshared
      have hmasked := hbetween boundary hin
      have hboundary := hmem boundary (by simp [hin])
      rw [(boundary.course hboundary).2.1.mp hshared |>.2.2] at hmasked
      contradiction
    · rw [(later.course hlaterRuns).2.1]
      rw [(later.course hlaterRuns).1, Bool.not_eq_true] at hquiet
      exact ⟨hquiet, hlaterIrq, hlater⟩

end Run

/-- Fill the memory with one byte and drive the lines. -/
def FlatBus.fed (code : UInt8) (nmi irq : Bool) (_ : FlatBus) : FlatBus :=
  { memory := .filled 16 code, nmi, irq }

/-- Every address of a filled memory holds its byte. -/
theorem FlatBus.read_fed (code : UInt8) (nmi irq : Bool) (bus : FlatBus) (address : UInt16) :
    CpuBus.read (fed code nmi irq bus) address = (code, fed code nmi irq bus) :=
  congrArg (·, fed code nmi irq bus) (Memory.get_filled _ _)

/-- The return from a handler takes the status from the stack. -/
theorem Cpu.runInstruction_fed_rti (cpu : Cpu) (nmi irq : Bool) (bus : FlatBus) :
    (cpu.runInstruction (FlatBus.fed 0x40 nmi irq bus)).2.1.registers.status =
      Status.ofPulled 0x40 := by
  unfold runInstruction
  rw [FlatBus.read_fed]
  dsimp only
  rw [decode_rti]
  simp only [Opcode.Catalogue.official, AddressingMode.resolve, Operation.execute, pull, pullWord,
    mapRegisters, FlatBus.read_fed]

/-- Both lines rise together and stay high. The non-maskable one is served once; its handler
returns at once, and then the shared one is served. -/
theorem interrupts_follow_rising_lines :
    let moves := [FlatBus.fed 0xEA false false, .fed 0xEA true true, .fed 0x40 true true,
      .fed 0xEA true true]
    let cpu : Cpu := { pc := 0x8000, registers := { status := Status.ofByte 0x20 } }
    let run := boundaries moves cpu {}
    (cpu.nmiPending = false ∧ ∀ boundary ∈ run, boundary.cpu.jammed = false) ∧
      run.map Boundary.nmi = [false, true, true, true] ∧ run.countP (·.Enters .nmi) = 1 ∧
      ∃ last ∈ run, last.Enters .irq := by
  intro moves cpu run
  have hnop : (decode 0xEA).operation ≠ .jam := by
    rw [Cpu.decode_nop]
    decide
  have hrti : (decode 0x40).operation ≠ .jam := by
    rw [Cpu.decode_rti]
    decide
  have hstep (boundary : Boundary FlatBus) {code : UInt8} {nmi irq : Bool} {bus : FlatBus}
      (hruns : boundary.cpu.jammed = false) (hbus : boundary.bus = .fed code nmi irq bus)
      (hcode : (decode code).operation ≠ .jam) :
      (boundary.cpu.step boundary.bus).2.1.jammed = false := by
    apply boundary.step_runs hruns
    rw [hbus, FlatBus.read_fed]
    exact hcode
  obtain ⟨first, hfirst, hfirstBus, hrun₁⟩ :=
    boundaries_begin (FlatBus.fed 0xEA false false) moves.tail cpu {}
  obtain ⟨both, hboth, hbothBus, hrun₂⟩ :=
    boundaries_begin (FlatBus.fed 0xEA true true) moves.tail.tail
      (first.cpu.step first.bus).2.1 (first.cpu.step first.bus).2.2
  obtain ⟨handler, hhandler, hhandlerBus, hrun₃⟩ :=
    boundaries_begin (FlatBus.fed 0x40 true true) moves.tail.tail.tail
      (both.cpu.step both.bus).2.1 (both.cpu.step both.bus).2.2
  obtain ⟨last, hlast, hlastBus, hrun₄⟩ :=
    boundaries_begin (FlatBus.fed 0xEA true true) []
      (handler.cpu.step handler.bus).2.1 (handler.cpu.step handler.bus).2.2
  have hrun : run = [first, both, handler, last] := by
    refine hrun₁.trans (congrArg (first :: ·) ?_)
    refine hrun₂.trans (congrArg (both :: ·) ?_)
    exact hrun₃.trans (congrArg (handler :: ·) hrun₄)
  have hfirstRuns : first.cpu.jammed = false := by rw [hfirst]
  have hbothRuns := hstep first hfirstRuns hfirstBus hnop
  rw [← hboth] at hbothRuns
  have hhandlerRuns := hstep both hbothRuns hbothBus hnop
  rw [← hhandler] at hhandlerRuns
  have hlastRuns := hstep handler hhandlerRuns hhandlerBus hrti
  rw [← hlast] at hlastRuns
  have hruns : ∀ boundary ∈ run, boundary.cpu.jammed = false := by
    rw [hrun]
    simp [hfirstRuns, hbothRuns, hhandlerRuns, hlastRuns]
  have hlevels : run.map Boundary.nmi = [false, true, true, true] := by
    rw [hrun]
    simp [hfirstBus, hbothBus, hhandlerBus, hlastBus, Boundary.nmi, CpuBus.nmiLine, FlatBus.fed]
  obtain ⟨hlooks, hcount, -⟩ := interrupts_follow_lines moves cpu {} rfl hruns
  change ∀ before boundary, _ ∈ (cpu.nmiLevel :: run.map Boundary.nmi).zip run → _ at hlooks
  rw [hlevels, hrun] at hlooks
  obtain ⟨hbothEdge, -⟩ := hlooks false both (by simp)
  obtain ⟨hhandlerEdge, hhandlerShared, hhandlerRest, -⟩ := hlooks true handler (by simp)
  obtain ⟨hlastEdge, hlastShared, -⟩ := hlooks true last (by simp)
  have hbothEnters : both.Enters .nmi := by
    refine hbothEdge.mpr ⟨rfl, ?_⟩
    rw [Boundary.nmi, hbothBus]
    rfl
  have hhandlerQuiet : ¬handler.Enters .nmi :=
    fun h => absurd (hhandlerEdge.mp h).1 (by decide)
  have hlastQuiet : ¬last.Enters .nmi := fun h => absurd (hlastEdge.mp h).1 (by decide)
  have hmasked : handler.masked = true := by
    rw [Boundary.masked, hhandler]
    exact hbothEnters.masks hbothRuns (by decide)
  have hhandlerUnshared : ¬handler.Enters .irq := by
    rw [hhandlerShared hhandlerQuiet, hmasked]
    exact fun h => absurd h.2 (by decide)
  have hunmasked : last.masked = false := by
    have hreturns := (hhandlerRest.mpr ⟨hhandlerQuiet, hhandlerUnshared⟩).2
    rw [Boundary.masked, hlast, hreturns, hhandlerBus, Cpu.runInstruction_fed_rti]
    rfl
  have hlastEnters : last.Enters .irq := by
    refine (hlastShared hlastQuiet).mpr ⟨?_, hunmasked⟩
    rw [Boundary.irq, hlastBus]
    rfl
  refine ⟨⟨rfl, hruns⟩, hlevels, ?_, last, ?_, hlastEnters⟩
  · rw [hcount, hlevels]
    rfl
  · rw [hrun]
    simp

end Famicom
