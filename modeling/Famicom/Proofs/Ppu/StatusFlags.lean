import Famicom.Proofs.Ppu.Announcing
import Famicom.Proofs.Ppu.Drawing

/-!
# The life cycle of the status flags

Programs wait for the picture by reading the status in a loop. The flag of vertical blank begins
with one dot of a frame and ends with another one, with a reset or with the first read that sees
it, so of all reads between two beginnings at most one finds it set. The two flags of the sprites
begin on lines of the picture while a layer shows; no access reaches them, and they last until the
dot that clears all flags, or until a reset.
-/

namespace Famicom

/-- The flags that the drawing of sprites and the search for them set. -/
inductive SpriteFlag where
  /-- The first sprite has met the background. -/
  | zeroHit
  /-- Too many sprites were found on a line. -/
  | overflow
deriving DecidableEq

/-- The level of a flag of the sprites. -/
def PpuStatus.has (status : PpuStatus) : SpriteFlag → Bool
  | .zeroHit => status.spriteZeroHit
  | .overflow => status.spriteOverflow

namespace Schedule

/-- Pixels are put out on lines of the picture only. -/
theorem line_of_renderPixel {scanline dot : Nat} (h : .renderPixel ∈ work scanline dot) :
    scanline < 240 :=
  Decidable.byContradiction fun hline => work_of_not_onPicture (fun hpicture => hline hpicture.1) h

/-- Sprites are searched for on lines of the picture only. -/
theorem line_of_evaluateSprites {scanline dot : Nat} (h : .evaluateSprites ∈ work scanline dot) :
    scanline < 240 := by
  refine Decidable.byContradiction fun hline => ?_
  unfold work Line.ofScanline at h
  rw [if_neg hline] at h
  split at h
  · rw [operations] at h
    split at h <;> simp at h
  · split at h
    · have hfetches : .evaluateSprites ∉ fetches dot :=
        fun hmem => by simpa using fetches_subset dot hmem
      have hlineEnd : .evaluateSprites ∉ lineEnd dot :=
        fun hmem => by simpa using lineEnd_subset dot hmem
      exact not_mem_prerender hfetches hlineEnd (by decide) h
    · simp [operations] at h

end Schedule

namespace Ppu

variable {Bus : Type} [PatternBus Bus] {ppu : Ppu} {flag : SpriteFlag}

/-- Outside the picture, or with both layers hidden, the work of a dot raises no flag. -/
theorem performAll_has_of_low {rendering : Bool} {operations : List DotOperation}
    (hrendering : ppu.mask.rendering = rendering)
    (hquiet : rendering = true → .renderPixel ∉ operations ∧ .evaluateSprites ∉ operations)
    (hlow : ppu.status.has flag = false) (bus : Bus) :
    (performAll rendering operations ppu bus).1.status.has flag = false := by
  refine (performAll_keeps (fun other => other.mask.rendering = rendering ∧
    other.status.has flag = false) (fun operation hmem hdone other bus hkept => ?_)
    ⟨hrendering, hlow⟩ bus).2
  refine ⟨(perform_sameOutside operation other bus).mask ▸ hkept.1, ?_⟩
  cases operation with
  | renderPixel =>
    change other.renderPixel.status.has flag = false
    have hidden : ¬other.mask.rendering = true := fun h => (hquiet (hkept.1 ▸ h)).1 hmem
    rw [renderPixel, if_neg hidden]
    exact hkept.2
  | evaluateSprites => exact absurd hmem (hquiet (hdone rfl)).2
  | clearFlags => cases flag <;> rfl
  | _ => exact hkept.2

/-- A flag of the sprites rises on lines of the picture while a layer shows. -/
theorem tick_has_rises {bus : Bus} (hlow : ppu.status.has flag = false)
    (hhigh : (ppu.tick bus).2.1.status.has flag = true) :
    ppu.scanline < 240 ∧ ppu.mask.rendering = true := by
  refine Decidable.byContradiction fun hidden => ?_
  have hstays : (ppu.worked bus).status.has flag = false :=
    performAll_has_of_low rfl
      (fun hvisible =>
        ⟨fun hmem => hidden ⟨Schedule.line_of_renderPixel hmem, hvisible⟩,
          fun hmem => hidden ⟨Schedule.line_of_evaluateSprites hmem, hvisible⟩⟩)
      hlow bus
  rw [tick_unit, nextDot_status, hstays] at hhigh
  contradiction

/-- Putting out a pixel lowers no flag. -/
theorem renderPixel_has (hhigh : ppu.status.has flag = true) :
    ppu.renderPixel.status.has flag = true := by
  unfold renderPixel
  split
  · cases flag with
    | zeroHit => exact Bool.or_eq_true_iff.mpr (.inl hhigh)
    | overflow => exact hhigh
  · exact hhigh

/-- Of the work of a dot, only the clearing of the flags lowers one. -/
theorem performAll_has_of_high {rendering : Bool} {operations : List DotOperation}
    (hclear : .clearFlags ∉ operations) (hhigh : ppu.status.has flag = true) (bus : Bus) :
    (performAll rendering operations ppu bus).1.status.has flag = true := by
  refine performAll_keeps (·.status.has flag = true) (fun operation hmem _ other bus hkept => ?_)
    hhigh bus
  cases operation with
  | renderPixel => exact renderPixel_has hkept
  | evaluateSprites =>
    cases flag with
    | zeroHit => exact hkept
    | overflow => exact Bool.or_eq_true_iff.mpr (.inl hkept)
  | clearFlags => exact absurd hmem hclear
  | _ => exact hkept

/-- A flag of the sprites falls on the dot that ends vertical blank only. -/
theorem tick_has_falls (hhigh : ppu.status.has flag = true) (bus : Bus) :
    (ppu.tick bus).2.1.status.has flag = !ppu.endsVblank := by
  rw [tick_unit, nextDot_status, worked]
  cases hends : ppu.endsVblank with
  | true =>
    simp only [endsVblank, Bool.and_eq_true, beq_iff_eq] at hends
    rw [hends.1, hends.2]
    cases ppu.mask.rendering <;> cases flag <;> rfl
  | false =>
    have hclear := mt endsVblank_of_clearFlags (Bool.eq_false_iff.mp hends)
    exact performAll_has_of_high hclear hhigh bus

/-- The position is behind the dot that begins vertical blank, and not behind the one that ends
it. -/
def InVblank (ppu : Ppu) : Prop :=
  (ppu.scanline = 241 ∧ 1 < ppu.dot) ∨ (241 < ppu.scanline ∧ ppu.scanline < 261) ∨
    (ppu.scanline = 261 ∧ ppu.dot ≤ 1)

instance (ppu : Ppu) : Decidable ppu.InVblank := inferInstanceAs (Decidable (_ ∨ _ ∨ _))

/-- Vertical blank lasts inside its times only. -/
theorem Timed.inVblank (h : ppu.Timed) (hvblank : ppu.nmi.vblank = true) : ppu.InVblank := by
  obtain ⟨hfirst, hlast⟩ := h.vblank_le hvblank
  have hdot := h.onGrid.dot_lt
  rw [vblankFirst_eq, position] at hfirst
  rw [vblankLast_eq, position] at hlast
  simp only [Schedule.dots] at hdot hfirst hlast
  unfold InVblank
  omega

end Ppu

namespace PpuSide

variable {side : PpuSide} {use : PpuUse} {flag : SpriteFlag}

/-- The use works through the dot at a position. -/
def WorksAt (side : PpuSide) (use : PpuUse) (scanline dot : Nat) : Prop :=
  use = .dot ∧ side.ppu.scanline = scanline ∧ side.ppu.dot = dot

instance (side : PpuSide) (use : PpuUse) (scanline dot : Nat) :
    Decidable (side.WorksAt use scanline dot) :=
  inferInstanceAs (Decidable (_ ∧ _ ∧ _))

/-- The top bit of what a use gives back, where it reads the status. -/
def vblankRead (side : PpuSide) (use : PpuUse) : Option Bool :=
  if use.readsStatus then (side.answer use).map (Byte.bit · 0x80) else none

/-- The top bits of all bytes that a history reads from the status, oldest first. -/
def vblankReads (side : PpuSide) (uses : List PpuUse) : List Bool :=
  (side.moments uses).filterMap fun moment => moment.1.vblankRead moment.2

/-- The dot that begins vertical blank. -/
theorem worksAt_begin : side.WorksAt .dot 241 1 ↔ side.ppu.beginsVblank = true := by
  simp [WorksAt, Ppu.beginsVblank, Schedule.vblankScanline]

/-- The dot that ends vertical blank. -/
theorem worksAt_end : side.WorksAt .dot 261 1 ↔ side.ppu.endsVblank = true := by
  simp [WorksAt, Ppu.endsVblank, Schedule.prerenderScanline]

/-- A read of the status gives the flag of vertical blank. -/
theorem vblankRead_eq (side : PpuSide) (use : PpuUse) :
    side.vblankRead use = if use.readsStatus then some side.ppu.status.vblank else none := by
  rw [vblankRead]
  split
  · next hread =>
    unfold PpuUse.readsStatus at hread
    split at hread
    · next address =>
      have haddress : (address % 8).toNat = 2 := congrArg UInt16.toNat (beq_iff_eq.mp hread)
      have hbyte : (side.ppu.readRegister address side.board).1 = side.ppu.statusByte := by
        rw [Ppu.readRegister, haddress]
        rfl
      refine congrArg some ?_
      change Byte.bit (side.ppu.readRegister address side.board).1 0x80 = _
      rw [hbyte]
      exact side.ppu.status.bit_flagBits_add side.ppu.lines
    · contradiction
  · rfl

/-- What a history reads from the status: what its first use reads, then the rest. -/
theorem vblankReads_cons (side : PpuSide) (use : PpuUse) (rest : List PpuUse) :
    side.vblankReads (use :: rest) =
      (if use.readsStatus then [side.ppu.status.vblank] else []) ++
        (side.after use).vblankReads rest := by
  rw [vblankReads, moments, List.filterMap_cons]
  dsimp only
  rw [vblankRead_eq]
  cases use.readsStatus <;> rfl

section VerticalBlank

/-- Vertical blank lasts after the dot that begins it, and after any other use if it did before and
the use does not end it. -/
theorem after_vblank_iff (h : side.ppu.InStep) :
    (side.after use).ppu.status.vblank = true ↔
      side.WorksAt use 241 1 ∨
        (side.ppu.status.vblank = true ∧
          ¬(side.WorksAt use 261 1 ∨ use = .reset ∨ use.readsStatus = true)) := by
  by_cases hdot : use = .dot
  · subst hdot
    have htick := side.ppu.tick_vblank side.board
    rw [h.vblank] at htick
    rw [← (after_inStep h .dot).vblank, worksAt_begin, worksAt_end]
    refine (Bool.eq_iff_iff.mp htick).trans ?_
    simp [PpuUse.readsStatus]
  · have hnot (scanline dot : Nat) : ¬side.WorksAt use scanline dot := fun hworks => hdot hworks.1
    by_cases hreset : use = .reset
    · subst hreset
      simp [after, Ppu.reset, hnot]
    · rw [side.after_status hdot hreset]
      cases hreads : use.readsStatus <;> simp [hnot, hreset]

/-- Every use keeps to the times of vertical blank. -/
theorem after_timed (hstep : side.ppu.InStep) (h : side.ppu.Timed) (use : PpuUse) :
    (side.after use).ppu.Timed := by
  by_cases hdot : use = .dot
  · subst hdot
    exact h.tick side.board
  · have hstep' := after_inStep hstep use
    refine ⟨after_onGrid h.onGrid use, hstep'.settled, fun hvblank => ?_⟩
    rw [hstep'.vblank, after_vblank_iff hstep] at hvblank
    obtain ⟨hlasts, hends⟩ := hvblank.resolve_left fun hworks => hdot hworks.1
    rw [(side.after_samePicture hdot fun hreset => hends (.inr (.inl hreset))).position]
    exact h.vblank_le (hstep.vblank.trans hlasts)

/-- A history keeps to the times of vertical blank. -/
theorem afterAll_timed (hstep : side.ppu.InStep) (h : side.ppu.Timed) (uses : List PpuUse) :
    (side.afterAll uses).ppu.Timed := by
  refine (afterAll_keeps (fun other => other.ppu.InStep ∧ other.ppu.Timed)
    (fun moment _ hkept => ?_) ⟨hstep, h⟩).2
  exact ⟨after_inStep hkept.1 moment.2, after_timed hkept.1 hkept.2 moment.2⟩

/-- Until vertical blank begins, no read finds its flag set. -/
theorem vblankReads_of_low {uses : List PpuUse} (h : side.ppu.InStep)
    (hlow : side.ppu.status.vblank = false)
    (hquiet : ∀ moment ∈ side.moments uses, ¬moment.1.WorksAt moment.2 241 1) :
    ∀ seen ∈ side.vblankReads uses, seen = false := by
  induction uses generalizing side with
  | nil => simp [vblankReads, moments]
  | cons use rest ih =>
    obtain ⟨hfirst, hrest⟩ := List.forall_mem_cons.mp hquiet
    have hlow' : (side.after use).ppu.status.vblank = false := by
      rw [Bool.eq_false_iff, ne_eq, after_vblank_iff h, hlow]
      simp [hfirst]
    have hreads := ih (after_inStep h use) hlow' hrest
    rw [vblankReads_cons]
    split
    · exact List.forall_mem_cons.mpr ⟨hlow, hreads⟩
    · exact hreads

/-- Until vertical blank begins again, no read but the first one finds its flag set. -/
theorem vblankReads_tail {uses : List PpuUse} (h : side.ppu.InStep)
    (hquiet : ∀ moment ∈ side.moments uses, ¬moment.1.WorksAt moment.2 241 1) :
    ∀ seen ∈ (side.vblankReads uses).tail, seen = false := by
  induction uses generalizing side with
  | nil => simp [vblankReads, moments]
  | cons use rest ih =>
    obtain ⟨hfirst, hrest⟩ := List.forall_mem_cons.mp hquiet
    rw [vblankReads_cons]
    split
    · next hread =>
      refine vblankReads_of_low (after_inStep h use) ?_ hrest
      rw [Bool.eq_false_iff, ne_eq, after_vblank_iff h]
      simp [hfirst, hread]
    · exact ih (after_inStep h use) hrest

end VerticalBlank

section Sprites

/-- Only dots and resets move the flags of the sprites. -/
theorem after_has (hdot : use ≠ .dot) (hreset : use ≠ .reset) :
    (side.after use).ppu.status.has flag = side.ppu.status.has flag := by
  rw [side.after_status hdot hreset]
  split
  · cases flag <;> rfl
  · rfl

/-- A flag of the sprites rises with a dot of a line of the picture while a layer shows. -/
theorem after_has_rises (hlow : side.ppu.status.has flag = false)
    (hhigh : (side.after use).ppu.status.has flag = true) :
    use = .dot ∧ side.ppu.scanline < 240 ∧ side.ppu.mask.rendering = true := by
  by_cases hdot : use = .dot
  · subst hdot
    exact ⟨rfl, Ppu.tick_has_rises hlow hhigh⟩
  · by_cases hreset : use = .reset
    · subst hreset
      cases flag <;> contradiction
    · rw [after_has hdot hreset, hlow] at hhigh
      contradiction

/-- A flag of the sprites falls with the dot that ends vertical blank, or with a reset. -/
theorem after_has_falls (hhigh : side.ppu.status.has flag = true) :
    (side.after use).ppu.status.has flag = false ↔ side.WorksAt use 261 1 ∨ use = .reset := by
  by_cases hdot : use = .dot
  · subst hdot
    have htick := Ppu.tick_has_falls hhigh side.board
    change (side.ppu.tick side.board).2.1.status.has flag = false ↔ _
    rw [htick, worksAt_end]
    simp
  · by_cases hreset : use = .reset
    · subst hreset
      exact iff_of_true (by cases flag <;> rfl) (.inr rfl)
    · rw [after_has hdot hreset, hhigh]
      exact iff_of_false (by decide) fun h => h.elim (fun hworks => hdot hworks.1) hreset

/-- A flag of the sprites that is set stays set until one of the two ends it. -/
theorem afterAll_has {uses : List PpuUse} (hhigh : side.ppu.status.has flag = true)
    (hkept : ∀ moment ∈ side.moments uses,
      ¬(moment.1.WorksAt moment.2 261 1 ∨ moment.2 = .reset)) :
    (side.afterAll uses).ppu.status.has flag = true := by
  refine afterAll_keeps (·.ppu.status.has flag = true) (fun moment hmem hset => ?_) hhigh
  rw [← Bool.not_eq_false, after_has_falls hset]
  exact hkept moment hmem

end Sprites

/-- **The life cycle of the status flags**, whatever has happened to the unit since power-on and
whatever happens next. Vertical blank begins with the dot at (241, 1), lasts at positions behind
that dot and not behind the one at (261, 1), and ends there, with a reset or with a read of the
status; until it begins again, at most one read finds it set, and none after the first. The flags
of the sprites rise on lines of the picture while a layer shows, stay as they are in every access,
and once set stay set until the dot at (261, 1) or a reset. -/
theorem status_flags_life_cycle (board : Board) (history : List PpuUse) :
    let side := PpuSide.afterAll { ppu := {}, board } history
    (side.ppu.status.vblank = true → side.ppu.InVblank) ∧
    (∀ use, (side.after use).ppu.status.vblank = true ↔
      side.WorksAt use 241 1 ∨
        (side.ppu.status.vblank = true ∧
          ¬(side.WorksAt use 261 1 ∨ use = .reset ∨ use.readsStatus = true))) ∧
    (∀ uses, (∀ moment ∈ side.moments uses, ¬moment.1.WorksAt moment.2 241 1) →
      (side.vblankReads uses).count true ≤ 1 ∧
        ∀ seen ∈ (side.vblankReads uses).tail, seen = false) ∧
    ∀ flag,
      (∀ use, side.ppu.status.has flag = false → (side.after use).ppu.status.has flag = true →
        use = .dot ∧ side.ppu.scanline < 240 ∧ side.ppu.mask.rendering = true) ∧
      (∀ access, (side.after (.access access)).ppu.status.has flag = side.ppu.status.has flag) ∧
      (∀ use, side.ppu.status.has flag = true →
        ((side.after use).ppu.status.has flag = false ↔
          side.WorksAt use 261 1 ∨ use = .reset)) ∧
      (∀ uses, side.ppu.status.has flag = true →
        (∀ moment ∈ side.moments uses,
          ¬(moment.1.WorksAt moment.2 261 1 ∨ moment.2 = .reset)) →
        (side.afterAll uses).ppu.status.has flag = true) := by
  intro side
  let start : PpuSide := { ppu := {}, board }
  have hstart : start.ppu.InStep := Ppu.inStep_powerOn
  have htimed : start.ppu.Timed := ⟨.of_corner rfl rfl, hstart.settled, nofun⟩
  have hside : side.ppu.InStep := afterAll_inStep hstart history
  refine ⟨fun hvblank => ?_, fun use => after_vblank_iff hside, fun uses hquiet => ?_, fun flag =>
    ⟨fun use => after_has_rises, fun access => after_has nofun nofun, fun use => after_has_falls,
      fun uses => afterAll_has⟩⟩
  · exact (afterAll_timed hstart htimed history).inVblank (hside.vblank.trans hvblank)
  · have htail := vblankReads_tail hside hquiet
    refine ⟨?_, htail⟩
    cases hreads : side.vblankReads uses with
    | nil => exact Nat.zero_le 1
    | cons first rest =>
      rw [hreads, List.tail_cons] at htail
      have hnone : rest.count true = 0 :=
        List.count_eq_zero.mpr fun hmem => absurd (htail true hmem) (by decide)
      rw [List.count_cons, hnone]
      split <;> decide

end PpuSide

end Famicom
