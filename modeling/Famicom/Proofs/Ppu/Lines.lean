import Famicom.Proofs.Ppu.Position

/-!
# Going along a line

The unit left to itself for a number of dots. Inside a line the dots count up; the line before
the picture is followed by the first one of the picture, a dot earlier where the last one is
left out.
-/

namespace Famicom.Ppu

/-- The unit after a number of dots without any access. -/
def after (dots : Nat) (ppu : Ppu) (board : Board) : Ppu := (ppu.run dots board).2.1

/-- A dot, followed by the others. -/
theorem after_succ (dots : Nat) (ppu : Ppu) (board : Board) :
    ppu.after (dots + 1) board = (ppu.tick board).2.1.after dots board := by
  rw [after, run_succ, tick_board]
  rfl

/-- Dots, followed by more of them. -/
theorem after_add (first second : Nat) (ppu : Ppu) (board : Board) :
    ppu.after (first + second) board = (ppu.after first board).after second board := by
  induction first generalizing ppu with
  | zero => rw [Nat.zero_add]; rfl
  | succ first ih => rw [Nat.add_right_comm, after_succ, after_succ, ih]

/-- Dots, followed by one more. -/
theorem after_succ_eq_tick (dots : Nat) (ppu : Ppu) (board : Board) :
    ppu.after (dots + 1) board = ((ppu.after dots board).tick board).2.1 :=
  after_add dots 1 ppu board

/-- Dots leave memories and registers alone. -/
theorem after_sameMemory (dots : Nat) (ppu : Ppu) (board : Board) :
    SameMemory ppu (ppu.after dots board) := by
  induction dots with
  | zero => exact .refl ppu
  | succ dots ih =>
    rw [after_succ_eq_tick]
    exact ih.trans (tick_sameMemory _ board)

/-- The last dot of a frame is left out after the current line. -/
def SkipsLast (ppu : Ppu) : Prop :=
  ppu.scanline = 261 ∧ ppu.oddFrame = true ∧ ppu.mask.rendering = true

instance (ppu : Ppu) : Decidable ppu.SkipsLast :=
  inferInstanceAs (Decidable (_ ∧ _))

/-- The dots of the current line. -/
def lineDots (ppu : Ppu) : Nat := if ppu.SkipsLast then 340 else 341

/-- The line after a line. -/
def nextLine (scanline : Nat) : Nat := if scanline = 261 then 0 else scanline + 1

/-- A line has one dot more than its last one. -/
theorem lineDots_bounds (ppu : Ppu) : 340 ≤ ppu.lineDots ∧ ppu.lineDots ≤ 341 := by
  unfold lineDots
  split <;> omega

/-- A dot is the last one of its frame when it is the last one of the line before the picture. -/
theorem onLastDot_iff {ppu : Ppu} (h : ppu.dot < ppu.lineDots) :
    ppu.onLastDot = true ↔ ppu.scanline = 261 ∧ ppu.dot + 1 = ppu.lineDots := by
  simp only [onLastDot, Schedule.prerenderScanline, Schedule.dots, Bool.and_eq_true,
    Bool.or_eq_true, beq_iff_eq]
  by_cases hskips : ppu.SkipsLast
  · rw [lineDots, if_pos hskips] at h ⊢
    obtain ⟨hline, hodd, hrendering⟩ := hskips
    simp only [hline, hodd, hrendering, true_and, and_true]
    omega
  · rw [lineDots, if_neg hskips] at h ⊢
    refine and_congr_right fun hline => ?_
    have hnot : ¬((ppu.dot = 341 - 2 ∧ ppu.oddFrame = true) ∧ ppu.mask.rendering = true) :=
      fun hskip => hskips ⟨hline, hskip.1.2, hskip.2⟩
    rw [or_iff_left hnot]
    omega

/-- Before the end of a line a dot counts up. -/
theorem tick_within {ppu : Ppu} (h : ppu.dot + 1 < ppu.lineDots) (board : Board) :
    (ppu.tick board).2.1.scanline = ppu.scanline ∧
      (ppu.tick board).2.1.dot = ppu.dot + 1 ∧
      (ppu.tick board).2.1.lineDots = ppu.lineDots := by
  have hdots := ppu.lineDots_bounds
  have hnot : ppu.onLastDot = false := by
    rw [Bool.eq_false_iff, ne_eq, onLastDot_iff (by omega)]
    omega
  have hinside : ¬ppu.dot = Schedule.dots - 1 := by
    rw [Schedule.dots]
    omega
  obtain ⟨hline, hdot, hodd, -⟩ := tick_of_not_onLastDot hnot board
  rw [if_neg hinside] at hline hdot
  have hskips : (ppu.tick board).2.1.SkipsLast ↔ ppu.SkipsLast := by
    rw [SkipsLast, SkipsLast, hline, hodd, (ppu.tick_sameMemory board).mask]
  refine ⟨hline, hdot, ?_⟩
  simp only [lineDots, hskips]

/-- The last dot of a line leads to the next one. -/
theorem tick_last {ppu : Ppu} (h : ppu.dot + 1 = ppu.lineDots) (board : Board) :
    (ppu.tick board).2.1.scanline = nextLine ppu.scanline ∧
      (ppu.tick board).2.1.dot = 0 := by
  by_cases hprerender : ppu.scanline = 261
  · have hlast : ppu.onLastDot = true := (onLastDot_iff (by omega)).mpr ⟨hprerender, h⟩
    obtain ⟨hline, hdot, -⟩ := tick_of_onLastDot hlast board
    rw [nextLine, if_pos hprerender]
    exact ⟨hline, hdot⟩
  · have hnot : ppu.onLastDot = false := by
      rw [Bool.eq_false_iff, ne_eq, onLastDot_iff (by omega)]
      exact fun hlast => hprerender hlast.1
    have hend : ppu.dot = Schedule.dots - 1 := by
      rw [lineDots, if_neg fun hskips => hprerender hskips.1] at h
      rw [Schedule.dots]
      omega
    obtain ⟨hline, hdot, -⟩ := tick_of_not_onLastDot hnot board
    rw [if_pos hend] at hline hdot
    rw [nextLine, if_neg hprerender]
    exact ⟨hline, hdot⟩

/-- Before the end of a line the dots count up. -/
theorem after_within {ppu : Ppu} {dots : Nat} (h : ppu.dot + dots < ppu.lineDots)
    (board : Board) :
    (ppu.after dots board).scanline = ppu.scanline ∧
      (ppu.after dots board).dot = ppu.dot + dots ∧
      (ppu.after dots board).lineDots = ppu.lineDots := by
  induction dots with
  | zero => exact ⟨rfl, rfl, rfl⟩
  | succ dots ih =>
    obtain ⟨hline, hdot, hdots⟩ := ih (by omega)
    have hinside : (ppu.after dots board).dot + 1 < (ppu.after dots board).lineDots := by omega
    obtain ⟨hline', hdot', hdots'⟩ := tick_within hinside board
    rw [after_succ_eq_tick]
    exact ⟨hline'.trans hline, by omega, hdots'.trans hdots⟩

/-- Where the dots up to the end of a line lead. -/
theorem after_line {ppu : Ppu} (h : ppu.dot < ppu.lineDots) (board : Board) :
    (ppu.after (ppu.lineDots - ppu.dot) board).scanline = nextLine ppu.scanline ∧
      (ppu.after (ppu.lineDots - ppu.dot) board).dot = 0 := by
  have hlast : ppu.dot + (ppu.lineDots - ppu.dot - 1) < ppu.lineDots := by omega
  obtain ⟨hline, hdot, hdots⟩ := after_within hlast board
  have hend : (ppu.after (ppu.lineDots - ppu.dot - 1) board).dot + 1 =
      (ppu.after (ppu.lineDots - ppu.dot - 1) board).lineDots := by omega
  obtain ⟨hline', hdot'⟩ := tick_last hend board
  rw [(by omega : ppu.lineDots - ppu.dot = ppu.lineDots - ppu.dot - 1 + 1), after_succ_eq_tick]
  rw [hline] at hline'
  exact ⟨hline', hdot'⟩

section Follows

variable {State : Type} {part : Ppu → State} {step : Nat → Nat → State → DotOperation → State}
  {source ppu : Ppu} {board : Board}

/-- A part of the unit that every operation changes in a known way, by the position and the part
alone, as long as memories and registers are those of `source`. -/
structure Follows (part : Ppu → State) (step : Nat → Nat → State → DotOperation → State)
    (source : Ppu) (board : Board) : Prop where
  perform : ∀ {ppu : Ppu}, SameMemory source ppu → ∀ operation,
    part (ppu.perform operation board).1 = step ppu.scanline ppu.dot (part ppu) operation
  nextDot : ∀ ppu : Ppu, part ppu.nextDot.2 = part ppu

/-- What the work of a dot does to a part of the unit. -/
def dotWork (step : Nat → Nat → State → DotOperation → State) (scanline dot : Nat)
    (state : State) : State :=
  (Schedule.work scanline dot).foldl (step scanline dot) state

/-- A list of operations changes the part one after the other. -/
theorem Follows.performAll (h : Follows part step source board) (hsame : SameMemory source ppu)
    (operations : List DotOperation) :
    part (Ppu.performAll true operations ppu board).1 =
      operations.foldl (step ppu.scanline ppu.dot) (part ppu) := by
  induction operations generalizing ppu with
  | nil => rfl
  | cons operation rest ih =>
    have houtside := perform_sameOutside operation ppu board
    unfold Ppu.performAll
    rw [Bool.not_true, Bool.and_false, if_neg Bool.false_ne_true]
    change part (Ppu.performAll true rest (ppu.perform operation board).1
      (ppu.perform operation board).2).1 = _
    rw [perform_board, ih (hsame.trans houtside.toSameMemory), houtside.scanline, houtside.dot,
      h.perform hsame]
    rfl

/-- A dot changes the part by its work. -/
theorem Follows.tick (h : Follows part step source board) (hsame : SameMemory source ppu)
    (hrendering : source.mask.rendering = true) :
    part (ppu.tick board).2.1 = dotWork step ppu.scanline ppu.dot (part ppu) := by
  rw [tick_unit, h.nextDot, worked, hsame.mask, hrendering, h.performAll hsame]
  rfl

/-- What the work of each dot keeps up, holds all along the rest of a line. -/
theorem Follows.after (h : Follows part step source board) (hsame : SameMemory source ppu)
    (hrendering : source.mask.rendering = true) (invariant : Nat → State → Prop) {dots : Nat}
    (hdots : ppu.dot + dots ≤ ppu.lineDots) (hstart : invariant ppu.dot (part ppu))
    (hwork : ∀ dot state, ppu.dot ≤ dot → dot < ppu.dot + dots → invariant dot state →
      invariant (dot + 1) (dotWork step ppu.scanline dot state)) :
    invariant (ppu.dot + dots) (part (ppu.after dots board)) := by
  induction dots with
  | zero => exact hstart
  | succ dots ih =>
    have hbefore := ih (by omega) fun dot state hfirst hlast =>
      hwork dot state hfirst (by omega)
    obtain ⟨hscanline, hdot, -⟩ := after_within (by omega : ppu.dot + dots < ppu.lineDots) board
    rw [after_succ_eq_tick, h.tick (hsame.trans (ppu.after_sameMemory dots board)) hrendering,
      hscanline, hdot]
    exact hwork (ppu.dot + dots) _ (by omega) (by omega) hbefore

/-- A part that the rest of a line and the first dot of the next one leave alone is the same when
the first pixel is due. -/
theorem Follows.nextLine (h : Follows part step source board) (hsame : SameMemory source ppu)
    (hrendering : source.mask.rendering = true) (hdot : ppu.dot < ppu.lineDots)
    (hrest : ∀ dot state, ppu.dot ≤ dot → dotWork step ppu.scanline dot state = state)
    (hfirst : ∀ state, dotWork step (Ppu.nextLine ppu.scanline) 0 state = state) :
    (ppu.after (ppu.lineDots - ppu.dot + 1) board).scanline = Ppu.nextLine ppu.scanline ∧
      (ppu.after (ppu.lineDots - ppu.dot + 1) board).dot = 1 ∧
      part (ppu.after (ppu.lineDots - ppu.dot + 1) board) = part ppu := by
  obtain ⟨hscanline, hposition⟩ := after_line hdot board
  have hsame' := hsame.trans (ppu.after_sameMemory (ppu.lineDots - ppu.dot) board)
  have hkept : part (ppu.after (ppu.lineDots - ppu.dot) board) = part ppu :=
    h.after hsame hrendering (fun _ state => state = part ppu) (by omega) rfl
      fun dot state hdot _ hstate => (hrest dot state hdot).trans hstate
  rw [after_succ_eq_tick, h.tick hsame' hrendering, hscanline, hposition, hfirst]
  generalize ppu.after (ppu.lineDots - ppu.dot) board = first at *
  have hinside : first.dot + 1 < first.lineDots := by
    have := first.lineDots_bounds
    omega
  obtain ⟨hscanline', hposition', -⟩ := tick_within hinside board
  exact ⟨hscanline'.trans hscanline, by rw [hposition', hposition], hkept⟩

end Follows

/-- The lines on which the unit fetches. -/
def FetchesOn (scanline : Nat) : Prop := scanline < 240 ∨ scanline = 261

/-- The kind of a line on which the unit fetches. -/
theorem FetchesOn.line {scanline : Nat} (h : FetchesOn scanline) :
    Schedule.Line.ofScanline scanline = .visible ∧ scanline < 240 ∨
      Schedule.Line.ofScanline scanline = .prerender := by
  rcases h with hvisible | rfl
  · exact .inl ⟨if_pos hvisible, hvisible⟩
  · exact .inr rfl

/-- The end of a line fetches the first two tiles of the next one. -/
theorem work_prefetch {scanline dot : Nat} (hline : FetchesOn scanline) (hfirst : 321 ≤ dot)
    (hlast : dot ≤ 336) :
    Schedule.work scanline dot = .shiftBackground :: Schedule.fetches dot := by
  rcases hline.line with ⟨heq, -⟩ | heq
  · rw [Schedule.work, heq, Schedule.operations, if_neg (by omega), if_pos (by omega)]
    rfl
  · rw [Schedule.work, heq, Schedule.operations, if_neg (by omega), if_pos (by omega)]
    rfl

/-- Between the fetching for the next line and its first pixel there is no work. -/
theorem work_between {scanline dot : Nat} (hline : FetchesOn scanline)
    (hdot : dot = 0 ∨ 337 ≤ dot) : Schedule.work scanline dot = [] := by
  have hend : Schedule.lineEnd dot = [] := by
    rw [Schedule.lineEnd, if_neg (by omega), if_neg (by omega)]
  rcases hline.line with ⟨heq, -⟩ | heq
  · rw [Schedule.work, heq, Schedule.operations, if_neg (by omega), if_neg (by omega), hend]
  · rw [Schedule.work, heq, Schedule.operations, if_neg (by omega), if_neg (by omega),
      if_neg (by omega), if_neg (by omega), hend]
    rfl

/-- The picture part of a line shifts and fetches on every dot. -/
theorem work_picture {scanline dot : Nat} (hline : scanline < 240) (hfirst : 1 ≤ dot)
    (hlast : dot ≤ 255) :
    Schedule.work scanline dot =
      [.renderPixel, .shiftBackground, .shiftSprites] ++ Schedule.fetches dot ++
        if dot = 64 then [.clearSecondaryOam] else [] := by
  have heq : Schedule.Line.ofScanline scanline = .visible := if_pos hline
  rw [Schedule.work, heq, Schedule.operations, if_pos (by omega)]
  congr 1
  split
  · rfl
  · exact if_neg (by omega)

/-- The last dot of the picture part moves on to the next line. -/
theorem work_turn {scanline : Nat} (hline : scanline < 240) :
    Schedule.work scanline 256 =
      [.renderPixel, .shiftBackground, .shiftSprites] ++ Schedule.fetches 256 ++
        [.incrementY, .evaluateSprites] := by
  have heq : Schedule.Line.ofScanline scanline = .visible := if_pos hline
  rw [Schedule.work, heq]
  rfl

/-- After the picture part of a line the sprites of the next one are fetched. -/
theorem work_sprites {scanline dot : Nat} (hline : scanline < 240) (hfirst : 257 ≤ dot)
    (hlast : dot ≤ 320) : Schedule.work scanline dot = Schedule.lineEnd dot := by
  have heq : Schedule.Line.ofScanline scanline = .visible := if_pos hline
  rw [Schedule.work, heq, Schedule.operations, if_neg (by omega), if_neg (by omega)]

/-- The line before the picture fetches as a line of it does, without showing anything. -/
theorem work_prerender_picture {dot : Nat} (hfirst : 1 ≤ dot) (hlast : dot ≤ 256) :
    Schedule.work 261 dot =
      [.shiftBackground] ++ Schedule.fetches dot ++
        if dot = 1 then [.clearFlags] else if dot = 256 then [.incrementY] else [] := by
  change Schedule.operations .prerender dot = _
  rw [Schedule.operations, if_pos ⟨hfirst, hlast⟩]

/-- While the line before the picture fetches sprites, the address is returned to the top edge. -/
theorem work_prerender_sprites {dot : Nat} (hfirst : 257 ≤ dot) (hlast : dot ≤ 320) :
    Schedule.work 261 dot =
      (if 280 ≤ dot ∧ dot ≤ 304 then [.copyVertical] else []) ++ Schedule.lineEnd dot := by
  change Schedule.operations .prerender dot = _
  rw [Schedule.operations, if_neg (by omega : ¬(1 ≤ dot ∧ dot ≤ 256)),
    if_neg (by omega : ¬(321 ≤ dot ∧ dot ≤ 336))]
  split
  · next hreturn => rw [if_neg (by omega : ¬(280 ≤ dot ∧ dot ≤ 304)), List.nil_append]
  · rfl

end Famicom.Ppu
