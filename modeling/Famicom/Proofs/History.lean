import Famicom.History
import Mathlib.Data.List.DropRight

/-!
# What a history keeps

However a history is used, it holds the newest of the messages recorded since it was cleared last,
in the order in which they came, and as many of them as it has room for. A line is dropped only
when the history is exactly full. That is enough, because no use ever brings it beyond its capacity.
-/

namespace Famicom

/-- One use of a history. Things of every kind can be recorded in it. -/
inductive HistoryUse : Type 1 where
  /-- Record a line. -/
  | write (line : String)
  /-- Record a thing. -/
  | log {α : Type} [Traced α] (thing : α)
  /-- Forget all lines. -/
  | clear

namespace HistoryUse

/-- The message that a use records: a line as it is, and a thing by its name and its state, parted
by a blank. A thing that has no state to tell is passed over. -/
def message : HistoryUse → Option String
  | write line => some line
  | log thing => (Traced.state thing).map fun state => Traced.label thing ++ " " ++ state
  | clear => none

/-- The use does not forget what was recorded before it. -/
def remembers : HistoryUse → Bool
  | clear => false
  | write _ | log _ => true

/-- The messages recorded since the last use that forgets, oldest first. -/
def messages (uses : List HistoryUse) : List String :=
  (uses.rtakeWhile remembers).filterMap message

/-- A use adds the message that it records, if it does not forget all. -/
theorem messages_concat (uses : List HistoryUse) (use : HistoryUse) :
    messages (uses ++ [use]) =
      if use.remembers then messages uses ++ use.message.toList else [] := by
  rw [messages, List.rtakeWhile_concat]
  split
  · rw [List.filterMap_append]
    cases hmessage : use.message <;> simp [messages, hmessage]
  · rfl

end HistoryUse

namespace History

/-- The history after a use. -/
def after (history : History) : HistoryUse → History
  | .write line => history.write line
  | HistoryUse.log thing => history.log thing
  | .clear => history.clear

/-- The history after some uses in turn. -/
def afterAll (history : History) (uses : List HistoryUse) : History := uses.foldl after history

/-- A history with room for one line and some more holds the newest of some messages, as many as
there is room for. -/
structure Holds (history : History) (room : Nat) (messages : List String) : Prop where
  capacity : history.capacity = room + 1
  lines : history.lines = messages.rtake (room + 1)

namespace Holds

variable {history : History} {room : Nat} {messages : List String}

/-- There are as many lines as there are messages, up to the capacity. -/
theorem length_lines (h : history.Holds room messages) :
    history.lines.length = min messages.length (room + 1) := by
  rw [h.lines, List.rtake, List.length_drop]
  omega

/-- A line that is written pushes out the oldest one if there is no more room. -/
theorem write (h : history.Holds room messages) (line : String) :
    (history.write line).Holds room (messages ++ [line]) := by
  refine ⟨h.capacity, ?_⟩
  rw [List.rtake_concat_succ]
  refine congrArg (· ++ [line]) ?_
  have hlength := h.length_lines
  rw [h.capacity]
  split
  · next hfull =>
    -- as many messages as there is room for at least: the cut moves on by one
    have hplace : messages.length - (room + 1) + 1 = messages.length - room := by omega
    rw [h.lines, List.rtake, List.rtake, List.drop_drop, hplace]
  · next hfits =>
    -- fewer messages than that, for the lines are never more than the capacity: nothing is cut
    have hall : messages.length - (room + 1) = messages.length - room := by omega
    rw [h.lines, List.rtake, List.rtake, hall]

/-- A thing that is recorded adds its line, if it has one. -/
theorem log {α : Type} [Traced α] (h : history.Holds room messages) (thing : α) :
    (history.log thing).Holds room (messages ++ (Traced.line thing).toList) := by
  unfold History.log
  cases Traced.line thing with
  | none =>
    rw [Option.toList_none, List.append_nil]
    exact h
  | some line => exact h.write line

/-- A history that is cleared holds no messages. -/
theorem clear (h : history.Holds room messages) : history.clear.Holds room [] :=
  ⟨h.capacity, by simp [History.clear]⟩

/-- Each use does to the lines what it does to the messages. -/
theorem after {uses : List HistoryUse} (h : history.Holds room (HistoryUse.messages uses))
    (use : HistoryUse) :
    (history.after use).Holds room (HistoryUse.messages (uses ++ [use])) := by
  rw [HistoryUse.messages_concat]
  cases use with
  | write line => exact h.write line
  | log thing => exact h.log thing
  | clear => exact h.clear

end Holds

/-- A new history holds whatever messages it is used for. -/
theorem holds_afterAll {capacity room : Nat} (h : max capacity 1 = room + 1)
    (uses : List HistoryUse) :
    ((withCapacity capacity).afterAll uses).Holds room (HistoryUse.messages uses) := by
  induction uses using List.reverseRecOn with
  | nil => exact ⟨h, by simp [HistoryUse.messages, afterAll, withCapacity]⟩
  | append_singleton uses use ih =>
    rw [afterAll, List.foldl_append]
    exact ih.after use

/-- **A history keeps exactly the newest lines**, whatever capacity was asked for and however it has
been used. Its lines are the last of the messages recorded since it was cleared last, oldest first,
all of them or as many as the capacity, which is at least one; there are never more. Its length and
the test for emptiness tell just that. -/
theorem keeps_newest (capacity : Nat) (uses : List HistoryUse) :
    let history := (withCapacity capacity).afterAll uses
    let messages := HistoryUse.messages uses
    history.lines = messages.rtake (min messages.length (max capacity 1)) ∧
      history.length = history.lines.length ∧
      (history.isEmpty = true ↔ history.lines = []) ∧
      history.length ≤ max capacity 1 := by
  intro history messages
  obtain ⟨room, hroom⟩ : ∃ room, max capacity 1 = room + 1 :=
    ⟨max capacity 1 - 1, by omega⟩
  have hholds : history.Holds room messages := holds_afterAll hroom uses
  refine ⟨?_, rfl, List.isEmpty_iff, ?_⟩
  · have hplace : messages.length - (room + 1) =
        messages.length - min messages.length (room + 1) := by omega
    rw [hroom, hholds.lines, List.rtake, List.rtake, hplace]
  · rw [hroom]
    exact hholds.length_lines.trans_le (Nat.min_le_right _ _)

end History

end Famicom
