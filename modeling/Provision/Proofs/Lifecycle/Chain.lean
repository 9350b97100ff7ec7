import Mathlib.Data.List.Basic
import Provision.Lifecycle.Run

/-! The history of a lifecycle is a chain: every move was accepted where the one before it ended, so the
status can be read off the last command. -/
namespace Provision

/-- The status that a command leads to, wherever it is accepted. -/
def Command.target : Command → Status
  | .submit => .creating
  | .createSucceeded => .createComplete
  | .createFailed => .createFailed
  | .beginDelete => .deleting
  | .deleteSucceeded => .deleteComplete
  | .deleteFailed => .deleteFailed

/-- The status after these commands, all of them accepted. -/
def statusAfter (commands : List Command) : Status :=
  (commands.getLast?.map Command.target).getD .notCreated

@[simp] theorem statusAfter_nil : statusAfter [] = .notCreated := rfl

@[simp] theorem statusAfter_append_singleton (commands : List Command) (c : Command) :
    statusAfter (commands ++ [c]) = c.target := by
  simp [statusAfter]

theorem Status.target_of_next {s t : Status} {c : Command} (h : s.next c = .ok t) :
    t = c.target := by
  cases s <;> cases c <;> cases h <;> rfl

theorem Command.target_ne_notCreated (c : Command) : c.target ≠ .notCreated := by
  cases c <;> decide

theorem Command.target_injective {c d : Command} (h : c.target = d.target) : c = d := by
  cases c <;> cases d <;> first | rfl | cases h

/-- The moves lead from one status to another: each was accepted where the one before it ended. -/
def Leads (source : Status) : List Move → Status → Prop
  | [], target => source = target
  | move :: rest, target => move.source = source ∧ source.next move.command = .ok move.target ∧
      Leads move.target rest target

/-- The last move of a chain was accepted where the moves before it led. -/
theorem leads_append_singleton {source target : Status} {moves : List Move} {move : Move} :
    Leads source (moves ++ [move]) target ↔ Leads source moves move.source ∧
      move.source.next move.command = .ok move.target ∧ move.target = target := by
  induction moves generalizing source with
  | nil =>
    constructor
    · rintro ⟨rfl, hc, htarget⟩
      exact ⟨rfl, hc, htarget⟩
    · rintro ⟨hs, hc, htarget⟩
      obtain rfl : source = move.source := hs
      exact ⟨rfl, hc, htarget⟩
  | cons first rest ih =>
    constructor
    · rintro ⟨hs, hc, hrest⟩
      obtain ⟨hleads, hlast⟩ := ih.mp hrest
      exact ⟨⟨hs, hc, hleads⟩, hlast⟩
    · rintro ⟨⟨hs, hc, hleads⟩, hlast⟩
      exact ⟨hs, hc, ih.mpr ⟨hleads, hlast⟩⟩

/-- A chain that leads anywhere has a last move, and the command of that move is told by its target. -/
theorem Leads.last {target : Status} {moves : List Move} (h : Leads .notCreated moves target)
    (ht : target ≠ .notCreated) : ∃ earlier move, moves = earlier ++ [move] ∧
      Leads .notCreated earlier move.source ∧ move.source.next move.command = .ok target ∧
      move.command.target = target := by
  rcases List.eq_nil_or_concat' moves with rfl | ⟨earlier, move, rfl⟩
  · exact absurd (Eq.symm h) ht
  · obtain ⟨hleads, hnext, rfl⟩ := leads_append_singleton.mp h
    exact ⟨earlier, move, rfl, hleads, hnext, (Status.target_of_next hnext).symm⟩

namespace Lifecycle
variable {l l' : Lifecycle} {c : Command}

/-- The commands of the moves that were made. -/
def commands (l : Lifecycle) : List Command := l.history.map Move.command

/-- The moves that were made lead to the status. -/
def Chained (l : Lifecycle) : Prop := Leads .notCreated l.history l.status

theorem chained_fresh : fresh.Chained := rfl

/-- What an accepted command does. -/
theorem apply_ok (h : l.apply c = .ok l') : l.status.next c = .ok l'.status ∧
    l'.history = l.history ++ [⟨l.status, c, l'.status⟩] := by
  unfold apply at h
  split at h
  · next target hn =>
    cases h
    exact ⟨hn, rfl⟩
  · cases h

theorem Chained.apply (hl : l.Chained) (h : l.apply c = .ok l') : l'.Chained := by
  obtain ⟨hn, hh⟩ := apply_ok h
  unfold Chained
  rw [hh]
  exact leads_append_singleton.mpr ⟨hl, hn, rfl⟩

theorem commands_apply (h : l.apply c = .ok l') : l'.commands = l.commands ++ [c] := by
  simp [commands, (apply_ok h).2]

/-- Makes a move if there is one to make. -/
def advance (l : Lifecycle) : Option Command → Except LifecycleError Lifecycle
  | none => .ok l
  | some c => l.apply c

variable {move : Option Command}

theorem Chained.advance (hl : l.Chained) (h : l.advance move = .ok l') : l'.Chained := by
  cases move with
  | none =>
    cases h
    exact hl
  | some c => exact hl.apply h

theorem commands_advance (h : l.advance move = .ok l') :
    l'.commands = l.commands ++ move.toList := by
  cases move with
  | none =>
    cases h
    simp
  | some c => exact commands_apply h

end Lifecycle

/-- The status at the end of a chain is told by its last command. -/
theorem Leads.target_eq {source target : Status} {moves : List Move} (h : Leads source moves target) :
    target = ((moves.map Move.command).getLast?.map Command.target).getD source := by
  induction moves generalizing source with
  | nil => exact Eq.symm h
  | cons move rest ih =>
    rw [ih h.2.2, List.map_cons, List.getLast?_cons]
    cases (rest.map Move.command).getLast? with
    | none => exact Status.target_of_next h.2.1
    | some c => rfl

theorem Lifecycle.Chained.status_eq {l : Lifecycle} (hl : l.Chained) :
    l.status = statusAfter l.commands :=
  Leads.target_eq hl

/-- A lifecycle has moved if and only if its stack was submitted. -/
theorem Lifecycle.Chained.status_ne_iff {l : Lifecycle} (hl : l.Chained) :
    l.status ≠ .notCreated ↔ l.history ≠ [] := by
  rw [hl.status_eq, commands]
  rcases List.eq_nil_or_concat' l.history with hn | ⟨moves, move, hm⟩
  · simp [hn]
  · simp [hm, Command.target_ne_notCreated]

end Provision
