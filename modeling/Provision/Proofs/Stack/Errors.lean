import Mathlib.Data.List.Infix
import Provision.Stack.Backend

/-! Where the errors of a manager come from. Either the manager finds them itself, or the clock overflows, or
the backend answered with them. A manager whose records are in order finds neither a refused move nor a missing record. -/
namespace Provision

/-- The error that a call was answered with. -/
def Event.failure? : Event → Option StackError
  | .submit _ _ _ (some (.error e)) => some e
  | .status _ _ (.error e) => some e
  | .outputs _ (.error e) => some e
  | .delete _ (.error e) => some e
  | _ => none

/-- Some call may be answered with the error. -/
inductive Backend.MayFail {σ : Type} (b : Backend σ) (e : StackError) : Prop
  | submit {now name graph parameters s}
      (failed : (b.submit now name graph parameters s).1.result = .error e)
  | status {now h s} (failed : (b.status now h s).1.result = .error e)
  | outputs {now h s} (failed : (b.outputs now h s).1.result = .error e)
  | delete {now h s} (failed : (b.delete now h s).1.result = .error e)

/-- All failures of the backend are told as such. -/
def Backend.FailsPlainly {σ : Type} (b : Backend σ) : Prop :=
  ∀ e, b.MayFail e → ∃ message, e = .backend message

namespace StackError

/-- The errors that a manager finds itself as long as its records are in order. -/
inductive Own : StackError → Prop
  | createFailed (stack reason : String) : Own (.createFailed stack reason)
  | deleteFailed (stack reason : String) : Own (.deleteFailed stack reason)
  | timeout (stack : String) (operation : Operation) (limit : Nat) : Own (.timeout stack operation limit)
  | interrupted (stack : String) : Own (.interrupted stack)
  | alreadyExists (stack : String) : Own (.alreadyExists stack)
  | unexpected (status : Status) (stack : String) :
      Own (.backend ("unexpected status " ++ status.word ++ " while creating stack '" ++ stack ++ "'"))

/-- The error of a change to a record that is not there. -/
def untracked (name : String) : StackError := .backend ("stack '" ++ name ++ "' is not tracked")

variable {σ : Type} {b : Backend σ} {e : StackError} {older newer older' newer' : List LogEntry}

theorem Own.ne_lifecycle (h : e.Own) (refusal : LifecycleError) : e ≠ .lifecycle refusal := by
  rintro rfl
  cases h

theorem Own.ne_overflow (h : e.Own) : e ≠ .overflow := by
  rintro rfl
  cases h

/-- The two texts differ in the first letter. -/
theorem Own.ne_untracked (h : e.Own) (name : String) : e ≠ untracked name := by
  rintro rfl
  obtain ⟨message, hm⟩ : ∃ message, StackError.backend message = untracked name := ⟨_, rfl⟩
  rw [← hm] at h
  cases h with
  | unexpected status stack =>
    have hletters := congrArg String.toList (StackError.backend.inj hm)
    simp [String.toList_append] at hletters

/-- The backend answered with the error between two moments of the log. -/
def ToldBetween (older newer : List LogEntry) (e : StackError) : Prop :=
  ∃ recent, newer = recent ++ older ∧ ∃ entry ∈ recent, entry.event.failure? = some e

/-- The error that a manager ends with is its own, or the clock's, or it is one that the backend answered
with. -/
def Accounted (b : Backend σ) (older newer : List LogEntry) (e : StackError) : Prop :=
  e.Own ∨ e = .overflow ∨ b.MayFail e ∧ e.ToldBetween older newer

theorem ToldBetween.mono (h : e.ToldBetween older newer) (ho : older' <:+ older)
    (hn : newer <:+ newer') : e.ToldBetween older' newer' := by
  obtain ⟨recent, rfl, entry, hmem, htold⟩ := h
  obtain ⟨first, rfl⟩ := ho
  obtain ⟨last, rfl⟩ := hn
  refine ⟨last ++ recent ++ first, by simp, entry, ?_, htold⟩
  exact List.mem_append_left _ (List.mem_append_right _ hmem)

theorem Accounted.mono (h : e.Accounted b older newer) (ho : older' <:+ older)
    (hn : newer <:+ newer') : e.Accounted b older' newer' :=
  h.imp_right fun h => h.imp_right fun ⟨hmay, htold⟩ => ⟨hmay, htold.mono ho hn⟩

theorem accounted_of_failure {time : Nat} {event : Event} (hf : event.failure? = some e)
    (hb : b.MayFail e) : e.Accounted b older (⟨time, event⟩ :: older) :=
  Or.inr (Or.inr ⟨hb, [⟨time, event⟩], rfl, _, List.mem_singleton_self _, hf⟩)

end StackError
end Provision
