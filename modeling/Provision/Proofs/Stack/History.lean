import Provision.Proofs.Stack.Answers
import Provision.Proofs.Stack.Tracking

/-! The history of every record, in every run, is what the backend said of its stack since the record was
made. A record is deleted only if a deletion was accepted and reported as done. -/
namespace Provision

variable {name : String} {log : List LogEntry} {e : Event} {h : Handle} {s : Stack}

theorem subject?_of_mem_answersSince (he : e ∈ answersSince name log) : e.subject? = some name := by
  induction log with
  | nil => cases he
  | cons entry older ih =>
    rw [answersSince] at he
    split at he
    · cases he
    · rcases List.mem_append.mp he with he | he
      · exact ih he
      · split at he
        · next hn => exact List.mem_singleton.mp he ▸ hn
        · cases he

namespace Stack.Follows

/-- A stack that is deleted had its deletion accepted and, later, reported as done. -/
theorem deleted {answers : List Event} (hs : s.Follows answers) (hd : s.status = .deleteComplete) :
    ∃ before h between h' r after, answers = before ++ .delete h (.ok true) ::
        (between ++ .status h' (some .delete) (.ok r) :: after) ∧
      Status.read r.status = .ok .deleteComplete := by
  have hchain : Leads .notCreated s.lifecycle.history .deleteComplete := hd ▸ hs.chained
  obtain ⟨moves, done, hm, hleads, hdone, htarget⟩ := hchain.last (by decide)
  have hdeleted : done.command = .deleteSucceeded := Command.target_injective htarget
  -- Only a stack that is being deleted accepts that command, so the move before it began the deletion.
  have hsource : done.source = .deleting := by
    rw [hdeleted] at hdone
    cases hs : done.source <;> rw [hs] at hdone <;> first | rfl | cases hdone
  obtain ⟨earlier, begun, rfl, -, -, htarget⟩ := (hsource ▸ hleads).last (by decide)
  have hbegun : begun.command = .beginDelete := Command.target_injective htarget
  have hcommands : commandsTold answers =
      earlier.map Move.command ++ [.beginDelete] ++ [.deleteSucceeded] := by
    rw [← hs.commands, Lifecycle.commands, hm]
    simp [hbegun, hdeleted]
  obtain ⟨told, e, after, rfl, htold, he⟩ := exists_of_commandsTold hcommands
  obtain ⟨h', r, rfl, hr⟩ := Event.reportsDeletion_of_command? he
  obtain ⟨before, e, between, rfl, -, he⟩ := exists_of_commandsTold htold
  obtain ⟨h, rfl⟩ := Event.eq_delete_of_command? he
  exact ⟨before, h, between, h', r, after, by simp, hr⟩

end Stack.Follows

/-- In every run the history of a record is what the backend said since the record was made: the commands
that its answers stand for, and nothing else. All those answers are about the id that is recorded, and a
stack is deleted only after an accepted deletion was reported as done. -/
theorem Manager.history_told {σ : Type} {b : Backend σ} {m : Manager σ} (hb : b.EchoesNames)
    {start : Manager σ} (hr : start.records = []) (hl : start.log = []) {requests : List Request}
    (hm : start.run b requests = m) (hs : s ∈ m.records) :
    s.lifecycle.history.map Move.command = commandsTold (answersSince s.name m.log) ∧
    s.status = statusAfter (commandsTold (answersSince s.name m.log)) ∧
    (∀ e ∈ answersSince s.name m.log, ∀ h, e.handle? = some h → s.id = some h.id) ∧
    (s.status = .deleteComplete → ∃ before h between r after, s.handle? = some h ∧
      answersSince s.name m.log =
        before ++ .delete h (.ok true) :: (between ++ .status h (some .delete) (.ok r) :: after) ∧
      Status.read r.status = .ok .deleteComplete) := by
  have hfaithful : m.Faithful := hm ▸ run_faithful hb (faithful_of_fresh hr hl) requests
  rw [hfaithful.records] at hs
  have hfollows := hfaithful.lawful.follows (Stack.lookup_of_mem (nodup_replay m.log) hs)
  refine ⟨hfollows.commands, hfollows.commands ▸ hfollows.chained.status_eq, hfollows.asked, ?_⟩
  intro hd
  obtain ⟨before, h, between, h', r, after, hanswers, hr⟩ := hfollows.deleted hd
  -- Both answers are about the one id and the one name of the record.
  have hhandle : ∀ e ∈ answersSince s.name m.log, ∀ h, e.handle? = some h →
      e.subject? = some h.name → s.handle? = some h := by
    intro e he h hh hn
    have hname := Option.some.inj (hn.symm.trans (subject?_of_mem_answersSince he))
    rw [Stack.handle?, hfollows.asked e he h hh, Option.map_some, ← hname]
  have hdelete := hhandle (.delete h (.ok true)) (by simp [hanswers]) h rfl rfl
  have hstatus := hhandle (.status h' (some .delete) (.ok r)) (by simp [hanswers]) h' rfl rfl
  obtain rfl := Option.some.inj (hdelete.symm.trans hstatus)
  exact ⟨before, h, between, r, after, hdelete, hanswers, hr⟩

/-- A creation whose second poll fails, and deletions that are refused, that fail and that succeed. Words
come in any case. -/
def eventfulScript : Script where
  submits := [(.ok "id-1", 3)]
  statuses := [.ok { status := "INIT_IN_PROGRESS" }, .error (.backend "down"),
    .ok { status := "delete_failed" }, .ok { status := "CREATE_COMPLETE" },
    .ok { status := "Delete_Complete" }]
  outputs := []
  deletes := [.ok false, .ok true]

def eventfulRequests : List Request :=
  [{ call := .create "demo" {} ∅ (.blocking 5000) }, { call := .delete "demo" true 2 },
    { call := .deleteAll, idle := 9 }]

theorem Manager.history_told_sample : ∃ (m : Manager Script) (s : Stack),
    run Script.backend eventfulRequests { timing := {}, backend := eventfulScript } = m ∧
    s ∈ m.records ∧ s.status = .deleteComplete ∧
    s.lifecycle.history.map Move.command =
      [.submit, .beginDelete, .deleteFailed, .beginDelete, .deleteSucceeded] ∧
    s.lifecycle.history.map Move.command = commandsTold (answersSince s.name m.log) ∧
    ∃ before h between r after, s.handle? = some h ∧
      answersSince s.name m.log =
        before ++ .delete h (.ok true) :: (between ++ .status h (some .delete) (.ok r) :: after) ∧
      Status.read r.status = .ok .deleteComplete := by
  have hrecords : (run Script.backend eventfulRequests
      { timing := {}, backend := eventfulScript }).records = [{
        name := "demo", id := some "id-1", reason := some "delete_failed"
        lifecycle := ⟨.deleteComplete,
          [⟨.notCreated, .submit, .creating⟩, ⟨.creating, .beginDelete, .deleting⟩,
            ⟨.deleting, .deleteFailed, .deleteFailed⟩, ⟨.deleteFailed, .beginDelete, .deleting⟩,
            ⟨.deleting, .deleteSucceeded, .deleteComplete⟩]⟩ }] := rfl
  have hmem := hrecords ▸ List.mem_singleton_self _
  obtain ⟨htold, -, -, hdeleted⟩ := history_told Script.echoesNames rfl rfl rfl hmem
  exact ⟨_, _, rfl, hmem, rfl, rfl, htold, hdeleted rfl⟩

end Provision
