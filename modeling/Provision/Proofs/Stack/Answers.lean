import Mathlib.Data.List.Induction
import Provision.Proofs.Lifecycle.Chain
import Provision.Proofs.Stack.Journal

/-! What the answers about one name say since a record was made for it: which commands they stand for,
one after another. In a lawful log every answer moves the lifecycle of its record by the command it
stands for and by nothing else. -/
namespace Provision

open Stack (lookup)

namespace Event

/-- The name of the stack that the backend was asked about. -/
def subject? : Event → Option String
  | .registered _ => none
  | .submit name _ _ _ => some name
  | .status h _ _ => some h.name
  | .outputs h _ => some h.name
  | .delete h _ => some h.name

/-- The handle that the manager was given, or asked with. -/
def handle? : Event → Option Handle
  | .submit _ _ _ (some (.ok h)) => some h
  | .status h (some _) _ => some h
  | .outputs h _ => some h
  | .delete h _ => some h
  | _ => none

/-- The command that an answer stands for, to a stack that is in the status. One word means different
things to a wait for a creation and to a wait for a deletion, and an accepted deletion begins nothing if
one is under way. -/
def command? (status : Status) : Event → Option Command
  | .submit _ _ _ (some (.ok _)) => some .submit
  | .status _ (some .create) (.ok r) =>
    match Status.read r.status with
    | .ok .createComplete => some .createSucceeded
    | .ok .createFailed => some .createFailed
    | _ => none
  | .status _ (some .delete) (.ok r) =>
    match Status.read r.status with
    | .ok .deleteComplete => some .deleteSucceeded
    | .ok .deleteFailed => some .deleteFailed
    | _ => none
  | .delete _ (.ok true) => if status = .deleting then none else some .beginDelete
  | _ => none

/-- A record was made for the name. -/
def registers (name : String) : Event → Bool
  | .registered other => other = name
  | _ => false

end Event

/-- The answers about a name since a record was made for it, the oldest first. -/
def answersSince (name : String) : List LogEntry → List Event
  | [] => []
  | entry :: older =>
    if entry.event.registers name then []
    else answersSince name older ++ if entry.event.subject? = some name then [entry.event] else []

/-- The commands that answers stand for, each told to a stack that has obeyed those before. -/
def commandsTold (answers : List Event) : List Command :=
  answers.foldl (fun told e => told ++ (e.command? (statusAfter told)).toList) []

theorem commandsTold_append_singleton (answers : List Event) (e : Event) :
    commandsTold (answers ++ [e]) =
      commandsTold answers ++ (e.command? (statusAfter (commandsTold answers))).toList := by
  simp [commandsTold]

/-- The last command was told by one of the answers, and those before it by the answers before. -/
theorem exists_of_commandsTold {answers : List Event} {told : List Command} {c : Command}
    (h : commandsTold answers = told ++ [c]) : ∃ before e after, answers = before ++ e :: after ∧
      commandsTold before = told ∧ e.command? (statusAfter told) = some c := by
  induction answers using List.reverseRecOn with
  | nil => simp [commandsTold] at h
  | append_singleton answers e ih =>
    rw [commandsTold_append_singleton] at h
    cases hc : e.command? (statusAfter (commandsTold answers)) with
    | none =>
      obtain ⟨before, e', after, rfl, hbefore, he'⟩ := ih (by simpa [hc] using h)
      exact ⟨before, e', after ++ [e], by simp, hbefore, he'⟩
    | some d =>
      rw [hc, Option.toList_some] at h
      obtain ⟨rfl, hd⟩ := List.append_inj' h rfl
      exact ⟨answers, e, [], rfl, rfl, by rw [hc, List.head_eq_of_cons_eq hd]⟩

namespace Event
variable {e : Event} {status : Status}

theorem command?_create (h : Handle) (r : Report) (status : Status) :
    (Event.status h (some .create) (.ok r)).command? status =
    match r.createVerdict with
    | .complete => some .createSucceeded
    | .failed _ => some .createFailed
    | _ => none := by
  simp only [command?, Report.createVerdict]
  cases Status.read r.status with
  | error e => rfl
  | ok s => cases s <;> rfl

theorem command?_delete (h : Handle) (r : Report) (status : Status) :
    (Event.status h (some .delete) (.ok r)).command? status =
    match r.deleteVerdict with
    | .complete => some .deleteSucceeded
    | .failed _ => some .deleteFailed
    | .pending => none := by
  simp only [command?, Report.deleteVerdict]
  cases Status.read r.status with
  | error e => rfl
  | ok s => cases s <;> rfl

/-- Only an accepted deletion begins one. -/
theorem eq_delete_of_command? (he : e.command? status = some .beginDelete) :
    ∃ h, e = .delete h (.ok true) := by
  unfold command? at he
  split at he
  · cases he
  · split at he <;> cases he
  · split at he <;> cases he
  · exact ⟨_, rfl⟩
  · cases he

/-- Only a wait for a deletion learns that the stack is deleted. -/
theorem reportsDeletion_of_command? (he : e.command? status = some .deleteSucceeded) :
    ∃ h, e.ReportsDeletion h := by
  unfold command? at he
  split at he
  · cases he
  · split at he <;> cases he
  · next r =>
    split at he
    · next hr => exact ⟨_, r, rfl, hr⟩
    · cases he
    · cases he
  · split at he <;> cases he
  · cases he

end Event

/-! The changes of a record, seen from its lifecycle and its outputs. -/

namespace Stack
variable {s : Stack} {c : Command} {o target : Status}

@[simp] theorem outputs_apply (c : Command) (s : Stack) : (apply c s).2.outputs = s.outputs := by
  unfold apply
  split <;> rfl

@[simp] theorem outputs_observe (o : Status) (s : Stack) : (observe o s).2.outputs = s.outputs := by
  unfold observe
  split <;> rfl

theorem lifecycle_apply (h : s.status.next c = .ok target) :
    s.lifecycle.apply c = .ok (apply c s).2.lifecycle := by
  rw [status] at h
  simp [apply, Lifecycle.apply, h]

/-- The change of a record in the status is what the command makes of its lifecycle. -/
def Obeys (f : Update) (source : Status) (c : Command) : Prop :=
  ∀ s : Stack, s.status = source → s.lifecycle.apply c = .ok (f s).2.lifecycle ∧
    (f s).2.outputs = s.outputs ∧ (f s).2.id = s.id

theorem obeys_observe {source : Status} (hc : source.commandTowards o = some c)
    (h : source.next c = .ok target) : Obeys (observe o) source c := by
  rintro s rfl
  refine ⟨?_, outputs_observe o s, id_observe o s⟩
  rw [status] at hc h
  simp [observe, Lifecycle.observe, Lifecycle.apply, hc, h]

theorem obeys_failed {source : Status} (reason : String) (hc : source.commandTowards o = some c)
    (h : source.next c = .ok target) : Obeys (failed reason o) source c :=
  fun s hs => obeys_observe hc h { s with reason := some reason } hs

theorem obeys_deleting {source : Status} (h : source.Live) (hd : source ≠ .deleting) :
    Obeys deleting source .beginDelete := by
  rintro s rfl
  have hnext : s.status.next .beginDelete = .ok .deleting := by
    obtain ⟨hn, hc⟩ := h
    cases hs : s.status <;> simp_all [Status.next]
  rw [deleting, if_neg hd]
  exact ⟨lifecycle_apply hnext, outputs_apply _ s, id_apply _ s⟩

end Stack

/-- What an answer does to the record that it is about. -/
structure Event.Advances (e : Event) (s s' : Stack) : Prop where
  lifecycle : s.lifecycle.advance (e.command? s.status) = .ok s'.lifecycle
  /-- Outputs are fetched of a stack that is complete. -/
  outputs : s'.outputs = s.outputs ∨ s.status = .createComplete
  /-- An id is given to a record that has none. -/
  id : s'.id = s.id ∨ s.status = .notCreated
  asked : ∀ h, e.handle? = some h → s'.id = some h.id

namespace Event
variable {e : Event} {name : String} {f : Stack.Update} {records : List Stack} {s : Stack}

/-- An answer that changes nothing. -/
theorem advances_of_none (hu : e.update? = none) (hr : e.isRegistration = false)
    (hs : lookup name records = some s) (hc : e.command? s.status = none)
    (hh : ∀ h, e.handle? = some h → s.id = some h.id) :
    ∃ s', lookup name (e.effect records) = some s' ∧ e.Advances s s' :=
  ⟨s, by rw [effect_of_none hu hr, hs], by rw [hc]; rfl, Or.inl rfl, Or.inl rfl, hh⟩

/-- An answer that changes its record. -/
theorem advances_of_update (hu : e.update? = some (name, f)) (hs : lookup name records = some s)
    (ha : e.Advances s (f s).2) :
    ∃ s', lookup name (e.effect records) = some s' ∧ e.Advances s s' :=
  ⟨(f s).2, by rw [lookup_effect hu, hs, Option.map_some], ha⟩

/-- An answer whose change is a command. -/
theorem advances_of_obeys {c : Command} {source : Status} (hu : e.update? = some (name, f))
    (hs : lookup name records = some s) (hf : Stack.Obeys f source c) (hsource : s.status = source)
    (hc : e.command? s.status = some c) (hh : ∀ h, e.handle? = some h → s.id = some h.id) :
    ∃ s', lookup name (e.effect records) = some s' ∧ e.Advances s s' := by
  obtain ⟨hlifecycle, houtputs, hid⟩ := hf s hsource
  refine advances_of_update hu hs ⟨?_, Or.inl houtputs, Or.inl hid, fun h he => hid.trans (hh h he)⟩
  rwa [hc]

/-- What is known of the record that a handle holds. -/
theorem status_of_heldIn {h : Handle} {status : Status} (hh : h.HeldIn records status)
    (hs : lookup h.name records = some s) :
    s.status = status ∧ ∀ h', some h = some h' → s.id = some h'.id := by
  obtain ⟨s', hs', hid, hstatus⟩ := hh
  obtain rfl := Option.some.inj (hs.symm.trans hs')
  exact ⟨hstatus, fun _ he => Option.some.inj he ▸ hid⟩

/-- A report to a wait for the creation. -/
theorem advances_creation {h : Handle} {r : Report} (hh : h.HeldIn records .creating)
    (hs : lookup h.name records = some s) : ∃ s',
      lookup h.name ((Event.status h (some .create) (.ok r)).effect records) = some s' ∧
        (Event.status h (some .create) (.ok r)).Advances s s' := by
  obtain ⟨hstatus, hasked⟩ := status_of_heldIn hh hs
  have hc := command?_create h r s.status
  cases hv : r.createVerdict with
  | complete =>
    exact advances_of_obeys (by simp only [update?, hv]) hs
      (Stack.obeys_observe (o := .createComplete) rfl rfl) hstatus (by rw [hc, hv]) hasked
  | failed reason =>
    exact advances_of_obeys (by simp only [update?, hv]) hs
      (Stack.obeys_failed (o := .createFailed) reason rfl rfl) hstatus (by rw [hc, hv]) hasked
  | unexpected status =>
    exact advances_of_none (by simp only [update?, hv]) rfl hs (by rw [hc, hv]) hasked
  | pending => exact advances_of_none (by simp only [update?, hv]) rfl hs (by rw [hc, hv]) hasked

/-- A report to a wait for the deletion. -/
theorem advances_deletion {h : Handle} {r : Report} (hh : h.HeldIn records .deleting)
    (hs : lookup h.name records = some s) : ∃ s',
      lookup h.name ((Event.status h (some .delete) (.ok r)).effect records) = some s' ∧
        (Event.status h (some .delete) (.ok r)).Advances s s' := by
  obtain ⟨hstatus, hasked⟩ := status_of_heldIn hh hs
  have hc := command?_delete h r s.status
  cases hv : r.deleteVerdict with
  | complete =>
    exact advances_of_obeys (by simp only [update?, hv]) hs
      (Stack.obeys_observe (o := .deleteComplete) rfl rfl) hstatus (by rw [hc, hv]) hasked
  | failed reason =>
    exact advances_of_obeys (by simp only [update?, hv]) hs
      (Stack.obeys_failed (o := .deleteFailed) reason rfl rfl) hstatus (by rw [hc, hv]) hasked
  | pending => exact advances_of_none (by simp only [update?, hv]) rfl hs (by rw [hc, hv]) hasked

/-- An answer that fits the records moves its record by the command that it stands for. -/
theorem Admitted.advances (ha : e.Admitted records) (hn : e.subject? = some name)
    (hs : lookup name records = some s) :
    ∃ s', lookup name (e.effect records) = some s' ∧ e.Advances s s' := by
  cases e with
  | registered other => cases hn
  | submit other g p answer =>
    obtain rfl : other = name := Option.some.inj hn
    obtain ⟨⟨s', hs', hstatus⟩, -⟩ := ha
    obtain rfl := Option.some.inj (hs.symm.trans hs')
    rcases answer with _ | e | h
    · exact advances_of_none rfl rfl hs rfl fun _ h => by cases h
    · exact advances_of_none rfl rfl hs rfl fun _ h => by cases h
    · refine advances_of_update rfl hs ⟨?_, Or.inl (Stack.outputs_apply _ _), Or.inr hstatus, ?_⟩
      · have hnext : s.status.next .submit = .ok .creating := by rw [hstatus]; rfl
        exact Stack.lifecycle_apply (s := { s with id := some h.id }) hnext
      · exact fun _ he => Option.some.inj he ▸ (Stack.submitted_ok h.id hstatus).2.1
  | status h waiting answer =>
    obtain rfl : h.name = name := Option.some.inj hn
    rcases waiting with _ | _ | _ <;> rcases answer with _ | r
    · exact advances_of_none rfl rfl hs rfl fun _ h => by cases h
    · exact advances_of_none rfl rfl hs rfl fun _ h => by cases h
    · exact advances_of_none rfl rfl hs rfl (status_of_heldIn ha hs).2
    · exact advances_creation ha hs
    · exact advances_of_none rfl rfl hs rfl (status_of_heldIn ha hs).2
    · exact advances_deletion ha hs
  | outputs h answer =>
    obtain rfl : h.name = name := Option.some.inj hn
    obtain ⟨hstatus, hasked⟩ := status_of_heldIn ha hs
    rcases answer with _ | values
    · exact advances_of_none rfl rfl hs rfl hasked
    · exact advances_of_update rfl hs ⟨rfl, Or.inr hstatus, Or.inl rfl, hasked⟩
  | delete h answer =>
    obtain rfl : h.name = name := Option.some.inj hn
    obtain ⟨source, hlive, hheld⟩ := ha
    obtain ⟨rfl, hasked⟩ := status_of_heldIn hheld hs
    rcases answer with _ | _ | _
    · exact advances_of_none rfl rfl hs rfl hasked
    · exact advances_of_update rfl hs ⟨rfl, Or.inl rfl, Or.inl rfl, hasked⟩
    · by_cases hd : s.status = .deleting
      · have hsame : (Stack.deleting s).2 = s := by rw [Stack.deleting, if_pos hd]
        refine advances_of_update rfl hs ?_
        rw [hsame]
        exact ⟨by rw [command?, if_pos hd]; rfl, Or.inl rfl, Or.inl rfl, hasked⟩
      · exact advances_of_obeys rfl hs (Stack.obeys_deleting hlive hd) rfl (if_neg hd) hasked

/-! What an event leaves alone. -/

theorem subject?_of_update (hu : e.update? = some (name, f)) : e.subject? = some name := by
  unfold update? at hu
  split at hu
  · cases hu
    rfl
  · split at hu <;> cases hu <;> rfl
  · split at hu <;> cases hu <;> rfl
  · cases hu
    rfl
  · cases hu
    rfl
  · cases hu
    rfl
  · cases hu

theorem eq_registered (hr : e.registers name = true) : e = .registered name := by
  cases e with
  | registered other => rw [of_decide_eq_true hr]
  | _ => cases hr

/-- An event about something else does not touch the record. -/
theorem lookup_effect_of_subject (hr : e.registers name = false) (hn : e.subject? ≠ some name) :
    lookup name (e.effect records) = lookup name records := by
  cases hu : e.update? with
  | some change =>
    obtain ⟨other, f⟩ := change
    exact lookup_effect_of_ne hu (by rintro rfl; exact hn (subject?_of_update hu)) records
  | none =>
    cases e with
    | registered other => exact Stack.lookup_renew_of_ne (Ne.symm (of_decide_eq_false hr)) records
    | _ => rw [effect_of_none hu rfl]

/-- Only a registration makes a record. -/
theorem isSome_of_effect (hr : e.registers name = false)
    (hs : (lookup name (e.effect records)).isSome = true) : (lookup name records).isSome = true := by
  cases hu : e.update? with
  | some change =>
    obtain ⟨other, f⟩ := change
    by_cases hn : name = other
    · subst hn
      rwa [lookup_effect hu, Option.isSome_map] at hs
    · rwa [lookup_effect_of_ne hu hn] at hs
  | none =>
    cases e with
    | registered other =>
      rwa [lookup_effect_of_subject hr (by simp [subject?])] at hs
    | _ => rwa [effect_of_none hu rfl] at hs

end Event

/-- The record says what the answers said, and nothing else. -/
structure Stack.Follows (s : Stack) (answers : List Event) : Prop where
  chained : s.lifecycle.Chained
  commands : s.lifecycle.commands = commandsTold answers
  outputs : .createSucceeded ∉ s.lifecycle.commands → s.outputs = ∅
  asked : ∀ e ∈ answers, ∀ h, e.handle? = some h → s.id = some h.id

namespace Stack.Follows
variable {answers : List Event} {e : Event} {s s' : Stack}

theorem fresh (name : String) : Follows { name } [] :=
  ⟨Lifecycle.chained_fresh, rfl, fun _ => rfl, fun _ h => by cases h⟩

/-- A stack that is complete was once reported so. -/
theorem created (hs : s.Follows answers) (hc : s.status = .createComplete) :
    .createSucceeded ∈ s.lifecycle.commands := by
  have hchain : Leads .notCreated s.lifecycle.history .createComplete := hc ▸ hs.chained
  obtain ⟨earlier, move, hm, -, -, hlast⟩ := hchain.last (by decide)
  have hcreated : move.command = .createSucceeded := Command.target_injective hlast
  simp [Lifecycle.commands, hm, hcreated]

theorem advance (hs : s.Follows answers) (ha : e.Advances s s')
    (hid : s.id.isSome = true ↔ s.status ≠ .notCreated) : s'.Follows (answers ++ [e]) := by
  have hcommands := Lifecycle.commands_advance ha.lifecycle
  refine ⟨hs.chained.advance ha.lifecycle, ?_, fun hn => ?_, fun e' he' h hh => ?_⟩
  · rw [commandsTold_append_singleton, hcommands, ← hs.commands, ← hs.chained.status_eq]
    rfl
  · have hnot : .createSucceeded ∉ s.lifecycle.commands := fun hm =>
      hn (hcommands ▸ List.mem_append_left _ hm)
    rcases ha.outputs with hsame | hcomplete
    · rw [hsame, hs.outputs hnot]
    · exact absurd (hs.created hcomplete) hnot
  · rcases List.mem_append.mp he' with he' | he'
    · have hold := hs.asked e' he' h hh
      rcases ha.id with hsame | hnew
      · rw [hsame, hold]
      · exact absurd hnew (hid.mp (by rw [hold]; rfl))
    · exact ha.asked h (List.mem_singleton.mp he' ▸ hh)

end Stack.Follows

/-- Every record that a lawful log tells of follows the answers about it. -/
theorem Lawful.follows {log : List LogEntry} (hl : Lawful log) {name : String} {s : Stack}
    (hs : lookup name (replay log) = some s) : s.Follows (answersSince name log) := by
  -- A registration starts over; any other entry is an answer about the name or leaves its record alone.
  induction log generalizing s with
  | nil => cases hs
  | cons entry older ih =>
    rw [answersSince]
    cases hr : entry.event.registers name with
    | true =>
      rw [replay, Event.eq_registered hr] at hs
      obtain rfl := Option.some.inj ((Stack.lookup_renew name _).symm.trans hs)
      exact Stack.Follows.fresh name
    | false =>
      rw [if_neg (by simp)]
      by_cases hn : entry.event.subject? = some name
      · obtain ⟨s₀, hs₀⟩ := Option.isSome_iff_exists.mp
          (Event.isSome_of_effect hr (Option.isSome_of_eq_some hs))
        obtain ⟨s', hs', hadvances⟩ := hl.1.advances hn hs₀
        obtain rfl := Option.some.inj (hs'.symm.trans hs)
        rw [if_pos hn]
        exact (ih hl.2 hs₀).advance hadvances (hl.2.id_iff hs₀)
      · rw [if_neg hn, List.append_nil]
        exact ih hl.2 ((Event.lookup_effect_of_subject hr hn).symm.trans hs)

end Provision
