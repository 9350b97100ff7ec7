import Provision.Proofs.Stack.Records

/-! The log as a journal: every answer of the backend says by itself what becomes of which record, so the
records can be read off the log. A log is lawful if every event in it fits the records at its time. -/
namespace Provision

open Stack (lookup)

/-- The first record of the handle's stack bears the id of the handle and has the status. -/
def Handle.HeldIn (h : Handle) (records : List Stack) (status : Status) : Prop :=
  ∃ s, lookup h.name records = some s ∧ s.id = some h.id ∧ s.status = status

/-- The records know the stack of the handle as one that the backend may still have. -/
def Handle.LiveIn (h : Handle) (records : List Stack) : Prop :=
  ∃ status : Status, status.Live ∧ h.HeldIn records status

namespace Event

/-- The name of the record that an answer concerns, and the change that the answer makes. -/
def update? : Event → Option (String × Stack.Update)
  | .submit name _ _ (some (.ok h)) => some (name, Stack.submitted h.id)
  | .status h (some .create) (.ok r) =>
    match r.createVerdict with
    | .complete => some (h.name, Stack.observe .createComplete)
    | .failed reason => some (h.name, Stack.failed reason .createFailed)
    | _ => none
  | .status h (some .delete) (.ok r) =>
    match r.deleteVerdict with
    | .complete => some (h.name, Stack.observe .deleteComplete)
    | .failed reason => some (h.name, Stack.failed reason .deleteFailed)
    | .pending => none
  | .outputs h (.ok values) => some (h.name, Stack.withOutputs (flattenOutputs values))
  | .delete h (.ok true) => some (h.name, Stack.deleting)
  | .delete h (.ok false) => some (h.name, Stack.refused refusedReason)
  | _ => none

def isRegistration : Event → Bool
  | .registered _ => true
  | _ => false

/-- The records after an event. -/
def effect (e : Event) (records : List Stack) : List Stack :=
  match e with
  | .registered name => Stack.renew name records
  | e =>
    match e.update? with
    | some (name, f) => Stack.change name (fun s => (f s).2) records
    | none => records

/-- The event fits the records: a record is made only where nothing live is lost, a graph is submitted
only for a new record, and the backend is asked only about a stack whose id is recorded. -/
def Admitted (records : List Stack) : Event → Prop
  | .registered name => ∀ s, lookup name records = some s → ¬ s.status.Live
  | .submit name _ _ answer => (∃ s, lookup name records = some s ∧ s.status = .notCreated) ∧
      ∀ h, answer = some (.ok h) → h.name = name
  | .status h (some .create) _ => h.HeldIn records .creating
  | .status h (some .delete) _ => h.HeldIn records .deleting
  | .status _ none _ => True
  | .outputs h _ => h.HeldIn records .createComplete
  | .delete h _ => h.LiveIn records

/-- A wait for the deletion of the stack was told that the stack is deleted. -/
def ReportsDeletion (h : Handle) (e : Event) : Prop :=
  ∃ r, e = .status h (some .delete) (.ok r) ∧ Status.read r.status = .ok .deleteComplete

end Event

/-- The records that a log tells of. The log has its newest entry first. -/
def replay : List LogEntry → List Stack
  | [] => []
  | entry :: older => entry.event.effect (replay older)

/-- Every event of the log fits the records that the events before it tell of. -/
def Lawful : List LogEntry → Prop
  | [] => True
  | entry :: older => entry.event.Admitted (replay older) ∧ Lawful older

theorem Report.read_of_complete {r : Report} (h : r.deleteVerdict = .complete) :
    Status.read r.status = .ok .deleteComplete := by
  unfold deleteVerdict at h
  split at h
  · assumption
  · cases h
  · cases h

namespace Event
variable {e : Event} {name : String} {f : Stack.Update} {records : List Stack} {h : Handle}

theorem effect_of_update (he : e.update? = some (name, f)) (records : List Stack) :
    e.effect records = Stack.change name (fun s => (f s).2) records := by
  cases e with
  | registered name => cases he
  | _ => simp only [effect, he]

theorem effect_of_none (he : e.update? = none) (hr : e.isRegistration = false)
    (records : List Stack) : e.effect records = records := by
  cases e with
  | registered name => cases hr
  | _ => simp only [effect, he]

theorem name_update (he : e.update? = some (name, f)) (s : Stack) : (f s).2.name = s.name := by
  unfold update? at he
  split at he
  · cases he
    exact Stack.name_apply _ _
  · split at he
    · cases he
      exact Stack.name_observe _ _
    · cases he
      exact Stack.name_observe _ _
    · cases he
  · split at he
    · cases he
      exact Stack.name_observe _ _
    · cases he
      exact Stack.name_observe _ _
    · cases he
  · cases he
    rfl
  · cases he
    exact Stack.name_deleting _
  · cases he
    rfl
  · cases he

theorem lookup_effect (he : e.update? = some (name, f)) (records : List Stack) :
    lookup name (e.effect records) = (lookup name records).map fun s => (f s).2 := by
  rw [effect_of_update he]
  exact Stack.lookup_change (fun s hs => (name_update he s).trans hs) records

theorem lookup_effect_of_ne {other : String} (he : e.update? = some (name, f)) (hn : other ≠ name)
    (records : List Stack) : lookup other (e.effect records) = lookup other records := by
  rw [effect_of_update he]
  exact Stack.lookup_change_of_ne (fun s hs => (name_update he s).trans hs) hn records

/-- A move of a record that is held. -/
theorem heldIn_effect {source target : Status} (he : e.update? = some (h.name, f))
    (hf : Stack.Moves f source target) (hh : h.HeldIn records source) :
    h.HeldIn (e.effect records) target := by
  obtain ⟨s, hs, hid, hstatus⟩ := hh
  obtain ⟨-, hkeeps, htarget⟩ := hf s hstatus
  exact ⟨(f s).2, by rw [lookup_effect he, hs, Option.map_some], hkeeps.trans hid, htarget⟩

/-- A submission that was answered is recorded. -/
theorem heldIn_of_submit {g : Graph} {p : SortedMap String}
    (ha : (Event.submit name g p (some (.ok h))).Admitted records) : h.name = name ∧
      h.HeldIn ((Event.submit name g p (some (.ok h))).effect records) .creating := by
  obtain ⟨⟨s, hs, hstatus⟩, hname⟩ := ha
  obtain rfl := hname h rfl
  obtain ⟨-, hid, hcreating⟩ := Stack.submitted_ok h.id hstatus
  refine ⟨rfl, (Stack.submitted h.id s).2, ?_, hid, hcreating⟩
  rw [lookup_effect rfl, hs, Option.map_some]

/-- What an event may do to the record of a name: leave it alone, make a new one, record a submission,
or move a live record to a status that is live or reported as deleted. -/
def Fits (e : Event) (records : List Stack) (name : String) : Prop :=
  lookup name (e.effect records) = lookup name records ∨
  (e = .registered name ∧ lookup name (e.effect records) = some { name }) ∨
  (∃ g p h, e = .submit name g p (some (.ok h)) ∧ h.name = name ∧
    h.HeldIn (e.effect records) .creating) ∨
  ∃ h f source target, e.update? = some (h.name, f) ∧ h.name = name ∧ Stack.Moves f source target ∧
    h.HeldIn records source ∧ source.Live ∧
    (target.Live ∨ target = .deleteComplete ∧ e.ReportsDeletion h)

theorem fits_of_none (he : e.update? = none) (hr : e.isRegistration = false) :
    e.Fits records name :=
  Or.inl (by rw [effect_of_none he hr])

theorem fits_of_moves {source target : Status} (he : e.update? = some (h.name, f))
    (hf : Stack.Moves f source target) (hh : h.HeldIn records source) (hs : source.Live)
    (ht : target.Live ∨ target = .deleteComplete ∧ e.ReportsDeletion h) : e.Fits records name := by
  by_cases hn : name = h.name
  · exact Or.inr (Or.inr (Or.inr
      ⟨h, f, source, target, he, hn.symm, hf, hh, hs, ht⟩))
  · exact Or.inl (lookup_effect_of_ne he hn records)

theorem Admitted.fits (ha : e.Admitted records) (name : String) : e.Fits records name := by
  cases e with
  | registered other =>
    by_cases hn : name = other
    · subst hn
      exact Or.inr (Or.inl ⟨rfl, Stack.lookup_renew _ _⟩)
    · exact Or.inl (Stack.lookup_renew_of_ne hn _)
  | submit other g p answer =>
    rcases answer with _ | _ | h
    · exact fits_of_none rfl rfl
    · exact fits_of_none rfl rfl
    · by_cases hn : name = other
      · subst hn
        exact Or.inr (Or.inr (Or.inl ⟨g, p, h, rfl, heldIn_of_submit ha⟩))
      · exact Or.inl (lookup_effect_of_ne rfl hn records)
  | status h waiting answer =>
    rcases waiting with _ | _ | _ <;> rcases answer with _ | r
    · exact fits_of_none rfl rfl
    · exact fits_of_none rfl rfl
    · exact fits_of_none rfl rfl
    · cases hv : r.createVerdict with
      | complete =>
        exact fits_of_moves (by simp only [update?, hv]) Stack.moves_created ha (by decide)
          (Or.inl (by decide))
      | failed reason =>
        exact fits_of_moves (by simp only [update?, hv]) (Stack.moves_createFailed reason) ha
          (by decide) (Or.inl (by decide))
      | unexpected status => exact fits_of_none (by simp only [update?, hv]) rfl
      | pending => exact fits_of_none (by simp only [update?, hv]) rfl
    · exact fits_of_none rfl rfl
    · cases hv : r.deleteVerdict with
      | complete =>
        exact fits_of_moves (by simp only [update?, hv]) Stack.moves_deleted ha (by decide)
          (Or.inr ⟨rfl, r, rfl, Report.read_of_complete hv⟩)
      | failed reason =>
        exact fits_of_moves (by simp only [update?, hv]) (Stack.moves_deleteFailed reason) ha
          (by decide) (Or.inl (by decide))
      | pending => exact fits_of_none (by simp only [update?, hv]) rfl
  | outputs h answer =>
    rcases answer with _ | values
    · exact fits_of_none rfl rfl
    · exact fits_of_moves rfl (Stack.moves_withOutputs _ _) ha (by decide) (Or.inl (by decide))
  | delete h answer =>
    obtain ⟨source, hs, hh⟩ := ha
    rcases answer with _ | _ | _
    · exact fits_of_none rfl rfl
    · exact fits_of_moves rfl (Stack.moves_refused _ _) hh hs (Or.inl hs)
    · exact fits_of_moves rfl (Stack.moves_deleting hs) hh hs (Or.inl (by decide))

theorem names_effect_of_update (he : e.update? = some (name, f)) (records : List Stack) :
    (e.effect records).map Stack.name = records.map Stack.name := by
  rw [effect_of_update he]
  exact Stack.names_change (fun s hs => (name_update he s).trans hs) records

/-- No event gives two records one name. -/
theorem nodup_effect (e : Event) (hn : (records.map Stack.name).Nodup) :
    ((e.effect records).map Stack.name).Nodup := by
  cases hu : e.update? with
  | some change => rwa [names_effect_of_update hu]
  | none =>
    cases e with
    | registered name => exact Stack.nodup_renew name hn
    | _ => rwa [effect_of_none hu rfl]

end Event

theorem nodup_replay (log : List LogEntry) : ((replay log).map Stack.name).Nodup := by
  induction log with
  | nil => exact List.nodup_nil
  | cons entry older ih => exact entry.event.nodup_effect ih

/-- A record has an id if and only if its stack was submitted. -/
theorem Lawful.id_iff {log : List LogEntry} (hl : Lawful log) {name : String} {s : Stack}
    (hs : lookup name (replay log) = some s) : s.id.isSome = true ↔ s.status ≠ .notCreated := by
  induction log generalizing s with
  | nil => cases hs
  | cons entry older ih =>
    rcases hl.1.fits name with hsame | ⟨-, hnew⟩ | ⟨-, -, h, -, rfl, hh⟩ |
      ⟨h, f, source, target, hu, rfl, hf, hh, -, ht⟩
    · exact ih hl.2 (hsame.symm.trans hs)
    · obtain rfl := Option.some.inj (hnew.symm.trans hs)
      simp [Stack.status, Lifecycle.fresh]
    · obtain ⟨s', hs', hid, hstatus⟩ := hh
      obtain rfl := Option.some.inj (hs'.symm.trans hs)
      simp [hid, hstatus]
    · obtain ⟨s', hs', hid, rfl⟩ := Event.heldIn_effect hu hf hh
      obtain rfl := Option.some.inj (hs'.symm.trans hs)
      rcases ht with ht | ⟨ht, -⟩
      · simp [hid, ht.1]
      · simp [hid, ht]

/-- A stack that is live stays so until its deletion is reported. -/
theorem Handle.LiveIn.effect {h : Handle} {e : Event} {records : List Stack} (hh : h.LiveIn records)
    (ha : e.Admitted records) (hd : ¬ e.ReportsDeletion h) : h.LiveIn (e.effect records) := by
  obtain ⟨status, hlive, s, hs, hid, rfl⟩ := hh
  rcases ha.fits h.name with hsame | ⟨rfl, -⟩ | ⟨g, p, h', rfl, -, -⟩ |
    ⟨h', f, source, target, hu, hname, hf, hh', -, ht⟩
  · exact ⟨s.status, hlive, s, hsame.trans hs, hid, rfl⟩
  · exact absurd hlive (ha s hs)
  · obtain ⟨⟨s', hs', hnew⟩, -⟩ := ha
    obtain rfl := Option.some.inj (hs.symm.trans hs')
    exact absurd hnew hlive.1
  · -- The handle that the event speaks of has the name and the id of the record.
    obtain rfl : h' = h := by
      obtain ⟨s', hs', hid', -⟩ := hh'
      rw [hname] at hs'
      obtain rfl := Option.some.inj (hs.symm.trans hs')
      have hids := Option.some.inj (hid'.symm.trans hid)
      cases h
      cases h'
      cases hname
      cases hids
      rfl
    rcases ht with ht | ⟨-, hreport⟩
    · exact ⟨target, ht, Event.heldIn_effect hu hf hh'⟩
    · exact absurd hreport hd

/-- A stack that was submitted is live until its deletion is reported. -/
theorem Lawful.liveIn {newer older : List LogEntry} {time : Nat} {name : String} {g : Graph}
    {p : SortedMap String} {h : Handle}
    (hl : Lawful (newer ++ ⟨time, .submit name g p (some (.ok h))⟩ :: older))
    (hd : ∀ entry ∈ newer, ¬ entry.event.ReportsDeletion h) :
    h.name = name ∧ h.LiveIn (replay (newer ++ ⟨time, .submit name g p (some (.ok h))⟩ :: older)) := by
  induction newer with
  | nil =>
    obtain ⟨hname, hheld⟩ := Event.heldIn_of_submit hl.1
    exact ⟨hname, .creating, by decide, hheld⟩
  | cons entry newer ih =>
    obtain ⟨hname, hlive⟩ := ih hl.2 fun e he => hd e (List.mem_cons_of_mem _ he)
    exact ⟨hname, hlive.effect hl.1 (hd entry List.mem_cons_self)⟩

end Provision
