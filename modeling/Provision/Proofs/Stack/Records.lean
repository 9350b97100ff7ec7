import Mathlib.Data.List.Nodup
import Provision.Stack.Deletion

/-! Records and the changes made to them. A change finds its record by the name and keeps the name, so
it is seen by whoever asks for that name and by nobody else. -/
namespace Provision

namespace Status

/-- The backend may still have the stack. -/
def Live (s : Status) : Prop := s ≠ .notCreated ∧ s ≠ .deleteComplete

instance (s : Status) : Decidable s.Live := inferInstanceAs (Decidable (_ ∧ _))

end Status

namespace Stack
variable {name other : String} {records : List Stack} {f : Stack → Stack} {s : Stack}

/-- The first record of that name. -/
def lookup (name : String) (records : List Stack) : Option Stack :=
  records.find? fun s => s.name == name

theorem lookup_cons (name : String) (s : Stack) (records : List Stack) :
    lookup name (s :: records) = if s.name = name then some s else lookup name records := by
  by_cases h : s.name = name <;> simp [lookup, h]

theorem name_of_lookup (h : lookup name records = some s) : s.name = name := by
  simpa using List.find?_some h

theorem lookup_change (hf : ∀ s, s.name = name → (f s).name = name) (records : List Stack) :
    lookup name (change name f records) = (lookup name records).map f := by
  induction records with
  | nil => rfl
  | cons s rest ih =>
    by_cases h : s.name = name
    · simp [change, lookup_cons, h, hf s h]
    · simp [change, lookup_cons, h, ih]

theorem lookup_change_of_ne (hf : ∀ s, s.name = name → (f s).name = name) (h : other ≠ name)
    (records : List Stack) : lookup other (change name f records) = lookup other records := by
  induction records with
  | nil => rfl
  | cons s rest ih =>
    by_cases hs : s.name = name
    · simp [change, lookup_cons, hs, hf s hs, h.symm]
    · simp [change, lookup_cons, hs, ih]

theorem change_id (name : String) (records : List Stack) :
    change name (fun s => s) records = records := by
  induction records with
  | nil => rfl
  | cons s rest ih => simp [change, ih]

theorem names_change (hf : ∀ s, s.name = name → (f s).name = name) (records : List Stack) :
    (change name f records).map Stack.name = records.map Stack.name := by
  induction records with
  | nil => rfl
  | cons s rest ih =>
    by_cases hs : s.name = name
    · simp [change, hs, hf s hs]
    · simp [change, hs, ih]

theorem lookup_of_mem (hn : (records.map Stack.name).Nodup) (hs : s ∈ records) :
    lookup s.name records = some s := by
  cases hl : lookup s.name records with
  | none => simpa using List.find?_eq_none.mp hl s hs
  | some s' =>
    rw [List.inj_on_of_nodup_map hn (List.mem_of_find?_eq_some hl) hs (name_of_lookup hl)]

/-- A new record under the name, in the place of the old one if there is one. -/
def renew (name : String) (records : List Stack) : List Stack :=
  match lookup name records with
  | some _ => change name (fun _ => { name }) records
  | none => records ++ [{ name }]

theorem lookup_renew (name : String) (records : List Stack) :
    lookup name (renew name records) = some { name } := by
  have hchange := lookup_change (f := fun _ => { name }) (fun _ (_ : _ = name) => rfl) records
  unfold renew
  split
  · next s hs => rw [hchange, hs, Option.map_some]
  · next hn =>
    rw [lookup, List.find?_append, show records.find? _ = none from hn]
    simp

theorem lookup_renew_of_ne (h : other ≠ name) (records : List Stack) :
    lookup other (renew name records) = lookup other records := by
  unfold renew
  split
  · exact lookup_change_of_ne (f := fun _ => { name }) (fun _ (_ : _ = name) => rfl) h records
  · simp [lookup, List.find?_append, h.symm]

theorem nodup_renew (name : String) (hn : (records.map Stack.name).Nodup) :
    ((renew name records).map Stack.name).Nodup := by
  unfold renew
  split
  · rwa [names_change (f := fun _ => { name }) (fun _ (_ : _ = name) => rfl)]
  · next hnone =>
    rw [List.map_append]
    refine List.nodup_append.mpr ⟨hn, by simp, fun a ha b hb => ?_⟩
    obtain ⟨s, hs, rfl⟩ := List.mem_map.mp ha
    obtain rfl := List.mem_singleton.mp hb
    simpa using List.find?_eq_none.mp hnone s hs

/-! What the changes do. All of them keep the name, and only a submission gives an id. -/

@[simp] theorem name_apply (c : Command) (s : Stack) : (apply c s).2.name = s.name := by
  unfold apply
  split <;> rfl

@[simp] theorem id_apply (c : Command) (s : Stack) : (apply c s).2.id = s.id := by
  unfold apply
  split <;> rfl

@[simp] theorem name_observe (o : Status) (s : Stack) : (observe o s).2.name = s.name := by
  unfold observe
  split <;> rfl

@[simp] theorem id_observe (o : Status) (s : Stack) : (observe o s).2.id = s.id := by
  unfold observe
  split <;> rfl

@[simp] theorem name_deleting (s : Stack) : (deleting s).2.name = s.name := by
  unfold deleting
  split
  · rfl
  · exact name_apply _ _

/-- The change is made from the one status, ends in the other, and keeps name and id. -/
def Moves (f : Update) (source target : Status) : Prop :=
  ∀ s : Stack, s.status = source →
    (f s).1 = .ok () ∧ (f s).2.id = s.id ∧ (f s).2.status = target

theorem apply_ok {c : Command} {target : Status} (h : s.status.next c = .ok target) :
    (apply c s).1 = .ok () ∧ (apply c s).2.status = target := by
  rw [status] at h
  simp [apply, Lifecycle.apply, h, status]

theorem observe_ok {o target : Status} {c : Command} (hc : s.status.commandTowards o = some c)
    (h : s.status.next c = .ok target) :
    (observe o s).1 = .ok () ∧ (observe o s).2.status = target := by
  rw [status] at hc h
  simp [observe, Lifecycle.observe, Lifecycle.apply, hc, h, status]

theorem moves_observe {o source target : Status} {c : Command}
    (hc : source.commandTowards o = some c) (h : source.next c = .ok target) :
    Moves (observe o) source target := by
  rintro s rfl
  exact ⟨(observe_ok hc h).1, id_observe o s, (observe_ok hc h).2⟩

theorem moves_failed {reason : String} {o source target : Status} {c : Command}
    (hc : source.commandTowards o = some c) (h : source.next c = .ok target) :
    Moves (failed reason o) source target := by
  intro s hs
  exact moves_observe hc h { s with reason := some reason } hs

theorem moves_created : Moves (observe .createComplete) .creating .createComplete :=
  moves_observe rfl rfl

theorem moves_createFailed (reason : String) :
    Moves (failed reason .createFailed) .creating .createFailed :=
  moves_failed rfl rfl

theorem moves_deleted : Moves (observe .deleteComplete) .deleting .deleteComplete :=
  moves_observe rfl rfl

theorem moves_deleteFailed (reason : String) :
    Moves (failed reason .deleteFailed) .deleting .deleteFailed :=
  moves_failed rfl rfl

theorem moves_deleting {source : Status} (h : source.Live) : Moves deleting source .deleting := by
  rintro s rfl
  unfold deleting
  by_cases hs : s.status = .deleting
  · simp [hs]
  · rw [if_neg hs]
    have hnext : s.status.next .beginDelete = .ok .deleting := by
      obtain ⟨hn, hd⟩ := h
      cases hstatus : s.status <;> simp_all [Status.next]
    exact ⟨(apply_ok hnext).1, id_apply _ s, (apply_ok hnext).2⟩

theorem submitted_ok (id : String) (h : s.status = .notCreated) :
    (submitted id s).1 = .ok () ∧ (submitted id s).2.id = some id ∧
      (submitted id s).2.status = .creating := by
  have hnext : ({ s with id := some id } : Stack).status.next .submit = .ok .creating := by
    rw [show ({ s with id := some id } : Stack).status = .notCreated from h]
    rfl
  exact ⟨(apply_ok hnext).1, id_apply _ _, (apply_ok hnext).2⟩

theorem moves_refused (reason : String) (source : Status) : Moves (refused reason) source source := by
  rintro s rfl
  exact ⟨rfl, rfl, rfl⟩

theorem moves_withOutputs (outputs : SortedMap String) (source : Status) :
    Moves (withOutputs outputs) source source := by
  rintro s rfl
  exact ⟨rfl, rfl, rfl⟩

end Stack
end Provision
