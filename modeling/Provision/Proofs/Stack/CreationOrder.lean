import Mathlib.Data.List.Dedup
import Provision.Proofs.OrderedMap
import Provision.Proofs.Stack.Sweep

/-! The order of the stacks. A new record for a name takes the place of the old one, so the records stand in
the order in which their names were first created, and a stack that is created again is not the newest. -/
namespace Provision

open Stack (lookup)

/-- The name that an event makes a record for. -/
def Event.registered? : Event → Option String
  | .registered name => some name
  | _ => none

/-- The names that records were made for, once for every record, the earliest first. -/
def registrations (log : List LogEntry) : List String :=
  log.reverse.filterMap fun entry => entry.event.registered?

/-! Lists that name a thing more than once: the first time counts for one order, the last for another. -/

section Repeated
variable {α : Type} [DecidableEq α]

/-- Where nothing is named twice among those that are kept, the first time is the only one. -/
theorem filter_eraseDups_of_nodup {p : α → Bool} {l : List α} (hn : (l.filter p).Nodup) :
    l.eraseDups.filter p = l.filter p := by
  induction l using List.reverseRecOn with
  | nil => rfl
  | append_singleton l a ih =>
    rw [List.filter_append] at hn
    obtain ⟨hl, -, hdisjoint⟩ := List.nodup_append.mp hn
    rw [eraseDups_concat, List.filter_append]
    split
    · next ha =>
      have hp : ¬ p a = true := by
        intro hp
        exact hdisjoint a (List.mem_filter.mpr ⟨ha, hp⟩) a (by simp [hp]) rfl
      rw [ih hl, List.filter_cons_of_neg hp, List.filter_nil, List.append_nil]
    · rw [List.filter_append, ih hl]

theorem filter_dedup_of_nodup {p : α → Bool} {l : List α} (hn : (l.filter p).Nodup) :
    l.dedup.filter p = l.filter p := by
  induction l with
  | nil => rfl
  | cons a l ih =>
    by_cases hp : p a = true
    · rw [List.filter_cons_of_pos hp] at hn ⊢
      obtain ⟨hnew, hl⟩ := List.nodup_cons.mp hn
      have ha : a ∉ l := fun ha => hnew (List.mem_filter.mpr ⟨ha, hp⟩)
      rw [List.dedup_cons_of_notMem ha, List.filter_cons_of_pos hp, ih hl]
    · rw [List.filter_cons_of_neg hp] at hn ⊢
      by_cases ha : a ∈ l
      · rw [List.dedup_cons_of_mem ha, ih hn]
      · rw [List.dedup_cons_of_notMem ha, List.filter_cons_of_neg hp, ih hn]

end Repeated

/-! The names of the records. -/

theorem Stack.names_renew (name : String) (records : List Stack) : (renew name records).map Stack.name =
    if name ∈ records.map Stack.name then records.map Stack.name else records.map Stack.name ++ [name] := by
  unfold renew
  cases hs : lookup name records with
  | some s =>
    have hmem : name ∈ records.map Stack.name :=
      List.mem_map.mpr ⟨s, List.mem_of_find?_eq_some hs, name_of_lookup hs⟩
    rw [if_pos hmem]
    exact names_change (f := fun _ => { name }) (fun _ (_ : _ = name) => rfl) records
  | none =>
    have hmem : name ∉ records.map Stack.name := by
      rintro hmem
      obtain ⟨s, hs', rfl⟩ := List.mem_map.mp hmem
      simpa using List.find?_eq_none.mp hs s hs'
    rw [if_neg hmem, List.map_append]
    rfl

theorem registrations_cons (entry : LogEntry) (older : List LogEntry) :
    registrations (entry :: older) = registrations older ++ entry.event.registered?.toList := by
  rw [registrations, List.reverse_cons, List.filterMap_append]
  cases hname : entry.event.registered? <;> simp [registrations, hname]

theorem registrations_cons_of_call {entry : LogEntry} (he : entry.event.isRegistration = false)
    (older : List LogEntry) : registrations (entry :: older) = registrations older := by
  have hnone : entry.event.registered? = none := by
    cases hevent : entry.event with
    | registered name => rw [hevent] at he; cases he
    | _ => rfl
  rw [registrations_cons, hnone, Option.toList_none, List.append_nil]

namespace Manager
variable {σ : Type} {b : Backend σ} {m m' : Manager σ}

/-- The records stand in the order in which their names were first created. -/
theorem Steps.names (hs : Steps m m')
    (hm : m.records.map Stack.name = (registrations m.log).eraseDups) :
    m'.records.map Stack.name = (registrations m'.log).eraseDups := by
  induction hs with
  | refl => exact hm
  | tail _ hstep ih =>
    cases hstep with
    | passed hr hl => rw [hr, hl, ih]
    | called he hr hl => rw [hr, hl, ih, registrations_cons_of_call he]
    | changed hf hr hl => rw [hr, hl, Stack.names_change fun s hs => (hf.name s).trans hs, ih]
    | @registered name time hr hl =>
      rw [hr, hl, Stack.names_renew, ih, registrations_cons]
      simp only [Event.registered?, Option.toList_some, eraseDups_concat, List.mem_eraseDups]

/-- The names that are tracked are those of the records that are not deleted, one for one. -/
theorem Orderly.filter_tracked (hm : m.Orderly) :
    (m.records.map Stack.name).filter (· ∈ m.tracked) = m.tracked := by
  rw [List.filter_map]
  refine congrArg (List.map Stack.name) (List.filter_congr fun s hs => ?_)
  refine decide_eq_decide.mpr ⟨fun hmem => ?_, fun hstatus => ?_⟩
  · obtain ⟨s', hs', hname⟩ := List.mem_map.mp hmem
    obtain ⟨hmem', hstatus⟩ := List.mem_filter.mp hs'
    rw [List.inj_on_of_nodup_map hm.names hmem' hs hname] at hstatus
    simpa using hstatus
  · exact List.mem_map_of_mem (List.mem_filter.mpr ⟨hs, by simpa using hstatus⟩)

/-- In every run, and whatever handles the backend answers with, the stacks that are not deleted are tracked in
the order in which their names were first created. That is also the order in which they were last created, if
none of these names was created more than once. Deleting every stack requests the deletions in the reverse of
this order, all of them if it comes to its end. -/
theorem tracked_in_order {start : Manager σ} (hr : start.records = []) (hl : start.log = [])
    {requests : List Request} (hm : start.run b requests = m) :
    m.tracked = (registrations m.log).eraseDups.filter (· ∈ m.tracked) ∧
    (((registrations m.log).filter (· ∈ m.tracked)).Nodup →
      m.tracked = (registrations m.log).dedup.filter (· ∈ m.tracked)) ∧
    (∃ recent, (m.deleteAll b).2.log = recent ++ m.log ∧
      (deletionRequests recent).eraseDups <+: m.deletable.reverse ∧
      (Returned (m.deleteAll b).1 → (deletionRequests recent).eraseDups = m.deletable.reverse)) ∧
    ((∀ s ∈ m.records, s.id.isSome = true) → m.deletable.map Handle.name = m.tracked) := by
  have horderly := run_orderly hr hm
  have hnames : m.records.map Stack.name = (registrations m.log).eraseDups := by
    rw [← hm]
    refine (run_steps b requests start).names ?_
    rw [hr, hl]
    rfl
  have hfirst : (registrations m.log).eraseDups.filter (· ∈ m.tracked) = m.tracked := by
    rw [← hnames, horderly.filter_tracked]
  refine ⟨hfirst.symm, fun hn => ?_, ?_, fun hids => ?_⟩
  · rw [filter_dedup_of_nodup hn, ← filter_eraseDups_of_nodup hn, hfirst]
  · obtain ⟨hs, hpart, hall, hswept⟩ := horderly.deleteAll_swept b
    obtain ⟨recent, hlog, -, hrequests⟩ := hswept.calls
    exact ⟨recent, hlog, hrequests ▸ hpart, fun hreturned => hrequests.trans (hall hreturned)⟩
  · rw [deletable, tracked, List.map_filterMap, ← List.filterMap_eq_map]
    refine List.filterMap_congr fun s hs => ?_
    obtain ⟨id, hid⟩ := Option.isSome_iff_exists.mp (hids s (List.mem_filter.mp hs).1)
    rw [Stack.handle?, hid]
    rfl

end Manager

/-- Every stack that is submitted can be deleted. -/
def obligingScript : Script where
  submits := [(.ok "id-1", 0), (.ok "id-2", 0), (.ok "id-3", 0)]
  statuses := [.ok { status := "DELETE_COMPLETE" }]
  outputs := []
  deletes := [.ok true]

theorem Manager.tracked_in_order_sample : ∃ (m : Manager Script) (recent : List LogEntry),
    run Script.backend (threeCreations ++ [{ call := .delete "two" true 1 }])
      { timing := {}, backend := obligingScript } = m ∧
    m.tracked = ["one", "three"] ∧ m.tracked = (registrations m.log).dedup.filter (· ∈ m.tracked) ∧
    (m.deleteAll Script.backend).2.log = recent ++ m.log ∧
    (deletionRequests recent).eraseDups = [⟨"id-3", "three"⟩, ⟨"id-1", "one"⟩] := by
  obtain ⟨-, hlast, ⟨recent, hlog, -, hrequests⟩, -⟩ := tracked_in_order rfl rfl
    (rfl : run Script.backend (threeCreations ++ [{ call := .delete "two" true 1 }])
      { timing := {}, backend := obligingScript } = _)
  exact ⟨_, recent, rfl, rfl, hlast (by decide), hlog, hrequests nofun⟩

/-- The stack that is created last, under a name that was used before, is tracked first, and its deletion is
requested last. -/
theorem Manager.recreated_stack_not_newest : ∃ m : Manager Script,
    run Script.backend
      [{ call := .create "one" {} ∅ .nonBlocking }, { call := .create "two" {} ∅ .nonBlocking },
        { call := .delete "one" true 1 }, { call := .create "one" {} ∅ .nonBlocking }]
      { timing := {}, backend := obligingScript } = m ∧
    (∀ s ∈ m.records, s.id.isSome = true) ∧ m.tracked = ["one", "two"] ∧
    (registrations m.log).dedup.filter (· ∈ m.tracked) = ["two", "one"] ∧
    deletionRequests (m.deleteAll Script.backend).2.log =
      deletionRequests m.log ++ [⟨"id-2", "two"⟩, ⟨"id-3", "one"⟩] := by
  refine ⟨_, rfl, ?_, rfl, rfl, rfl⟩
  decide

end Provision
