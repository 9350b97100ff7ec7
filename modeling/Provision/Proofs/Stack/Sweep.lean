import Provision.Proofs.Stack.Tracking
import Provision.Proofs.Stack.Undisturbed

/-! Deleting every stack leaves out none. It is one deletion of each stack that the backend may still have,
the newest record first; a deletion that fails stops none of those after it, and the first failure is what
is told at the end. Only where the clock cannot tell the end of a wait nothing follows. -/
namespace Provision

open Stack (lookup)

/-- The stack that an event requests the deletion of. -/
def Event.requested? : Event → Option Handle
  | .delete h _ => some h
  | _ => none

/-- The stacks whose deletion was requested, once for every request, the earliest first. -/
def deletionRequests (log : List LogEntry) : List Handle :=
  log.reverse.filterMap fun entry => entry.event.requested?

@[simp] theorem deletionRequests_append (newer older : List LogEntry) :
    deletionRequests (newer ++ older) = deletionRequests older ++ deletionRequests newer := by
  simp [deletionRequests]

theorem mem_deletionRequests {h : Handle} {log : List LogEntry} :
    h ∈ deletionRequests log ↔ ∃ entry ∈ log, ∃ answer, entry.event = .delete h answer := by
  rw [deletionRequests, List.mem_filterMap]
  refine exists_congr fun entry => and_congr List.mem_reverse ?_
  cases entry.event <;> simp [Event.requested?, eq_comm]

/-- Requests for one stack only, followed by requests for others, are that stack's turn and the turns of
the others. -/
theorem eraseDups_turn {h : Handle} {block rest : List Handle} (hne : h ∈ block)
    (hblock : ∀ h' ∈ block, h' = h) (hrest : h ∉ rest) :
    (block ++ rest).eraseDups = h :: rest.eraseDups := by
  obtain ⟨first, block, rfl⟩ := List.exists_cons_of_ne_nil (List.ne_nil_of_mem hne)
  obtain ⟨rfl, hblock⟩ := List.forall_mem_cons.mp hblock
  have hgone : block.filter (fun h => !h == first) = [] := by
    rw [List.filter_eq_nil_iff]
    intro h' hh'
    simp [hblock h' hh']
  have hkept : rest.filter (fun h => !h == first) = rest := by
    rw [List.filter_eq_self]
    intro h' hh'
    simpa using fun he : h' = first => hrest (he ▸ hh')
  rw [List.cons_append, List.eraseDups_cons, List.filter_append, hgone, hkept, List.nil_append]

/-- The first failure, if there is one. -/
def firstFailure : List (Except StackError Unit) → Except StackError Unit
  | [] => .ok ()
  | .ok _ :: rest => firstFailure rest
  | .error e :: _ => .error e

theorem firstFailure_ok_iff (results : List (Except StackError Unit)) :
    firstFailure results = .ok () ↔ ∀ result ∈ results, result = .ok () := by
  induction results with
  | nil => simp [firstFailure]
  | cons result rest ih =>
    cases result with
    | ok => simp [firstFailure, ih]
    | error e => simp [firstFailure]

namespace Manager
variable {σ : Type} {b : Backend σ} {m m' : Manager σ} {h : Handle} {name : String}

/-- The stacks that the backend may still have, in the order of the records. -/
def deletable (m : Manager σ) : List Handle :=
  (m.records.filter fun s => s.status ≠ .deleteComplete).filterMap Stack.handle?

/-- Deletes the stacks one after another, waiting for each and with so many attempts for each, whatever
becomes of those before: how the deletions end, and the manager after the last. -/
def sweep (b : Backend σ) (retries : Nat) :
    List Handle → Manager σ → List (Except StackError Unit) × Manager σ
  | [], m => ([], m)
  | h :: rest, m =>
    let (result, m) := m.delete b h.name true retries
    let (results, m) := sweep b retries rest m
    (result :: results, m)

/-- A deletion requests that of its stack, and asks about no other. -/
theorem delete_calls (b : Backend σ) (block : Bool) (retries : Nat) (hm : m.Orderly)
    (hh : m.deletable? name = some h) :
    ∃ recent, (m.delete b name block retries).2.log = recent ++ m.log ∧
      (∀ entry ∈ recent, entry.event.Deletes h) ∧ h ∈ deletionRequests recent := by
  have hrepeated : m.delete b name block retries =
      m.deleteRepeatedly b h block (max retries 1 - 1) := by rw [delete, hh]
  obtain ⟨recent, hlog, hcalls, -⟩ :=
    (deleteRepeatedly_undisturbed b h block (max retries 1 - 1) m none []).told
  rcases hx : m.delete b name block retries with ⟨result, m'⟩
  rw [← hrepeated, hx] at hlog
  obtain ⟨-, -, answer, before, hrequested⟩ := delete_attempted hm hh hx
  have hrecent : before ++ [⟨m.clock, .delete h answer⟩] ++ m.log = recent ++ m.log := by
    rw [← hlog, ← hrequested, List.append_assoc, List.singleton_append]
  refine ⟨recent, hlog, hcalls, mem_deletionRequests.mpr ⟨⟨m.clock, .delete h answer⟩, ?_, answer, rfl⟩⟩
  rw [← List.append_cancel_right hrecent]
  exact List.mem_append_right before (List.mem_singleton_self _)

/-! The stacks that can be deleted. -/

/-- Records have different names, so the first record of a name is the only one that can be meant. -/
theorem Orderly.deletable?_eq (hm : m.Orderly) (name : String) :
    m.deletable? name = (lookup name m.records).bind fun s =>
      if s.status = .deleteComplete then none else s.handle? := by
  cases hd : m.deletable? name with
  | some h =>
    obtain ⟨hname, status, hlive, s, hs, hid, rfl⟩ := hm.liveIn_of_deletable hd
    subst hname
    rw [hs, Option.bind_some, if_neg hlive.2, Stack.handle?, hid, Option.map_some,
      Stack.name_of_lookup hs]
  | none =>
    cases hs : lookup name m.records with
    | none => rfl
    | some s =>
      rw [Option.bind_some]
      split
      · rfl
      · next hstatus =>
        cases hh : s.handle? with
        | none => rfl
        | some h =>
          obtain ⟨id, hid, rfl⟩ := Option.map_eq_some_iff.mp hh
          have hname := Stack.name_of_lookup hs
          have hcreated := hm.submitted s (List.mem_of_find?_eq_some hs) (by rw [hid]; rfl)
          have hdeletable := deletable_of_live (h := ⟨id, s.name⟩)
            ⟨s.status, ⟨hcreated, hstatus⟩, s, hname.symm ▸ hs, hid, rfl⟩
          rw [hname, hd] at hdeletable
          cases hdeletable

theorem Orderly.deletable?_of_mem (hm : m.Orderly) {s : Stack} (hs : s ∈ m.records) :
    m.deletable? s.name = if s.status = .deleteComplete then none else s.handle? := by
  rw [hm.deletable?_eq, Stack.lookup_of_mem hm.names hs, Option.bind_some]

/-- Whether a stack can be deleted is told by its record alone. -/
theorem Orderly.deletable?_congr {m₁ : Manager σ} (hm : m.Orderly) (hm₁ : m₁.Orderly)
    (hs : lookup name m₁.records = lookup name m.records) : m₁.deletable? name = m.deletable? name := by
  rw [hm₁.deletable?_eq, hs, ← hm.deletable?_eq]

/-- What is done for the stack of one name leaves those of other names to be deleted. -/
theorem Orderly.deletable?_after {m₁ : Manager σ} {rest : List Handle} (hm : m.Orderly) (hm₁ : m₁.Orderly)
    (ha : After name m m₁) (hnew : name ∉ rest.map Handle.name)
    (hd : ∀ h ∈ rest, m.deletable? h.name = some h) : ∀ h ∈ rest, m₁.deletable? h.name = some h := by
  intro h hh
  have hne : h.name ≠ name := fun he => hnew (he ▸ List.mem_map_of_mem hh)
  rw [hm.deletable?_congr hm₁ (ha.others _ hne)]
  exact hd h hh

theorem mem_deletable : h ∈ m.deletable ↔
    ∃ s ∈ m.records, s.status ≠ .deleteComplete ∧ s.handle? = some h := by
  simp [deletable, List.mem_filterMap, and_assoc]

theorem Orderly.deletable?_of_mem_deletable (hm : m.Orderly) (hh : h ∈ m.deletable) :
    m.deletable? h.name = some h := by
  obtain ⟨s, hs, hstatus, hhandle⟩ := mem_deletable.mp hh
  obtain ⟨id, hid, rfl⟩ := Option.map_eq_some_iff.mp hhandle
  rw [hm.deletable?_of_mem hs, if_neg hstatus, hhandle]

theorem names_deletable_sublist (m : Manager σ) :
    (m.deletable.map Handle.name).Sublist (m.records.map Stack.name) := by
  unfold deletable
  induction m.records with
  | nil => exact List.Sublist.slnil
  | cons s rest ih =>
    by_cases hstatus : s.status = .deleteComplete
    · rw [List.filter_cons_of_neg (by simpa using hstatus)]
      exact ih.cons _
    · rw [List.filter_cons_of_pos (by simpa using hstatus)]
      cases hid : s.id with
      | none =>
        rw [List.filterMap_cons_none (by rw [Stack.handle?, hid]; rfl)]
        exact ih.cons _
      | some id =>
        rw [List.filterMap_cons_some (by rw [Stack.handle?, hid]; rfl)]
        exact ih.cons_cons s.name

theorem Orderly.nodup_deletable (hm : m.Orderly) : (m.deletable.map Handle.name).Nodup :=
  hm.names.sublist m.names_deletable_sublist

/-- Of the tracked stacks those can be deleted that have an id. -/
theorem Orderly.tracked_deletable (hm : m.Orderly) :
    m.tracked.filterMap m.deletable? = m.deletable := by
  rw [tracked, List.filterMap_map, deletable]
  refine List.filterMap_congr fun s hs => ?_
  obtain ⟨hmem, hstatus⟩ := List.mem_filter.mp hs
  rw [Function.comp_apply, hm.deletable?_of_mem hmem, if_neg (by simpa using hstatus)]

/-! The sweep. -/

/-- How a sweep over some stacks ends. -/
structure Swept (b : Backend σ) (retries : Nat) (hs : List Handle) (m : Manager σ)
    (results : List (Except StackError Unit)) (m' : Manager σ) : Prop where
  orderly : m'.Orderly
  others : ∀ name, name ∉ hs.map Handle.name → lookup name m'.records = lookup name m.records
  /-- When its turn comes, each stack is one that can be deleted, and its deletion is asked for. -/
  turns : ∀ before h after, hs = before ++ h :: after →
    (m.sweep b retries before).2.deletable? h.name = some h ∧
    Requested h (m.sweep b retries before).2 (m.sweep b retries (before ++ [h])).2
  calls : ∃ recent, m'.log = recent ++ m.log ∧ (∀ entry ∈ recent, ∃ h ∈ hs, entry.event.Deletes h) ∧
    (deletionRequests recent).eraseDups = hs
  deleted : (∀ result ∈ results, result = .ok ()) → ∀ h ∈ hs, h.HeldIn m'.records .deleteComplete

theorem sweep_cons (m : Manager σ) (b : Backend σ) (retries : Nat) (h : Handle) (rest : List Handle) :
    m.sweep b retries (h :: rest) =
      ((m.delete b h.name true retries).1 :: ((m.delete b h.name true retries).2.sweep b retries rest).1,
        ((m.delete b h.name true retries).2.sweep b retries rest).2) := rfl

theorem sweep_concat (m : Manager σ) (b : Backend σ) (retries : Nat) (before : List Handle) (h : Handle) :
    (m.sweep b retries (before ++ [h])).2 =
      ((m.sweep b retries before).2.delete b h.name true retries).2 := by
  induction before generalizing m with
  | nil => rfl
  | cons first before ih => exact ih (m.delete b first.name true retries).2

/-- One deletion leaves all other records as they are, so the stacks that follow can still be deleted. -/
theorem sweep_swept (b : Backend σ) (retries : Nat) {hs : List Handle} (hm : m.Orderly)
    (hn : (hs.map Handle.name).Nodup) (hd : ∀ h ∈ hs, m.deletable? h.name = some h) :
    Swept b retries hs m (m.sweep b retries hs).1 (m.sweep b retries hs).2 := by
  induction hs generalizing m with
  | nil => exact ⟨hm, fun _ _ => rfl, by simp, ⟨[], rfl, nofun, rfl⟩, fun _ => nofun⟩
  | cons h rest ih =>
    obtain ⟨hfirst, hlater⟩ := List.forall_mem_cons.mp hd
    obtain ⟨hnew, hnodup⟩ := List.nodup_cons.mp hn
    have hsweep := m.sweep_cons b retries h
    have hsteps := delete_steps b h.name true retries m
    obtain ⟨recent₁, hlog₁, hcalls₁, hrequested⟩ := delete_calls b true retries hm hfirst
    rcases hx : m.delete b h.name true retries with ⟨result, m₁⟩
    rw [hx] at hsweep hsteps hlog₁
    dsimp only at hsweep
    obtain ⟨-, hatt, hrequest⟩ := delete_attempted hm hfirst hx
    have hafter := delete_after hm hx
    have hm₁ := hsteps.orderly hm
    have hrest := ih hm₁ hnodup (hm.deletable?_after hm₁ hafter hnew hlater)
    rw [hsweep]
    refine ⟨hrest.orderly, fun name hname => ?_, ?_, ?_, fun hok h' hh' => ?_⟩
    · obtain ⟨hne, hname⟩ := not_or.mp (List.mem_cons.not.mp hname)
      rw [hrest.others name hname, hafter.others name hne]
    · rintro (_ | ⟨first, before⟩) h' after hsplit
      · obtain ⟨rfl, -⟩ := List.cons.inj hsplit
        rw [List.nil_append, hsweep]
        exact ⟨hfirst, hrequest⟩
      · obtain ⟨rfl, htail⟩ := List.cons.inj hsplit
        rw [List.cons_append, hsweep, hsweep]
        exact hrest.turns before h' after htail
    · obtain ⟨recent, hlog, hcalls, hrequests⟩ := hrest.calls
      refine ⟨recent ++ recent₁, by rw [hlog, hlog₁, List.append_assoc], fun entry he => ?_, ?_⟩
      · rcases List.mem_append.mp he with he | he
        · obtain ⟨h', hh', hdeletes⟩ := hcalls entry he
          exact ⟨h', List.mem_cons_of_mem _ hh', hdeletes⟩
        · exact ⟨h, List.mem_cons_self, hcalls₁ entry he⟩
      · have hothers : h ∉ deletionRequests recent := by
          rw [← List.mem_eraseDups, hrequests]
          exact fun hh => hnew (List.mem_map_of_mem hh)
        rw [deletionRequests_append, eraseDups_turn hrequested (fun h' hh' => ?_) hothers, hrequests]
        obtain ⟨entry, he, answer, hanswer⟩ := mem_deletionRequests.mp hh'
        rcases hcalls₁ entry he with ⟨answer', hdelete⟩ | ⟨answer', hstatus⟩
        · cases hanswer.symm.trans hdelete
          rfl
        · cases hanswer.symm.trans hstatus
    · obtain ⟨hok, hlater⟩ := List.forall_mem_cons.mp hok
      rcases List.mem_cons.mp hh' with rfl | hh'
      · obtain ⟨s, hs, hid, hstatus⟩ := hatt.succeeded hok
        exact ⟨s, (hrest.others _ hnew).trans hs, hid, hstatus⟩
      · exact hrest.deleted hlater h' hh'

/-- Deletions one after another do nothing for the stacks that cannot be deleted, and sweep the others. If one
of these deletions overflows, it is the last. -/
theorem deleteEach_cases (b : Backend σ) (failure : Option StackError) {names : List String}
    (hm : m.Orderly) (hn : names.Nodup) :
    ((∀ result ∈ (m.sweep b m.timing.deleteRetries (names.filterMap m.deletable?)).1, Returned result) ∧
      m.deleteEach b failure names = (failure.elim
        (firstFailure (m.sweep b m.timing.deleteRetries (names.filterMap m.deletable?)).1) .error,
        (m.sweep b m.timing.deleteRetries (names.filterMap m.deletable?)).2)) ∨
    ∃ before h after, names.filterMap m.deletable? = before ++ h :: after ∧
      m.deleteEach b failure names =
        (m.sweep b m.timing.deleteRetries before).2.delete b h.name true m.timing.deleteRetries ∧
      (m.deleteEach b failure names).1 = .error .overflow ∧
      .error .overflow ∈ (m.sweep b m.timing.deleteRetries (names.filterMap m.deletable?)).1 := by
  induction names generalizing m failure with
  | nil => exact Or.inl ⟨nofun, by cases failure <;> rfl⟩
  | cons name rest ih =>
    obtain ⟨hnew, hnodup⟩ := List.nodup_cons.mp hn
    cases hd : m.deletable? name with
    | none =>
      rw [List.filterMap_cons_none hd, deleteEach_of_returned (delete_of_none hd) nofun]
      exact ih failure hm hnodup
    | some h =>
      obtain rfl := name_of_deletable hd
      rw [List.filterMap_cons_some hd]
      rcases hx : m.delete b h.name true m.timing.deleteRetries with ⟨first, m₁⟩
      by_cases hr : first = .error .overflow
      · subst hr
        rw [deleteEach_of_overflow hx, sweep_cons, hx]
        exact Or.inr ⟨[], h, _, rfl, hx.symm, rfl, List.mem_cons_self⟩
      have hafter := delete_after hm hx
      have hsteps := delete_steps b h.name true m.timing.deleteRetries m
      have htiming := (delete_undisturbed b h.name true m.timing.deleteRetries m none []).timing
      rw [hx] at hsteps htiming
      have hm₁ := hsteps.orderly hm
      have hkeep : rest.filterMap m₁.deletable? = rest.filterMap m.deletable? := by
        refine List.filterMap_congr fun other hother => ?_
        have hne : other ≠ h.name := fun he => hnew (he ▸ hother)
        exact hm.deletable?_congr hm₁ (hafter.others _ hne)
      have hrest := ih (failureAfter failure first) hm₁ hnodup
      rw [hkeep, show m₁.timing = m.timing from htiming] at hrest
      rw [deleteEach_of_returned hx hr, sweep_cons, hx]
      rcases hrest with ⟨hall, heach⟩ | ⟨before, h', after, hsplit, heach, hover, hmem⟩
      · refine Or.inl ⟨List.forall_mem_cons.mpr ⟨hr, hall⟩, ?_⟩
        rw [heach]
        cases failure <;> cases first <;> rfl
      · refine Or.inr ⟨h :: before, h', after, by rw [hsplit, List.cons_append], ?_, hover,
          List.mem_cons_of_mem _ hmem⟩
        rw [heach, sweep_cons, hx]

theorem Orderly.nodup_tracked (hm : m.Orderly) : m.tracked.Nodup :=
  hm.names.sublist (List.filter_sublist.map Stack.name)

/-- Deleting every stack sweeps all that can be deleted, unless the clock overflows in between. -/
theorem deleteAll_cases (b : Backend σ) (hm : m.Orderly) :
    ((∀ result ∈ (m.sweep b m.timing.deleteRetries m.deletable.reverse).1, Returned result) ∧
      m.deleteAll b = (firstFailure (m.sweep b m.timing.deleteRetries m.deletable.reverse).1,
        (m.sweep b m.timing.deleteRetries m.deletable.reverse).2)) ∨
    ∃ before h after, m.deletable.reverse = before ++ h :: after ∧
      m.deleteAll b =
        (m.sweep b m.timing.deleteRetries before).2.delete b h.name true m.timing.deleteRetries ∧
      (m.deleteAll b).1 = .error .overflow ∧
      .error .overflow ∈ (m.sweep b m.timing.deleteRetries m.deletable.reverse).1 := by
  have hcases := deleteEach_cases b none hm (List.nodup_reverse.mpr hm.nodup_tracked)
  rwa [List.filterMap_reverse, hm.tracked_deletable] at hcases

/-- The sweep that deletes everything meets every name once, and every stack can be deleted. -/
theorem Orderly.sweepable (hm : m.Orderly) : (m.deletable.reverse.map Handle.name).Nodup ∧
    ∀ h ∈ m.deletable.reverse, m.deletable? h.name = some h := by
  refine ⟨?_, fun h hh => hm.deletable?_of_mem_deletable (List.mem_reverse.mp hh)⟩
  rw [List.map_reverse]
  exact List.nodup_reverse.mpr hm.nodup_deletable

/-- A part of the sweep that deletes everything. -/
theorem Orderly.swept_prefix (hm : m.Orderly) (b : Backend σ) (retries : Nat) {hs : List Handle}
    (hp : hs <+: m.deletable.reverse) :
    Swept b retries hs m (m.sweep b retries hs).1 (m.sweep b retries hs).2 :=
  sweep_swept b retries hm (hm.sweepable.1.sublist (hp.sublist.map Handle.name))
    fun h hh => hm.sweepable.2 h (hp.subset hh)

/-- Deleting every stack is a sweep over the newest of those that can be deleted, and over all of them if it
comes to its end. -/
theorem Orderly.deleteAll_swept (hm : m.Orderly) (b : Backend σ) :
    ∃ hs, hs <+: m.deletable.reverse ∧ (Returned (m.deleteAll b).1 → hs = m.deletable.reverse) ∧
      Swept b m.timing.deleteRetries hs m (m.sweep b m.timing.deleteRetries hs).1 (m.deleteAll b).2 := by
  rcases deleteAll_cases b hm with ⟨-, hall⟩ | ⟨before, h, after, hsplit, hlast, hover, -⟩
  · have hswept := hm.swept_prefix b m.timing.deleteRetries (List.prefix_refl _)
    exact ⟨_, List.prefix_refl _, fun _ => rfl, by rwa [hall]⟩
  · have hpart : before ++ [h] <+: m.deletable.reverse :=
      ⟨after, by rw [hsplit, List.append_assoc, List.singleton_append]⟩
    have hswept := hm.swept_prefix b m.timing.deleteRetries hpart
    refine ⟨_, hpart, absurd hover, ?_⟩
    rwa [hlast, ← sweep_concat]

end Manager

def threeCreations : List Request :=
  [{ call := .create "one" {} ∅ .nonBlocking }, { call := .create "two" {} ∅ .nonBlocking },
    { call := .create "three" {} ∅ .nonBlocking }]

end Provision
