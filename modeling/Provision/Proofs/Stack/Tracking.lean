import Provision.Proofs.Stack.Orderly
import Provision.Stack.Scripted

/-! Runs of a manager: any calls, one after another, with any pauses between them, each of which may be
cancelled while it runs. Records stay in order in every run, and in step with the log if the backend answers
with handles of the names that are submitted. Then a stack that was submitted stays in the records, under its
id and out of reach of another creation, until its deletion is reported. -/
namespace Provision

open Stack (lookup)

/-- What can be asked of a manager. -/
inductive Call
  | create (name : String) (graph : Graph) (parameters : SortedMap String) (options : CreateOptions)
  | delete (name : String) (block : Bool) (retries : Nat)
  | deleteAll
  | cancel

/-- A call that is made some time after the one before it, and perhaps cancelled while it runs. -/
structure Request where
  call : Call
  idle : Nat := 0
  cancelAfter : Option Nat := none

variable {σ : Type}

/-- The manager after a call that ran to its end. -/
def Call.perform (b : Backend σ) : Call → Manager σ → Manager σ
  | create name graph parameters options, m => (m.create b name graph parameters options).2
  | delete name block retries, m => (m.delete b name block retries).2
  | deleteAll, m => (m.deleteAll b).2
  | cancel, m => m.cancel

def Request.serve (b : Backend σ) (r : Request) (m : Manager σ) : Manager σ :=
  (Manager.cancellingAfter r.cancelAfter (fun m => ((), r.call.perform b m))
    { m with clock := m.clock + r.idle }).2

namespace Manager
variable {b : Backend σ} {m m' : Manager σ} {h : Handle} {name : String}

/-- The manager after the requests, one served after another. -/
def run (b : Backend σ) (requests : List Request) (m : Manager σ) : Manager σ :=
  requests.foldl (fun m r => r.serve b m) m

theorem faithful_of_fresh (hr : m.records = []) (hl : m.log = []) : m.Faithful := by
  refine ⟨?_, ?_⟩
  · rw [hr, hl]
    rfl
  · rw [hl]
    trivial

theorem cancel_faithful (hm : m.Faithful) : m.cancel.Faithful := by
  unfold cancel
  split
  · exact hm
  · exact hm.of_same rfl rfl

/-- What an operation does whenever it is cancelled holds if it is cancelled after a delay. -/
theorem cancellingAfter_induction {α : Type} {act : Manager σ → α × Manager σ}
    {motive : α × Manager σ → Prop} (delay : Option Nat) (m : Manager σ)
    (hact : ∀ c, motive (act { m with cancelAt := c }))
    (hkeep : ∀ a m' c, motive (a, m') → motive (a, { m' with cancelAt := c })) :
    motive (cancellingAfter delay act m) := by
  unfold cancellingAfter
  cases delay with
  | none => exact hact m.cancelAt
  | some d =>
    dsimp only
    split
    · exact hact m.cancelAt
    · have hend := hact (some (m.clock + Timer.span d))
      split
      · exact hend
      · exact hkeep _ _ _ hend

theorem perform_faithful (hb : b.EchoesNames) (hm : m.Faithful) (call : Call) :
    (call.perform b m).Faithful := by
  cases call with
  | create name graph parameters options => exact (create_ended hb hm name graph parameters rfl).faithful
  | delete name block retries => exact (delete_ended hm rfl).faithful
  | deleteAll => exact (deleteAll_ended hm rfl).faithful
  | cancel => exact cancel_faithful hm

theorem serve_faithful (hb : b.EchoesNames) (hm : m.Faithful) (r : Request) :
    (r.serve b m).Faithful := by
  refine cancellingAfter_induction (motive := fun x => x.2.Faithful) r.cancelAfter _ (fun c => ?_)
    fun _ _ _ hm' => hm'.of_same rfl rfl
  have hm₁ : ({ m with clock := m.clock + r.idle, cancelAt := c } : Manager σ).Faithful :=
    hm.of_same rfl rfl
  exact perform_faithful hb hm₁ r.call

theorem run_faithful (hb : b.EchoesNames) (hm : m.Faithful) (requests : List Request) :
    (m.run b requests).Faithful := by
  induction requests generalizing m with
  | nil => exact hm
  | cons r rest ih => exact ih (serve_faithful hb hm r)

/-! The steps of a run. -/

theorem perform_steps (b : Backend σ) (call : Call) (m : Manager σ) : Steps m (call.perform b m) := by
  cases call with
  | create name graph parameters options => exact create_steps b name graph parameters options m
  | delete name block retries => exact delete_steps b name block retries m
  | deleteAll => exact deleteEach_steps b none _ m
  | cancel =>
    rw [Call.perform, cancel]
    split
    · exact .refl m
    · exact .of_same rfl rfl

theorem serve_steps (b : Backend σ) (r : Request) (m : Manager σ) : Steps m (r.serve b m) := by
  refine cancellingAfter_induction (motive := fun x => Steps m x.2) r.cancelAfter _ (fun c => ?_)
    fun _ _ _ hm' => hm'.trans (.of_same rfl rfl)
  have hidle : Steps m { m with clock := m.clock + r.idle, cancelAt := c } := .of_same rfl rfl
  exact hidle.trans (perform_steps b r.call _)

theorem run_steps (b : Backend σ) (requests : List Request) (m : Manager σ) :
    Steps m (m.run b requests) := by
  induction requests generalizing m with
  | nil => exact .refl m
  | cons r rest ih => exact (serve_steps b r m).trans (ih _)

/-- In a run that starts without records they are always in order. -/
theorem run_orderly {start : Manager σ} (hr : start.records = []) {requests : List Request}
    (hm : start.run b requests = m) : m.Orderly :=
  hm ▸ (run_steps b requests start).orderly ⟨hr ▸ List.nodup_nil, hr ▸ nofun⟩

/-! What a live stack is to those who ask for it. -/

theorem mem_tracked_of_live (hl : h.LiveIn m.records) : h.name ∈ m.tracked := by
  obtain ⟨status, hlive, s, hs, -, rfl⟩ := hl
  refine List.mem_map.mpr ⟨s, List.mem_filter.mpr ⟨List.mem_of_find?_eq_some hs, ?_⟩,
    Stack.name_of_lookup hs⟩
  simpa using hlive.2

theorem create_of_live (hl : h.LiveIn m.records) (g : Graph) (p : SortedMap String)
    (options : CreateOptions) :
    m.create b h.name g p options = (.error (.alreadyExists h.name), m) := by
  obtain ⟨status, hlive, s, hs, -, rfl⟩ := hl
  have hr : m.register h.name = .error (.alreadyExists h.name) := by
    unfold register
    rw [find?_eq_lookup, hs]
    exact if_neg (not_or.mpr hlive)
  rw [create, hr]

theorem deletable_of_live (hl : h.LiveIn m.records) : m.deletable? h.name = some h := by
  obtain ⟨status, hlive, s, hs, hid, rfl⟩ := hl
  have hfound : m.records.find? (fun s => s.name == h.name && s.status ≠ .deleteComplete) = some s := by
    obtain ⟨hname, before, after, hsplit, hbefore⟩ := List.find?_eq_some_iff_append.mp hs
    refine List.find?_eq_some_iff_append.mpr ⟨?_, before, after, hsplit, fun a ha => ?_⟩
    · simpa using ⟨by simpa using hname, hlive.2⟩
    · have := hbefore a ha
      simp_all
  rw [deletable?, hfound, Option.bind_some, Stack.handle?, hid, Option.map_some,
    Stack.name_of_lookup hs]

/-- A deletion of a live stack asks the backend first of all. -/
theorem delete_requests (hm : m.Orderly) (hl : h.LiveIn m.records) (block : Bool) (retries : Nat) :
    ∃ answer, (⟨m.clock, .delete h answer⟩ :: m.log) <:+ (m.delete b h.name block retries).2.log := by
  obtain ⟨-, -, hrequested⟩ := delete_attempted (b := b) hm (deletable_of_live hl) rfl
  exact hrequested

/-- Among deletions one after another there is one of every live stack whose turn comes. -/
theorem deleteEach_requests {failure : Option StackError} {names : List String} (hm : m.Orderly)
    (hl : h.LiveIn m.records) (hn : h.name ∈ names) (hr : Returned (m.deleteEach b failure names).1) :
    ∃ time answer older, m.log <:+ older ∧
      (⟨time, .delete h answer⟩ :: older) <:+ (m.deleteEach b failure names).2.log := by
  induction names generalizing m failure with
  | nil => cases hn
  | cons name rest ih =>
    rcases hd : m.delete b name true m.timing.deleteRetries with ⟨first, m₁⟩
    have hfirst : Returned first := by
      rintro rfl
      exact hr (congrArg Prod.fst (deleteEach_of_overflow hd))
    have hsteps := delete_steps b name true m.timing.deleteRetries m
    rw [hd] at hsteps
    have hm₁ := hsteps.orderly hm
    have hafter := delete_after hm hd
    rw [deleteEach_of_returned hd hfirst] at hr ⊢
    by_cases hname : h.name = name
    · subst hname
      obtain ⟨answer, hlog⟩ := delete_requests (b := b) hm hl true m.timing.deleteRetries
      rw [hd] at hlog
      exact ⟨m.clock, answer, m.log, List.suffix_refl _, hlog.trans (deleteEach_steps b _ rest m₁).log⟩
    · obtain ⟨status, hlive, hheld⟩ := hl
      obtain ⟨time, answer, older, holder, hlog⟩ := ih hm₁
        ⟨status, hlive, hafter.heldIn hname hheld⟩ ((List.mem_cons.mp hn).resolve_left hname) hr
      exact ⟨time, answer, older, hafter.log.trans holder, hlog⟩

/-- No stack that was submitted is lost. As long as no wait was told that the stack is deleted, the record
of its name holds its id, the name is tracked and cannot be taken again, and every deletion asks the
backend for this stack, if it comes to its end. -/
theorem submitted_stack_kept (hb : b.EchoesNames) {start : Manager σ} (hr : start.records = [])
    (hl : start.log = []) {requests : List Request} (hm : start.run b requests = m)
    {newer older : List LogEntry} {time : Nat} {g : Graph} {p : SortedMap String}
    (hlog : m.log = newer ++ ⟨time, .submit name g p (some (.ok h))⟩ :: older)
    (hd : ∀ entry ∈ newer, ¬ entry.event.ReportsDeletion h) :
    (∃ s, m.find? name = some s ∧ s.id = some h.id) ∧ name ∈ m.tracked ∧
    (∀ graph parameters options,
      m.create b name graph parameters options = (.error (.alreadyExists name), m)) ∧
    (∀ block retries, ∃ answer,
      (⟨m.clock, .delete h answer⟩ :: m.log) <:+ (m.delete b name block retries).2.log) ∧
    (Returned (m.deleteAll b).1 → ∃ time answer before, m.log <:+ before ∧
      (⟨time, .delete h answer⟩ :: before) <:+ (m.deleteAll b).2.log) := by
  have hfaithful : m.Faithful := hm ▸ run_faithful hb (faithful_of_fresh hr hl) requests
  obtain ⟨rfl, hlive⟩ := (hlog ▸ hfaithful.lawful).liveIn hd
  rw [← hlog, ← hfaithful.records] at hlive
  have htracked := mem_tracked_of_live hlive
  refine ⟨?_, htracked, create_of_live hlive, delete_requests hfaithful.orderly hlive,
    deleteEach_requests hfaithful.orderly hlive (List.mem_reverse.mpr htracked)⟩
  obtain ⟨-, -, s, hs, hid, -⟩ := hlive
  exact ⟨s, hs, hid⟩

end Manager

theorem Script.echoesNames : Script.backend.EchoesNames := by
  intro now name graph parameters s h hh
  obtain ⟨id, -, rfl⟩ := Checks.map_ok hh
  rfl

/-- A creation whose first poll fails, and a deletion that is refused. -/
def sampleScript : Script where
  submits := [(.ok "id-1", 3 * Timer.tick)]
  statuses := [.error (.backend "down")]
  outputs := []
  deletes := [.ok false]

def sampleRequests : List Request :=
  [{ call := .create "demo" {} ∅ (.blocking (10 * Timer.tick)), cancelAfter := some (50 * Timer.tick) },
    { call := .cancel, idle := 7 },
    { call := .delete "demo" true 1 }]

theorem Manager.submitted_stack_kept_sample : ∃ m : Manager Script,
    run Script.backend sampleRequests { timing := {}, backend := sampleScript } = m ∧
    (∃ s, m.find? "demo" = some s ∧ s.id = some "id-1") ∧ "demo" ∈ m.tracked ∧
    (∀ graph parameters options,
      m.create Script.backend "demo" graph parameters options = (.error (.alreadyExists "demo"), m)) ∧
    (∀ block retries, ∃ answer, (⟨m.clock, .delete ⟨"id-1", "demo"⟩ answer⟩ :: m.log) <:+
      (m.delete Script.backend "demo" block retries).2.log) ∧
    (Returned (m.deleteAll Script.backend).1 → ∃ time answer before, m.log <:+ before ∧
      (⟨time, .delete ⟨"id-1", "demo"⟩ answer⟩ :: before) <:+ (m.deleteAll Script.backend).2.log) := by
  have hlog : (run Script.backend sampleRequests { timing := {}, backend := sampleScript }).log =
      [⟨10, .delete ⟨"id-1", "demo"⟩ (.ok false)⟩,
        ⟨3, .status ⟨"id-1", "demo"⟩ (some .create) (.error (.backend "down"))⟩] ++
      ⟨0, .submit "demo" {} ∅ (some (.ok ⟨"id-1", "demo"⟩))⟩ :: [⟨0, .registered "demo"⟩] := rfl
  refine ⟨_, rfl, submitted_stack_kept Script.echoesNames rfl rfl rfl hlog ?_⟩
  rintro entry hentry ⟨r, hr, -⟩
  rcases List.mem_cons.mp hentry with rfl | hentry
  · cases hr
  · obtain rfl := List.mem_singleton.mp hentry
    cases hr

end Provision
