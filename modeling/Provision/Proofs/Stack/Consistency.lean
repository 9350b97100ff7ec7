import Provision.Proofs.Stack.Answers
import Provision.Proofs.Stack.Tracking
import Provision.Stack.Simulated

/-! Records that agree with themselves: in every run the id, the status, the history and the outputs of a
record fit together. So no operation ever finds a move refused or a record missing. -/
namespace Provision

/-- The parts of the record fit together. -/
structure Stack.Sound (s : Stack) : Prop where
  submitted : s.id.isSome = true ↔ s.status ≠ .notCreated
  moved : s.status ≠ .notCreated ↔ s.lifecycle.history ≠ []
  chained : Leads .notCreated s.lifecycle.history s.status
  outputs : .createSucceeded ∉ s.lifecycle.history.map Move.command → s.outputs = ∅

variable {σ : Type}

/-- How a call ends, and the manager after it. -/
def Call.outcome (b : Backend σ) : Call → Manager σ → Except StackError Unit × Manager σ
  | create name graph parameters options, m =>
    let (created, m) := m.create b name graph parameters options
    (created.map fun _ => (), m)
  | delete name block retries, m => m.delete b name block retries
  | deleteAll, m => m.deleteAll b
  | cancel, m => (.ok (), m.cancel)

/-- How a request ends, and the manager after it. -/
def Request.outcome (b : Backend σ) (r : Request) (m : Manager σ) : Except StackError Unit × Manager σ :=
  Manager.cancellingAfter r.cancelAfter (r.call.outcome b) { m with clock := m.clock + r.idle }

namespace Manager
variable {b : Backend σ} {m m' : Manager σ}

theorem Ended.map {α β : Type} {result : Except StackError α} (h : Ended b m result m') (f : α → β) :
    Ended b m (result.map f) m' := by
  cases result with
  | ok a => exact .of_ok h.faithful h.log
  | error e => exact h.error

theorem Faithful.sound (hm : m.Faithful) {s : Stack} (hs : s ∈ m.records) : s.Sound := by
  rw [hm.records] at hs
  have hlookup := Stack.lookup_of_mem (nodup_replay m.log) hs
  have hfollows := hm.lawful.follows hlookup
  exact ⟨hm.lawful.id_iff hlookup, hfollows.chained.status_ne_iff, hfollows.chained, hfollows.outputs⟩

/-- The rest of the manager does not depend on what the operation returns. -/
theorem cancellingAfter_snd {α β : Type} {act : Manager σ → α × Manager σ}
    {act' : Manager σ → β × Manager σ} (h : ∀ m, (act m).2 = (act' m).2) (delay : Option Nat)
    (m : Manager σ) : (cancellingAfter delay act m).2 = (cancellingAfter delay act' m).2 := by
  unfold cancellingAfter
  cases delay with
  | none => exact h m
  | some d =>
    dsimp only
    split
    · exact h m
    · rw [h]

end Manager

theorem Call.outcome_snd (b : Backend σ) (call : Call) (m : Manager σ) :
    (call.outcome b m).2 = call.perform b m := by
  cases call <;> rfl

theorem Request.outcome_snd (b : Backend σ) (r : Request) (m : Manager σ) :
    (r.outcome b m).2 = r.serve b m :=
  Manager.cancellingAfter_snd (r.call.outcome_snd b) _ _

namespace Manager
variable {b : Backend σ} {m m' : Manager σ}

theorem log_cancel (m : Manager σ) : m.cancel.log = m.log := by
  unfold cancel
  split <;> rfl

theorem outcome_ended (hb : b.EchoesNames) (hm : m.Faithful) (call : Call) :
    Ended b m (call.outcome b m).1 (call.outcome b m).2 := by
  cases call with
  | create name graph parameters options => exact (create_ended hb hm name graph parameters rfl).map _
  | delete name block retries => exact delete_ended hm rfl
  | deleteAll => exact deleteAll_ended hm rfl
  | cancel => exact .of_ok (cancel_faithful hm) (log_cancel m ▸ List.suffix_refl _)

theorem request_ended (hb : b.EchoesNames) (hm : m.Faithful) (r : Request) :
    Ended b m (r.outcome b m).1 (r.outcome b m).2 := by
  refine cancellingAfter_induction (motive := fun x => Ended b m x.1 x.2) r.cancelAfter _ (fun c => ?_)
    fun _ _ _ h => ⟨h.faithful.of_same rfl rfl, h.log, h.accounted⟩
  have hm₁ : ({ m with clock := m.clock + r.idle, cancelAt := c } : Manager σ).Faithful :=
    hm.of_same rfl rfl
  have hend := outcome_ended hb hm₁ r.call
  exact ⟨hend.faithful, hend.log, hend.accounted⟩

/-- In every run the names of the records differ and every record is sound. No request that follows ends
with a refused move, nor with a record that is missing unless the backend said just that. -/
theorem records_sound (hb : b.EchoesNames) (hp : b.FailsPlainly) {start : Manager σ}
    (hr : start.records = []) (hl : start.log = []) {requests : List Request}
    (hm : start.run b requests = m) :
    (m.records.map Stack.name).Nodup ∧ (∀ s ∈ m.records, s.Sound) ∧
    ∀ (r : Request) (e : StackError), (r.outcome b m).1 = .error e →
      (∀ refusal, e ≠ .lifecycle refusal) ∧
      ∀ name, e = .backend ("stack '" ++ name ++ "' is not tracked") →
        e.ToldBetween m.log (r.serve b m).log := by
  have hfaithful : m.Faithful := hm ▸ run_faithful hb (faithful_of_fresh hr hl) requests
  refine ⟨hfaithful.records ▸ nodup_replay m.log, fun s hs => hfaithful.sound hs, fun r e he => ?_⟩
  have haccounted := (request_ended hb hfaithful r).accounted e he
  rw [r.outcome_snd] at haccounted
  rcases haccounted with hown | rfl | ⟨hmay, htold⟩
  · exact ⟨hown.ne_lifecycle, fun name hname => absurd hname (hown.ne_untracked name)⟩
  · exact ⟨fun _ => nofun, fun _ => nofun⟩
  · obtain ⟨message, rfl⟩ := hp e hmay
    exact ⟨fun _ => nofun, fun _ _ => htold⟩

end Manager

namespace Simulation

theorem echoesNames : backend.EchoesNames := by
  intro now name graph parameters s h hh
  cases hh
  rfl

theorem failsPlainly : backend.FailsPlainly := by
  rintro e (hf | hf | hf | hf)
  · cases hf
  · next now h s =>
    change (s.status h).1.result = .error e at hf
    unfold status at hf
    dsimp only at hf
    split at hf
    · cases hf
    · cases hf
      exact ⟨_, rfl⟩
  · next now h s =>
    change (s.outputs h).1.result = .error e at hf
    unfold outputs at hf
    split at hf
    · cases hf
    · cases hf
      exact ⟨_, rfl⟩
  · next now h s =>
    change (s.delete h).1.result = .error e at hf
    unfold delete at hf
    dsimp only at hf
    split at hf
    · cases hf
    · split at hf
      · cases hf
      · cases hf
        exact ⟨_, rfl⟩

end Simulation

/-- A backend where every creation fails, and the first deletions are refused. -/
def failingManager : Manager Simulation where
  timing := {}
  backend := { createScript := [{ status := "CREATE_FAILED", reason := some "quota" }], refusals := 2 }

def failingRequests : List Request :=
  [{ call := .create "demo" {} ∅ (.blocking (10 * Timer.tick)) },
    { call := .delete "demo" true 1, idle := 5, cancelAfter := some Timer.tick }]

theorem Manager.records_sound_sample : ∃ m : Manager Simulation,
    failingManager.run Simulation.backend failingRequests = m ∧
    (m.records.map Stack.name).Nodup ∧
    (∃ s ∈ m.records, s.status = .createFailed ∧ s.Sound) ∧
    ∃ e, (Request.outcome Simulation.backend { call := .delete "demo" false 1 } m).1 = .error e ∧
      (∀ refusal, e ≠ .lifecycle refusal) ∧
      ∀ name, e = .backend ("stack '" ++ name ++ "' is not tracked") →
        e.ToldBetween m.log
          (Request.serve Simulation.backend { call := .delete "demo" false 1 } m).log := by
  obtain ⟨hnames, hsound, herrors⟩ := records_sound Simulation.echoesNames Simulation.failsPlainly
    (rfl : failingManager.records = []) rfl
    (rfl : failingManager.run Simulation.backend failingRequests = _)
  refine ⟨_, rfl, hnames, ⟨_, List.mem_cons_self, rfl, hsound _ List.mem_cons_self⟩, _, rfl, ?_⟩
  exact herrors { call := .delete "demo" false 1 } _ rfl

end Provision
