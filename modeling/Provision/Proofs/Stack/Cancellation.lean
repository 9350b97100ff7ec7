import Provision.Proofs.Stack.Consistency
import Provision.Proofs.Stack.Undisturbed

/-! Cancellation stops creation and nothing else. A manager that is cancelled stays so: it refuses every
creation at once and calls the backend only to delete, and the deletions take the course they would take
otherwise. A creation that is cancelled in its sleep ends there, and leaves a stack that can be deleted. -/
namespace Provision

open Stack (lookup)

namespace Manager
variable {σ : Type} {b : Backend σ} {m m' m'' : Manager σ} {h : Handle} {name : String} {c : Nat}

/-- The second manager comes after the first, which is cancelled: records were made, and the backend was
called to delete. -/
structure Stopped (m m' : Manager σ) : Prop where
  cancelAt : m'.cancelAt = m.cancelAt
  clock : m.clock ≤ m'.clock
  log : ∃ recent, m'.log = recent ++ m.log ∧
    ∀ entry ∈ recent, entry.event.isRegistration = true ∨ ∃ h, entry.event.Deletes h

namespace Stopped

theorem refl (m : Manager σ) : Stopped m m := ⟨rfl, Nat.le_refl _, [], rfl, nofun⟩

theorem idle (m : Manager σ) (time : Nat) : Stopped m { m with clock := m.clock + time } :=
  ⟨rfl, Nat.le_add_right .., [], rfl, nofun⟩

theorem trans (h₁ : Stopped m m') (h₂ : Stopped m' m'') : Stopped m m'' := by
  obtain ⟨recent₁, hlog₁, hcalls₁⟩ := h₁.log
  obtain ⟨recent₂, hlog₂, hcalls₂⟩ := h₂.log
  refine ⟨h₂.cancelAt.trans h₁.cancelAt, h₁.clock.trans h₂.clock, recent₂ ++ recent₁, ?_, fun entry he => ?_⟩
  · rw [hlog₂, hlog₁, List.append_assoc]
  · rcases List.mem_append.mp he with he | he
    · exact hcalls₂ entry he
    · exact hcalls₁ entry he

end Stopped

theorem pause_true {duration : Nat} (hp : m.pause duration = (true, m')) : m' = m.sleep duration := by
  rw [pause_eq] at hp
  split at hp <;> cases hp
  rfl

theorem pause_of_cancelAt {duration : Nat} (hat : m.cancelAt = some c) (hc : m.clock ≤ c)
    (hd : c < m.clock + Timer.span duration) : m.pause duration = (false, { m with clock := c }) := by
  rw [pause_eq, hat, Option.filter_some_pos (by simp [hd])]
  dsimp only
  rw [Nat.max_eq_right hc]

/-- A wait for a creation that goes on from one poll to a later one: no answer decides, and every sleep
comes to its end. -/
inductive WaitsOn (b : Backend σ) (h : Handle) (deadline : Nat) : Manager σ → Manager σ → Prop
  | here (m : Manager σ) : WaitsOn b h deadline m m
  | next {m m₁ m₂ m' : Manager σ} {report : Report}
      (asked : m.askStatus b h (some .create) = (.ok report, m₁))
      (pending : report.createVerdict = .pending) (early : m₁.now < deadline)
      (slept : m₁.pause (min m₁.timing.pollInterval (deadline - m₁.now)) = (true, m₂))
      (rest : WaitsOn b h deadline m₂ m') : WaitsOn b h deadline m m'

/-- A creation that is asleep between two polls. It has registered and submitted its stack, the first
manager is the one at its start and the second the one that fell asleep, to wake at the given time. -/
inductive Asleep (b : Backend σ) (name : String) (g : Graph) (p : SortedMap String) (timeout : Nat)
    (h : Handle) (m m' : Manager σ) (wake : Nat) : Prop
  | intro {m₁ m₂ m₃ m₄ : Manager σ} {deadline : Nat} {report : Report}
      (registered : m.register name = .ok m₁)
      (submitted : m₁.askSubmit b name g p = (some (.ok h), m₂))
      (recorded : m₂.update name (Stack.submitted h.id) = (.ok (), m₃))
      (begun : m₃.deadline? timeout = some deadline)
      (waited : WaitsOn b h deadline m₃ m₄)
      (asked : m₄.askStatus b h (some .create) = (.ok report, m'))
      (pending : report.createVerdict = .pending) (early : m'.now < deadline)
      (wakes : wake = m'.clock + Timer.span (min m'.timing.pollInterval (deadline - m'.now)))

/-- What the polls and sleeps of a wait leave as it was. -/
structure Waiting (m m' : Manager σ) : Prop where
  records : m'.records = m.records
  timing : m'.timing = m.timing
  cancelAt : m'.cancelAt = m.cancelAt
  clock : m.clock ≤ m'.clock

theorem Waiting.poll {report : Report} (hask : m.askStatus b h (some .create) = (.ok report, m')) :
    Waiting m m' := by
  obtain ⟨answer, s, took, hcalled, -⟩ := m.askStatus_eq b h (some .create)
  obtain ⟨-, rfl⟩ := Prod.mk.inj (hask.symm.trans hcalled)
  exact ⟨rfl, rfl, rfl, Nat.le_add_right ..⟩

theorem Waiting.trans (h₁ : Waiting m m') (h₂ : Waiting m' m'') : Waiting m m'' :=
  ⟨h₂.records.trans h₁.records, h₂.timing.trans h₁.timing, h₂.cancelAt.trans h₁.cancelAt,
    h₁.clock.trans h₂.clock⟩

theorem WaitsOn.waiting {deadline : Nat} (hw : WaitsOn b h deadline m m') : Waiting m m' := by
  induction hw with
  | here m => exact ⟨rfl, rfl, rfl, Nat.le_refl _⟩
  | @next m m₁ m₂ m' report asked pending early slept rest ih =>
    obtain rfl := pause_true slept
    have hslept : Waiting m₁ (m₁.sleep (min m₁.timing.pollInterval (deadline - m₁.now))) :=
      ⟨rfl, rfl, rfl, Nat.le_add_right ..⟩
    exact (Waiting.poll asked).trans (hslept.trans ih)

/-- As long as a wait goes on it has polls left: the sleeps that are left to it reach the deadline. -/
theorem WaitsOn.await {deadline polls : Nat} (hw : WaitsOn b h deadline m m') (timeout : Nat)
    (hleft : Timer.ticks deadline ≤ m.clock + polls * Timer.span m.timing.pollInterval) :
    ∃ polls', awaitCreation b h timeout deadline (polls + 1) m =
      awaitCreation b h timeout deadline (polls' + 1) m' := by
  induction hw generalizing polls with
  | here m => exact ⟨polls, rfl⟩
  | @next m m₁ m₂ m' report asked pending early slept rest ih =>
    have hpoll := Waiting.poll asked
    obtain ⟨left, rfl, hreaches⟩ := sleep_reaches hpoll.clock early hleft
    rw [awaitCreation, asked]
    dsimp only
    rw [pending]
    dsimp only
    rw [if_neg (Nat.not_le.mpr early), slept]
    obtain rfl := pause_true slept
    refine ih ?_
    change Timer.ticks deadline ≤ m₁.clock + Timer.span (min m₁.timing.pollInterval (deadline - m₁.now)) +
      left * Timer.span m₁.timing.pollInterval
    rw [hpoll.timing]
    exact hreaches

/-- The wait of a creation has polls enough to reach its deadline. -/
theorem WaitsOn.waitForCreation {timeout deadline : Nat} (hw : WaitsOn b h deadline m m')
    (hd : m.deadline? timeout = some deadline) (hi : m.timing.pollInterval ≠ 0) :
    ∃ polls, m.waitForCreation b h timeout = awaitCreation b h timeout deadline (polls + 1) m' := by
  obtain ⟨polls, hlimit, hleft⟩ := pollLimit_reaches hi timeout
  obtain ⟨polls', hawait⟩ := hw.await timeout (ticks_deadline hd ▸ Nat.add_le_add_left hleft m.clock)
  refine ⟨polls', ?_⟩
  rw [Manager.waitForCreation, hd, hlimit]
  exact hawait

/-- A submission that was answered is recorded under the name that was submitted, in a manager that is
cancelled when it would have been. -/
theorem held_of_submitted {g : Graph} {p : SortedMap String} {m₁ m₂ m₃ : Manager σ}
    (registered : m.register name = .ok m₁)
    (submitted : m₁.askSubmit b name g p = (some (.ok h), m₂))
    (recorded : m₂.update name (Stack.submitted h.id) = (.ok (), m₃)) :
    (⟨h.id, name⟩ : Handle).HeldIn m₃.records .creating ∧ Steps m m₃ ∧ m₃.cancelAt = m.cancelAt := by
  have hnew : lookup name m₁.records = some { name } ∧ m₁.cancelAt = m.cancelAt := by
    obtain ⟨-, -, -, he⟩ | ⟨-, hr⟩ := m.register_cases name
    · cases registered.symm.trans he
    · cases registered.symm.trans hr
      exact ⟨Stack.lookup_renew name _, rfl⟩
  have hasked := m₁.askSubmit_same b name g p
  have hsteps := (Steps.of_register registered).trans (askSubmit_steps b name g p m₁)
  rw [submitted] at hasked hsteps
  have hupdated := cancelAt_update name (Stack.submitted h.id) m₂
  have hlast := Steps.of_update (Stack.regular_submitted h.id) name m₂
  rw [recorded] at hupdated hlast
  obtain ⟨hok, hid, hstatus⟩ := Stack.submitted_ok h.id (s := { name }) rfl
  rw [update_eq (hasked.records ▸ hnew.1)] at recorded
  obtain ⟨-, rfl⟩ := Prod.mk.inj recorded
  refine ⟨⟨_, ?_, hid, hstatus⟩, hsteps.trans hlast, hupdated.trans (hasked.cancelAt.trans hnew.2)⟩
  rw [Stack.lookup_change (fun s hs => ((Stack.regular_submitted h.id).name s).trans hs), hasked.records,
    hnew.1]
  rfl

/-- A creation that is cancelled in its sleep ends there and then. -/
theorem Asleep.interrupted {g : Graph} {p : SortedMap String} {timeout wake : Nat}
    (ha : Asleep b name g p timeout h m m' wake) (hat : m.cancelAt = some c)
    (hc : m'.clock ≤ c) (hw : c < wake) : (⟨h.id, name⟩ : Handle).HeldIn m'.records .creating ∧
      (m.Orderly → m'.Orderly) ∧
      m.create b name g p (.blocking timeout) = (.error (.interrupted h.name), { m' with clock := c }) := by
  obtain @⟨m₁, m₂, m₃, m₄, deadline, report, registered, submitted, recorded, begun, waited, asked, pending,
    early, rfl⟩ := ha
  obtain ⟨hheld, hsteps, hcancelAt⟩ := held_of_submitted registered submitted recorded
  have hwaited := waited.waiting.trans (Waiting.poll asked)
  have hat' : m'.cancelAt = some c := by rw [hwaited.cancelAt, hcancelAt, hat]
  have hinterval : m₃.timing.pollInterval ≠ 0 := by
    intro hzero
    rw [hwaited.timing, hzero, Nat.zero_min] at hw
    exact Nat.not_lt.mpr hc hw
  obtain ⟨polls, hwait⟩ := waited.waitForCreation begun hinterval
  refine ⟨hwaited.records ▸ hheld,
    fun hm => ⟨hwaited.records ▸ (hsteps.orderly hm).names, hwaited.records ▸ (hsteps.orderly hm).submitted⟩, ?_⟩
  rw [create, registered]
  dsimp only
  rw [submitted]
  dsimp only
  rw [finishCreation, recorded]
  dsimp only
  rw [hwait, awaitCreation, asked]
  dsimp only
  rw [pending]
  dsimp only
  rw [if_neg (Nat.not_le.mpr early), pause_of_cancelAt hat' hc hw]

end Manager

/-- A stack that is still being created whenever it is asked about. -/
def slowScript : Script where
  submits := [(.ok "id-1", 0)]
  statuses := [.ok { status := "CREATING" }]
  outputs := []
  deletes := [.ok true]

end Provision
