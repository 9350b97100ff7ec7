import Provision.Proofs.Stack.CreationSteps

/-! Two creations of one name at a time, in any order of their steps. Registration refuses a name only once
the other creation has recorded its id, so the backend accepts two submissions if and only if both creations
are between registration and record at one moment. -/
namespace Provision

open Stack (lookup)

variable {σ : Type} {b : Backend σ} {name : String} {h : Handle}

@[simp] theorem Caller.other_other (c : Caller) : c.other.other = c := by
  cases c <;> rfl

theorem Caller.other_ne (c : Caller) : c.other ≠ c := by
  cases c <;> decide

theorem Caller.eq_or_other (c d : Caller) : d = c ∨ d = c.other := by
  cases c <;> cases d <;> decide

namespace Race
variable {creation : Caller → Creation} {r : Race σ} {turn : Turn}

/-- The creations have not met: one of them has not registered, or was refused because the other has
recorded its id. -/
inductive Apart (name : String) (r : Race σ) : Prop
  | free (stages : ∀ c, r.stage c = .called)
      (absent : ∀ s, r.manager.find? name = some s → ¬ s.status.Live)
  | begun (c : Caller) (begun : Creation.Begun name (r.stage c, r.manager))
      (other : r.stage c.other = .called)
  | recorded (c : Caller) (h : Handle) (recorded : Creation.Recorded name h (r.stage c, r.manager))
      (other : r.stage c.other = .called ∨ r.stage c.other = .refused (.alreadyExists name))

/-- The creations have met: both have made their records. -/
def Met (name : String) (r : Race σ) : Prop := ∀ c, Creation.Entered name (r.stage c)

/-- The one whose turn it is makes a step. Only the clock may have moved since the turn before. -/
theorem step_self (b : Backend σ) (name : String) (creation : Caller → Creation) (r : Race σ) (turn : Turn) :
    ∃ m, m.records = r.manager.records ∧ m.cancelAt = r.manager.cancelAt ∧
      ((r.step b name creation turn).stage turn.caller, (r.step b name creation turn).manager) =
        (creation turn.caller).step b name (r.stage turn.caller) m :=
  ⟨{ r.manager with clock := r.manager.clock + turn.idle }, rfl, rfl, Prod.ext (if_pos rfl) rfl⟩

/-- The other does nothing. -/
theorem stage_step_other (b : Backend σ) (name : String) (creation : Caller → Creation) (r : Race σ)
    (turn : Turn) : (r.step b name creation turn).stage turn.caller.other = r.stage turn.caller.other :=
  if_neg turn.caller.other_ne

/-- Someone who has only been called registers, unless the stack is live. -/
theorem step_called (b : Backend σ) (name : String) (creation : Caller → Creation)
    (hs : r.stage turn.caller = .called) :
    (∃ s, r.manager.find? name = some s ∧ s.status.Live ∧
      (r.step b name creation turn).stage turn.caller = .refused (.alreadyExists name) ∧
      (r.step b name creation turn).manager.records = r.manager.records ∧
      (r.step b name creation turn).manager.cancelAt = r.manager.cancelAt) ∨
    (∀ s, r.manager.find? name = some s → ¬ s.status.Live) ∧
      (r.step b name creation turn).stage turn.caller = .registered ∧
      (r.step b name creation turn).manager.find? name = some { name } ∧
      (r.step b name creation turn).manager.cancelAt = r.manager.cancelAt := by
  obtain ⟨m, hrecords, hc, hstep⟩ := step_self b name creation r turn
  have hfind : m.find? name = r.manager.find? name := congrArg (lookup name) hrecords
  rw [hs, Creation.step] at hstep
  rcases m.register_cases name with ⟨s, hs, hlive, hr⟩ | ⟨hfree, hr⟩ <;> rw [hr] at hstep <;>
    obtain ⟨hstage, hmanager⟩ := Prod.mk.inj hstep <;> rw [hstage, hmanager]
  · exact Or.inl ⟨s, hfind.symm.trans hs, hlive, rfl, hrecords, hc⟩
  · exact Or.inr ⟨hfind ▸ hfree, rfl, Stack.lookup_renew name _, hc⟩

/-- Both have made their records, and have not recorded their ids. -/
def BothUnderWay (r : Race σ) : Prop := ∀ c, (r.stage c).underWay = true

/-- What holds of both holds of the one whose turn it is and of the other. -/
theorem forall_caller (turn : Turn) {P : Caller → Prop} (hself : P turn.caller)
    (hother : P turn.caller.other) (c : Caller) : P c := by
  rcases turn.caller.eq_or_other c with rfl | rfl
  · exact hself
  · exact hother

/-- Two creations that have not met stay apart, unless the one registers while the other is under way. -/
theorem Apart.step (hb : b.AcceptsAll) (hc : r.manager.cancelAt = none) (ha : Apart name r)
    (creation : Caller → Creation) (turn : Turn) :
    (r.step b name creation turn).manager.cancelAt = none ∧ (Apart name (r.step b name creation turn) ∨
      Met name (r.step b name creation turn) ∧ BothUnderWay (r.step b name creation turn)) := by
  have hother := stage_step_other b name creation r turn
  obtain ⟨m, hrecords, hcm, hself⟩ := step_self b name creation r turn
  rw [hc] at hcm
  cases ha with
  | free stages absent =>
    rcases step_called b name creation (stages turn.caller) with ⟨s, hs, hlive, -⟩ | ⟨-, hstage, hnew, hc'⟩
    · exact absurd hlive (absent s hs)
    · refine ⟨hc'.trans hc, Or.inl (.begun turn.caller ?_ (hother.trans (stages _)))⟩
      rw [hstage]
      exact ⟨rfl, .registered, { name }, hnew, rfl⟩
  | begun c begun other =>
    rcases c.eq_or_other turn.caller with rfl | hturn
    · have hbegun := begun.of_records hrecords
      obtain ⟨-, -, -, hc'⟩ := hbegun.entered.step hb hcm (creation turn.caller)
      have hnext := hbegun.step hb hcm (creation turn.caller)
      rw [← hself] at hc' hnext
      refine ⟨hc', Or.inl ?_⟩
      rcases hnext with hnext | ⟨h, hnext⟩
      · exact .begun turn.caller hnext (hother.trans other)
      · exact .recorded turn.caller h hnext (Or.inl (hother.trans other))
    · rw [← hturn] at other
      obtain rfl : c = turn.caller.other := by rw [hturn, Caller.other_other]
      rcases step_called b name creation other with ⟨s, hs, hlive, -⟩ | ⟨-, hstage, -, hc'⟩
      · obtain ⟨s', hs', hnew⟩ := begun.new
        obtain rfl := Option.some.inj (hs.symm.trans hs')
        exact absurd hnew hlive.1
      · refine ⟨hc'.trans hc, Or.inr ⟨forall_caller turn ?_ ?_, forall_caller turn ?_ ?_⟩⟩
        · exact hstage ▸ .registered
        · exact hother ▸ begun.entered
        · exact hstage ▸ rfl
        · exact hother ▸ begun.underWay
  | recorded c h recorded other =>
    rcases c.eq_or_other turn.caller with rfl | hturn
    · have hrecorded := recorded.of_records hrecords
      have hentered := Creation.Entered.sent recorded.accepted recorded.named
      obtain ⟨-, -, -, hc'⟩ := hentered.step hb hcm (creation turn.caller)
      have hnext := hrecorded.step (b := b) (creation turn.caller)
      rw [← hself] at hc' hnext
      exact ⟨hc', Or.inl (.recorded turn.caller h hnext (other.imp hother.trans hother.trans))⟩
    · rw [← hturn] at other
      obtain rfl : c = turn.caller.other := by rw [hturn, Caller.other_other]
      rw [← hother] at recorded
      rcases other with other | other
      · rcases step_called b name creation other with ⟨-, -, -, hstage, hsame, hc'⟩ | ⟨hfree, -⟩
        · refine ⟨hc'.trans hc, Or.inl (.recorded turn.caller.other h (recorded.of_records hsame) ?_)⟩
          rw [Caller.other_other]
          exact Or.inr hstage
        · obtain ⟨status, hlive, s, hs, -, rfl⟩ := recorded.live
          exact absurd hlive (hfree s (recorded.named ▸ hs))
      · rw [other, Creation.step] at hself
        obtain ⟨hstage, hmanager⟩ := Prod.mk.inj hself
        rw [hmanager]
        refine ⟨hcm, Or.inl (.recorded turn.caller.other h ?_ ?_)⟩
        · rw [hmanager]
          exact recorded.of_records hrecords
        · rw [Caller.other_other]
          exact Or.inr hstage

theorem Met.step (hb : b.AcceptsAll) (hc : r.manager.cancelAt = none) (hmet : Met name r)
    (creation : Caller → Creation) (turn : Turn) :
    (r.step b name creation turn).manager.cancelAt = none ∧ Met name (r.step b name creation turn) := by
  obtain ⟨m, -, hcm, hself⟩ := step_self b name creation r turn
  rw [hc] at hcm
  obtain ⟨h, haccepted, hn, hc'⟩ := (hmet turn.caller).step hb hcm (creation turn.caller)
  rw [← hself] at haccepted hc'
  refine ⟨hc', forall_caller turn (.sent haccepted hn) ?_⟩
  rw [stage_step_other]
  exact hmet turn.caller.other

theorem Apart.not_bothUnderWay (ha : Apart name r) : ¬ BothUnderWay r := by
  intro hboth
  cases ha with
  | free stages absent =>
    have hfirst := hboth .first
    rw [stages] at hfirst
    cases hfirst
  | begun c begun other =>
    have hwaits := hboth c.other
    rw [other] at hwaits
    cases hwaits
  | recorded c h recorded other => exact Bool.false_ne_true (recorded.past.symm.trans (hboth c))

/-- At most one of two creations that are apart is accepted. -/
theorem Apart.not_accepted (ha : Apart name r) {c : Caller} (hc : (r.stage c).accepted? = some h) :
    (r.stage c.other).accepted? = none ∧
      ((r.stage c).underWay = true ∨ Creation.Recorded name h (r.stage c, r.manager)) := by
  cases ha with
  | free stages absent =>
    rw [stages] at hc
    cases hc
  | begun d begun other =>
    rcases d.eq_or_other c with rfl | rfl
    · rw [other]
      exact ⟨rfl, Or.inl begun.underWay⟩
    · rw [other] at hc
      cases hc
  | recorded d h' recorded other =>
    rcases d.eq_or_other c with rfl | rfl
    · obtain rfl := Option.some.inj (recorded.accepted.symm.trans hc)
      refine ⟨?_, Or.inr recorded⟩
      rcases other with other | other <;> rw [other] <;> rfl
    · rcases other with other | other <;> rw [other] at hc <;> cases hc

/-- When both of two creations that are apart have ended, one is accepted and the other was refused. -/
theorem Apart.refused (ha : Apart name r) (hend : ∀ c, (r.stage c).finished = true) :
    ∃ c h, (r.stage c).accepted? = some h ∧ r.stage c.other = .refused (.alreadyExists name) := by
  cases ha with
  | free stages absent =>
    have hfirst := hend .first
    rw [stages] at hfirst
    cases hfirst
  | begun c begun other =>
    have hwaits := hend c.other
    rw [other] at hwaits
    cases hwaits
  | recorded c h recorded other =>
    refine ⟨c, h, recorded.accepted, other.resolve_left fun other => ?_⟩
    have hwaits := hend c.other
    rw [other] at hwaits
    cases hwaits

/-- At some moment of the race both have made their records, and have not recorded their ids. -/
def Meets (b : Backend σ) (name : String) (creation : Caller → Creation) (turns : List Turn) (r : Race σ) :
    Prop := ∃ before, before <+: turns ∧ BothUnderWay (r.run b name creation before)

theorem run_append_singleton (b : Backend σ) (name : String) (creation : Caller → Creation)
    (turns : List Turn) (turn : Turn) (r : Race σ) : r.run b name creation (turns ++ [turn]) =
      (r.run b name creation turns).step b name creation turn := by
  simp [run]

theorem meets_append_singleton {turns : List Turn} : Meets b name creation (turns ++ [turn]) r ↔
    Meets b name creation turns r ∨ BothUnderWay (r.run b name creation (turns ++ [turn])) := by
  constructor
  · rintro ⟨before, hbefore, hboth⟩
    rcases List.prefix_concat_iff.mp hbefore with rfl | hbefore
    · exact Or.inr hboth
    · exact Or.inl ⟨before, hbefore, hboth⟩
  · rintro (⟨before, hbefore, hboth⟩ | hboth)
    · exact ⟨before, hbefore.trans (List.prefix_append _ _), hboth⟩
    · exact ⟨_, List.prefix_refl _, hboth⟩

/-- In every race the creations are apart until they meet, and once they have met both have made their
records. -/
theorem run_apart_or_met (hb : b.AcceptsAll) {start : Manager σ} (hc : start.cancelAt = none)
    (hfree : ∀ s, start.find? name = some s → ¬ s.status.Live) (creation : Caller → Creation)
    (turns : List Turn) {r : Race σ} (hr : ({ manager := start } : Race σ).run b name creation turns = r) :
    r.manager.cancelAt = none ∧
      (Apart name r ∧ ¬ Meets b name creation turns { manager := start } ∨
        Met name r ∧ Meets b name creation turns { manager := start }) := by
  induction turns using List.reverseRecOn generalizing r with
  | nil =>
    subst hr
    refine ⟨hc, Or.inl ⟨.free (fun _ => rfl) hfree, ?_⟩⟩
    rintro ⟨before, hbefore, hboth⟩
    rw [List.prefix_nil.mp hbefore] at hboth
    cases hboth .first
  | append_singleton turns turn ih =>
    obtain ⟨hc', hstate⟩ := ih rfl
    rw [run_append_singleton] at hr
    subst hr
    rw [meets_append_singleton, run_append_singleton]
    rcases hstate with ⟨hapart, hnever⟩ | ⟨hmet, hmeets⟩
    · obtain ⟨hc'', hnext | ⟨hnext, hboth⟩⟩ := hapart.step hb hc' creation turn
      · exact ⟨hc'', Or.inl ⟨hnext, not_or.mpr ⟨hnever, hnext.not_bothUnderWay⟩⟩⟩
      · exact ⟨hc'', Or.inr ⟨hnext, Or.inr hboth⟩⟩
    · obtain ⟨hc'', hnext⟩ := hmet.step hb hc' creation turn
      exact ⟨hc'', Or.inr ⟨hnext, Or.inl hmeets⟩⟩

/-- Two creations of one name, of which no stack is live, on a manager that nobody cancels: in every order
of their steps and with every delay between them, the backend accepts both submissions if and only if at
some moment both creations are between registration and record. Otherwise it accepts at most one of them;
its id is recorded as soon as that creation is past its record, and when both have ended the other was
refused, as the stack exists. -/
theorem accepted_twice_iff (hb : b.AcceptsAll) {start : Manager σ} (hc : start.cancelAt = none)
    (hfree : ∀ s, start.find? name = some s → ¬ s.status.Live) (creation : Caller → Creation)
    (turns : List Turn) {r : Race σ} (hr : ({ manager := start } : Race σ).run b name creation turns = r) :
    (¬ Meets b name creation turns { manager := start } → ∀ c h, (r.stage c).accepted? = some h →
      (r.stage c.other).accepted? = none ∧ ((r.stage c).underWay = true ∨
        ∃ s, r.manager.find? name = some s ∧ s.id = some h.id ∧ s.status.Live)) ∧
    ((∀ c, (r.stage c).finished = true) →
      ((∀ c, (r.stage c).accepted?.isSome = true) ↔ Meets b name creation turns { manager := start }) ∧
      (¬ Meets b name creation turns { manager := start } → ∃ c h, (r.stage c).accepted? = some h ∧
        r.stage c.other = .refused (.alreadyExists name))) := by
  obtain ⟨-, hstate⟩ := run_apart_or_met hb hc hfree creation turns hr
  refine ⟨fun hnever c h haccepted => ?_, fun hend => ?_⟩
  · obtain ⟨hapart, -⟩ := hstate.resolve_right fun hmet => hnever hmet.2
    obtain ⟨hother, hunderWay | hrecorded⟩ := hapart.not_accepted haccepted
    · exact ⟨hother, Or.inl hunderWay⟩
    · obtain ⟨status, hlive, s, hs, hid, rfl⟩ := hrecorded.live
      exact ⟨hother, Or.inr ⟨s, hrecorded.named ▸ hs, hid, hlive⟩⟩
  · rcases hstate with ⟨hapart, hnever⟩ | ⟨hmet, hmeets⟩
    · refine ⟨⟨fun hboth => ?_, fun hmeets => absurd hmeets hnever⟩, fun _ => hapart.refused hend⟩
      obtain ⟨h, haccepted⟩ := Option.isSome_iff_exists.mp (hboth .first)
      have hsecond := hboth Caller.first.other
      rw [(hapart.not_accepted haccepted).1] at hsecond
      cases hsecond
    · refine ⟨⟨fun _ => hmeets, fun _ c => ?_⟩, fun hnever => absurd hmeets hnever⟩
      exact (hmet c).accepted_of_finished (hend c)

end Race

theorem Simulation.acceptsAll : backend.AcceptsAll := fun _ _ _ _ _ => ⟨_, rfl, rfl⟩

/-- Two creations that nobody waits for. -/
def hurriedCreations (_ : Caller) : Creation := { graph := {}, options := .nonBlocking }

/-- A race on a manager that has no stacks. -/
def newRace : Race Simulation where
  manager := { timing := {}, backend := {} }

/-- The second creation starts when the first has recorded its id and has not ended yet. -/
def orderlyTurns : List Turn :=
  [⟨.first, 0⟩, ⟨.first, 5⟩, ⟨.first, 0⟩, ⟨.first, 0⟩, ⟨.second, 7⟩, ⟨.first, 0⟩]

theorem Race.accepted_twice_iff_sample : ∃ r : Race Simulation,
    newRace.run Simulation.backend "demo" hurriedCreations orderlyTurns = r ∧
    (∀ c, (r.stage c).finished = true) ∧
    ∃ c h, (r.stage c).accepted? = some h ∧ r.stage c.other = .refused (.alreadyExists "demo") := by
  have hend : ∀ c, ((newRace.run Simulation.backend "demo" hurriedCreations orderlyTurns).stage c).finished =
      true := by
    intro c
    cases c <;> rfl
  obtain ⟨-, hiff⟩ := accepted_twice_iff Simulation.acceptsAll rfl (fun _ hs => by cases hs) hurriedCreations
    orderlyTurns (rfl : newRace.run Simulation.backend "demo" hurriedCreations orderlyTurns = _)
  obtain ⟨htwice, hrefused⟩ := hiff hend
  refine ⟨_, rfl, hend, hrefused fun hmeets => ?_⟩
  have hsecond := htwice.mpr hmeets .second
  cases hsecond

/-- Two creations that take turns are both accepted. The id of the second replaces that of the first, and no
record holds the first any more. -/
theorem Race.both_accepted : ∃ r : Race Simulation,
    newRace.run Simulation.backend "demo" hurriedCreations
      [⟨.first, 0⟩, ⟨.second, 0⟩, ⟨.first, 0⟩, ⟨.second, 0⟩, ⟨.first, 0⟩, ⟨.second, 0⟩, ⟨.first, 0⟩,
        ⟨.second, 0⟩, ⟨.first, 0⟩] = r ∧
    (∀ c, (r.stage c).finished = true) ∧ r.manager.backend.submits = 2 ∧
    (r.stage .first).accepted? = some ⟨identifier 0, "demo"⟩ ∧
    (r.stage .second).accepted? = some ⟨identifier 1, "demo"⟩ ∧
    (∀ s ∈ r.manager.records, s.id = some (identifier 1)) ∧ identifier 0 ≠ identifier 1 := by
  refine ⟨_, rfl, fun c => ?_, rfl, rfl, rfl, ?_, by decide⟩
  · cases c <;> rfl
  · rintro s (_ | ⟨_, hs⟩)
    · rfl
    · cases hs

end Provision
