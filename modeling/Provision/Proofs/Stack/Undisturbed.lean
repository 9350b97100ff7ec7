import Provision.Proofs.Stack.Faithful

/-! Cancellation does not disturb a deletion. Beside one deletion another is run from the same records, the
same backend and the same time, but with another log and with creation cancelled at another time, or not at
all. Both take the same course, and all that they ask of the backend is about the stack they delete. -/
namespace Provision

/-- A call that is made to delete the stack of the handle: the request itself, or a poll of the wait for the
end of it. -/
def Event.Deletes (h : Handle) (e : Event) : Prop :=
  (∃ answer, e = .delete h answer) ∨ ∃ answer, e = .status h (some .delete) answer

/-- A call that is made to delete a stack of one of the names. -/
def Event.DeletesOneOf (names : List String) (e : Event) : Prop :=
  ∃ h : Handle, h.name ∈ names ∧ e.Deletes h

namespace Manager
variable {σ : Type} {b : Backend σ} {h : Handle} {P Q : Event → Prop} {c : Option Nat}

/-- The manager with another log, and with creation cancelled at another time. -/
def retold (m : Manager σ) (c : Option Nat) (log : List LogEntry) : Manager σ :=
  { m with cancelAt := c, log }

/-- Two ends of one operation, of a run from the manager and of a run from the same manager retold: they
agree, and the log has grown by the same events, all of one kind. -/
structure Alike {α : Type} (P : Event → Prop) (c : Option Nat) (log : List LogEntry) (m : Manager σ)
    (x y : α × Manager σ) : Prop where
  told : ∃ recent, x.2.log = recent ++ m.log ∧ (∀ entry ∈ recent, P entry.event) ∧
    y = (x.1, x.2.retold c (recent ++ log))
  timing : x.2.timing = m.timing
  clock : m.clock ≤ x.2.clock

/-- An operation that neither the log nor cancellation has a part in, and whose calls are all of one
kind. -/
def Undisturbed {α : Type} (P : Event → Prop) (op : Manager σ → α × Manager σ) : Prop :=
  ∀ m c log, Alike P c log m (op m) (op (m.retold c log))

namespace Alike
variable {α β : Type} {log : List LogEntry} {m m₁ : Manager σ} {x y : α × Manager σ}

/-- Nothing is done. -/
theorem refl (P : Event → Prop) (c : Option Nat) (log : List LogEntry) (m : Manager σ) (a : α) :
    Alike P c log m (a, m) (a, m.retold c log) :=
  ⟨⟨[], rfl, nofun, rfl⟩, rfl, Nat.le_refl _⟩

theorem mono (hx : Alike P c log m x y) (hPQ : ∀ e, P e → Q e) : Alike Q c log m x y := by
  obtain ⟨recent, hlog, hP, hy⟩ := hx.told
  exact ⟨⟨recent, hlog, fun entry he => hPQ _ (hP entry he), hy⟩, hx.timing, hx.clock⟩

/-- One operation after another: what follows the first is compared from where that has ended. -/
theorem andThen {z w : β × Manager σ} (hx : Alike P c log m x y)
    (hz : ∀ log', y = (x.1, x.2.retold c log') → Alike P c log' x.2 z w) : Alike P c log m z w := by
  obtain ⟨recent, hlog, hP, hy⟩ := hx.told
  obtain ⟨⟨recent', hlog', hP', hw⟩, htiming, hclock⟩ := hz _ hy
  refine ⟨⟨recent' ++ recent, ?_, ?_, ?_⟩, htiming.trans hx.timing, hx.clock.trans hclock⟩
  · rw [hlog', hlog, List.append_assoc]
  · intro entry he
    rcases List.mem_append.mp he with he | he
    · exact hP' entry he
    · exact hP entry he
  · rw [hw, List.append_assoc]

end Alike

namespace Undisturbed
variable {α β : Type} {op : Manager σ → α × Manager σ} {m : Manager σ}

theorem pure (P : Event → Prop) (a : α) : Undisturbed P fun m : Manager σ => (a, m) :=
  fun m c log => .refl P c log m a

/-- The time of cancellation is not changed either. -/
theorem cancelAt (hop : Undisturbed P op) (m : Manager σ) : (op m).2.cancelAt = m.cancelAt := by
  obtain ⟨recent, -, -, hy⟩ := (hop m m.cancelAt m.log).told
  rw [show m.retold m.cancelAt m.log = m from rfl] at hy
  rw [hy]
  rfl

end Undisturbed

/-! The single steps of a deletion. -/

theorem called_alike (m : Manager σ) (log : List LogEntry) {α : Type} (a : α) (s : σ) {e : Event}
    (took : Nat) (he : P e) :
    Alike P c log m (a, m.called s e took) (a, (m.retold c log).called s e took) :=
  ⟨⟨[⟨m.clock, e⟩], rfl, by simpa using he, rfl⟩, rfl, Nat.le_add_right ..⟩

theorem askStatus_undisturbed (b : Backend σ) (h : Handle) :
    Undisturbed (Event.Deletes h) (askStatus b h (some .delete)) :=
  fun m _ log => m.called_alike log _ _ _ (Or.inr ⟨_, rfl⟩)

theorem askDelete_undisturbed (b : Backend σ) (h : Handle) :
    Undisturbed (Event.Deletes h) (askDelete b h) :=
  fun m _ log => m.called_alike log _ _ _ (Or.inl ⟨_, rfl⟩)

theorem update_undisturbed (P : Event → Prop) (name : String) (f : Stack.Update) :
    Undisturbed P (update (σ := σ) name f) := by
  intro m c log
  have hfind : (m.retold c log).find? name = m.find? name := rfl
  unfold update
  rw [hfind]
  cases m.find? name with
  | some s => exact ⟨⟨[], rfl, nofun, rfl⟩, rfl, Nat.le_refl _⟩
  | none => exact .refl P c log m _

/-- What follows a change of a record, if the change is made. -/
theorem update_then (name : String) (f : Stack.Update)
    {k : Manager σ → Except StackError Unit × Manager σ} (hk : Undisturbed P k) :
    Undisturbed P fun m => match m.update name f with
      | (.error e, m) => (.error e, m)
      | (.ok _, m) => k m := by
  intro m c log
  have hupdate := update_undisturbed P name f m c log
  rcases hx : m.update name f with ⟨e | _, m₁⟩ <;> rw [hx] at hupdate <;>
    refine hupdate.andThen fun log₁ hy => ?_ <;> dsimp only <;> rw [hx, hy]
  · exact .refl P c log₁ m₁ _
  · exact hk m₁ c log₁

theorem sleep_alike (P : Event → Prop) (c : Option Nat) (log : List LogEntry) (m : Manager σ)
    (duration : Nat) : Alike P c log m ((), m.sleep duration) ((), (m.retold c log).sleep duration) :=
  ⟨⟨[], rfl, nofun, rfl⟩, rfl, Nat.le_add_right ..⟩

/-- What follows a pause. -/
theorem sleep_then {α : Type} (duration : Nat) {op : Manager σ → α × Manager σ}
    (hop : Undisturbed P op) : Undisturbed P fun m => op (m.sleep duration) := by
  intro m c log
  refine (sleep_alike P c log m duration).andThen fun log₁ hy => ?_
  dsimp only
  rw [(Prod.mk.inj hy).2]
  exact hop _ c log₁

/-! Deletions, from one attempt to a sweep over all stacks. -/

theorem awaitDeletion_undisturbed (b : Backend σ) (h : Handle) (timeout deadline polls : Nat) :
    Undisturbed (Event.Deletes h) (awaitDeletion b h timeout deadline polls) := by
  induction polls with
  | zero => exact .pure _ _
  | succ polls ih =>
    intro m c log
    have hask := askStatus_undisturbed b h m c log
    rcases hx : m.askStatus b h (some .delete) with ⟨_ | report, m₁⟩ <;> rw [hx] at hask <;>
      refine hask.andThen fun log₁ hy => ?_ <;> rw [awaitDeletion, awaitDeletion, hx, hy]
    · exact .refl _ c log₁ m₁ _
    · dsimp only
      cases report.deleteVerdict with
      | complete => exact update_undisturbed _ _ _ m₁ c log₁
      | failed reason => exact update_then _ _ (.pure _ _) m₁ c log₁
      | pending =>
        by_cases hd : deadline ≤ m₁.now
        · rw [if_pos hd, if_pos (show deadline ≤ (m₁.retold c log₁).now from hd)]
          exact .refl _ c log₁ m₁ _
        · rw [if_neg hd, if_neg (show ¬ deadline ≤ (m₁.retold c log₁).now from hd)]
          exact sleep_then _ ih m₁ c log₁

theorem waitForDeletion_undisturbed (b : Backend σ) (h : Handle) :
    Undisturbed (Event.Deletes h) (waitForDeletion b h) := by
  intro m c log
  have hdeadline : (m.retold c log).deadline? m.timing.deleteTimeout =
      m.deadline? m.timing.deleteTimeout := rfl
  rw [waitForDeletion, waitForDeletion, show (m.retold c log).timing = m.timing from rfl, hdeadline]
  cases m.deadline? m.timing.deleteTimeout with
  | none => exact .refl _ c log m _
  | some deadline => exact awaitDeletion_undisturbed b h _ deadline _ m c log

theorem deleteOnce_undisturbed (b : Backend σ) (h : Handle) (block : Bool) :
    Undisturbed (Event.Deletes h) (deleteOnce b h block) := by
  intro m c log
  have hask := askDelete_undisturbed b h m c log
  rcases hx : m.askDelete b h with ⟨_ | _ | _, m₁⟩ <;> rw [hx] at hask <;>
    refine hask.andThen fun log₁ hy => ?_ <;> rw [deleteOnce, deleteOnce, hx, hy]
  · exact .refl _ c log₁ m₁ _
  · exact update_then _ _ (.pure _ _) m₁ c log₁
  · cases block with
    | false => exact update_then _ _ (.pure _ _) m₁ c log₁
    | true => exact update_then _ _ (waitForDeletion_undisturbed b h) m₁ c log₁

theorem deleteRepeatedly_undisturbed (b : Backend σ) (h : Handle) (block : Bool) (attempts : Nat) :
    Undisturbed (Event.Deletes h) (deleteRepeatedly b h block attempts) := by
  induction attempts with
  | zero => exact deleteOnce_undisturbed b h block
  | succ attempts ih =>
    intro m c log
    have hfirst := deleteOnce_undisturbed b h block m c log
    rcases hx : m.deleteOnce b h block with ⟨e | _, m₁⟩ <;> rw [hx] at hfirst <;>
      refine hfirst.andThen fun log₁ hy => ?_ <;> rw [deleteRepeatedly, deleteRepeatedly, hx, hy]
    · dsimp only
      split
      · exact sleep_then _ ih m₁ c log₁
      · exact .refl _ c log₁ m₁ _
    · exact .refl _ c log₁ m₁ _

theorem name_of_deletable {m : Manager σ} {name : String} (hd : m.deletable? name = some h) :
    h.name = name := by
  obtain ⟨s, hs, hh⟩ := Option.bind_eq_some_iff.mp hd
  obtain ⟨id, -, rfl⟩ := Option.map_eq_some_iff.mp hh
  have hsome : s.name = name ∧ s.status ≠ .deleteComplete := by simpa using List.find?_some hs
  exact hsome.1

theorem delete_undisturbed (b : Backend σ) (name : String) (block : Bool) (retries : Nat) :
    Undisturbed (Event.DeletesOneOf [name]) (delete b name block retries) := by
  intro m c log
  rw [delete, delete, show (m.retold c log).deletable? name = m.deletable? name from rfl]
  cases hd : m.deletable? name with
  | none => exact .refl _ c log m _
  | some h =>
    have hname : h.name ∈ [name] := List.mem_singleton.mpr (name_of_deletable hd)
    exact (deleteRepeatedly_undisturbed b h block _ m c log).mono fun e he => ⟨h, hname, he⟩

end Manager
end Provision
