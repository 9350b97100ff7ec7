import Mathlib.Computability.RegularExpressions
import Provision.Proofs.Lifecycle.Chain

/-! The histories that a lifecycle can have, whatever it is asked to do. The commands that were accepted
begin a word of one regular expression, and every beginning of such a word is a history. -/
namespace Provision

open RegularExpression (char)

namespace Lifecycle

/-- The life of a stack from its submission to its end. The outcome of the creation may be left out, and
any number of deletions may fail before one succeeds. -/
def pattern : RegularExpression Command :=
  char .submit * (1 + (char .createSucceeded + char .createFailed)) *
    (char .beginDelete * char .deleteFailed : RegularExpression Command).star *
    (char .beginDelete * char .deleteSucceeded)

/-- Deletions that failed, as often as that, and one that succeeded. -/
def deletions (failures : Nat) : List Command :=
  (List.replicate failures [.beginDelete, .deleteFailed]).flatten ++ [.beginDelete, .deleteSucceeded]

theorem deletions_succ (n : Nat) :
    deletions (n + 1) = .beginDelete :: .deleteFailed :: deletions n := rfl

theorem rmatch_pair (c d : Command) (word : List Command) :
    (char c * char d).rmatch word = true ↔ word = [c, d] := by
  simp only [RegularExpression.mul_rmatch_iff, RegularExpression.char_rmatch_iff]
  exact ⟨fun ⟨_, _, hword, hc, hd⟩ => hword.trans (by rw [hc, hd]; rfl), fun h => ⟨_, _, h, rfl, rfl⟩⟩

theorem rmatch_retries (c d : Command) (word : List Command) :
    (char c * char d).star.rmatch word = true ↔ ∃ n, word = (List.replicate n [c, d]).flatten := by
  simp only [RegularExpression.star_rmatch_iff, rmatch_pair]
  constructor
  · rintro ⟨parts, rfl, hparts⟩
    exact ⟨parts.length, congrArg _ (List.eq_replicate_of_mem fun part hpart => (hparts part hpart).2)⟩
  · rintro ⟨n, rfl⟩
    exact ⟨_, rfl, fun part hpart => by simp [List.eq_of_mem_replicate hpart]⟩

theorem rmatch_outcome (c d : Command) (word : List Command) :
    (1 + (char c + char d)).rmatch word = true ↔ word ∈ [[], [c], [d]] := by
  simp only [RegularExpression.add_rmatch_iff, RegularExpression.one_rmatch_iff,
    RegularExpression.char_rmatch_iff, List.mem_cons, List.not_mem_nil, or_false]

/-- The words of the expression, spelled out. -/
theorem mem_pattern {word : List Command} : word ∈ pattern.matches' ↔
    ∃ outcome ∈ [[], [.createSucceeded], [.createFailed]], ∃ failures,
      word = .submit :: (outcome ++ deletions failures) := by
  rw [← RegularExpression.rmatch_iff_matches', pattern, RegularExpression.mul_rmatch_iff]
  constructor
  · rintro ⟨_, _, rfl, h, hend⟩
    obtain ⟨_, _, rfl, h, hretries⟩ := (RegularExpression.mul_rmatch_iff _ _ _).mp h
    obtain ⟨_, outcome, rfl, hsubmit, houtcome⟩ := (RegularExpression.mul_rmatch_iff _ _ _).mp h
    obtain rfl := (RegularExpression.char_rmatch_iff _ _).mp hsubmit
    obtain ⟨failures, rfl⟩ := (rmatch_retries _ _ _).mp hretries
    obtain rfl := (rmatch_pair _ _ _).mp hend
    exact ⟨outcome, (rmatch_outcome _ _ _).mp houtcome, failures, by simp [deletions]⟩
  · rintro ⟨outcome, houtcome, failures, rfl⟩
    refine ⟨.submit :: outcome ++ (List.replicate failures [.beginDelete, .deleteFailed]).flatten,
      [.beginDelete, .deleteSucceeded], by simp [deletions], ?_, (rmatch_pair _ _ _).mpr rfl⟩
    refine (RegularExpression.mul_rmatch_iff _ _ _).mpr
      ⟨.submit :: outcome, _, rfl, ?_, (rmatch_retries _ _ _).mpr ⟨failures, rfl⟩⟩
    exact (RegularExpression.mul_rmatch_iff _ _ _).mpr ⟨[.submit], outcome, rfl,
      (RegularExpression.char_rmatch_iff _ _).mpr rfl, (rmatch_outcome _ _ _).mpr houtcome⟩

end Lifecycle

/-! Commands that are all accepted. -/

namespace Status
variable {s t : Status} {commands : List Command}

/-- The status after the commands, if every one of them is accepted. -/
def follow : Status → List Command → Option Status
  | s, [] => some s
  | s, c :: rest => (s.next c).toOption.bind fun t => t.follow rest

theorem follow_cons {c : Command} : s.follow (c :: commands) = some t ↔
    ∃ s', s.next c = .ok s' ∧ s'.follow commands = some t := by
  rw [follow, Option.bind_eq_some_iff]
  cases s.next c <;> simp [Except.toOption]

theorem follow_append (s : Status) (before after : List Command) :
    s.follow (before ++ after) = (s.follow before).bind fun t => t.follow after := by
  induction before generalizing s with
  | nil => rfl
  | cons c rest ih =>
    rw [List.cons_append, follow, follow, Option.bind_assoc]
    simp only [ih]

/-- From every status there is a way to the end. -/
theorem exists_follow_deleteComplete (s : Status) :
    ∃ rest, s.follow rest = some .deleteComplete := by
  cases s with
  | notCreated => exact ⟨[.submit, .beginDelete, .deleteSucceeded], rfl⟩
  | creating | createComplete | createFailed | deleteFailed =>
    exact ⟨[.beginDelete, .deleteSucceeded], rfl⟩
  | deleting => exact ⟨[.deleteSucceeded], rfl⟩
  | deleteComplete => exact ⟨[], rfl⟩

theorem follow_deletions {s : Status} (h : s.next .beginDelete = .ok .deleting) (failures : Nat) :
    s.follow (Lifecycle.deletions failures) = some .deleteComplete := by
  induction failures generalizing s with
  | zero => exact follow_cons.mpr ⟨_, h, rfl⟩
  | succ n ih =>
    rw [Lifecycle.deletions_succ]
    exact follow_cons.mpr ⟨_, h, follow_cons.mpr ⟨_, rfl, ih rfl⟩⟩

theorem eq_nil_of_follow (h : deleteComplete.follow commands = some t) : commands = [] := by
  cases commands with
  | nil => rfl
  | cons c rest =>
    obtain ⟨s', hs', -⟩ := follow_cons.mp h
    cases hs'

/-- The creation is over, well or badly, and no deletion is under way: the stack can only be deleted. -/
inductive Settled : Status → Prop
  | createComplete : Settled .createComplete
  | createFailed : Settled .createFailed
  | deleteFailed : Settled .deleteFailed

theorem Settled.next {c : Command} (hs : s.Settled) (h : s.next c = .ok t) :
    c = .beginDelete ∧ t = .deleting := by
  cases hs <;> cases c <;> cases h <;> exact ⟨rfl, rfl⟩

theorem next_deleting {c : Command} (h : deleting.next c = .ok t) :
    c = .deleteSucceeded ∧ t = .deleteComplete ∨ c = .deleteFailed ∧ t = .deleteFailed := by
  cases c <;> cases h
  · exact Or.inl ⟨rfl, rfl⟩
  · exact Or.inr ⟨rfl, rfl⟩

/-- Two commands at a time: a deletion that is begun succeeds, or it fails and leaves a stack like before. -/
theorem Settled.exists_deletions {s : Status} :
    ∀ {commands : List Command}, s.Settled → s.follow commands = some .deleteComplete →
      ∃ failures, commands = Lifecycle.deletions failures
  | [], hs, h => by cases hs <;> cases h
  | [c], hs, h => by
    obtain ⟨s', hc, h⟩ := follow_cons.mp h
    obtain ⟨rfl, rfl⟩ := hs.next hc
    cases h
  | c :: d :: rest, hs, h => by
    obtain ⟨s', hc, h⟩ := follow_cons.mp h
    obtain ⟨rfl, rfl⟩ := hs.next hc
    obtain ⟨s', hd, h⟩ := follow_cons.mp h
    rcases next_deleting hd with ⟨rfl, rfl⟩ | ⟨rfl, rfl⟩
    · exact ⟨0, by rw [eq_nil_of_follow h]; rfl⟩
    · obtain ⟨failures, rfl⟩ := exists_deletions .deleteFailed h
      exact ⟨failures + 1, rfl⟩

theorem next_creating {c : Command} (h : creating.next c = .ok t) :
    c = .createSucceeded ∧ t = .createComplete ∨ c = .createFailed ∧ t = .createFailed ∨
      c = .beginDelete ∧ t = .deleting := by
  cases c <;> cases h
  · exact Or.inl ⟨rfl, rfl⟩
  · exact Or.inr (Or.inl ⟨rfl, rfl⟩)
  · exact Or.inr (Or.inr ⟨rfl, rfl⟩)

/-- The commands that take a stack from its beginning to its end. -/
theorem follow_eq_deleteComplete_iff {word : List Command} :
    notCreated.follow word = some .deleteComplete ↔ word ∈ Lifecycle.pattern.matches' := by
  rw [Lifecycle.mem_pattern]
  constructor
  · intro h
    obtain _ | ⟨c, word⟩ := word
    · cases h
    obtain ⟨s, hc, h⟩ := follow_cons.mp h
    obtain ⟨rfl, rfl⟩ : c = .submit ∧ s = .creating := by cases c <;> cases hc; exact ⟨rfl, rfl⟩
    obtain _ | ⟨c, rest⟩ := word
    · cases h
    obtain ⟨s, hc, hrest⟩ := follow_cons.mp h
    rcases next_creating hc with ⟨rfl, rfl⟩ | ⟨rfl, rfl⟩ | ⟨rfl, rfl⟩
    · obtain ⟨failures, rfl⟩ := Settled.createComplete.exists_deletions hrest
      exact ⟨[.createSucceeded], by simp, failures, rfl⟩
    · obtain ⟨failures, rfl⟩ := Settled.createFailed.exists_deletions hrest
      exact ⟨[.createFailed], by simp, failures, rfl⟩
    · -- The deletion of a stack that is being created takes the same course as that of a complete one.
      obtain ⟨failures, hword⟩ := Settled.createComplete.exists_deletions
        (follow_cons.mpr ⟨.deleting, (rfl : createComplete.next .beginDelete = .ok .deleting), hrest⟩)
      exact ⟨[], by simp, failures, congrArg _ hword⟩
  · rintro ⟨outcome, houtcome, failures, rfl⟩
    refine follow_cons.mpr ⟨.creating, rfl, ?_⟩
    have hcases : outcome = [] ∨ outcome = [.createSucceeded] ∨ outcome = [.createFailed] := by
      simpa using houtcome
    rcases hcases with rfl | rfl | rfl
    · exact follow_deletions rfl failures
    · exact follow_cons.mpr ⟨_, rfl, follow_deletions rfl failures⟩
    · exact follow_cons.mpr ⟨_, rfl, follow_deletions rfl failures⟩

/-- The commands that are accepted one after another are the beginnings of such words. -/
theorem exists_follow_iff :
    (∃ s, notCreated.follow commands = some s) ↔
      ∃ rest, commands ++ rest ∈ Lifecycle.pattern.matches' := by
  constructor
  · rintro ⟨s, hs⟩
    obtain ⟨rest, hrest⟩ := s.exists_follow_deleteComplete
    refine ⟨rest, follow_eq_deleteComplete_iff.mp ?_⟩
    rw [follow_append, hs, Option.bind_some, hrest]
  · rintro ⟨rest, hword⟩
    have hall := follow_eq_deleteComplete_iff.mpr hword
    rw [follow_append] at hall
    obtain ⟨s, hs, -⟩ := Option.bind_eq_some_iff.mp hall
    exact ⟨s, hs⟩

end Status

/-! Runs of a lifecycle. -/

theorem Leads.follow {source target : Status} {moves : List Move} (h : Leads source moves target) :
    source.follow (moves.map Move.command) = some target := by
  induction moves generalizing source with
  | nil => exact congrArg some h
  | cons move rest ih => exact Status.follow_cons.mpr ⟨_, h.2.1, ih h.2.2⟩

/-- Where a chain leads that is cut in two. -/
theorem leads_append {source target : Status} {before after : List Move} :
    Leads source (before ++ after) target ↔
      ∃ middle, Leads source before middle ∧ Leads middle after target := by
  induction before generalizing source with
  | nil => simp [Leads]
  | cons move rest ih => simp [Leads, ih, and_assoc]

/-- A chain leads to the target of its last move. -/
theorem Leads.eq_getLast {source target : Status} {moves : List Move} (h : Leads source moves target) :
    target = (moves.getLast?.map Move.target).getD source := by
  rcases List.eq_nil_or_concat' moves with rfl | ⟨earlier, move, rfl⟩
  · exact Eq.symm h
  · obtain ⟨-, -, rfl⟩ := leads_append_singleton.mp h
    simp

namespace Lifecycle
variable {l : Lifecycle} {c : Command}

/-- The lifecycle after the commands, each of which is accepted or refused. -/
def run (attempts : List Command) : Lifecycle := attempts.foldl attempt fresh

theorem attempt_ok {l' : Lifecycle} (h : l.apply c = .ok l') : l.attempt c = l' := by
  rw [attempt, h]

theorem attempt_error {e : LifecycleError} (h : l.apply c = .error e) : l.attempt c = l := by
  rw [attempt, h]

theorem Chained.attempt (hl : l.Chained) (c : Command) : (l.attempt c).Chained := by
  cases h : l.apply c with
  | ok l' => rw [attempt_ok h]; exact hl.apply h
  | error e => rw [attempt_error h]; exact hl

theorem run_append_singleton (attempts : List Command) (c : Command) :
    run (attempts ++ [c]) = (run attempts).attempt c := by
  simp [run]

theorem chained_run (attempts : List Command) : (run attempts).Chained := by
  induction attempts using List.reverseRecOn with
  | nil => exact chained_fresh
  | append_singleton attempts c ih => exact run_append_singleton attempts c ▸ ih.attempt c

/-- Commands that are all accepted are all recorded. -/
theorem commands_run {commands : List Command} {s : Status}
    (h : Status.notCreated.follow commands = some s) :
    (run commands).commands = commands ∧ (run commands).status = s := by
  induction commands using List.reverseRecOn generalizing s with
  | nil => exact ⟨rfl, Option.some.inj h⟩
  | append_singleton commands c ih =>
    rw [Status.follow_append] at h
    obtain ⟨s', hs', hc⟩ := Option.bind_eq_some_iff.mp h
    obtain ⟨hcommands, hstatus⟩ := ih hs'
    obtain ⟨t, ht, hts⟩ := Status.follow_cons.mp hc
    obtain rfl := Option.some.inj hts
    have hnext : (run commands).apply c = .ok ⟨t, (run commands).history ++ [⟨s', c, t⟩]⟩ := by
      rw [apply, hstatus, ht]
    rw [run_append_singleton, attempt_ok hnext]
    exact ⟨by rw [commands_apply hnext, hcommands], rfl⟩

theorem accepts_iff : l.status.accepts c = true ↔ ∃ l', l.apply c = .ok l' := by
  rw [Status.accepts, apply]
  cases l.status.next c <;> simp

/-- The histories of a lifecycle that is given any commands, accepted or refused, are the beginnings of the
words of the pattern, all of them. A history is a chain from the first status to the present one. A command
is recorded if it is accepted, which can be asked beforehand, and otherwise it changes nothing. -/
theorem run_histories :
    (∀ commands, (∃ attempts, (run attempts).commands = commands) ↔
      ∃ rest, commands ++ rest ∈ pattern.matches') ∧
    ∀ attempts,
      (∀ before move after, (run attempts).history = before ++ move :: after →
        move.source = (before.getLast?.map Move.target).getD .notCreated) ∧
      (run attempts).status = ((run attempts).history.getLast?.map Move.target).getD .notCreated ∧
      ∀ c, ((run attempts).status.accepts c = true ↔ ∃ l, (run attempts).apply c = .ok l) ∧
        (∀ e, (run attempts).apply c = .error e → (run attempts).attempt c = run attempts) ∧
        ∀ l, (run attempts).apply c = .ok l → (run attempts).attempt c = l ∧
          l.history = (run attempts).history ++ [⟨(run attempts).status, c, l.status⟩] := by
  refine ⟨fun commands => ?_, fun attempts => ?_⟩
  · rw [← Status.exists_follow_iff]
    constructor
    · rintro ⟨attempts, rfl⟩
      exact ⟨_, (chained_run attempts).follow⟩
    · rintro ⟨s, hs⟩
      exact ⟨commands, (commands_run hs).1⟩
  · have hchained := chained_run attempts
    refine ⟨fun before move after hsplit => ?_, hchained.eq_getLast, fun c => ⟨accepts_iff,
      fun e => attempt_error, fun l hl => ⟨attempt_ok hl, (apply_ok hl).2⟩⟩⟩
    rw [Chained, hsplit] at hchained
    obtain ⟨middle, hbefore, hsource, -⟩ := leads_append.mp hchained
    rw [hsource]
    exact hbefore.eq_getLast

/-- A stack is submitted twice and deleted twice, and the first deletion fails. -/
example : (run [.submit, .submit, .beginDelete, .deleteFailed, .deleteSucceeded, .beginDelete]).commands =
    [.submit, .beginDelete, .deleteFailed, .beginDelete] := by decide

end Lifecycle
end Provision
