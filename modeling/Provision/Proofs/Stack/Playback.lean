import Provision.Proofs.SortedMap
import Provision.Proofs.Text.Digits
import Provision.Stack.Simulated

/-! Calls to a simulation, one after another. A poll is told the report at the place of the script that the
polls of its stack have come to since the script was loaded, whatever was asked about other stacks and
whatever was refused in between. As many deletions are refused as the simulation was told, and they are the
first, and every call is counted. -/
namespace Provision

/-! Scripts. -/

/-- The report that a poll is told after so many polls of the script. The last report is repeated, and an
empty script has reported the deletion. -/
def reportAt (script : List Report) (polls : Nat) : Report :=
  script[min polls (script.length - 1)]?.getD ⟨"DELETE_COMPLETE", none⟩

/-- What is left of a script after so many polls. -/
def scriptAfter (script : List Report) (polls : Nat) : List Report :=
  script.drop (min polls (script.length - 1))

theorem scriptAfter_zero (script : List Report) : scriptAfter script 0 = script := by
  rw [scriptAfter, Nat.zero_min, List.drop_zero]

theorem nextReport_scriptAfter (script : List Report) (polls : Nat) :
    nextReport (scriptAfter script polls) = (reportAt script polls, scriptAfter script (polls + 1)) := by
  cases script with
  | nil => simp [scriptAfter, reportAt, nextReport]
  | cons r rest =>
    have hlast : (r :: rest).length - 1 = rest.length := rfl
    rw [scriptAfter, scriptAfter, reportAt, hlast]
    by_cases hp : polls < rest.length
    · -- Another report follows, so this one is taken off.
      have hnext : polls + 1 < (r :: rest).length := Nat.succ_lt_succ hp
      have hnow : polls < (r :: rest).length := Nat.lt_of_succ_lt hnext
      rw [Nat.min_eq_left (Nat.le_of_lt hp), Nat.min_eq_left hp, List.drop_eq_getElem_cons hnow,
        List.drop_eq_getElem_cons hnext, List.getElem?_eq_getElem hnow]
      rfl
    · -- This is the last report, and it stays.
      have hend : rest.length < (r :: rest).length := Nat.lt_succ_self _
      have hempty : (r :: rest).drop (rest.length + 1) = [] := List.drop_length
      rw [Nat.min_eq_right (Nat.not_lt.mp hp), Nat.min_eq_right (by omega),
        List.drop_eq_getElem_cons hend, hempty, List.getElem?_eq_getElem hend]
      rfl

/-! Identifiers. -/

/-- An identifier ends with the digits of its number, with zeros in front. -/
theorem toList_identifier (n : Nat) : ∃ zeros, (identifier n).toList =
    "00000000-0000-7000-8000-".toList ++
      (List.replicate zeros '0' ++ Nat.toDigits 16 (n % 0x1000000000000)) :=
  ⟨_, String.toList_append.trans (congrArg _ String.toList_ofList)⟩

theorem identifier_inj {m n : Nat} (hm : m < 0x1000000000000) (hn : n < 0x1000000000000)
    (h : identifier m = identifier n) : m = n := by
  obtain ⟨zeros, hdigits⟩ := toList_identifier m
  obtain ⟨zeros', hdigits'⟩ := toList_identifier n
  rw [← h, hdigits, List.append_cancel_left_eq] at hdigits'
  have hvalues := congrArg (Text.ofDigits 16) hdigits'
  rw [Text.ofDigits_zeros, Text.ofDigits_zeros, Text.ofDigits_toDigits (by decide) (by decide),
    Text.ofDigits_toDigits (by decide) (by decide)] at hvalues
  rwa [Nat.mod_eq_of_lt hm, Nat.mod_eq_of_lt hn] at hvalues

namespace Event

/-- The id that a submission was answered with. -/
def given? : Event → Option String
  | .submit _ _ _ (some (.ok h)) => some h.id
  | _ => none

def isSubmission : Event → Bool
  | .submit .. => true
  | _ => false

def isDeletion : Event → Bool
  | .delete .. => true
  | _ => false

def isPoll : Event → Bool
  | .status .. => true
  | _ => false

/-- The status was asked for under the id. -/
def polls (id : String) : Event → Bool
  | .status h _ _ => h.id = id
  | _ => false

end Event

namespace Simulation

/-- What can be asked of a simulation. -/
inductive Call
  | submit (name : String) (graph : Graph) (parameters : SortedMap String)
  | status (h : Handle)
  | outputs (h : Handle)
  | delete (h : Handle)

/-- The call with its answer, and the simulation after it. -/
def Call.made : Call → Simulation → Event × Simulation
  | submit name g p, s => (.submit name g p (some (s.submit name g).1.result), (s.submit name g).2)
  | status h, s => (.status h none (s.status h).1.result, (s.status h).2)
  | outputs h, s => (.outputs h (s.outputs h).1.result, (s.outputs h).2)
  | delete h, s => (.delete h (s.delete h).1.result, (s.delete h).2)

/-- The id that a call names. A submission names none, as its stack is new. -/
def Call.target? : Call → Option String
  | submit .. => none
  | status h | outputs h | delete h => some h.id

/-- The calls with their answers, the newest first, and the simulation after them. -/
def play (calls : List Call) (s : Simulation) : List Event × Simulation :=
  calls.foldl (fun played call => ((call.made played.2).1 :: played.1, (call.made played.2).2)) ([], s)

variable {start s s' : Simulation} {call : Call} {e : Event} {past : List Event} {id : String}

theorem play_append_singleton (calls : List Call) (call : Call) (s : Simulation) :
    s.play (calls ++ [call]) =
      ((call.made (s.play calls).2).1 :: (s.play calls).1, (call.made (s.play calls).2).2) := by
  simp [play]

/-- The script that an event loads for the stack of the id: that of creations when the stack is submitted,
that of deletions when its deletion is accepted. -/
def loaded? (s : Simulation) (id : String) : Event → Option (List Report)
  | .submit _ _ _ (some (.ok h)) => if h.id = id then some s.createScript else none
  | .delete h (.ok true) => if h.id = id then some s.deleteScript else none
  | _ => none

/-- The script that was loaded last. The newest event is the first. -/
def lastLoaded? (s : Simulation) (id : String) (past : List Event) : Option (List Report) :=
  past.findSome? (s.loaded? id)

/-- How often the stack was polled since a script was loaded for it. -/
def pollsSince (s : Simulation) (id : String) (past : List Event) : Nat :=
  (past.takeWhile fun e => (s.loaded? id e).isNone).countP (Event.polls id)

/-- What is left of the script of the stack. -/
def script? (s : Simulation) (id : String) : Option (List Report) :=
  (s.held.find? id).map SimulatedStack.script

theorem script?_of_insert {key : String} {stack : SimulatedStack}
    (h : s'.held = s.held.insert key stack) (id : String) :
    s'.script? id = if id = key then some stack.script else s.script? id := by
  rw [script?, h, SortedMap.find?_insert, apply_ite (Option.map SimulatedStack.script)]
  rfl

/-! A single call. -/

/-- All that a call can do. -/
inductive Answers (s : Simulation) : Call → Event → Simulation → Prop
  | submitted {name g p n outputs} (issued : s.issued ≤ n) :
      Answers s (.submit name g p) (.submit name g p (some (.ok ⟨identifier n, name⟩)))
        { s with
          submits := s.submits + 1
          issued := n + 1
          held := s.held.insert (identifier n) ⟨s.createScript, outputs⟩ }
  | polled {h stack} (found : s.held.find? h.id = some stack) :
      Answers s (.status h) (.status h none (.ok (nextReport stack.script).1))
        { s with
          polls := s.polls + 1
          held := s.held.insert h.id { stack with script := (nextReport stack.script).2 } }
  | pollUnknown {h} (missing : s.held.find? h.id = none) :
      Answers s (.status h) (.status h none (.error (unknownId h))) { s with polls := s.polls + 1 }
  | listed {h answer} : Answers s (.outputs h) (.outputs h answer) s
  | refused {h} (refusing : 0 < s.refusals) :
      Answers s (.delete h) (.delete h (.ok false))
        { s with deletes := s.deletes + 1, refusals := s.refusals - 1 }
  | accepted {h stack} (refusing : s.refusals = 0) (found : s.held.find? h.id = some stack) :
      Answers s (.delete h) (.delete h (.ok true))
        { s with
          deletes := s.deletes + 1
          held := s.held.insert h.id { stack with script := s.deleteScript } }
  | deleteUnknown {h} (refusing : s.refusals = 0) (missing : s.held.find? h.id = none) :
      Answers s (.delete h) (.delete h (.error (unknownId h))) { s with deletes := s.deletes + 1 }

theorem issued_makeUp (g : Graph) (value : Json) (supply : Supply) :
    supply.issued ≤ (makeUp g value supply).2.issued := by
  unfold makeUp
  split
  · exact Nat.le_succ _
  · dsimp only
    split_ifs <;> simp

theorem issued_makeUpAll (g : Graph) (es : List (String × Output)) (supply : Supply) :
    supply.issued ≤ (makeUpAll g es supply).2.issued := by
  induction es generalizing supply with
  | nil => exact Nat.le_refl _
  | cons e es ih => exact Nat.le_trans (issued_makeUp g e.2.value supply) (ih _)

theorem answers_made (call : Call) (s : Simulation) :
    Answers s call (call.made s).1 (call.made s).2 := by
  cases call with
  | submit name g p => exact .submitted (issued_makeUpAll g g.outputs.entries { issued := s.issued })
  | status h =>
    rw [Call.made, status]
    cases hfound : s.held.find? h.id with
    | none => exact .pollUnknown hfound
    | some stack => exact .polled hfound
  | outputs h =>
    rw [Call.made, outputs]
    cases s.held.find? h.id <;> exact .listed
  | delete h =>
    rw [Call.made, delete]
    by_cases hr : 0 < s.refusals
    · rw [if_pos hr]
      exact .refused hr
    · rw [if_neg hr]
      have hzero : s.refusals = 0 := Nat.eq_zero_of_not_pos hr
      cases hfound : s.held.find? h.id with
      | none => exact .deleteUnknown hzero hfound
      | some stack => exact .accepted hzero hfound

namespace Answers

theorem settings (h : Answers s call e s') :
    s'.createScript = s.createScript ∧ s'.deleteScript = s.deleteScript := by
  cases h <;> exact ⟨rfl, rfl⟩

/-- Every call is counted, and every deletion uses up a refusal if there is one left. -/
theorem counted (h : Answers s call e s') :
    s'.submits = s.submits + [e].countP Event.isSubmission ∧
      s'.deletes = s.deletes + [e].countP Event.isDeletion ∧
      s'.polls = s.polls + [e].countP Event.isPoll ∧
      s'.refusals = s.refusals - [e].countP Event.isDeletion := by
  cases h with
  | accepted hr | deleteUnknown hr => exact ⟨rfl, rfl, rfl, by rw [hr, Nat.zero_sub]⟩
  | _ => exact ⟨rfl, rfl, rfl, rfl⟩

/-- What a call does not name, and does not make, stays as it is. -/
theorem find?_of_ne (h : Answers s call e s') (ht : call.target? ≠ some id) (hg : e.given? ≠ some id) :
    s'.held.find? id = s.held.find? id := by
  cases h with
  | submitted =>
    exact (SortedMap.find?_insert ..).trans (if_neg fun he => hg (congrArg some he.symm))
  | polled | accepted =>
    exact (SortedMap.find?_insert ..).trans (if_neg fun he => ht (congrArg some he.symm))
  | _ => rfl

/-- Only a submission makes a stack, and none is ever forgotten. -/
theorem mem_keys (h : Answers s call e s') (id : String) :
    id ∈ s'.held.keys ↔ e.given? = some id ∨ id ∈ s.held.keys := by
  cases h with
  | submitted => exact (SortedMap.mem_keys_put ..).trans (by simp [Event.given?, eq_comm, SortedMap.keys])
  | polled found | accepted _ found =>
    have hmem := (SortedMap.find?_isSome _ _).mp (Option.isSome_of_eq_some found)
    have hnone : (none : Option String) ≠ some id := (Option.some_ne_none id).symm
    refine (SortedMap.mem_keys_put ..).trans ⟨fun hid => Or.inr ?_, fun hid => Or.inr ?_⟩
    · exact hid.elim (fun he => he ▸ hmem) fun hid => hid
    · exact hid.resolve_left hnone
  | _ => simp [Event.given?]

/-- An id that is given out is made of a number that was not used before. -/
theorem issued (h : Answers s call e s') : s.issued ≤ s'.issued ∧
    ∀ id, e.given? = some id → ∃ n, s.issued ≤ n ∧ n < s'.issued ∧ identifier n = id := by
  cases h with
  | submitted hn =>
    exact ⟨Nat.le_succ_of_le hn, fun id hid => ⟨_, hn, Nat.lt_succ_self _, Option.some.inj hid⟩⟩
  | _ => exact ⟨Nat.le_refl _, fun id hid => absurd hid (Option.some_ne_none id).symm⟩

/-- The script of a stack is loaded, or it is played on by a poll, or it stays as it is. -/
theorem script?_eq (h : Answers s call e s') (id : String) :
    s'.script? id = (s.loaded? id e).or
      (if e.polls id then (s.script? id).map fun script => (nextReport script).2 else s.script? id) := by
  cases h with
  | @submitted _ _ _ n =>
    rw [script?_of_insert rfl]
    by_cases hid : id = identifier n
    · simp [loaded?, hid]
    · simp [loaded?, Event.polls, hid, Ne.symm hid]
  | @polled h stack found =>
    rw [script?_of_insert rfl]
    by_cases hid : id = h.id
    · simp [loaded?, Event.polls, Simulation.script?, hid, found]
    · simp [loaded?, Event.polls, hid, Ne.symm hid]
  | @pollUnknown h missing =>
    by_cases hid : id = h.id
    · simp [loaded?, Simulation.script?, hid, missing]
    · simp [loaded?, Event.polls, Simulation.script?, Ne.symm hid]
  | @accepted h stack _ found =>
    rw [script?_of_insert rfl]
    by_cases hid : id = h.id
    · simp [loaded?, hid]
    · simp [loaded?, Event.polls, hid, Ne.symm hid]
  | _ => rfl

end Answers

/-- A deletion that is refused touches no stack. -/
theorem held_of_refused {h : Handle} (hr : (s.delete h).1.result = .ok false) :
    (s.delete h).2.held = s.held := by
  have hanswers := answers_made (.delete h) s
  rw [Call.made, hr] at hanswers
  generalize (s.delete h).2 = s' at hanswers ⊢
  cases hanswers with
  | refused => rfl

/-! A row of calls. -/

/-- A simulation that nobody has called. -/
structure Unused (s : Simulation) : Prop where
  held : s.held = ∅
  submits : s.submits = 0
  deletes : s.deletes = 0
  polls : s.polls = 0

/-- What past calls have made of a simulation that was unused at its start. -/
structure Played (start : Simulation) (past : List Event) (s : Simulation) : Prop where
  createScript : s.createScript = start.createScript
  deleteScript : s.deleteScript = start.deleteScript
  submits : s.submits = past.countP Event.isSubmission
  deletes : s.deletes = past.countP Event.isDeletion
  polls : s.polls = past.countP Event.isPoll
  refusals : s.refusals = start.refusals - past.countP Event.isDeletion
  keys : ∀ id, id ∈ s.held.keys ↔ id ∈ past.filterMap Event.given?
  issued : ∀ id ∈ past.filterMap Event.given?, ∃ n < s.issued, identifier n = id
  script : ∀ id, s.script? id =
    (start.lastLoaded? id past).map fun script => scriptAfter script (start.pollsSince id past)

theorem Unused.played (hs : s.Unused) : Played s [] s where
  createScript := rfl
  deleteScript := rfl
  submits := hs.submits
  deletes := hs.deletes
  polls := hs.polls
  refusals := rfl
  keys _ := by rw [hs.held]; rfl
  issued := nofun
  script _ := by rw [script?, hs.held]; rfl

namespace Played

theorem loaded?_eq (hp : Played start past s) (id : String) (e : Event) :
    s.loaded? id e = start.loaded? id e := by
  unfold Simulation.loaded?
  rw [hp.createScript, hp.deleteScript]

/-- A script that is loaded begins anew, and otherwise a poll takes its first report off. -/
theorem script?_eq (hp : Played start past s) (h : Answers s call e s') (id : String) :
    s'.script? id = (start.lastLoaded? id (e :: past)).map fun script =>
      scriptAfter script (start.pollsSince id (e :: past)) := by
  rw [h.script?_eq, hp.loaded?_eq, lastLoaded?, List.findSome?_cons, pollsSince, List.takeWhile_cons]
  cases start.loaded? id e with
  | some script => exact congrArg some (scriptAfter_zero script).symm
  | none =>
    rw [Option.none_or, hp.script]
    simp only [Option.isNone_none, if_true, List.countP_cons]
    split
    · rw [Option.map_map]
      exact congrArg (Option.map · _) (funext fun script => congrArg Prod.snd (nextReport_scriptAfter ..))
    · rfl

/-- One more call. -/
theorem step (hp : Played start past s) (h : Answers s call e s') : Played start (e :: past) s' := by
  obtain ⟨hcreate, hdelete⟩ := h.settings
  obtain ⟨hsubmits, hdeletes, hpolls, hrefusals⟩ := h.counted
  have hcons (p : Event → Bool) : (e :: past).countP p = past.countP p + [e].countP p := by
    rw [List.countP_cons, List.countP_singleton]
  have hgiven (id : String) : id ∈ (e :: past).filterMap Event.given? ↔
      e.given? = some id ∨ id ∈ past.filterMap Event.given? := by
    simp only [List.mem_filterMap, List.exists_mem_cons_iff]
  obtain ⟨hle, hnew⟩ := h.issued
  refine ⟨hcreate.trans hp.createScript, hdelete.trans hp.deleteScript, ?_, ?_, ?_, ?_, fun id => ?_,
    fun id hid => ?_, hp.script?_eq h⟩
  · rw [hsubmits, hp.submits, hcons]
  · rw [hdeletes, hp.deletes, hcons]
  · rw [hpolls, hp.polls, hcons]
  · rw [hrefusals, hp.refusals, hcons, Nat.sub_sub]
  · rw [h.mem_keys, hp.keys, hgiven]
  · rcases (hgiven id).mp hid with hid | hid
    · obtain ⟨n, -, hlt, he⟩ := hnew id hid
      exact ⟨n, hlt, he⟩
    · obtain ⟨n, hlt, he⟩ := hp.issued id hid
      exact ⟨n, Nat.lt_of_lt_of_le hlt hle, he⟩

end Played

/-- Any calls at all. -/
theorem played_play (hs : start.Unused) {calls : List Call} (hplay : start.play calls = (past, s)) :
    Played start past s := by
  induction calls using List.reverseRecOn generalizing past s with
  | nil =>
    cases hplay
    exact hs.played
  | append_singleton calls call ih =>
    rw [play_append_singleton] at hplay
    cases hplay
    exact (ih rfl).step (answers_made call _)

/-- As long as no more than `2 ^ 48` identifiers are given out, every submission is answered with one that
is new. -/
theorem given_fresh (hs : start.Unused) {calls : List Call} (hplay : start.play calls = (past, s))
    (call : Call) (hissued : (call.made s).2.issued ≤ 2 ^ 48) :
    ∀ id, (call.made s).1.given? = some id → id ∉ past.filterMap Event.given? := by
  obtain ⟨hle, hgiven⟩ := (answers_made call s).issued
  intro id hid hpast
  obtain ⟨n, hn, hlt, rfl⟩ := hgiven id hid
  obtain ⟨m, hm, he⟩ := (played_play hs hplay).issued _ hpast
  have hsame : m = n := identifier_inj (by omega) (by omega) he
  omega

namespace Played

/-- The next poll is told the place of the script that the polls before it have come to. -/
theorem status_result (hp : Played start past s) (h : Handle) :
    (s.status h).1.result =
      match start.lastLoaded? h.id past with
      | some script => .ok (reportAt script (start.pollsSince h.id past))
      | none => .error (unknownId h) := by
  have hscript := hp.script h.id
  rw [script?] at hscript
  rw [Simulation.status]
  cases hfound : s.held.find? h.id with
  | none =>
    rw [hfound, Option.map_none, eq_comm, Option.map_eq_none_iff] at hscript
    rw [hscript]
  | some stack =>
    rw [hfound, Option.map_some, eq_comm, Option.map_eq_some_iff] at hscript
    obtain ⟨script, hloaded, hleft⟩ := hscript
    rw [hloaded]
    dsimp only
    rw [← hleft, nextReport_scriptAfter]

/-- The first deletions are refused, and those after them are accepted if there is such a stack. -/
theorem delete_result (hp : Played start past s) (h : Handle) :
    (s.delete h).1.result =
      if past.countP Event.isDeletion < start.refusals then .ok false
      else if h.id ∈ past.filterMap Event.given? then .ok true
      else .error (unknownId h) := by
  have hleft : 0 < s.refusals ↔ past.countP Event.isDeletion < start.refusals := by
    rw [hp.refusals, Nat.sub_pos_iff_lt]
  have hheld := hp.keys h.id
  rw [← SortedMap.find?_isSome] at hheld
  simp only [Simulation.delete, ← hleft, ← hheld]
  split
  · rfl
  · cases s.held.find? h.id <;> rfl

end Played

/-- After any calls to a simulation that was unused before: every submission is accepted. The next poll of a
stack is told the script that was loaded for it last, at the place of as many polls as there were of this
stack since, and no other call counts for that. A deletion is refused if and only if fewer were asked for than
the simulation was to refuse, and then no stack is touched. A call about one stack leaves every other one with
its script and its outputs, a submission every stack that there is if its id is new. All calls are counted. -/
theorem played_back (hs : start.Unused) {calls : List Call} (hplay : start.play calls = (past, s)) :
    (∀ name g, ∃ id, (s.submit name g).1.result = .ok ⟨id, name⟩) ∧
    (∀ h, (s.status h).1.result =
      match start.lastLoaded? h.id past with
      | some script => .ok (reportAt script (start.pollsSince h.id past))
      | none => .error (unknownId h)) ∧
    (∀ h, (s.delete h).1.result =
      if past.countP Event.isDeletion < start.refusals then .ok false
      else if h.id ∈ past.filterMap Event.given? then .ok true
      else .error (unknownId h)) ∧
    (∀ h, (s.delete h).1.result = .ok false → (s.delete h).2.held = s.held) ∧
    (∀ call : Call, (∀ id, (call.made s).1.given? = some id → id ∉ past.filterMap Event.given?) →
      ∀ id stack, call.target? ≠ some id → s.held.find? id = some stack →
        (call.made s).2.held.find? id = some stack) ∧
    s.submits = past.countP Event.isSubmission ∧ s.deletes = past.countP Event.isDeletion ∧
      s.polls = past.countP Event.isPoll := by
  have hp := played_play hs hplay
  refine ⟨fun name g => ⟨_, rfl⟩, hp.status_result, hp.delete_result, fun h => held_of_refused,
    fun call hfresh id stack ht hheld => ?_, hp.submits, hp.deletes, hp.polls⟩
  have hid : id ∈ s.held.keys := (SortedMap.find?_isSome _ _).mp (Option.isSome_of_eq_some hheld)
  have hold : (call.made s).1.given? ≠ some id := fun hnew => hfresh id hnew ((hp.keys id).mp hid)
  exact ((answers_made call s).find?_of_ne ht hold).trans hheld

/-- A simulation that refuses one deletion, and has nothing to say of those that it accepts. -/
def reluctant : Simulation where
  createScript := [⟨"CREATE_IN_PROGRESS", none⟩, ⟨"CREATE_COMPLETE", none⟩]
  deleteScript := []
  refusals := 1

def firstHandle : Handle := ⟨identifier 0, "one"⟩
def secondHandle : Handle := ⟨identifier 1, "two"⟩

/-- Two stacks are polled in turn. The deletion of the second is refused, and that of the first accepted. -/
def mixedCalls : List Call :=
  [.submit "one" {} ∅, .submit "two" {} ∅, .status firstHandle, .status secondHandle,
    .delete secondHandle, .delete firstHandle, .status firstHandle, .status secondHandle]

theorem played_back_sample : ∃ past s, reluctant.Unused ∧ reluctant.play mixedCalls = (past, s) ∧
    (s.status firstHandle).1.result = .ok ⟨"DELETE_COMPLETE", none⟩ ∧
    (s.status secondHandle).1.result = .ok ⟨"CREATE_COMPLETE", none⟩ ∧
    (s.delete secondHandle).1.result = .ok true ∧
    (∃ stack, s.held.find? secondHandle.id = some stack ∧
      ((Call.submit "three" {} ∅).made s).2.held.find? secondHandle.id = some stack) ∧
    s.submits = 2 ∧ s.deletes = 2 ∧ s.polls = 4 := by
  have hunused : reluctant.Unused := ⟨rfl, rfl, rfl, rfl⟩
  have hplay : reluctant.play mixedCalls = _ := rfl
  have hissued : ((Call.submit "three" {} ∅).made (reluctant.play mixedCalls).2).2.issued ≤ 2 ^ 48 :=
    (by decide : 3 ≤ 2 ^ 48)
  obtain ⟨-, hstatus, hdelete, -, hothers, hsubmits, hdeletes, hpolls⟩ := played_back hunused hplay
  refine ⟨_, _, hunused, hplay, (hstatus firstHandle).trans rfl, (hstatus secondHandle).trans rfl,
    (hdelete secondHandle).trans rfl, ⟨_, rfl, ?_⟩, hsubmits, hdeletes, hpolls⟩
  exact hothers (.submit "three" {} ∅) (given_fresh hunused hplay _ hissued) _ _ nofun rfl

end Simulation
end Provision
