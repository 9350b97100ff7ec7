import Mathlib.Data.List.Forall2
import Provision.Proofs.Json.Tokens

/-! Compact text is read back as the value it was written for: for each kind of value, whatever text comes
after it, and from this for whole documents by induction on the value. -/
namespace Provision.Json

/-- Every part has a value of its own in text: numbers are integers of sixty-four bits, and no object
repeats a key. -/
inductive Plain : Json → Prop
  | null : Plain null
  | bool (b : Bool) : Plain (bool b)
  | int {n : Int} (h : isInteger n = true) : Plain (int n)
  | str (s : String) : Plain (str s)
  | arr {items : List Json} (h : ∀ x ∈ items, Plain x) : Plain (arr items)
  | obj {members : List (String × Json)} (keys : (members.map Prod.fst).Nodup)
      (h : ∀ m ∈ members, Plain m.2) : Plain (obj members)

theorem plain_int {n : Int} : (int n).Plain ↔ isInteger n = true :=
  ⟨fun h => by cases h; assumption, .int⟩

theorem plain_arr {items : List Json} : (arr items).Plain ↔ ∀ x ∈ items, x.Plain :=
  ⟨fun h => by cases h; assumption, .arr⟩

theorem plain_obj {members : List (String × Json)} :
    (obj members).Plain ↔ (members.map Prod.fst).Nodup ∧ ∀ m ∈ members, m.2.Plain :=
  ⟨fun h => by cases h; exact ⟨by assumption, by assumption⟩, fun h => .obj h.1 h.2⟩

/-- The text begins, without any space, with something that does not end an array. -/
def Starts (text : List Char) : Prop :=
  ∃ c tail, text = c :: tail ∧ isSpace c = false ∧ c ≠ ']'

/-- The text of the value is found in front of any other text. Every character of it may take two steps of
the reader. -/
structure Reads (v : Json) : Prop where
  starts : ∀ rest, Starts (write v rest)
  longer : ∀ rest, rest.length < (write v rest).length
  back : ∀ (fuel : Nat) (rest : List Char), Ends rest →
    2 * (write v rest).length ≤ fuel + 2 * rest.length → readValue? fuel (write v rest) = some (v, rest)

section
variable {text rest : List Char}

theorem skipSpace_cons {c : Char} (h : isSpace c = false) (tail : List Char) :
    skipSpace (c :: tail) = c :: tail := by
  simp [skipSpace, h]

theorem Starts.skipSpace_eq (h : Starts text) : skipSpace text = text := by
  obtain ⟨c, tail, rfl, hc, -⟩ := h
  exact skipSpace_cons hc tail

theorem Starts.ne_bracket (h : Starts text) (tail : List Char) : text ≠ ']' :: tail := by
  obtain ⟨c, tail', rfl, -, hc⟩ := h
  intro he
  exact hc (List.cons.inj he).1

theorem ends_nil : Ends [] := nofun

theorem ends_writeItems (xs : List Json) (rest : List Char) : Ends (writeItems xs rest) := by
  cases xs <;> simp only [writeItems, Ends, List.head?_cons, Option.mem_some_iff, forall_eq'] <;> decide

theorem ends_writeMembers (ms : List (String × Json)) (rest : List Char) : Ends (writeMembers ms rest) := by
  cases ms <;> simp only [writeMembers, Ends, List.head?_cons, Option.mem_some_iff, forall_eq'] <;> decide

/-- The reader needs at least one step for a value. -/
theorem Reads.of_succ {v : Json} (starts : ∀ rest, Starts (write v rest))
    (longer : ∀ rest, rest.length < (write v rest).length)
    (back : ∀ (fuel : Nat) (rest : List Char), Ends rest →
      2 * (write v rest).length ≤ fuel + 1 + 2 * rest.length →
      readValue? (fuel + 1) (write v rest) = some (v, rest)) : Reads v where
  starts := starts
  longer := longer
  back fuel rest hends hfuel := by
    have hlonger := longer rest
    cases fuel with
    | zero => omega
    | succ fuel => exact back fuel rest hends hfuel

/-- One step of a reader of parts leaves enough for the first part. -/
theorem Reads.first {x : Json} (hx : Reads x) (hends : Ends text) (hrest : rest.length < text.length)
    (fuel : Nat) (hfuel : 2 * (write x text).length + 1 ≤ fuel + 2 * rest.length) :
    ∃ n, fuel = n + 1 ∧ readValue? n (write x text) = some (x, text) := by
  have hlonger := hx.longer text
  exact ⟨fuel - 1, by omega, hx.back (fuel - 1) text hends (by omega)⟩

/-! Values without parts. -/

theorem Reads.null : Reads null :=
  .of_succ (fun _ => ⟨'n', _, rfl, by decide, by decide⟩)
    (fun rest => show rest.length < rest.length + 4 by omega) fun _ _ _ _ => by rfl

theorem Reads.bool (b : Bool) : Reads (bool b) := by
  cases b with
  | false =>
    exact .of_succ (fun _ => ⟨'f', _, rfl, by decide, by decide⟩)
      (fun rest => show rest.length < rest.length + 5 by omega) fun _ _ _ _ => by rfl
  | true =>
    exact .of_succ (fun _ => ⟨'t', _, rfl, by decide, by decide⟩)
      (fun rest => show rest.length < rest.length + 4 by omega) fun _ _ _ _ => by rfl

/-- An integer begins with its sign or with a digit. -/
theorem exists_writeInt (n : Int) (rest : List Char) :
    ∃ c tail, writeInt n rest = c :: tail ∧ rest.length ≤ tail.length ∧
      (c = '-' ∨ Text.isDigitIn 10 c = true) := by
  cases n with
  | negSucc m => exact ⟨'-', _, rfl, by simp, .inl rfl⟩
  | ofNat m =>
    obtain ⟨c, tail, hc⟩ := List.exists_cons_of_ne_nil (Nat.toDigits_ne_nil (n := m) (b := 10))
    refine ⟨c, tail ++ rest, by rw [writeInt, hc]; rfl, by simp, .inr ?_⟩
    exact Text.isDigitIn_of_mem_toDigits (by decide) (by decide) (hc ▸ List.mem_cons_self)

theorem writeInt_ne {d : Char} (hd : d ≠ '-' ∧ Text.isDigitIn 10 d = false) (n : Int)
    (tail : List Char) : writeInt n rest ≠ d :: tail := by
  obtain ⟨c, tail', hc, -, hdigit⟩ := exists_writeInt n rest
  rw [hc]
  intro he
  obtain rfl := (List.cons.inj he).1
  rcases hdigit with rfl | hdigit
  · exact hd.1 rfl
  · rw [hd.2] at hdigit
    cases hdigit

theorem starts_writeInt (n : Int) (rest : List Char) : Starts (writeInt n rest) := by
  obtain ⟨c, tail, hc, -, -⟩ := exists_writeInt n rest
  refine ⟨c, tail, hc, ?_, ?_⟩
  · cases hspace : isSpace c with
    | false => rfl
    | true =>
      have hcases : ((c = ' ' ∨ c = '\n') ∨ c = '\t') ∨ c = '\r' := by simpa [isSpace] using hspace
      rcases hcases with ((rfl | rfl) | rfl) | rfl <;> exact absurd hc (writeInt_ne (by decide) n tail)
  · rintro rfl
    exact writeInt_ne (by decide) n tail hc

theorem Reads.int {n : Int} (h : isInteger n = true) : Reads (int n) := by
  refine .of_succ (starts_writeInt n) (fun rest => ?_) fun fuel rest hends _ => ?_
  · obtain ⟨c, tail, hc, hlength, -⟩ := exists_writeInt n rest
    change rest.length < (writeInt n rest).length
    rw [hc]
    exact Nat.lt_succ_of_le hlength
  · change readValue? (fuel + 1) (writeInt n rest) = _
    rw [readValue?, readNumeral?_writeInt n hends]
    · exact congrArg (fun v => some (v, rest)) (value_writeInt h)
    all_goals exact fun tail => writeInt_ne (by decide) n _

theorem length_lt_writeChars (cs rest : List Char) : rest.length < (writeChars cs rest).length := by
  induction cs with
  | nil => simp [writeChars]
  | cons c cs ih => rw [writeChars, List.length_append]; omega

theorem Reads.str (s : String) : Reads (str s) := by
  refine .of_succ (fun rest => ⟨'"', writeChars s.toList rest, rfl, by decide, by decide⟩)
    (fun rest => ?_) fun fuel rest _ _ => ?_
  · exact Nat.lt_succ_of_lt (length_lt_writeChars s.toList rest)
  · change readValue? (fuel + 1) ('"' :: writeChars s.toList rest) = _
    rw [readValue?, readString?_writeChars]

/-! Arrays. -/

theorem length_lt_writeItems {xs : List Json} (h : ∀ x ∈ xs, Reads x) (rest : List Char) :
    rest.length < (writeItems xs rest).length := by
  induction xs with
  | nil => simp [writeItems]
  | cons x xs ih =>
    have hx := (h x List.mem_cons_self).longer (writeItems xs rest)
    have hxs := ih fun y hy => h y (List.mem_cons_of_mem _ hy)
    rw [writeItems, List.length_cons]
    omega

theorem readItems?_write {x : Json} {xs : List Json} (hx : Reads x) (h : ∀ y ∈ xs, Reads y)
    (fuel : Nat) (rest : List Char)
    (hfuel : 2 * (write x (writeItems xs rest)).length + 1 ≤ fuel + 2 * rest.length) :
    readItems? fuel (write x (writeItems xs rest)) = some (x :: xs, rest) := by
  induction xs generalizing x fuel with
  | nil =>
    obtain ⟨fuel, rfl, hvalue⟩ :=
      hx.first (ends_writeItems [] rest) (length_lt_writeItems h rest) fuel hfuel
    rw [readItems?, hvalue]
    rfl
  | cons y ys ih =>
    obtain ⟨hy, hys⟩ := List.forall_mem_cons.mp h
    obtain ⟨fuel, rfl, hvalue⟩ :=
      hx.first (ends_writeItems (y :: ys) rest) (length_lt_writeItems h rest) fuel hfuel
    have hlonger := hx.longer (writeItems (y :: ys) rest)
    have hcomma : (writeItems (y :: ys) rest).length = (write y (writeItems ys rest)).length + 1 := rfl
    have hmore := ih hy hys fuel (by omega)
    rw [readItems?, hvalue]
    simp only [writeItems, skipSpace_cons (show isSpace ',' = false by decide),
      (hy.starts (writeItems ys rest)).skipSpace_eq, hmore]

theorem Reads.arr {items : List Json} (h : ∀ x ∈ items, Reads x) : Reads (arr items) := by
  cases items with
  | nil =>
    exact .of_succ (fun _ => ⟨'[', _, rfl, by decide, by decide⟩)
      (fun rest => show rest.length < rest.length + 2 by omega) fun _ _ _ _ => by rfl
  | cons x xs =>
    obtain ⟨hx, hxs⟩ := List.forall_mem_cons.mp h
    refine .of_succ (fun _ => ⟨'[', _, rfl, by decide, by decide⟩) (fun rest => ?_)
      fun fuel rest _ hfuel => ?_
    · have hlonger := hx.longer (writeItems xs rest)
      have hrest := length_lt_writeItems hxs rest
      simp only [write, List.length_cons]
      omega
    · have hstarts := hx.starts (writeItems xs rest)
      simp only [write, List.length_cons] at hfuel
      have hitems := readItems?_write hx hxs fuel rest (by omega)
      rw [write, readValue?, hstarts.skipSpace_eq]
      split
      · next tail htail => exact absurd htail (hstarts.ne_bracket tail)
      · rw [hitems]

/-! Objects. -/

theorem length_lt_writeString (s : String) (rest : List Char) :
    rest.length + 1 < (writeString s rest).length :=
  Nat.succ_lt_succ (length_lt_writeChars s.toList rest)

theorem length_lt_writeMembers {ms : List (String × Json)} (h : ∀ m ∈ ms, Reads m.2)
    (rest : List Char) : rest.length < (writeMembers ms rest).length := by
  induction ms with
  | nil => simp [writeMembers]
  | cons m ms ih =>
    obtain ⟨hm, hms⟩ := List.forall_mem_cons.mp h
    have hvalue := hm.longer (writeMembers ms rest)
    have hkey : (write m.2 (writeMembers ms rest)).length + 2 < _ :=
      length_lt_writeString m.1 (':' :: _)
    have hrest := ih hms
    rw [writeMembers, List.length_cons]
    omega

theorem readMembers?_write (key : String) {x : Json} {ms : List (String × Json)} (hx : Reads x)
    (h : ∀ m ∈ ms, Reads m.2) (fuel : Nat) (rest : List Char)
    (hfuel : 2 * (writeString key (':' :: write x (writeMembers ms rest))).length + 1 ≤
      fuel + 2 * rest.length) :
    readMembers? fuel (writeString key (':' :: write x (writeMembers ms rest))) =
      some (((key, x) :: ms).map (fun m => (some m.1, m.2)), rest) := by
  have hcolon : isSpace ':' = false := by decide
  induction ms generalizing key x fuel with
  | nil =>
    have hkey : (write x (writeMembers [] rest)).length + 2 < _ := length_lt_writeString key (':' :: _)
    obtain ⟨fuel, rfl, hvalue⟩ :=
      hx.first (ends_writeMembers [] rest) (length_lt_writeMembers h rest) fuel (by omega)
    rw [writeString, readMembers?, readString?_writeChars]
    simp only [skipSpace_cons hcolon, (hx.starts (writeMembers [] rest)).skipSpace_eq, hvalue]
    rfl
  | cons m ms ih =>
    obtain ⟨hm, hms⟩ := List.forall_mem_cons.mp h
    have hkey : (write x (writeMembers (m :: ms) rest)).length + 2 < _ :=
      length_lt_writeString key (':' :: _)
    obtain ⟨fuel, rfl, hvalue⟩ :=
      hx.first (ends_writeMembers (m :: ms) rest) (length_lt_writeMembers h rest) fuel (by omega)
    have hlonger := hx.longer (writeMembers (m :: ms) rest)
    have hcomma : (writeMembers (m :: ms) rest).length =
      (writeString m.1 (':' :: write m.2 (writeMembers ms rest))).length + 1 := rfl
    have hmore := ih m.1 hm hms fuel (by omega)
    rw [writeString, readMembers?, readString?_writeChars]
    simp only [skipSpace_cons hcolon, (hx.starts (writeMembers (m :: ms) rest)).skipSpace_eq, hvalue]
    simp only [writeMembers, skipSpace_cons (show isSpace ',' = false by decide)]
    rw [writeString, skipSpace_cons (by decide), ← writeString, hmore]
    rfl

/-- A list is read item by item. -/
theorem mapM_eq_some_iff {α β : Type} {f : α → Option β} {xs : List α} {ys : List β} :
    xs.mapM f = some ys ↔ List.Forall₂ (fun x y => f x = some y) xs ys := by
  induction xs generalizing ys with
  | nil =>
    rw [List.forall₂_nil_left_iff]
    exact Option.some_inj.trans eq_comm
  | cons x xs ih =>
    rw [List.mapM_cons, List.forall₂_cons_left_iff]
    constructor
    · intro h
      obtain ⟨y, hy, h⟩ := Option.bind_eq_some_iff.mp h
      obtain ⟨ys', hys, h⟩ := Option.bind_eq_some_iff.mp h
      exact ⟨y, ys', hy, ih.mp hys, (Option.some.inj h).symm⟩
    · rintro ⟨y, ys', hy, hys, rfl⟩
      rw [hy, ih.mpr hys]
      rfl

theorem mapM_map_eq_some {α β : Type} {f : α → β} {g : β → Option α} {xs : List α}
    (h : ∀ x ∈ xs, g (f x) = some x) : (xs.map f).mapM g = some xs := by
  rw [mapM_eq_some_iff, List.forall₂_map_left_iff, List.forall₂_same]
  exact h

theorem ofMembers_map_some (ms : List (String × Json)) :
    ofMembers (ms.map fun m => (some m.1, m.2)) = obj ms := by
  have hkeys : (ms.map fun m => (some m.1, m.2)).mapM (fun m => m.1.map (·, m.2)) = some ms :=
    mapM_map_eq_some fun _ _ => rfl
  rw [ofMembers, hkeys]

theorem Reads.obj {members : List (String × Json)} (h : ∀ m ∈ members, Reads m.2) :
    Reads (obj members) := by
  cases members with
  | nil =>
    exact .of_succ (fun _ => ⟨'\x7b', _, rfl, by decide, by decide⟩)
      (fun rest => show rest.length < rest.length + 2 by omega) fun _ _ _ _ => by rfl
  | cons m ms =>
    obtain ⟨hm, hms⟩ := List.forall_mem_cons.mp h
    refine .of_succ (fun _ => ⟨'\x7b', _, rfl, by decide, by decide⟩) (fun rest => ?_)
      fun fuel rest _ hfuel => ?_
    · have hkey : (write m.2 (writeMembers ms rest)).length + 2 < _ :=
        length_lt_writeString m.1 (':' :: _)
      have hlonger := hm.longer (writeMembers ms rest)
      have hrest := length_lt_writeMembers hms rest
      rw [write, List.length_cons]
      omega
    · simp only [write, List.length_cons] at hfuel
      have hmembers := readMembers?_write m.1 hm hms fuel rest (by omega)
      rw [write, readValue?, writeString, skipSpace_cons (by decide), ← writeString]
      split
      · next tail htail => exact absurd htail (by rw [writeString]; simp)
      · simp only [hmembers, ofMembers_map_some]

end

theorem Plain.reads {v : Json} (h : v.Plain) : Reads v := by
  induction h with
  | null => exact .null
  | bool b => exact .bool b
  | int h => exact .int h
  | str s => exact .str s
  | arr _ ih => exact .arr ih
  | obj _ _ ih => exact .obj ih

/-- A document is read back as the value it was written for. -/
theorem parse?_compact_of_reads {v : Json} (h : Reads v) : parse? (compact v) = some v := by
  have hread := h.back (2 * (write v []).length + 2) [] ends_nil (by simp)
  rw [parse?, compact, String.toList_ofList, (h.starts []).skipSpace_eq, hread]
  rfl

theorem parse?_compact {v : Json} (h : v.Plain) : parse? (compact v) = some v :=
  parse?_compact_of_reads h.reads

end Provision.Json
