import Provision.Declaration.Reader
import Provision.Proofs.Json.Records

/-! A declaration is the same whether it is read from a value or from the text of the value: the room that
text leaves for nesting makes no difference to a value that fits, and tables keep the order of their keys. -/
namespace Provision

open Json

namespace Json
variable {α : Type} {read : Nat → Json → Option α} {x : Json} {room room' : Nat}

/-- Room beyond what a value needs makes no difference to the reader. -/
def Stable (read : Nat → Json → Option α) : Prop :=
  ∀ {x : Json} {room room' : Nat}, x.height ≤ room → x.height ≤ room' → read room x = read room' x

theorem Stable.optional_field (h : Stable read) {names : List String} {fs : List (Option Json)}
    (hfields : x.fields? names = some fs) {field : Option Json} (hfield : field ∈ fs)
    (hx : x.height ≤ room) (hx' : x.height ≤ room') :
    optional (read (room - 1)) field = optional (read (room' - 1)) field :=
  optional_congr fun v hv => by
    have hlt := height_of_fields? hfields (hv ▸ hfield)
    exact h (by omega) (by omega)

theorem Stable.table_field (h : Stable read) {names : List String} {fs : List (Option Json)}
    (hfields : x.fields? names = some fs) {field : Option Json} (hfield : field ∈ fs)
    (hx : x.height ≤ room) (hx' : x.height ≤ room') :
    withDefault ∅ (orderedMap? (read (room - 2))) field =
      withDefault ∅ (orderedMap? (read (room' - 2))) field :=
  withDefault_congr fun v hv => orderedMap?_congr fun w hw => by
    have hlt := height_of_fields? hfields (hv ▸ hfield)
    exact h (by omega) (by omega)

end Json

theorem NameList.stable : Stable NameList.read := fun {x _ _} h h' => by
  rw [NameList.read, NameList.read, fits_congr x h h']

theorem Flavor.stable : Stable Flavor.read := fun {x _ _} h h' => by
  rw [Flavor.read, Flavor.read, fits_congr x h h']

theorem Volume.stable : Stable Volume.read := fun {x _ _} h h' => by
  unfold Volume.read
  rw [fits_congr x h h']

theorem ServerDeclaration.stable : Stable ServerDeclaration.read := fun {x room room'} h h' => by
  unfold ServerDeclaration.read
  split
  · next image flavor user instances floatingIp placement serverGroup networks volume volumeMountpoint
      availabilityZone userData hfields =>
    have hflavor := Flavor.stable.optional_field hfields (show flavor ∈ _ by simp) h h'
    have hplacement := NameList.stable.optional_field hfields (show placement ∈ _ by simp) h h'
    have hvolume := Volume.stable.optional_field hfields (show volume ∈ _ by simp) h h'
    rw [hflavor, hplacement, hvolume]
  · rfl

theorem ContextDeclaration.stable : Stable ContextDeclaration.read := fun {x room room'} h h' => by
  unfold ContextDeclaration.read
  split
  · next name image flavor user publicKey timeout parameters placementGroups serverGroups networks
      servers hfields =>
    have hflavor := Flavor.stable.optional_field hfields (show flavor ∈ _ by simp) h h'
    have hservers := ServerDeclaration.stable.table_field hfields (show servers ∈ _ by simp) h h'
    rw [hflavor, hservers]
  · rfl

/-- Text and value say the same of a context that does not nest too deep for text. -/
theorem ContextDeclaration.readText_compact {x : Json} (hx : x.Plain) (h : x.height ≤ maxDepth) :
    readText ContextDeclaration.read (compact x) = readValue ContextDeclaration.read x := by
  rw [readText, parse?_compact hx]
  exact ContextDeclaration.stable h (Nat.le_refl _)

/-! The order of keys. -/

namespace Json
variable {α : Type} {x : Json}

/-- The value given for a field: the item at its place in an array, or the member of its name. -/
def given (place : Nat) (name : String) : Json → Option Json
  | arr items => items[place]?
  | x => x.member? name

/-- The keys of an object in their order. -/
def keys : Json → List String
  | obj members => members.map Prod.fst
  | _ => []

/-- The keys of the object given for a field. -/
def keysGiven (place : Nat) (name : String) (x : Json) : List String :=
  ((x.given place name).map keys).getD []

theorem getElem?_fields? {names : List String} {fs : List (Option Json)} (h : x.fields? names = some fs)
    {place : Nat} {name : String} (hname : names[place]? = some name) :
    fs[place]? = some (x.given place name) := by
  cases x with
  | obj members =>
    rw [fields?] at h
    split at h
    · cases h
      rw [List.getElem?_map, hname]
      rfl
    · cases h
  | arr items =>
    rw [fields?] at h
    split at h
    · next hlength =>
      cases h
      have hplace := (List.getElem?_eq_some_iff.mp hname).1
      rw [given, List.getElem?_append, List.getElem?_replicate, List.length_map]
      by_cases hitem : place < items.length
      · rw [if_pos hitem, List.getElem?_map, List.getElem?_eq_getElem hitem]
        rfl
      · rw [if_neg hitem, if_pos (by omega), List.getElem?_eq_none (Nat.le_of_not_lt hitem)]
    · cases h
  | null | bool | int | real | str | invalid => cases h

theorem given_of_fields? {names : List String} {fs : List (Option Json)} (h : x.fields? names = some fs)
    {place : Nat} {name : String} {field : Option Json} (hname : names[place]? = some name)
    (hfield : fs[place]? = some field) : x.given place name = field :=
  Option.some.inj ((getElem?_fields? h hname).symm.trans hfield)

theorem Plain.of_given (hx : x.Plain) {place : Nat} {name : String} {v : Json}
    (h : x.given place name = some v) : v.Plain := by
  cases hx with
  | null | bool | int | str => cases h
  | arr hitems => exact hitems v (List.mem_of_getElem? h)
  | obj _ hmembers =>
    obtain ⟨m, hm, rfl⟩ := Option.map_eq_some_iff.mp h
    exact hmembers m (List.mem_of_find?_eq_some hm)

theorem keys_of_entries? {read : Json → Option α} {es : List (String × α)}
    (h : entries? read x = some es) : es.map Prod.fst = x.keys := by
  cases x with
  | obj members =>
    rw [entries?] at h
    rw [keys]
    induction members generalizing es with
    | nil =>
      cases h
      rfl
    | cons m ms ih =>
      simp only [List.mapM_cons, Option.bind_eq_bind, Option.bind_eq_some_iff,
        Option.map_eq_some_iff] at h
      obtain ⟨_, ⟨a, -, rfl⟩, rest, hrest, h⟩ := h
      cases h
      rw [List.map_cons, List.map_cons, ih hrest]
  | null | bool | int | real | str | arr | invalid => cases h

theorem keys_of_orderedMap? {read : Json → Option α} {m : OrderedMap α} (hx : x.Plain)
    (h : orderedMap? read x = some m) : m.keys = x.keys := by
  obtain ⟨es, hes, rfl⟩ := Option.map_eq_some_iff.mp h
  have hkeys := keys_of_entries? hes
  have hnodup : (es.map Prod.fst).Nodup := by
    rw [hkeys]
    cases hx with
    | obj hn _ => exact hn
    | null | bool | int | str | arr => exact List.nodup_nil
  rw [OrderedMap.keys, OrderedMap.entries_ofList hnodup, hkeys]

theorem keys_of_withDefault {read : Json → Option α} {m : OrderedMap α} {place : Nat} {name : String}
    (hx : x.Plain) (h : withDefault ∅ (orderedMap? read) (x.given place name) = some m) :
    m.keys = x.keysGiven place name := by
  rw [keysGiven]
  cases hv : x.given place name with
  | none =>
    rw [hv] at h
    cases h
    rfl
  | some v =>
    rw [hv] at h
    exact keys_of_orderedMap? (hx.of_given hv) h

end Json

/-- The tables of a context are those given for their fields. -/
theorem ContextDeclaration.read_tables {x : Json} {room : Nat} {c : ContextDeclaration}
    (h : ContextDeclaration.read room x = some c) :
    withDefault ∅ (orderedMap? GroupDeclaration.read) (x.given 7 "placement_groups") =
      some c.placementGroups ∧
    withDefault ∅ (orderedMap? GroupDeclaration.read) (x.given 8 "server_groups") = some c.serverGroups ∧
    withDefault ∅ (orderedMap? NetworkDeclaration.read) (x.given 9 "networks") = some c.networks ∧
    withDefault ∅ (orderedMap? (ServerDeclaration.read (room - 2))) (x.given 10 "servers") =
      some c.servers := by
  unfold ContextDeclaration.read at h
  split at h
  · next name image flavor user publicKey timeout parameters placementGroups serverGroups networks
      servers hfields =>
    -- Seven fields are read before the tables.
    simp only [Option.bind_eq_bind, Option.bind_eq_some_iff] at h
    obtain ⟨_, -, _, -, _, -, _, -, _, -, _, -, _, -, _, hplacement, _, hgroups, _, hnetworks, _, hservers,
      h⟩ := h
    cases h
    rw [given_of_fields? hfields rfl rfl, given_of_fields? hfields rfl rfl,
      given_of_fields? hfields rfl rfl, given_of_fields? hfields rfl rfl]
    exact ⟨hplacement, hgroups, hnetworks, hservers⟩
  · cases h

/-- Text and value give the same context or are both refused, for every value of integers with different keys
that nests at most a hundred deep; the tables of a context keep the order of the keys that are given. -/
theorem ContextDeclaration.text_agrees_with_value {x : Json} (hx : x.Plain) (h : x.height ≤ 100) :
    readText ContextDeclaration.read (compact x) = readValue ContextDeclaration.read x ∧
    ∀ c, readValue ContextDeclaration.read x = some c →
      c.placementGroups.keys = x.keysGiven 7 "placement_groups" ∧
      c.serverGroups.keys = x.keysGiven 8 "server_groups" ∧
      c.networks.keys = x.keysGiven 9 "networks" ∧
      c.servers.keys = x.keysGiven 10 "servers" := by
  refine ⟨ContextDeclaration.readText_compact hx (Nat.le_trans h (by decide)), fun c hc => ?_⟩
  obtain ⟨hplacement, hgroups, hnetworks, hservers⟩ := ContextDeclaration.read_tables hc
  exact ⟨keys_of_withDefault hx hplacement, keys_of_withDefault hx hgroups,
    keys_of_withDefault hx hnetworks, keys_of_withDefault hx hservers⟩

/-- A document with a table whose keys do not stand in order, a field of more than one form and a member that
is no field. -/
def sampleDocument : Json :=
  obj [("networks", obj [("front", obj []), ("back", obj [("cidr", str "10.0.2.0/24")])]),
    ("name", str "demo"),
    ("servers", obj [("web", obj [("flavor", obj [("vcpus", int 2)]), ("networks", arr [str "back"])])]),
    ("comment", arr [int (-1), null])]

theorem ContextDeclaration.text_agrees_with_value_sample :
    sampleDocument.Plain ∧ sampleDocument.height ≤ 100 ∧
    readText ContextDeclaration.read (compact sampleDocument) =
      readValue ContextDeclaration.read sampleDocument ∧
    ∃ c, readValue ContextDeclaration.read sampleDocument = some c ∧ c.networks.keys = ["front", "back"] := by
  have hplain : sampleDocument.Plain := by
    simp [sampleDocument, plain_obj, plain_arr, plain_int, isInteger, Plain.str, Plain.null]
  have hheight : sampleDocument.height ≤ 100 := by decide
  obtain ⟨htext, hkeys⟩ := ContextDeclaration.text_agrees_with_value hplain hheight
  obtain ⟨c, hc⟩ : ∃ c, readValue ContextDeclaration.read sampleDocument = some c :=
    Option.isSome_iff_exists.mp (by decide)
  exact ⟨hplain, hheight, htext, c, hc, (hkeys c hc).2.2.1⟩

end Provision
