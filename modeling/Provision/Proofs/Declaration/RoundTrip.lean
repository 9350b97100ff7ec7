import Provision.Proofs.Declaration.Agreement

/-! Declarations are read back from what is written for them, as values and as text, and so what is written
for a document that was read is written again for itself. -/
namespace Provision

namespace Json

/-- The value stands in text as it is and nests at most so deep. -/
structure Within (depth : Nat) (x : Json) : Prop where
  plain : x.Plain
  height_le : x.height ≤ depth

namespace Within
variable {α : Type} {write : α → Json} {depth : Nat}

theorem mono {x : Json} (h : Within depth x) {depth' : Nat} (hle : depth ≤ depth') : Within depth' x :=
  ⟨h.plain, Nat.le_trans h.height_le hle⟩

theorem str (s : String) : Within depth (str s) := ⟨.str s, Nat.zero_le _⟩

theorem bool (b : Bool) : Within depth (bool b) := ⟨.bool b, Nat.zero_le _⟩

theorem unsigned {n : Nat} (h : n < UInt64.size) : Within depth (unsigned n) := by
  have hn : n < 18446744073709551616 := h
  exact ⟨.int (decide_eq_true ⟨by omega, by omega⟩), Nat.zero_le _⟩

theorem uint32 (n : UInt32) : Within depth (Json.unsigned n.toNat) :=
  unsigned (Nat.lt_trans n.toNat_lt_size (by decide))

theorem uint64 (n : UInt64) : Within depth (Json.unsigned n.toNat) := unsigned n.toNat_lt_size

theorem arr {xs : List Json} (h : ∀ x ∈ xs, Within depth x) : Within (depth + 1) (arr xs) :=
  ⟨.arr fun x hx => (h x hx).plain, height_arr_le fun x hx => (h x hx).height_le⟩

theorem obj {ms : List (String × Json)} (keys : (ms.map Prod.fst).Nodup)
    (h : ∀ m ∈ ms, Within depth m.2) : Within (depth + 1) (obj ms) :=
  ⟨.obj keys fun m hm => (h m hm).plain, height_obj_le fun m hm => (h m hm).height_le⟩

theorem option {a : Option α} (h : ∀ v ∈ a, Within depth (write v)) : Within depth (option write a) := by
  cases a with
  | none => exact ⟨.null, Nat.zero_le _⟩
  | some v => exact h v rfl

theorem strings (names : List String) : Within (depth + 1) (strings names) :=
  arr (List.forall_mem_map.mpr fun name _ => str name)

theorem members {es : List (String × α)} (keys : (es.map Prod.fst).Nodup)
    (h : ∀ e ∈ es, Within depth (write e.2)) : Within (depth + 1) (members write es) :=
  obj (by simpa [Function.comp_def] using keys) (List.forall_mem_map.mpr h)

end Within
end Json

open Json

/-! Fields of one value. -/

section
variable {room : Nat}

theorem optional_string (a : Option String) : Json.optional string? (some (option str a)) = some a :=
  optional_option fun _ _ => ⟨rfl, nofun⟩

theorem withDefault_string (a s : String) : withDefault a string? (some (str s)) = some s := rfl

theorem withDefault_bool (a b : Bool) : withDefault a bool? (some (bool b)) = some b := rfl

theorem withDefault_uint32 (a n : UInt32) :
    withDefault a uint32? (some (unsigned n.toNat)) = some n :=
  withDefault_of_read (uint32?_unsigned n)

theorem withDefault_specs (m : SortedMap String) :
    withDefault ∅ (sortedMap? string?) (some (members str m.entries)) = some m :=
  withDefault_of_read (sortedMap?_members fun _ _ => rfl)

theorem list?_strings (names : List String) : list? string? (strings names) = some names :=
  list?_map fun _ _ => rfl

/-! Flavors, volumes and placements. -/

theorem InlineFlavor.within_toJson (f : InlineFlavor) : Within 2 f.toJson :=
  .obj (by simp) (by
    simp [Within.option, Within.str, Within.uint32, Within.members f.extraSpecs.keys_nodup])

theorem InlineFlavor.read_toJson (f : InlineFlavor) : InlineFlavor.read f.toJson = some f := by
  have hfields : f.toJson.fields? ["name", "vcpus", "ram", "disk", "extra_specs"] = _ :=
    fields?_obj (by decide) rfl
  rw [InlineFlavor.read, hfields]
  simp [optional_string, withDefault_uint32, withDefault_specs]

theorem Flavor.within_toJson (f : Flavor) : Within 2 f.toJson := by
  cases f with
  | named name => exact .str name
  | inline flavor => exact flavor.within_toJson

theorem Flavor.toJson_ne_null (f : Flavor) : f.toJson ≠ null := by
  cases f <;> exact nofun

theorem Flavor.read_toJson (f : Flavor) (hroom : 2 ≤ room) : Flavor.read room f.toJson = some f := by
  have hfits := f.within_toJson.plain.fits (Nat.le_trans f.within_toJson.height_le hroom)
  rw [Flavor.read, if_pos hfits]
  cases f with
  | named name => rfl
  | inline flavor => exact congrArg (Option.map inline) flavor.read_toJson

theorem Volume.within_toJson (v : Volume) : Within 1 v.toJson := by
  cases v with
  | existing id => exact .str id
  | inline size => exact .obj (by simp) (by simp [Within.uint32])

theorem Volume.toJson_ne_null (v : Volume) : v.toJson ≠ null := by
  cases v <;> exact nofun

theorem Volume.read_toJson (v : Volume) (hroom : 1 ≤ room) : Volume.read room v.toJson = some v := by
  have hfits := v.within_toJson.plain.fits (Nat.le_trans v.within_toJson.height_le hroom)
  cases v with
  | existing id => exact if_pos hfits
  | inline size =>
    have hobject : (inline size).toJson = obj [("size", unsigned size.toNat)] := rfl
    have hfields : (obj [("size", unsigned size.toNat)]).fields? ["size"] = _ := fields?_obj (by decide) rfl
    rw [hobject] at hfits ⊢
    rw [Volume.read, if_pos hfits, hfields]
    simp [required_of_read (uint32?_unsigned size)]

theorem NameList.within_toJson (l : NameList) : Within 1 l.toJson := by
  cases l with
  | one name => exact .str name
  | many names => exact .strings names

theorem NameList.toJson_ne_null (l : NameList) : l.toJson ≠ null := by
  cases l <;> exact nofun

theorem NameList.read_toJson (l : NameList) (hroom : 1 ≤ room) : NameList.read room l.toJson = some l := by
  have hfits := l.within_toJson.plain.fits (Nat.le_trans l.within_toJson.height_le hroom)
  rw [NameList.read, if_pos hfits]
  cases l with
  | one name => rfl
  | many names => exact congrArg (Option.map many) (list?_strings names)

/-! Groups and networks. -/

theorem GroupDeclaration.within_toJson (g : GroupDeclaration) : Within 1 g.toJson :=
  .obj (by simp) (by simp [Within.str])

theorem GroupDeclaration.read_toJson (g : GroupDeclaration) : GroupDeclaration.read g.toJson = some g := by
  have hfields : g.toJson.fields? ["policy"] = _ := fields?_obj (by decide) rfl
  rw [GroupDeclaration.read, hfields]
  rfl

theorem AddressPair.within_toJson (p : AddressPair) : Within 1 p.toJson := by
  obtain ⟨ip, mac⟩ := p
  cases mac with
  | none => exact .obj (by simp) (by simp [Within.str])
  | some mac => exact .obj (by simp) (by simp [Within.str])

theorem AddressPair.read_toJson (p : AddressPair) : AddressPair.read p.toJson = some p := by
  obtain ⟨ip, mac⟩ := p
  cases mac with
  | none => rfl
  | some mac => rfl

theorem NetworkDeclaration.within_toJson (n : NetworkDeclaration) : Within 3 n.toJson := by
  have hpairs : Within 2 (arr (n.allowedAddressPairs.map AddressPair.toJson)) :=
    .arr (List.forall_mem_map.mpr fun p _ => p.within_toJson)
  refine .obj (by simp) ?_
  simp [Within.option, Within.str, Within.bool, Within.uint32, hpairs]

theorem NetworkDeclaration.read_toJson (n : NetworkDeclaration) :
    NetworkDeclaration.read n.toJson = some n := by
  have hfields : n.toJson.fields? ["cidr", "external_network", "provider", "physical_network",
    "segmentation_id", "network_type", "port_security_enabled", "vnic_type", "allowed_address_pairs",
    "enable_dhcp", "gateway_ip"] = _ := fields?_obj (by decide) rfl
  have hid : Json.optional uint32? (some (option (fun id => unsigned id.toNat) n.segmentationId)) =
      some n.segmentationId := optional_option fun id _ => ⟨uint32?_unsigned id, nofun⟩
  have hsecurity : Json.optional bool? (some (option bool n.portSecurity)) = some n.portSecurity :=
    optional_option fun _ _ => ⟨rfl, nofun⟩
  have hpairs : withDefault [] (list? AddressPair.read)
      (some (arr (n.allowedAddressPairs.map AddressPair.toJson))) = some n.allowedAddressPairs :=
    list?_map fun p _ => p.read_toJson
  rw [NetworkDeclaration.read, hfields]
  simp [optional_string, hid, hsecurity, hpairs, withDefault_string, withDefault_bool]

/-! Servers and contexts. -/

theorem ServerDeclaration.within_toJson (s : ServerDeclaration) : Within 3 s.toJson := by
  refine .obj (by simp) ?_
  have hflavor := fun f : Flavor => f.within_toJson
  have hplacement := fun l : NameList => l.within_toJson.mono (Nat.le_succ 1)
  have hvolume := fun v : Volume => v.within_toJson.mono (Nat.le_succ 1)
  simp [Within.option, Within.str, Within.bool, Within.uint32, Within.strings, hflavor, hplacement, hvolume]

theorem ServerDeclaration.read_toJson (s : ServerDeclaration) (hroom : 3 ≤ room) :
    ServerDeclaration.read room s.toJson = some s := by
  have hfields : s.toJson.fields? ["image", "flavor", "user", "instances", "floating_ip", "placement",
    "server_group", "networks", "volume", "volume_mountpoint", "availability_zone", "user_data"] = _ :=
    fields?_obj (by decide) rfl
  have hflavor : Json.optional (Flavor.read (room - 1)) (some (option Flavor.toJson s.flavor)) =
      some s.flavor := optional_option fun f _ => ⟨f.read_toJson (by omega), f.toJson_ne_null⟩
  have hplacement : Json.optional (NameList.read (room - 1)) (some (option NameList.toJson s.placement)) =
      some s.placement := optional_option fun l _ => ⟨l.read_toJson (by omega), l.toJson_ne_null⟩
  have hvolume : Json.optional (Volume.read (room - 1)) (some (option Volume.toJson s.volume)) =
      some s.volume := optional_option fun v _ => ⟨v.read_toJson (by omega), v.toJson_ne_null⟩
  have hnetworks : Json.optional (list? string?) (some (option strings s.networks)) = some s.networks :=
    optional_option fun names _ => ⟨list?_strings names, nofun⟩
  rw [ServerDeclaration.read, hfields]
  simp [optional_string, hflavor, hplacement, hvolume, hnetworks, withDefault_uint32, withDefault_bool]

end

theorem ContextDeclaration.within_toJson (c : ContextDeclaration) : Within 5 c.toJson := by
  refine .obj (by simp) ?_
  have hflavor := fun f : Flavor => f.within_toJson.mono (show 2 ≤ 4 by omega)
  have hgroup := fun g : GroupDeclaration => g.within_toJson.mono (show 1 ≤ 3 by omega)
  have hnetwork := fun n : NetworkDeclaration => n.within_toJson
  have hserver := fun s : ServerDeclaration => s.within_toJson
  simp [Within.option, Within.str, Within.uint64, hflavor, hgroup, hnetwork, hserver,
    Within.members c.parameters.keys_nodup, Within.members c.placementGroups.nodup,
    Within.members c.serverGroups.nodup, Within.members c.networks.nodup, Within.members c.servers.nodup]

theorem ContextDeclaration.read_toJson (c : ContextDeclaration) {room : Nat} (hroom : 5 ≤ room) :
    ContextDeclaration.read room c.toJson = some c := by
  have hfields : c.toJson.fields? ["name", "image", "flavor", "user", "public_key", "timeout",
    "parameters", "placement_groups", "server_groups", "networks", "servers"] = _ :=
    fields?_obj (by decide) rfl
  have hflavor : Json.optional (Flavor.read (room - 1)) (some (option Flavor.toJson c.flavor)) =
      some c.flavor := optional_option fun f _ => ⟨f.read_toJson (by omega), f.toJson_ne_null⟩
  have htimeout : withDefault 3600 uint64? (some (unsigned c.timeout.toNat)) = some c.timeout :=
    withDefault_of_read (uint64?_unsigned c.timeout)
  have hgroups : ∀ m : OrderedMap GroupDeclaration, withDefault ∅ (orderedMap? GroupDeclaration.read)
      (some (members GroupDeclaration.toJson m.entries)) = some m :=
    fun m => withDefault_of_read (orderedMap?_members fun e _ => e.2.read_toJson)
  have hnetworks : withDefault ∅ (orderedMap? NetworkDeclaration.read)
      (some (members NetworkDeclaration.toJson c.networks.entries)) = some c.networks :=
    withDefault_of_read (orderedMap?_members fun e _ => e.2.read_toJson)
  have hservers : withDefault ∅ (orderedMap? (ServerDeclaration.read (room - 2)))
      (some (members ServerDeclaration.toJson c.servers.entries)) = some c.servers :=
    withDefault_of_read (orderedMap?_members fun e _ => e.2.read_toJson (by omega))
  rw [ContextDeclaration.read, hfields]
  simp [required, string?, optional_string, hflavor, htimeout, withDefault_specs, hgroups, hnetworks,
    hservers]

theorem ContextDeclaration.readValue_toJson (c : ContextDeclaration) :
    readValue ContextDeclaration.read c.toJson = some c := by
  rw [readValue, ContextDeclaration.stable (Nat.le_refl _) c.within_toJson.height_le]
  exact c.read_toJson (Nat.le_refl 5)

theorem ContextDeclaration.readText_toJson (c : ContextDeclaration) :
    readText ContextDeclaration.read (compact c.toJson) = some c := by
  rw [ContextDeclaration.readText_compact c.within_toJson.plain
    (Nat.le_trans c.within_toJson.height_le (by decide)), c.readValue_toJson]

/-- Reads the text of a context and writes what was read. -/
def ContextDeclaration.rewrite? (text : String) : Option String :=
  (readText ContextDeclaration.read text).map fun c => compact c.toJson

/-- Every context is read back from what is written for it, as a value and as text; so text that was written
for what was read from text is written for itself. -/
theorem ContextDeclaration.round_trip :
    (∀ c : ContextDeclaration, readValue ContextDeclaration.read c.toJson = some c ∧
      readText ContextDeclaration.read (compact c.toJson) = some c) ∧
    ∀ text, (ContextDeclaration.rewrite? text).bind ContextDeclaration.rewrite? =
      ContextDeclaration.rewrite? text := by
  refine ⟨fun c => ⟨c.readValue_toJson, c.readText_toJson⟩, fun text => ?_⟩
  rw [ContextDeclaration.rewrite?]
  cases readText ContextDeclaration.read text with
  | none => rfl
  | some c =>
    rw [Option.map_some, Option.bind_some, ContextDeclaration.rewrite?, c.readText_toJson, Option.map_some]

end Provision
