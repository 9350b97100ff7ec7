import Provision.Proofs.Layout.Plan
import Provision.Proofs.Placement.Hints

/-! What the resources of a layout refer to. A reference may stand anywhere in the properties of a resource,
so it is looked for in the whole value. -/
namespace Provision

namespace Json

mutual

/-- All that stands under the key, however deep. -/
def under (key : String) : Json → List Json
  | arr items => underItems key items
  | obj members => underMembers key members
  | _ => []

def underItems (key : String) : List Json → List Json
  | [] => []
  | x :: xs => under key x ++ underItems key xs

def underMembers (key : String) : List (String × Json) → List Json
  | [] => []
  | x :: xs => (if x.1 = key then [x.2] else []) ++ under key x.2 ++ underMembers key xs

end

variable {key : String}

@[simp] theorem under_null : under key null = [] := by simp [under]
@[simp] theorem under_bool (b : Bool) : under key (bool b) = [] := by simp [under]
@[simp] theorem under_int (n : Int) : under key (int n) = [] := by simp [under]
@[simp] theorem under_str (s : String) : under key (str s) = [] := by simp [under]
@[simp] theorem under_unsigned (n : Nat) : under key (unsigned n) = [] := under_int n

@[simp] theorem under_arr (items : List Json) :
    under key (arr items) = items.flatMap (under key) := by
  rw [under]
  induction items with
  | nil => simp [underItems]
  | cons x xs ih => rw [underItems, ih, List.flatMap_cons]

@[simp] theorem under_obj (members : List (String × Json)) : under key (obj members) =
    members.flatMap fun m => (if m.1 = key then [m.2] else []) ++ under key m.2 := by
  rw [under]
  induction members with
  | nil => simp [underMembers]
  | cons x xs ih => rw [underMembers, ih, List.flatMap_cons]

@[simp] theorem under_resourceRef (name : String) :
    under "get_resource" (resourceRef name) = [str name] := by
  simp [resourceRef]

end Json

open Json

/-- The properties of a resource without those that the user alone has a say in: the specs of a flavor. -/
def Resource.ownProperties (r : Resource) : Json :=
  match r.kind, r.properties with
  | .flavor, .obj members => .obj (members.filter fun m => m.1 ≠ "extra_specs")
  | _, properties => properties

/-- Whatever the resource refers to. -/
def Resource.references (r : Resource) : List Json := r.ownProperties.under "get_resource"

theorem Resource.references_of_ne {r : Resource} (h : r.kind ≠ .flavor) :
    r.references = r.properties.under "get_resource" := by
  unfold references ownProperties
  split
  · next hk _ => exact absurd hk h
  · rfl

namespace Network

theorem references_resource (n : Network) : n.resource.references = [] := by
  have hkind : n.resource.kind ≠ .flavor := by
    unfold resource
    split <;> simp
  have hsegment : (obj n.segmentProperties).under "get_resource" = [] := by
    unfold segmentProperties
    split
    · cases n.segmentationId <;> simp
    · cases n.declared.networkType <;> simp
  rw [under_obj] at hsegment
  rw [Resource.references_of_ne hkind]
  cases hp : n.declared.portSecurity <;> simp [resource, hsegment, hp]

theorem references_subnet (n : Network) : n.subnet.references = [str n.resourceName] := by
  rw [Resource.references_of_ne (by simp [subnet])]
  cases hg : n.declared.gatewayIp with
  | none => simp [subnet, gatewayProperty, hg]
  | some gateway => by_cases hn : gateway = "null" <;> simp [subnet, gatewayProperty, hg, hn]

theorem references_router (n : Network) (r : Router) : (n.routerResource r).references = [] := by
  rw [Resource.references_of_ne (by simp [routerResource])]
  simp [routerResource]

theorem references_interface (n : Network) (r : Router) :
    (n.interfaceResource r).references = [str r.resourceName, str n.subnetName] := by
  rw [Resource.references_of_ne (by simp [interfaceResource])]
  simp [interfaceResource]

end Network

namespace Server

theorem references_flavor (s : Server) (f : InlineFlavor) : (s.flavorResource f).references = [] := by
  simp [Resource.references, Resource.ownProperties, flavorResource]

theorem references_volume (inst : String) (size : UInt32) :
    (volumeResource inst size).references = [] := by
  rw [Resource.references_of_ne (by simp [volumeResource])]
  simp [volumeResource]

theorem references_attachment (s : Server) (inst : String) (volume : Json) (own : List String) :
    (s.attachmentResource inst volume own).references =
      str inst :: volume.under "get_resource" := by
  rw [Resource.references_of_ne (by simp [attachmentResource])]
  simp [attachmentResource]

/-- A port refers to its network and its subnet, and unless it has no security to a security group. -/
theorem references_port (s : Server) (n : Network) (port : String) :
    (s.portResource n port).references =
      [str n.resourceName, str n.subnetName] ++
        if n.declared.portSecurity = some false then [] else [str (securityGroupName s.context)] := by
  have hsecurity : (obj (s.securityProperties n)).under "get_resource" =
      if n.declared.portSecurity = some false then [] else [str (securityGroupName s.context)] := by
    rcases hp : n.declared.portSecurity with _ | _ | _ <;> simp [securityProperties, hp]
  have hpair : ∀ p : AddressPair, p.toJson.under "get_resource" = [] := by
    intro p
    cases hm : p.macAddress <;> simp [AddressPair.toJson, hm]
  rw [under_obj] at hsecurity
  rw [Resource.references_of_ne (by simp [portResource])]
  by_cases hv : n.declared.vnicType = "normal" <;> by_cases ha : n.declared.allowedAddressPairs = [] <;>
    simp [portResource, hsecurity, hv, ha, hpair, List.flatMap_map]

theorem references_floatingIp (inst : String) (f : FloatingIp) (n : Network) :
    (floatingIpResource inst f n).references = [] := by
  rw [Resource.references_of_ne (by simp [floatingIpResource])]
  simp [floatingIpResource]

theorem references_association (inst port : String) :
    (associationResource inst port).references = [str (floatingIpName inst), str port] := by
  rw [Resource.references_of_ne (by simp [associationResource])]
  simp [associationResource]

end Server

theorem Hints.under_toJson (h : Hints) : h.toJson.under "get_resource" = h.referenced.map str := by
  have hrefs : ∀ key (names : List String), key ≠ "get_resource" →
      (obj (if names = [] then [] else [(key, arr (names.map resourceRef))])).under "get_resource" =
        names.map str := by
    intro key names hk
    by_cases hn : names = []
    · simp [hn]
    · simp [hn, hk, List.flatMap_map, ← List.map_eq_flatMap]
  simp only [under_obj] at hrefs
  cases hg : h.group <;> simp [toJson, hrefs, referenced, hg]

/-- An instance refers to the key pair, its flavor, its ports and all that its hints name. -/
theorem Server.references_instance (s : Server) (networks : List Network) (hints : Hints)
    (inst : String) : (s.instanceResource networks hints inst).references =
      ([keypairName s.context] ++ s.ownFlavor ++ networks.map (fun n => portName inst n.name) ++
        hints.referenced).map str := by
  have hname : ∀ key value, key ≠ "get_resource" →
      (obj (nameProperty key value)).under "get_resource" = [] := by
    intro key value hk
    cases value <;> simp [nameProperty, hk]
  have hflavor : (obj s.flavorProperty).under "get_resource" = s.ownFlavor.map str := by
    rcases hf : s.flavor with _ | name | f <;> simp [flavorProperty, ownFlavor, hf]
  have hhints : (obj (if hints.isEmpty then [] else [("scheduler_hints", hints.toJson)])).under
      "get_resource" = hints.referenced.map str := by
    by_cases he : hints.isEmpty = true
    · obtain ⟨hn, ha, hg⟩ := hints.isEmpty_iff.mp he
      simp [he, Hints.referenced, hn, ha, hg]
    · simp [he, hints.under_toJson]
  simp only [under_obj] at hname hflavor hhints
  rw [Resource.references_of_ne (by simp [instanceResource])]
  simp [instanceResource, hname, hflavor, hhints, List.flatMap_map, ← List.map_eq_flatMap]

end Provision
