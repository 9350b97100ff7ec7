import Provision.Proofs.Layout.Compilation
import Provision.Proofs.SortedMap

/-! Which outputs a layout asks for. The names of the outputs of a resource are its own name with the
endings that belong to its kind, so the plan of a topology tells the names of all outputs. -/
namespace Provision

/-- The endings of the names of a resource's outputs. Of key pairs only those that are generated have one. -/
def ResourceKind.outputEndings (generated : Bool) : ResourceKind → List String
  | keyPair => if generated then ["-private_key"] else []
  | network | providerNetwork | router => ["-id"]
  | subnet => ["-cidr", "-gateway_ip"]
  | port => ["", "-mac_address"]
  | floatingIp => [""]
  | server => ["", "-id"]
  | _ => []

/-- The names of the outputs of a resource. -/
def entryOutputs (generated : Bool) (e : PlanEntry) : List String :=
  (e.2.outputEndings generated).map (e.1 ++ ·)

theorem entryOutputs_server (generated : Bool) (name : String) :
    entryOutputs generated (name, .server) = [name, name ++ "-id"] := by
  simp [entryOutputs, ResourceKind.outputEndings]

theorem entryOutputs_port (generated : Bool) (name : String) :
    entryOutputs generated (name, .port) = [name, name ++ "-mac_address"] := by
  simp [entryOutputs, ResourceKind.outputEndings]

theorem entryOutputs_floatingIp (generated : Bool) (name : String) :
    entryOutputs generated (name, .floatingIp) = [name] := by
  simp [entryOutputs, ResourceKind.outputEndings]

/-- The names of the outputs of a network. -/
def Network.outputNames (n : Network) : List String :=
  [n.resourceName ++ "-id", n.subnetName ++ "-cidr", n.subnetName ++ "-gateway_ip"] ++
    (n.router?.map fun r => r.resourceName ++ "-id").toList

theorem Network.outputNames_plan (generated : Bool) (n : Network) :
    n.plan.flatMap (entryOutputs generated) = n.outputNames := by
  by_cases hp : n.isProvider = true <;> cases hr : n.router? <;>
    simp [plan, outputNames, entryOutputs, ResourceKind.outputEndings, hp, hr]

/-- The steps ask for the outputs of the resources that they declare, and for no others. -/
def AsksForAll (generated : Bool) (steps : List Step) : Prop :=
  (requestsOf steps).map Prod.fst =
    (resourcesOf steps).flatMap fun r => entryOutputs generated r.entry

namespace AsksForAll
variable {generated : Bool} {a b : List Step}

theorem nil : AsksForAll generated [] := rfl

theorem append (ha : AsksForAll generated a) (hb : AsksForAll generated b) :
    AsksForAll generated (a ++ b) := by
  unfold AsksForAll at *
  rw [requestsOf_append, List.map_append, ha, hb, resourcesOf_append, List.flatMap_append]

theorem flatMap {α : Type} {f : α → List Step} {xs : List α}
    (h : ∀ x ∈ xs, AsksForAll generated (f x)) : AsksForAll generated (xs.flatMap f) := by
  induction xs with
  | nil => exact nil
  | cons x xs ih =>
    rw [List.flatMap_cons]
    exact append (h x List.mem_cons_self) (ih fun y hy => h y (List.mem_cons_of_mem _ hy))

/-- Resources that have no outputs, if none is asked for. -/
theorem of_silent (hr : requestsOf a = [])
    (h : ∀ r ∈ resourcesOf a, r.kind.outputEndings generated = []) : AsksForAll generated a := by
  have hnone : (resourcesOf a).flatMap (fun r => entryOutputs generated r.entry) = [] :=
    List.flatMap_eq_nil_iff.mpr fun r hm => by simp [entryOutputs, Resource.entry, h r hm]
  rw [AsksForAll, hr, hnone, List.map_nil]

end AsksForAll

variable {generated : Bool}

theorem Network.asksForAll (n : Network) : AsksForAll generated n.steps := by
  unfold steps
  refine AsksForAll.append ?_ ?_
  · by_cases hp : n.isProvider = true <;>
      simp [AsksForAll, entryOutputs, Resource.entry, resource, subnet, ResourceKind.outputEndings, hp]
  · split
    · simp [AsksForAll, routerSteps, entryOutputs, Resource.entry, routerResource, interfaceResource,
        ResourceKind.outputEndings]
    · exact .nil

namespace Server

theorem asksForAll_port (s : Server) (i : Nat) (n : Network) :
    AsksForAll generated (s.portSteps i n) := by
  refine AsksForAll.append (AsksForAll.append ?_ ?_) ?_
  · simp [AsksForAll, Resource.entry, portResource, entryOutputs_port]
  · exact .of_silent (by split <;> rfl) (by split <;> simp)
  · unfold floatingIpSteps
    split
    · simp [AsksForAll, entryOutputs, Resource.entry, floatingIpResource, associationResource,
        ResourceKind.outputEndings]
    · exact .nil

theorem asksForAll_instance (s : Server) (networks : List Network) (hints : Hints) (i : Nat) :
    AsksForAll generated (s.instanceSteps networks hints i) := by
  have hvolume : AsksForAll generated (s.volumeSteps (s.instanceName i)) := by
    unfold volumeSteps
    split
    · exact .of_silent rfl (by simp [volumeResource, ResourceKind.outputEndings])
    · exact .nil
  have hattachment : AsksForAll generated (s.attachmentSteps (s.instanceName i)) := by
    refine .of_silent ?_ ?_ <;> unfold attachmentSteps <;>
      split <;> simp [attachmentResource, ResourceKind.outputEndings]
  refine AsksForAll.append (.append (hvolume.append ?_) ?_) hattachment
  · exact .flatMap fun n _ => s.asksForAll_port i n
  · simp [AsksForAll, Resource.entry, instanceResource, entryOutputs_server]

theorem asksForAll (s : Server) (networks : List Network) (hints : Hints) :
    AsksForAll generated (s.steps networks hints) := by
  have hflavor : AsksForAll generated (s.flavorSteps ++ [.clearPorts s.name]) := by
    refine .of_silent ?_ ?_ <;> unfold flavorSteps <;>
      split <;> simp [flavorResource, ResourceKind.outputEndings]
  exact hflavor.append (.flatMap fun i _ => s.asksForAll_instance _ hints i)

end Server

namespace Topology
variable {t : Topology}

def generatesKey (t : Topology) : Bool := t.declared.publicKey.isNone

/-- The names of all outputs of a topology. -/
def outputNames (t : Topology) : List String := t.plan.flatMap (entryOutputs t.generatesKey)

theorem asksForAll_serverSteps (t : Topology) (placed : List String) (servers : List Server) :
    AsksForAll generated (t.serverSteps placed servers) := by
  induction servers generalizing placed with
  | nil => exact .nil
  | cons s rest ih => exact (s.asksForAll _ _).append (ih _)

theorem asksForAll (t : Topology) : AsksForAll t.generatesKey t.steps := by
  have hkey : AsksForAll t.generatesKey t.keypairSteps := by
    unfold keypairSteps generatesKey
    split
    · next key hkey => exact .of_silent rfl (by simp [ResourceKind.outputEndings, hkey])
    · next hkey =>
      simp [AsksForAll, entryOutputs, Resource.entry, ResourceKind.outputEndings, hkey]
  have hgroup : AsksForAll t.generatesKey t.securityGroupSteps :=
    .of_silent rfl (by simp [securityGroupSteps, ResourceKind.outputEndings])
  have hgroups : ∀ gs : List ServerGroup, AsksForAll t.generatesKey (gs.map serverGroupStep) := by
    intro gs
    rw [List.map_eq_flatMap]
    exact .flatMap fun g _ => .of_silent rfl (by simp [serverGroupStep, ResourceKind.outputEndings])
  refine (((hkey.append hgroup).append (hgroups _)).append ?_).append (t.asksForAll_serverSteps _ _)
  exact .flatMap fun n _ => n.asksForAll

theorem outputs_of_mem_plan {e : PlanEntry} (he : e ∈ t.plan) :
    entryOutputs t.generatesKey e ⊆ t.outputNames :=
  fun _ hm => List.mem_flatMap.mpr ⟨e, he, hm⟩

theorem outputs_of_network {n : Network} (hn : n ∈ t.networks) : n.outputNames ⊆ t.outputNames := by
  intro name hm
  rw [← n.outputNames_plan t.generatesKey] at hm
  obtain ⟨e, he, hm⟩ := List.mem_flatMap.mp hm
  exact outputs_of_mem_plan (network_plan_subset hn he) hm

/-- The steps of a layout ask for the outputs of what the plan says, in its order. -/
theorem names_requests (h : t.WellFormed) : (requestsOf t.steps).map Prod.fst = t.outputNames := by
  rw [t.asksForAll, outputNames, ← entries_steps h, List.flatMap_map]

end Topology

/-- The names in the table of outputs are those that the plan tells. -/
theorem Context.mem_outputs_of_compile {c : Context} {g : Graph} (hw : c.topology.WellFormed)
    (h : c.compile.1 = .ok g) (name : String) :
    name ∈ g.outputs.keys ↔ name ∈ c.topology.outputNames := by
  rw [requests_of_compile h, SortedMap.mem_keys_ofList, Topology.names_requests hw]

end Provision
