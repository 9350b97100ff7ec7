import Provision.Proofs.Layout.NamesApart
import Provision.Proofs.Layout.References

/-! What the resources of a layout refer to is covered by what they depend on: a reference that is not to
one of the access resources is a dependency, or a dependency of a dependency. -/
namespace Provision

open Json

/-- No dependency is listed twice, and every reference is to an access resource, to a dependency, or to
what a dependency depends on. -/
structure Resource.Covered (access : List String) (all : List Resource) (r : Resource) : Prop where
  nodup : r.dependsOn.Nodup
  references : ∀ v ∈ r.references, ∃ name, v = .str name ∧ (name ∈ access ∨ name ∈ r.dependsOn ∨
    ∃ d ∈ all, d.name ∈ r.dependsOn ∧ name ∈ d.dependsOn)

variable {access : List String} {all : List Resource}

namespace Resource.Covered
variable {r : Resource}

theorem of_names (names : List String) (hn : r.dependsOn.Nodup) (hr : r.references = names.map str)
    (hc : names ⊆ access ++ r.dependsOn) : r.Covered access all := by
  refine ⟨hn, fun v hv => ?_⟩
  obtain ⟨name, hname, rfl⟩ := List.mem_map.mp (hr ▸ hv)
  refine ⟨name, rfl, ?_⟩
  rcases List.mem_append.mp (hc hname) with h | h
  · exact Or.inl h
  · exact Or.inr (Or.inl h)

theorem of_none (hn : r.dependsOn.Nodup) (hr : r.references = []) : r.Covered access all :=
  of_names [] hn hr (List.nil_subset _)

end Resource.Covered

/-- Two names are different if their endings differ in the last character. -/
theorem append_ne_of_getLast? {a b e e' : String} (he : e ≠ "") (he' : e' ≠ "")
    (h : e.toList.getLast? ≠ e'.toList.getLast?) : a ++ e ≠ b ++ e' := by
  intro heq
  have hlast := congrArg (fun s : String => s.toList.getLast?) heq
  simp only [getLast?_append he, getLast?_append he'] at hlast
  exact h hlast

namespace Network

theorem covered (n : Network) : ∀ r ∈ resourcesOf n.steps, r.Covered access all := by
  have hnetwork : n.resource.Covered access all := .of_none List.nodup_nil n.references_resource
  have hsubnet : n.subnet.Covered access all :=
    .of_names [n.resourceName] (List.nodup_singleton _) n.references_subnet
      (List.subset_append_right _ _)
  cases hr : n.router? with
  | none =>
    intro r hm
    simp only [steps, hr, resourcesOf_declare, resourcesOf_report, resourcesOf_nil, List.append_nil,
      List.mem_cons, List.not_mem_nil, or_false] at hm
    rcases hm with rfl | rfl
    · exact hnetwork
    · exact hsubnet
  | some router =>
    have hne : router.resourceName ≠ n.subnetName :=
      append_ne_of_getLast? (by decide) (by decide) (by decide)
    intro r hm
    simp only [steps, hr, routerSteps, resourcesOf_append, resourcesOf_declare, resourcesOf_report,
      resourcesOf_nil, List.mem_append, List.mem_cons, List.not_mem_nil, or_false] at hm
    rcases hm with (rfl | rfl) | rfl | rfl
    · exact hnetwork
    · exact hsubnet
    · exact .of_none (List.nodup_singleton _) (n.references_router router)
    · refine .of_names [router.resourceName, n.subnetName] ?_ (n.references_interface router)
        (List.subset_append_right _ _)
      simp [interfaceResource, hne]

end Network

namespace Server
variable {s : Server} {networks : List Network} {hints : Hints}

theorem portName_injective (inst : String) : Function.Injective (portName inst) := fun _ _ h =>
  (String.append_right_inj _).mp ((String.append_left_inj _).mp h)

theorem port_ne {inst network b e : String} (he : e ≠ "") (hlast : e.toList.getLast? ≠ some 't') :
    portName inst network ≠ b ++ e :=
  append_ne_of_getLast? (by decide) he hlast.symm

/-- An instance on different networks lists nothing twice. -/
theorem instanceDependencies_nodup {ports : List String} (h : (ports ++ s.ownFlavor).Nodup) :
    (s.instanceDependencies ports hints).Nodup := by
  have hfold : ∀ (names init : List String), init.Nodup →
      (names.foldl (fun ds d => if ds.contains d then ds else ds ++ [d]) init).Nodup := by
    intro names
    induction names with
    | nil => exact fun _ hi => hi
    | cons d rest ih =>
      intro init hi
      rw [List.foldl_cons]
      refine ih _ ?_
      split
      · exact hi
      · next hc =>
        refine List.nodup_append.mpr ⟨hi, List.nodup_singleton d, fun a ha b hb => ?_⟩
        rintro rfl
        exact hc (List.contains_iff_mem.mpr (List.mem_singleton.mp hb ▸ ha))
  exact hfold _ _ h

theorem covered_instance (hn : (networks.map Network.name).Nodup) (inst : String) :
    (s.instanceResource networks hints inst).Covered
      [keypairName s.context, securityGroupName s.context] all := by
  have hports : (networks.map fun n => portName inst n.name).Nodup := by
    have hmapped := hn.map (portName_injective inst)
    rwa [List.map_map] at hmapped
  have hflavor : ∀ name ∈ s.ownFlavor, name ∉ networks.map fun n => portName inst n.name := by
    intro name hname hm
    obtain ⟨n, -, rfl⟩ := List.mem_map.mp hm
    exact port_ne (by decide) (by decide) (mem_ownFlavor.mp hname).2
  have hown : s.ownFlavor.Nodup := by
    unfold ownFlavor
    split <;> simp
  refine .of_names _ (instanceDependencies_nodup ?_) (s.references_instance networks hints inst) ?_
  · exact List.nodup_append'.mpr ⟨hports, hown, fun name hm hname => hflavor name hname hm⟩
  · intro name hname
    rcases List.mem_append.mp hname with hname | hhint
    · rcases List.mem_append.mp hname with hname | hport
      · rcases List.mem_append.mp hname with hkey | hflavor
        · exact List.mem_append_left _ (List.mem_singleton.mp hkey ▸ List.mem_cons_self)
        · exact List.mem_append_right _ (mem_instanceDependencies.mpr (Or.inl (Or.inr hflavor)))
      · exact List.mem_append_right _ (mem_instanceDependencies.mpr (Or.inl (Or.inl hport)))
    · exact List.mem_append_right _ (mem_instanceDependencies.mpr (Or.inr hhint))

/-- A port depends on its subnet only, and so on its network through the subnet. -/
theorem covered_port {n : Network} (hn : n.subnet ∈ all) (port : String) :
    (s.portResource n port).Covered [keypairName s.context, securityGroupName s.context] all := by
  refine ⟨List.nodup_singleton _, fun v hv => ?_⟩
  rw [references_port] at hv
  rcases List.mem_append.mp hv with hv | hv
  · rcases List.mem_cons.mp hv with rfl | hv
    · exact ⟨_, rfl, Or.inr (Or.inr ⟨_, hn, List.mem_singleton_self _, List.mem_singleton_self _⟩)⟩
    · obtain rfl := List.mem_singleton.mp hv
      exact ⟨_, rfl, Or.inr (Or.inl (List.mem_singleton_self _))⟩
  · split at hv
    · cases hv
    · obtain rfl := List.mem_singleton.mp hv
      exact ⟨_, rfl, Or.inl (by simp)⟩

theorem covered_floatingIp (inst : String) (n : Network) :
    ∀ r ∈ s.floatingIpResources inst n, r.Covered access all := by
  unfold floatingIpResources
  intro r hr
  split at hr
  · next f _ =>
    rcases List.mem_cons.mp hr with rfl | hr
    · refine .of_none ?_ (references_floatingIp inst f n)
      cases hrouter : n.router? <;> simp [floatingIpResource, hrouter]
    · obtain rfl := List.mem_singleton.mp hr
      have hne : portName inst n.name ≠ floatingIpName inst := port_ne (by decide) (by decide)
      refine .of_names [floatingIpName inst, portName inst n.name] ?_
        (references_association inst _) (List.subset_append_right _ _)
      simp [associationResource, hne.symm]
  · cases hr

theorem covered_volume (inst : String) :
    ∀ r ∈ resourcesOf (s.volumeSteps inst), r.Covered access all := by
  unfold volumeSteps
  intro r hr
  split at hr
  · next size _ =>
    obtain rfl := List.mem_singleton.mp hr
    exact .of_none List.nodup_nil (references_volume inst size)
  · cases hr

theorem covered_attachment (inst : String) :
    ∀ r ∈ resourcesOf (s.attachmentSteps inst), r.Covered access all := by
  unfold attachmentSteps
  intro r hr
  split at hr
  · obtain rfl := List.mem_singleton.mp hr
    have hne : volumeName inst ≠ inst := by
      intro h
      have hlength := congrArg String.length h
      simp [volumeName] at hlength
    refine .of_names [inst, volumeName inst] ?_ ?_ (List.subset_append_right _ _)
    · simp [attachmentResource, hne.symm]
    · rw [references_attachment, under_resourceRef]
      rfl
  · next id _ =>
    obtain rfl := List.mem_singleton.mp hr
    refine .of_names [inst] (List.nodup_singleton _) ?_ (List.subset_append_right _ _)
    rw [references_attachment, under_str]
    rfl
  · cases hr

theorem covered (hn : ((s.attached networks).map Network.name).Nodup)
    (hall : ∀ n ∈ s.attached networks, n.subnet ∈ all) :
    ∀ r ∈ resourcesOf (s.steps networks hints),
      r.Covered [keypairName s.context, securityGroupName s.context] all := by
  intro r hr
  rw [resourcesOf_steps] at hr
  rcases List.mem_append.mp hr with hflavor | hr
  · unfold flavorSteps at hflavor
    split at hflavor
    · next f _ =>
      obtain rfl := List.mem_singleton.mp hflavor
      exact .of_none List.nodup_nil (s.references_flavor f)
    · cases hflavor
  · obtain ⟨i, -, hr⟩ := List.mem_flatMap.mp hr
    rw [resourcesOf_instanceSteps] at hr
    simp only [List.mem_append, List.mem_flatMap, List.mem_cons, List.not_mem_nil, or_false] at hr
    rcases hr with ((hvolume | ⟨n, hm, rfl | hfloating⟩) | rfl) | hattachment
    · exact covered_volume _ r hvolume
    · exact covered_port (hall n hm) _
    · exact covered_floatingIp _ n r hfloating
    · exact covered_instance hn _
    · exact covered_attachment _ r hattachment

end Server

end Provision
