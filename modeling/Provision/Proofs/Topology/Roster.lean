import Provision.Proofs.Deployment.Recompilation
import Provision.Proofs.Session.Lookup

/-! Who is in which group, and who goes by which distinguished name. Both follow from the declaration, and
stay as they are whatever is done with a context. -/
namespace Provision

namespace Topology
variable {t : Topology}

namespace Holds
variable {entries : List (String × ServerDeclaration)}

theorem serverEntries (h : t.Holds entries) : t.servers.map (fun s => (s.name, s.declared)) = entries := by
  have hsame := Checks.map_eq_of_forall₂ h.servers (f := id) (g := fun s => (s.name, s.declared))
    fun e s hs => by
      obtain ⟨hname, -, hdeclared, -⟩ := Server.build_ok hs
      rw [hname, hdeclared, id]
  rw [← hsame, List.map_id]

theorem mem_placementMembers (h : t.Holds entries) {g : PlacementGroup} (hg : g ∈ t.placementGroups)
    (x : String) :
    x ∈ g.members.keys ↔ ∃ s ∈ t.servers, g.name ∈ s.placementGroups ∧ s.resourceName = x :=
  (SortedMap.contains_iff ..).symm.trans (h.placementMembers g hg x)

theorem mem_serverGroupMembers (h : t.Holds entries) {g : ServerGroup} (hg : g ∈ t.serverGroups)
    (x : String) :
    x ∈ g.members.keys ↔ ∃ s ∈ t.servers, s.serverGroup = some g.name ∧ s.resourceName = x :=
  (SortedMap.contains_iff ..).symm.trans (h.serverGroupMembers g hg x)

end Holds

/-- A server is found by its distinguished name, and nothing is found under any other name. -/
theorem server?_eq_some_iff (h : t.WellFormed) (dn : String) (s : Server) :
    t.server? dn = some s ↔ s ∈ t.servers ∧ s.dn = dn := by
  refine ⟨of_server?, ?_⟩
  rintro ⟨hs, rfl⟩
  exact server?_of_mem h hs

end Topology

namespace Context

/-- In a context that was built, before and after it is compiled or anything else is done with it, the
members of a placement group are the servers that name it, the members of a server group those that name it
as theirs, and a distinguished name leads to the server that has it. -/
theorem roster_exact {declared : ContextDeclaration} {start c : Context}
    (h : Context.build declared = .ok start) (hc : start.Reached c) :
    c.topology.servers.map (fun s => (s.name, s.declared)) = declared.servers.entries ∧
    c.topology.placementGroups.map Group.name = declared.placementGroups.keys ∧
    c.topology.serverGroups.map Group.name = declared.serverGroups.keys ∧
    (∀ g ∈ c.topology.placementGroups, ∀ x, x ∈ g.members.keys ↔
      ∃ s ∈ c.topology.servers, g.name ∈ s.placementGroups ∧ s.resourceName = x) ∧
    (∀ g ∈ c.topology.serverGroups, ∀ x, x ∈ g.members.keys ↔
      ∃ s ∈ c.topology.servers, s.serverGroup = some g.name ∧ s.resourceName = x) ∧
    ∀ dn s, c.topology.server? dn = some s ↔ s ∈ c.topology.servers ∧ s.dn = dn := by
  obtain ⟨rfl, hw⟩ := build_ok h
  rw [hc.topology_eq]
  exact ⟨hw.serverEntries, hw.placementGroupNames, hw.serverGroupNames,
    fun g hg => hw.mem_placementMembers hg, fun g hg => hw.mem_serverGroupMembers hg,
    Topology.server?_eq_some_iff hw⟩

/-- The sample after it was compiled. One of its servers is in two groups, and one server group is empty. -/
theorem roster_exact_sample : ∃ start, Context.build sampleDeclaration = .ok start ∧
    start.Reached start.compile.2 ∧
    start.compile.2.topology.placementGroups.map (fun g => (g.name, g.members.keys)) =
      [("apart", ["db.demo"]), ("near", ["db.demo", "web.demo"])] ∧
    start.compile.2.topology.serverGroups.map (fun g => (g.name, g.members.keys)) =
      [("pair", ["db.demo"]), ("unused", [])] ∧
    (∀ g ∈ start.compile.2.topology.placementGroups, ∀ x, x ∈ g.members.keys ↔
      ∃ s ∈ start.compile.2.topology.servers, g.name ∈ s.placementGroups ∧ s.resourceName = x) ∧
    ∀ dn s, start.compile.2.topology.server? dn = some s ↔
      s ∈ start.compile.2.topology.servers ∧ s.dn = dn := by
  obtain ⟨start, g, hstart, -⟩ := sample_compiles
  have hmembers : ∀ start ∈ (Context.build sampleDeclaration).toOption,
      start.compile.2.topology.placementGroups.map (fun g => (g.name, g.members.keys)) =
        [("apart", ["db.demo"]), ("near", ["db.demo", "web.demo"])] ∧
      start.compile.2.topology.serverGroups.map (fun g => (g.name, g.members.keys)) =
        [("pair", ["db.demo"]), ("unused", [])] := by decide +kernel
  obtain ⟨hplacement, hserver⟩ := hmembers start (by rw [hstart]; rfl)
  have hreached : start.Reached start.compile.2 := .compile .refl
  obtain ⟨-, -, -, hplaced, -, hfound⟩ := roster_exact hstart hreached
  exact ⟨start, hstart, hreached, hplacement, hserver, hplaced, hfound⟩

end Context
end Provision
