import Provision.Proofs.Layout.Compilation
import Provision.Proofs.Topology.ServerNames

/-! The names of the instances of a context. Names of servers and contexts may hold dots, hyphens and
digits, so a server may be called as if it were a numbered instance of another one. Its instances have
names of their own all the same. -/
namespace Provision

namespace Topology
variable {t : Topology} {s s' : Server}

/-- Inside a topology a name tells the server, the instance and the part. -/
theorem Holds.ownName_inj (h : t.WellFormed) (hs : s ∈ t.servers) (hs' : s' ∈ t.servers) {i j : ℕ}
    {p q : Part} (he : s.ownName i p = s'.ownName j q) : s = s' ∧ i = j ∧ p = q := by
  have hnames : (t.servers.map Server.name).Nodup := h.serverNames ▸ t.declared.servers.nodup
  have hcontext : s.context = s'.context := (h.server_context hs).trans (h.server_context hs').symm
  obtain ⟨hname, hi, hp⟩ := Server.ownName_inj hcontext he
  exact ⟨List.inj_on_of_nodup_map hnames hs hs' hname, hi, hp⟩

theorem Holds.instanceName_inj (h : t.WellFormed) (hs : s ∈ t.servers) (hs' : s' ∈ t.servers) {i j : ℕ}
    (he : s.instanceName i = s'.instanceName j) : s = s' ∧ i = j := by
  rw [← s.ownName_server, ← s'.ownName_server] at he
  obtain ⟨rfl, rfl, -⟩ := h.ownName_inj hs hs' he
  exact ⟨rfl, rfl⟩

theorem Holds.instanceNames_nodup (h : t.WellFormed) :
    (t.servers.flatMap Server.instanceNames).Nodup := by
  have hservers : t.servers.Nodup :=
    List.Nodup.of_map Server.name (h.serverNames ▸ t.declared.servers.nodup)
  rw [List.nodup_flatMap]
  refine ⟨fun s hs => List.nodup_range.map fun i j he => (h.instanceName_inj hs hs he).2, ?_⟩
  refine hservers.imp_of_mem fun {s s'} hs hs' hne name hm hm' => hne ?_
  obtain ⟨i, -, rfl⟩ := List.mem_map.mp hm
  obtain ⟨j, -, he⟩ := List.mem_map.mp hm'
  exact (h.instanceName_inj hs hs' he.symm).1

end Topology

namespace Context
variable {c : Context}

/-- The instances of a context have different names, whatever its name and those of its servers are: an
instance is called after its server and the context, and after its number unless it is the first. -/
theorem instances_named_apart {declared : ContextDeclaration} (h : Context.build declared = .ok c) :
    c.topology.servers.map Server.name = declared.servers.keys ∧
    (∀ s ∈ c.topology.servers, ∀ i, s.instanceName i =
      s.name ++ "." ++ declared.name ++ if i = 0 then "" else "-" ++ toString i) ∧
    (∀ s ∈ c.topology.servers, ∀ s' ∈ c.topology.servers, ∀ i < s.instances, ∀ j < s'.instances,
      s.instanceName i = s'.instanceName j → s = s' ∧ i = j) ∧
    (c.topology.servers.flatMap Server.instanceNames).Nodup := by
  obtain ⟨rfl, hw⟩ := build_ok h
  refine ⟨hw.serverNames, fun s hs i => ?_, fun s hs s' hs' i _ j _ he => ?_, hw.instanceNames_nodup⟩
  · rw [s.instanceName_eq, Server.resourceName, Server.dn, hw.server_context hs]
    rfl
  · exact hw.instanceName_inj hs hs' he

/-- Servers that are called like instances of each other. -/
def lookalikeDeclaration : ContextDeclaration where
  name := "c-1"
  servers := .ofList [("a", { instances := 3 }), ("a.c-1", { instances := 2 }), ("a.c-1-1", {})]

theorem instances_named_apart_sample : ∃ c, Context.build lookalikeDeclaration = .ok c ∧
    c.topology.servers.flatMap Server.instanceNames =
      ["a.c-1", "a.c-1-1", "a.c-1-2", "a.c-1.c-1", "a.c-1.c-1-1", "a.c-1-1.c-1"] ∧
    (∀ s ∈ c.topology.servers, ∀ s' ∈ c.topology.servers, ∀ i < s.instances, ∀ j < s'.instances,
      s.instanceName i = s'.instanceName j → s = s' ∧ i = j) := by
  obtain ⟨c, hc⟩ := Checks.exists_ok
    (by decide +kernel : (Context.build lookalikeDeclaration).toOption.isSome = true)
  have hnames : ∀ c ∈ (Context.build lookalikeDeclaration).toOption,
      c.topology.servers.flatMap Server.instanceNames =
        ["a.c-1", "a.c-1-1", "a.c-1-2", "a.c-1.c-1", "a.c-1.c-1-1", "a.c-1-1.c-1"] := by decide +kernel
  exact ⟨c, hc, hnames c (by rw [hc]; rfl), (instances_named_apart hc).2.2.1⟩

end Context
end Provision
