import Provision.Proofs.Layout.Compilation
import Provision.Proofs.SortedMap

/-! Which ports are noted while a topology is laid out. What is noted of one server depends on the steps of
that server alone, and these begin by forgetting what was noted before, so that in the end the ports noted
of a server are those of its first instance, one for each of its networks. -/
namespace Provision

/-- The ports noted of a server after a step. -/
def Step.noted (server : String) (ports : SortedMap String) : Step → SortedMap String
  | .clearPorts other => if other = server then ∅ else ports
  | .notePort other network port => if other = server then ports.insert network port else ports
  | _ => ports

/-- Steps that note nothing of a server. -/
def Silent (server : String) (steps : List Step) : Prop :=
  ∀ s ∈ steps, ∀ ports, s.noted server ports = ports

/-- The ports noted of a server after some steps. -/
def noted (server : String) (steps : List Step) (ports : SortedMap String) : SortedMap String :=
  steps.foldl (Step.noted server) ports

@[simp] theorem noted_append (server : String) (a b : List Step) (ports : SortedMap String) :
    noted server (a ++ b) ports = noted server b (noted server a ports) := List.foldl_append

namespace Silent
variable {server : String} {a b steps : List Step}

theorem noted (h : Silent server steps) (ports : SortedMap String) :
    noted server steps ports = ports := by
  induction steps with
  | nil => rfl
  | cons s rest ih =>
    obtain ⟨hs, hrest⟩ := List.forall_mem_cons.mp h
    rw [Provision.noted, List.foldl_cons, hs]
    exact ih hrest

theorem append (ha : Silent server a) (hb : Silent server b) : Silent server (a ++ b) :=
  fun s hs => (List.mem_append.mp hs).elim (ha s) (hb s)

theorem flatMap {α : Type} {f : α → List Step} {xs : List α} (h : ∀ x ∈ xs, Silent server (f x)) :
    Silent server (xs.flatMap f) := by
  intro s hs
  obtain ⟨x, hx, hs⟩ := List.mem_flatMap.mp hs
  exact h x hx s hs

end Silent

namespace Progress
variable {p q : Progress} {steps : List Step}

theorem portsOf_insert (ports : PortTable) (other server : String) (m : SortedMap String) :
    portsOf (ports.insert other m) server = if other = server then m else portsOf ports server := by
  by_cases h : other = server
  · simp [portsOf, h]
  · simp [portsOf, h, Ne.symm h]

theorem portsOf_step {s : Step} (h : p.step s = .ok q) (server : String) :
    portsOf q.ports server = s.noted server (portsOf p.ports server) := by
  cases s with
  | declare r =>
    simp only [step] at h
    split at h
    · cases h
      rfl
    · cases h
  | report name output =>
    cases h
    rfl
  | clearPorts other =>
    cases h
    exact portsOf_insert ..
  | notePort other network port =>
    cases h
    rw [portsOf_insert, Step.noted]
    split
    · next h => rw [h]
    · rfl

theorem portsOf_run (h : p.run steps = (q, none)) (server : String) :
    portsOf q.ports server = noted server steps (portsOf p.ports server) := by
  induction steps generalizing p with
  | nil =>
    cases h
    rfl
  | cons s rest ih =>
    simp only [run] at h
    split at h
    · next p' hs =>
      rw [ih h, portsOf_step hs]
      rfl
    · cases h

end Progress

namespace Server
variable {server : String}

theorem silent_floatingIp (s : Server) (inst : String) (n : Network) :
    Silent server (s.floatingIpSteps inst n) := by
  unfold floatingIpSteps Silent
  split <;> simp [Step.noted]

theorem silent_volume (s : Server) (inst : String) : Silent server (s.volumeSteps inst) := by
  unfold volumeSteps Silent
  split <;> simp [Step.noted]

theorem silent_attachment (s : Server) (inst : String) : Silent server (s.attachmentSteps inst) := by
  unfold attachmentSteps Silent
  split <;> simp [Step.noted]

theorem silent_flavor (s : Server) : Silent server s.flavorSteps := by
  unfold flavorSteps Silent
  split <;> simp [Step.noted]

/-- Only the ports of the first instance are noted, and only of their own server. -/
theorem silent_port (s : Server) {i : Nat} (n : Network) (h : i ≠ 0 ∨ s.name ≠ server) :
    Silent server (s.portSteps i n) := by
  refine Silent.append (Silent.append (by simp [Silent, Step.noted]) ?_) (s.silent_floatingIp _ n)
  rcases h with hi | hs
  · rw [if_neg hi]
    exact fun _ hm => (List.not_mem_nil hm).elim
  · split <;> simp [Silent, Step.noted, hs]

theorem silent_instance (s : Server) (networks : List Network) (hints : Hints) {i : Nat}
    (h : i ≠ 0 ∨ s.name ≠ server) : Silent server (s.instanceSteps networks hints i) := by
  refine (((s.silent_volume _).append (.flatMap fun n _ => s.silent_port n h)).append ?_).append
    (s.silent_attachment _)
  simp [Silent, Step.noted]

theorem silent_steps (s : Server) (networks : List Network) (hints : Hints) (h : s.name ≠ server) :
    Silent server (s.steps networks hints) := by
  refine (s.silent_flavor.append ?_).append (.flatMap fun i _ => s.silent_instance _ hints (Or.inr h))
  simp [Silent, Step.noted, h]

/-- The ports of the first instance, by network. -/
def firstPorts (s : Server) (networks : List String) : SortedMap String :=
  .ofList (networks.map fun network => (network, portName s.resourceName network))

theorem noted_portSteps (s : Server) (networks : List Network) (ports : SortedMap String) :
    noted s.name (networks.flatMap (s.portSteps 0)) ports =
      networks.foldl (fun m n => m.insert n.name (portName s.resourceName n.name)) ports := by
  induction networks generalizing ports with
  | nil => rfl
  | cons n rest ih =>
    rw [List.flatMap_cons, noted_append, ih, List.foldl_cons, portSteps, noted_append,
      (s.silent_floatingIp _ n).noted]
    simp [noted, Step.noted, instanceName]

/-- Of an instance only the steps of its ports can note anything. -/
theorem noted_instanceSteps (s : Server) (networks : List Network) (hints : Hints) (i : Nat)
    (ports : SortedMap String) : noted s.name (s.instanceSteps networks hints i) ports =
      noted s.name (networks.flatMap (s.portSteps i)) ports := by
  rw [instanceSteps, noted_append, noted_append, noted_append, (s.silent_volume _).noted,
    (s.silent_attachment _).noted, Silent.noted (by simp [Silent, Step.noted])]

/-- The steps of a server note the ports of its first instance, whatever was noted before. -/
theorem noted_steps (s : Server) (networks : List Network) (hints : Hints) (hi : 0 < s.instances)
    (ports : SortedMap String) : noted s.name (s.steps networks hints) ports =
      s.firstPorts ((s.attached networks).map Network.name) := by
  obtain ⟨k, hk⟩ := Nat.exists_eq_succ_of_ne_zero (Nat.ne_of_gt hi)
  have hrange : List.range s.instances = 0 :: (List.range k).map Nat.succ := by
    rw [hk, List.range_succ_eq_map]
  have hrest : Silent s.name (((List.range k).map Nat.succ).flatMap
      (s.instanceSteps (s.attached networks) hints)) := by
    refine .flatMap fun i hm => s.silent_instance _ hints (Or.inl ?_)
    obtain ⟨j, -, rfl⟩ := List.mem_map.mp hm
    exact Nat.succ_ne_zero j
  have hcleared : ∀ ports, noted s.name [.clearPorts s.name] ports = ∅ := by simp [noted, Step.noted]
  rw [steps, hrange, List.flatMap_cons, noted_append, noted_append, noted_append, hrest.noted, hcleared,
    noted_instanceSteps, noted_portSteps, firstPorts, SortedMap.ofList, List.map_map, List.foldl_map]
  rfl

end Server

namespace Topology
variable {t : Topology} {s : Server}

theorem silent_serverSteps {server : String} {servers : List Server}
    (h : ∀ s ∈ servers, s.name ≠ server) (placed : List String) :
    Silent server (t.serverSteps placed servers) := by
  induction servers generalizing placed with
  | nil => exact fun _ hm => (List.not_mem_nil hm).elim
  | cons s rest ih =>
    obtain ⟨hs, hrest⟩ := List.forall_mem_cons.mp h
    exact (s.silent_steps _ _ hs).append (ih hrest _)

theorem noted_serverSteps {servers : List Server} (hn : (servers.map Server.name).Nodup)
    (hs : s ∈ servers) (hi : 0 < s.instances) (placed : List String) (ports : SortedMap String) :
    noted s.name (t.serverSteps placed servers) ports =
      s.firstPorts ((s.attached t.networks).map Network.name) := by
  induction servers generalizing placed ports with
  | nil => cases hs
  | cons first rest ih =>
    obtain ⟨hfirst, hrest⟩ := List.nodup_cons.mp hn
    rw [serverSteps, noted_append]
    rcases List.mem_cons.mp hs with rfl | hs
    · have hothers : ∀ s' ∈ rest, s'.name ≠ s.name := fun s' hs' he =>
        hfirst (he ▸ List.mem_map_of_mem hs')
      rw [(silent_serverSteps hothers _).noted, s.noted_steps _ _ hi]
    · exact ih hrest hs _ _

theorem noted_all (h : t.WellFormed) (hs : s ∈ t.servers) (ports : SortedMap String) :
    noted s.name t.steps ports = s.firstPorts s.networks := by
  have hn : (t.placementOrder.map Server.name).Nodup := by
    rw [(t.placementOrder_perm.map Server.name).nodup_iff, h.serverNames]
    exact t.declared.servers.nodup
  rw [steps_eq, noted_append, noted_serverSteps hn (mem_placementOrder.mpr hs) (h.instances_pos hs),
    h.attached_names hs]

end Topology

/-- Compiling notes the ports of the first instances, and nothing else. -/
theorem Context.compile_ok {c c' : Context} {g : Graph} (hw : c.topology.WellFormed)
    (hc : c.compile = (.ok g, c')) : c' = { c with ports := c'.ports } ∧
      ∀ s ∈ c.topology.servers, c'.portsOf s = s.firstPorts s.networks := by
  unfold compile Topology.layOut at hc
  rcases hr : Progress.run ⟨.empty ("Stack for context " ++ c.topology.name), c.ports⟩
    c.topology.steps with ⟨p, _ | e⟩
  · rw [hr] at hc
    cases hc
    exact ⟨rfl, fun s hs => (Progress.portsOf_run hr s.name).trans (Topology.noted_all hw hs _)⟩
  · rw [hr] at hc
    cases hc

end Provision
