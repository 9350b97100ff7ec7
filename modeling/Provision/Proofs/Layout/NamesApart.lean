import Mathlib.Data.List.Pairwise
import Mathlib.Data.List.Perm.Basic
import Provision.Proofs.Layout.Compilation
import Provision.Proofs.Topology.ServerNames

/-! Which topologies can be compiled: those whose names lead to different names of resources. The names
of servers never get in each other's way, those of networks and groups do only where one is another one
with a known ending, and ports may clash with anything that has dots in its name. -/
namespace Provision

/-- What is added to the name of a network for what belongs to it. -/
def Network.extensions (n : Network) : List String :=
  "-subnet" :: if n.router?.isSome then ["-router", "-router-if0"] else []

/-- The names of a network and of what belongs to it, without the context. -/
def Network.localNames (n : Network) : List String := n.name :: n.extensions.map (n.name ++ ·)

namespace Server

def portNames (s : Server) : List String :=
  (List.range s.instances).flatMap fun i => s.networks.map (portName (s.instanceName i))

/-- The parts of one instance, ports excepted. -/
def instanceParts (s : Server) : List Part :=
  (if s.makesVolume then [.volume] else []) ++
    (s.networks.flatMap fun network =>
      if s.floatingIp.any fun f => f.network = network then [.floatingIp, .association] else []) ++
    .server :: if s.declared.volume.isSome then [.attachment] else []

/-- The parts of a server, each with the number of its instance. -/
def ownParts (s : Server) : List (Nat × Part) :=
  (if s.makesFlavor then [(0, .flavor)] else []) ++
    (List.range s.instances).flatMap fun i => s.instanceParts.map (i, ·)

def ownNames (s : Server) : List String := s.ownParts.map fun e => s.ownName e.1 e.2

end Server

namespace Topology

/-- The server groups that become resources. -/
def usedGroups (t : Topology) : List ServerGroup := t.serverGroups.filter fun g => !g.members.isEmpty

def portNames (t : Topology) : List String := t.servers.flatMap Server.portNames
def ownNames (t : Topology) : List String := t.servers.flatMap Server.ownNames

/-- The names of access resources, without the context. -/
def accessNames : List String := ["key", "secgroup"]

/-- The names of access resources, groups and networks, without the context. -/
def localNames (t : Topology) : List String :=
  accessNames ++ t.usedGroups.map Group.name ++ t.networks.flatMap Network.localNames

end Topology

/-! The names of a plan, in another order: first those that all servers share, then the ports, then the
other parts of the servers. -/

/-- What lies in two parts of a list without repetitions lies in one part. -/
theorem eq_of_mem_flatMap {α β : Type} {f : α → List β} {xs : List α} {a b : α} {x : β}
    (h : (xs.flatMap f).Nodup) (ha : a ∈ xs) (hb : b ∈ xs) (hxa : x ∈ f a) (hxb : x ∈ f b) : a = b := by
  have : Std.Symm (Function.onFun List.Disjoint f) := ⟨fun _ _ hab _ hb ha => hab ha hb⟩
  by_contra hne
  exact (List.nodup_flatMap.mp h).2.forall ha hb hne hxa hxb

theorem flatMap_cons_perm {α β : Type} (f : α → β) (g : α → List β) (xs : List α) :
    (xs.flatMap fun x => f x :: g x).Perm (xs.map f ++ xs.flatMap g) := by
  induction xs with
  | nil => exact .refl _
  | cons x xs ih =>
    rw [List.flatMap_cons, List.flatMap_cons, List.map_cons, List.cons_append, List.cons_append]
    refine .cons _ ?_
    exact (ih.append_left _).trans (List.perm_append_comm_assoc _ _ _)

namespace Server

theorem names_portPlan (s : Server) (i : Nat) (network : String) :
    (s.portPlan (s.instanceName i) network).map Prod.fst = portName (s.instanceName i) network ::
      (if s.floatingIp.any fun f => f.network = network then [Part.floatingIp, .association]
        else []).map (s.ownName i) := by
  unfold portPlan
  split <;> rfl

theorem instancePlan_perm (s : Server) (i : Nat) : ((s.instancePlan i).map Prod.fst).Perm
    (s.networks.map (portName (s.instanceName i)) ++ s.instanceParts.map (s.ownName i)) := by
  have hports := flatMap_cons_perm (portName (s.instanceName i)) (fun network =>
    (if s.floatingIp.any fun f => f.network = network then [Part.floatingIp, .association]
      else []).map (s.ownName i)) s.networks
  have hvolume : (if s.makesVolume then [(volumeName (s.instanceName i), ResourceKind.volume)]
      else []).map Prod.fst = (if s.makesVolume then [Part.volume] else []).map (s.ownName i) := by
    split <;> rfl
  have hattachment : (if s.declared.volume.isSome
      then [(attachmentName (s.instanceName i), ResourceKind.volumeAttachment)] else []).map Prod.fst =
      (if s.declared.volume.isSome then [Part.attachment] else []).map (s.ownName i) := by
    split <;> rfl
  have hserver := s.ownName_server i
  simp only [instancePlan, instanceParts, List.map_append, List.map_cons,
    List.map_flatMap, names_portPlan, hvolume, hattachment, hserver, List.append_assoc,
    List.cons_append, List.nil_append]
  refine ((hports.append_right _).append_left _).trans ?_
  rw [List.append_assoc]
  exact List.perm_append_comm_assoc _ _ _

theorem plan_perm (s : Server) : (s.plan.map Prod.fst).Perm (s.portNames ++ s.ownNames) := by
  have hflavor : (if s.makesFlavor then [(s.flavorName, ResourceKind.flavor)] else []).map Prod.fst =
      (if s.makesFlavor then [((0 : Nat), Part.flavor)] else []).map fun e => s.ownName e.1 e.2 := by
    split <;> rfl
  have hinstances := (List.flatMap_append_perm (List.range s.instances)
    (fun i => s.networks.map (portName (s.instanceName i)))
    (fun i => s.instanceParts.map (s.ownName i))).symm
  have hplans := List.Perm.flatMap_left (List.range s.instances) fun i _ => s.instancePlan_perm i
  simp only [plan, portNames, ownNames, ownParts, List.map_append, List.map_flatMap, hflavor,
    List.map_map, Function.comp_def]
  refine ((hplans.trans hinstances).append_left _).trans ?_
  exact List.perm_append_comm_assoc _ _ _

end Server

theorem Topology.plan_perm (t : Topology) : (t.plan.map Prod.fst).Perm
    (t.basePlan.map Prod.fst ++ (t.portNames ++ t.ownNames)) := by
  rw [plan, List.map_append, List.map_flatMap]
  refine List.Perm.append_left _ ?_
  refine (t.placementOrder_perm.flatMap fun s _ => s.plan_perm).trans ?_
  exact (List.flatMap_append_perm t.servers Server.portNames Server.ownNames).symm

/-! Servers: without the ports their names never clash. -/

namespace Server
variable {s : Server}

/-- Only the network that reaches the server's floating address brings parts with it. -/
theorem mem_floatingParts {network : String} {p : Part}
    (hp : p ∈ (if s.floatingIp.any fun f => f.network = network then [Part.floatingIp, .association]
      else [])) :
    (p = .floatingIp ∨ p = .association) ∧ ∃ f ∈ s.floatingIp, f.network = network := by
  split at hp
  · next hany => exact ⟨by simpa using hp, by simpa [Option.any_eq_true] using hany⟩
  · cases hp

theorem floatingParts_nodup (h : s.networks.Nodup) : (s.networks.flatMap fun network =>
    if s.floatingIp.any fun f => f.network = network then [Part.floatingIp, .association]
      else []).Nodup := by
  rw [List.nodup_flatMap]
  refine ⟨fun n _ => by split <;> decide, h.imp fun {a b} hab p ha hb => hab ?_⟩
  obtain ⟨-, f, hf, rfl⟩ := mem_floatingParts ha
  obtain ⟨-, f', hf', rfl⟩ := mem_floatingParts hb
  rw [Option.some.inj (hf.symm.trans hf')]

theorem instanceParts_nodup (h : s.networks.Nodup) : s.instanceParts.Nodup := by
  have hvolume : ∀ {p : Part}, p ∈ (if s.makesVolume then [Part.volume] else []) → p = .volume := by
    intro p hp
    split at hp
    · exact List.mem_singleton.mp hp
    · cases hp
  unfold instanceParts
  refine List.nodup_append.mpr ⟨List.nodup_append.mpr ⟨by split <;> decide, floatingParts_nodup h, ?_⟩,
    by split <;> decide, ?_⟩
  · intro p hp q hq
    obtain ⟨n, -, hq⟩ := List.mem_flatMap.mp hq
    rcases (mem_floatingParts hq).1 with rfl | rfl <;> simp [hvolume hp]
  · intro p hp q hq
    have hlast : q = .server ∨ q = .attachment := by
      split at hq <;> simp_all
    rcases List.mem_append.mp hp with hp | hp
    · rcases hlast with rfl | rfl <;> simp [hvolume hp]
    · obtain ⟨n, -, hp⟩ := List.mem_flatMap.mp hp
      rcases (mem_floatingParts hp).1 with rfl | rfl <;> rcases hlast with rfl | rfl <;> decide

theorem flavor_not_mem_instanceParts : Part.flavor ∉ s.instanceParts := by
  unfold instanceParts
  simp only [List.mem_append, List.mem_cons, List.mem_flatMap]
  rintro ((hp | ⟨n, -, hp⟩) | hp | hp)
  · split at hp <;> simp at hp
  · split at hp <;> simp at hp
  · cases hp
  · split at hp <;> simp at hp

theorem ownParts_nodup (h : s.networks.Nodup) : s.ownParts.Nodup := by
  have hinstances : ((List.range s.instances).flatMap fun i => s.instanceParts.map (i, ·)).Nodup := by
    rw [List.nodup_flatMap]
    refine ⟨fun i _ => (instanceParts_nodup h).map fun p q hpq => (Prod.mk.inj hpq).2, ?_⟩
    refine List.nodup_range.imp fun {i j} hij e hi hj => hij ?_
    obtain ⟨p, -, rfl⟩ := List.mem_map.mp hi
    obtain ⟨q, -, hq⟩ := List.mem_map.mp hj
    exact (Prod.mk.inj hq).1.symm
  refine List.nodup_append.mpr ⟨by split <;> decide, hinstances, ?_⟩
  intro e he e' he'
  obtain ⟨i, -, he'⟩ := List.mem_flatMap.mp he'
  obtain ⟨p, hp, rfl⟩ := List.mem_map.mp he'
  split at he
  · obtain rfl := List.mem_singleton.mp he
    exact fun he => flavor_not_mem_instanceParts ((Prod.mk.inj he).2 ▸ hp)
  · cases he

/-- The networks of a server differ from each other if its ports do. -/
theorem networks_nodup (hi : 0 < s.instances) (h : s.portNames.Nodup) : s.networks.Nodup :=
  List.Nodup.of_map _ ((List.nodup_flatMap.mp h).1 0 (List.mem_range.mpr hi))

end Server

namespace Topology
variable {t : Topology}

theorem ownNames_nodup (h : t.WellFormed) (hp : t.portNames.Nodup) : t.ownNames.Nodup := by
  have hservers : t.servers.Pairwise fun s s' => s.name ≠ s'.name := by
    have hn : (t.servers.map Server.name).Nodup := h.serverNames ▸ t.declared.servers.nodup
    exact List.pairwise_map.mp hn
  unfold ownNames
  rw [List.nodup_flatMap]
  refine ⟨fun s hs => ?_, ?_⟩
  · have hnetworks := Server.networks_nodup (h.instances_pos hs) ((List.nodup_flatMap.mp hp).1 s hs)
    refine (Server.ownParts_nodup hnetworks).map fun e e' he => ?_
    obtain ⟨-, hi, hpart⟩ := Server.ownName_inj rfl he
    exact Prod.ext hi hpart
  · refine hservers.imp_of_mem fun {s s'} hs hs' hne name hname hname' => hne ?_
    obtain ⟨e, -, rfl⟩ := List.mem_map.mp hname
    obtain ⟨e', -, he⟩ := List.mem_map.mp hname'
    have hcontext : s'.context = s.context := (h.server_context hs').trans (h.server_context hs).symm
    exact (Server.ownName_inj hcontext he).1.symm

end Topology

/-! What all servers share: the names of access resources, groups and networks. -/

theorem getLast?_append {a e : String} (he : e ≠ "") :
    (a ++ e).toList.getLast? = e.toList.getLast? := by
  have hne : e.toList ≠ [] := fun h => he (String.toList_eq_nil_iff.mp h)
  rw [String.toList_append, List.getLast?_append_of_ne_nil _ hne]

namespace Network
variable {n : Network} {e e' a b : String}

theorem mem_extensions (h : e ∈ n.extensions) : e = "-subnet" ∨ e = "-router" ∨ e = "-router-if0" := by
  unfold extensions at h
  split at h <;> simp_all

theorem extensions_nodup (n : Network) : n.extensions.Nodup := by
  unfold extensions
  split <;> decide

theorem extension_ne (h : e ∈ n.extensions) : e ≠ "" := by
  rcases mem_extensions h with rfl | rfl | rfl <;> decide

/-- The last character tells the extension. -/
theorem extension_inj {n' : Network} (h : e ∈ n.extensions) (h' : e' ∈ n'.extensions)
    (heq : a ++ e = b ++ e') : a = b ∧ e = e' := by
  have hlast := congrArg (fun s : String => s.toList.getLast?) heq
  simp only [getLast?_append (extension_ne h), getLast?_append (extension_ne h')]
    at hlast
  have he : e = e' := by
    rcases mem_extensions h with rfl | rfl | rfl <;> rcases mem_extensions h' with rfl | rfl | rfl <;>
      first | rfl | exact absurd hlast (by decide)
  exact ⟨(String.append_left_inj _).mp (he ▸ heq), he⟩

theorem extension_not_access (h : e ∈ n.extensions) : a ++ e ∉ Topology.accessNames := by
  intro hm
  have hlast := getLast?_append (a := a) (extension_ne h)
  rcases mem_extensions h with rfl | rfl | rfl <;> simp only [Topology.accessNames, List.mem_cons,
    List.not_mem_nil, or_false] at hm <;> rcases hm with hm | hm <;>
    exact absurd (hm ▸ hlast) (by decide)

theorem names_plan (n : Network) : n.plan.map Prod.fst = n.resourceNames := by
  cases hr : n.router? <;> simp [plan, resourceNames, hr]

theorem resourceNames_eq (n : Network) :
    n.resourceNames = n.localNames.map (n.context ++ "-" ++ ·) := by
  have hif : "-router" ++ "-if0" = "-router-if0" := rfl
  cases he : n.declared.externalNetwork <;>
    simp [resourceNames, localNames, extensions, router?, he, resourceName, subnetName,
      Router.resourceName, Router.interfaceName, String.append_assoc, hif]

theorem localNames_nodup (n : Network) : n.localNames.Nodup := by
  refine List.nodup_cons.mpr ⟨?_, n.extensions_nodup.map fun e e' h =>
    (String.append_right_inj _).mp h⟩
  intro hm
  obtain ⟨e, he, heq⟩ := List.mem_map.mp hm
  exact extension_ne he (String.append_eq_left_iff.mp heq)

end Network

namespace Topology
variable {t : Topology}

theorem names_basePlan (t : Topology) : t.basePlan.map Prod.fst = [t.keypair, t.securityGroup] ++
    (t.usedGroups.map Group.resourceName ++ t.networks.flatMap Network.resourceNames) := by
  simp only [basePlan, List.map_append, List.map_map, List.map_flatMap, Network.names_plan,
    List.append_assoc]
  rfl

theorem names_basePlan_eq (h : t.WellFormed) :
    t.basePlan.map Prod.fst = t.localNames.map (t.name ++ "-" ++ ·) := by
  have hkey : "-" ++ "key" = "-key" := rfl
  have hsecgroup : "-" ++ "secgroup" = "-secgroup" := rfl
  have haccess : [t.keypair, t.securityGroup] = accessNames.map (t.name ++ "-" ++ ·) := by
    simp [keypair, keypairName, securityGroup, securityGroupName, accessNames, String.append_assoc,
      hkey, hsecgroup]
  have hgroups : t.usedGroups.map Group.resourceName =
      (t.usedGroups.map Group.name).map (t.name ++ "-" ++ ·) := by
    rw [List.map_map]
    refine List.map_congr_left fun g hg => ?_
    rw [Group.resourceName, h.serverGroupContext g (List.mem_of_mem_filter hg), Function.comp_apply]
  have hnetworks : t.networks.flatMap Network.resourceNames =
      (t.networks.flatMap Network.localNames).map (t.name ++ "-" ++ ·) := by
    rw [List.map_flatMap]
    refine List.flatMap_congr fun n hn => ?_
    rw [n.resourceNames_eq, h.network_context hn]
  rw [names_basePlan, localNames, List.map_append, List.map_append, ← haccess, ← hgroups,
    ← hnetworks, List.append_assoc]

/-- The names of networks lead to different names if none is another one with an extension. -/
theorem networks_nodup_iff (h : t.WellFormed) : (t.networks.flatMap Network.localNames).Nodup ↔
    ∀ n ∈ t.networks, ∀ e ∈ n.extensions, n.name ++ e ∉ t.networks.map Network.name := by
  constructor
  · intro hnodup n hn e he hm
    obtain ⟨n', hn', heq⟩ := List.mem_map.mp hm
    have hlong : n.name ++ e ∈ n.localNames := List.mem_cons_of_mem _ (List.mem_map.mpr ⟨e, he, rfl⟩)
    obtain rfl : n = n' := eq_of_mem_flatMap hnodup hn hn' hlong (heq ▸ List.mem_cons_self)
    exact Network.extension_ne he (String.append_eq_left_iff.mp heq.symm)
  · intro hfree
    refine List.nodup_flatMap.mpr ⟨fun n _ => n.localNames_nodup, ?_⟩
    have hnames : t.networks.Pairwise fun n n' => n.name ≠ n'.name :=
      List.pairwise_map.mp h.networkNames_nodup
    refine hnames.imp_of_mem fun {n n'} hn hn' hne x hx hx' => ?_
    rcases List.mem_cons.mp hx with rfl | hx <;> rcases List.mem_cons.mp hx' with heq | hx'
    · exact hne heq
    · obtain ⟨e, he, heq⟩ := List.mem_map.mp hx'
      exact hfree n' hn' e he (heq ▸ List.mem_map.mpr ⟨n, hn, rfl⟩)
    · subst heq
      obtain ⟨e, he, heq⟩ := List.mem_map.mp hx
      exact hfree n hn e he (heq ▸ List.mem_map.mpr ⟨n', hn', rfl⟩)
    · obtain ⟨e, he, rfl⟩ := List.mem_map.mp hx
      obtain ⟨e', he', heq⟩ := List.mem_map.mp hx'
      exact hne (Network.extension_inj he' he heq).1.symm

/-- No group that was accepted shares a name with a network or what belongs to it. -/
theorem group_not_network (h : t.WellFormed) {g : ServerGroup} (hg : g ∈ t.usedGroups) :
    g.name ∉ t.networks.flatMap Network.localNames := by
  have hg := List.mem_of_mem_filter hg
  intro hm
  obtain ⟨n, hn, hm⟩ := List.mem_flatMap.mp hm
  refine h.groupsApart g hg (List.mem_flatMap.mpr ⟨n, hn, ?_⟩)
  rw [n.resourceNames_eq, Group.resourceName, h.serverGroupContext g hg, h.network_context hn]
  exact List.mem_map.mpr ⟨g.name, hm, rfl⟩

theorem localNames_nodup_iff (h : t.WellFormed) : t.localNames.Nodup ↔
    (∀ n ∈ t.networks, n.name ∉ accessNames) ∧ (∀ g ∈ t.usedGroups, g.name ∉ accessNames) ∧
      ∀ n ∈ t.networks, ∀ e ∈ n.extensions, n.name ++ e ∉ t.networks.map Network.name := by
  have hgroups : (t.usedGroups.map Group.name).Nodup :=
    (List.filter_sublist.map _).nodup (h.serverGroupNames ▸ t.declared.serverGroups.nodup)
  rw [← networks_nodup_iff h, localNames, List.nodup_append, List.nodup_append]
  constructor
  · rintro ⟨⟨-, -, hgroup⟩, hnetworks, hapart⟩
    refine ⟨fun n hn hm => ?_, fun g hg hm => ?_, hnetworks⟩
    · exact hapart _ (List.mem_append_left _ hm) _
        (List.mem_flatMap.mpr ⟨n, hn, List.mem_cons_self⟩) rfl
    · exact hgroup _ hm _ (List.mem_map.mpr ⟨g, hg, rfl⟩) rfl
  · rintro ⟨hnetwork, hgroup, hnetworks⟩
    refine ⟨⟨by decide, hgroups, ?_⟩, hnetworks, ?_⟩
    · rintro a ha b hb rfl
      obtain ⟨g, hg, rfl⟩ := List.mem_map.mp hb
      exact hgroup g hg ha
    · rintro a ha b hb rfl
      rcases List.mem_append.mp ha with ha | ha
      · obtain ⟨n, hn, hb⟩ := List.mem_flatMap.mp hb
        rcases List.mem_cons.mp hb with rfl | hb
        · exact hnetwork n hn ha
        · obtain ⟨e, he, rfl⟩ := List.mem_map.mp hb
          exact Network.extension_not_access he ha
      · obtain ⟨g, hg, rfl⟩ := List.mem_map.mp ha
        exact group_not_network h hg hb

/-! Servers against the rest. -/

/-- The name of a port ends as no name of an instance's part does, unless that is the first instance. -/
theorem port_eq_part {s : Server} {inst network : String} {i : Nat} {p : Part}
    (h : portName inst network = s.ownName i p) : p = .server ∧ i = 0 := by
  have hrev := congrArg (fun name : String => name.toList.reverse) h
  have hport : "-port".toList.reverse = ['t', 'r', 'o', 'p', '-'] := rfl
  simp only [portName, Server.ownName, String.toList_append, List.reverse_append, hport] at hrev
  cases p with
  | server =>
    refine ⟨rfl, ?_⟩
    by_contra hi
    rw [Server.instanceName_eq, String.toList_append, Server.toList_number, if_neg hi] at hrev
    have hdigit : 't' ∈ (Nat.toDigits 10 i).reverse := by
      cases hd : (Nat.toDigits 10 i).reverse with
      | nil => exact absurd (List.reverse_eq_nil_iff.mp hd) Nat.toDigits_ne_nil
      | cons d ds =>
        simp [Part.suffix, hd] at hrev
        exact List.mem_cons.mpr (Or.inl hrev.1)
    exact absurd (Server.isDigit_of_mem_toDigits (List.mem_reverse.mp hdigit)) (by decide)
  | flavor => cases hrev
  | volume => cases hrev
  | attachment => cases hrev
  | floatingIp => cases hrev
  | association => cases hrev

/-- The name of a server with its context, somewhere in a name. -/
theorem mentions_context {s : Server} {name : String} (h : name ∈ s.portNames ++ s.ownNames) :
    ∃ rest, name.toList = s.name.toList ++ ('.' :: s.context.toList ++ rest) := by
  rcases List.mem_append.mp h with h | h
  · obtain ⟨i, -, h⟩ := List.mem_flatMap.mp h
    obtain ⟨network, -, rfl⟩ := List.mem_map.mp h
    exact ⟨(Server.number i).toList ++ ("-" ++ network ++ "-port").toList, by
      simp [portName, Server.instanceName_eq, Server.resourceName, Server.dn]⟩
  · obtain ⟨e, -, rfl⟩ := List.mem_map.mp h
    exact ⟨_, s.toList_ownName e.1 e.2⟩

/-- Access resources have too few dots in their names. -/
theorem access_not_server {s : Server} {name : String} (hc : s.context = t.name)
    (h : name ∈ s.portNames ++ s.ownNames) : name ∉ [t.keypair, t.securityGroup] := by
  obtain ⟨rest, hname⟩ := mentions_context h
  intro hm
  have hdots : name.toList.count '.' = t.name.toList.count '.' := by
    rcases List.mem_cons.mp hm with rfl | hm
    · simp [keypair, keypairName]
    · obtain rfl := List.mem_singleton.mp hm
      simp [securityGroup, securityGroupName]
  rw [hname, hc] at hdots
  simp [List.count_append] at hdots
  omega

theorem access_not_owned (h : t.WellFormed) {name : String} (hm : name ∈ t.portNames ++ t.ownNames) :
    name ∉ [t.keypair, t.securityGroup] := by
  have hserver : ∃ s ∈ t.servers, name ∈ s.portNames ++ s.ownNames := by
    rcases List.mem_append.mp hm with hm | hm
    · obtain ⟨s, hs, hm⟩ := List.mem_flatMap.mp hm
      exact ⟨s, hs, List.mem_append_left _ hm⟩
    · obtain ⟨s, hs, hm⟩ := List.mem_flatMap.mp hm
      exact ⟨s, hs, List.mem_append_right _ hm⟩
  obtain ⟨s, hs, hm⟩ := hserver
  exact access_not_server (h.server_context hs) hm

/-- The names of a topology lead to different names of resources: no network or group takes the name of
an access resource, no network that of another one with an extension, ports differ from each other and
from all servers, and what belongs to servers is not called as a group or network is. -/
structure NamesApart (t : Topology) : Prop where
  networks : ∀ n ∈ t.networks, n.name ∉ accessNames
  groups : ∀ g ∈ t.usedGroups, g.name ∉ accessNames
  extensions : ∀ n ∈ t.networks, ∀ e ∈ n.extensions, n.name ++ e ∉ t.networks.map Network.name
  ports : t.portNames.Nodup
  servers : ∀ s ∈ t.servers, s.resourceName ∉ t.portNames
  shared : ∀ name ∈ t.portNames ++ t.ownNames,
    name ∉ t.usedGroups.map Group.resourceName ++ t.networks.flatMap Network.resourceNames

theorem server_mem_ownNames (h : t.WellFormed) {s : Server} (hs : s ∈ t.servers) :
    s.resourceName ∈ t.ownNames := by
  refine List.mem_flatMap.mpr ⟨s, hs, List.mem_map.mpr ⟨(0, .server), ?_, s.ownName_server 0⟩⟩
  refine List.mem_append_right _ (List.mem_flatMap.mpr ⟨0, List.mem_range.mpr (h.instances_pos hs), ?_⟩)
  simp [Server.instanceParts]

/-- A port that is called like a part of a server is called like the server. -/
theorem port_not_part (hs : ∀ s ∈ t.servers, s.resourceName ∉ t.portNames) :
    ∀ name ∈ t.portNames, name ∉ t.ownNames := by
  intro name hport hown
  obtain ⟨s, hmem, hown⟩ := List.mem_flatMap.mp hown
  obtain ⟨⟨i, p⟩, -, rfl⟩ := List.mem_map.mp hown
  obtain ⟨s', -, hport'⟩ := List.mem_flatMap.mp hport
  obtain ⟨j, -, hport'⟩ := List.mem_flatMap.mp hport'
  obtain ⟨network, -, heq⟩ := List.mem_map.mp hport'
  obtain ⟨rfl, rfl⟩ := port_eq_part heq
  have hname : s.ownName 0 .server = s.resourceName := s.ownName_server 0
  exact hs s hmem (hname ▸ (hport : s.ownName 0 .server ∈ t.portNames))

theorem plan_nodup_iff (h : t.WellFormed) : (t.plan.map Prod.fst).Nodup ↔ t.NamesApart := by
  rw [t.plan_perm.nodup_iff, List.nodup_append, List.nodup_append]
  have hlocal := localNames_nodup_iff h
  constructor
  · rintro ⟨hbase, ⟨hports, -, hpart⟩, hapart⟩
    rw [names_basePlan_eq h] at hbase
    obtain ⟨hnetworks, hgroups, hextensions⟩ := hlocal.mp (List.Nodup.of_map _ hbase)
    refine ⟨hnetworks, hgroups, hextensions, hports, fun s hs hm => ?_, fun name hname hm => ?_⟩
    · exact hpart _ hm _ (server_mem_ownNames h hs) rfl
    · refine hapart name ?_ name hname rfl
      rw [names_basePlan]
      exact List.mem_append_right _ hm
  · rintro ⟨hnetworks, hgroups, hextensions, hports, hservers, hshared⟩
    have hbase : (t.basePlan.map Prod.fst).Nodup := by
      rw [names_basePlan_eq h]
      exact (hlocal.mpr ⟨hnetworks, hgroups, hextensions⟩).map fun _ _ he =>
        (String.append_right_inj _).mp he
    refine ⟨hbase, ⟨hports, ownNames_nodup h hports, ?_⟩, ?_⟩
    · rintro a ha b hb rfl
      exact port_not_part hservers a ha hb
    · rintro a ha b hb rfl
      rw [names_basePlan] at ha
      rcases List.mem_append.mp ha with ha | ha
      · exact access_not_owned h hb ha
      · exact hshared a hb ha

end Topology

namespace Context
variable {c : Context}

/-- A context that was built can be compiled if and only if its names lead to different names of
resources. Building it has not checked that. -/
theorem compile_iff_namesApart {declared : ContextDeclaration} (h : Context.build declared = .ok c) :
    (∃ g, c.compile.1 = .ok g) ↔ c.topology.NamesApart := by
  have hw := (build_ok h).2
  rw [← Topology.plan_nodup_iff hw]
  exact ⟨fun ⟨g, hg⟩ => nodup_of_compile hw hg, compile_of_nodup hw⟩

theorem compile_iff_namesApart_sample : ∃ c, Context.build sampleDeclaration = .ok c ∧
    c.topology.NamesApart ∧ ((∃ g, c.compile.1 = .ok g) ↔ c.topology.NamesApart) := by
  obtain ⟨c, hc⟩ := Checks.exists_ok
    (by decide +kernel : (Context.build sampleDeclaration).toOption.isSome = true)
  have hcompiles : (Context.build sampleDeclaration).toOption.all
      (fun c => c.compile.1.toOption.isSome) = true := by decide +kernel
  rw [hc] at hcompiles
  have hiff := compile_iff_namesApart hc
  exact ⟨c, hc, hiff.mp (Checks.exists_ok hcompiles), hiff⟩

/-- A network takes the name of the key pair. -/
def clashingDeclaration : ContextDeclaration where
  name := "demo"
  networks := .ofList [("key", {})]

/-- Building does not see that the network and the key pair become resources of one name. -/
theorem clash_reaches_compile : ∃ c, Context.build clashingDeclaration = .ok c ∧
    c.compile.1 = .error (.duplicateResource "demo-key") := by
  obtain ⟨c, hc⟩ := Checks.exists_ok
    (by decide +kernel : (Context.build clashingDeclaration).toOption.isSome = true)
  have hclash : (Context.build clashingDeclaration).toOption.all (fun c =>
      match c.compile.1 with
      | .error e => e = .duplicateResource "demo-key"
      | .ok _ => false) = true := by decide +kernel
  rw [hc] at hclash
  refine ⟨c, hc, ?_⟩
  simp only [Except.toOption, Option.all_some] at hclash
  split at hclash
  · next e he => rw [he, of_decide_eq_true hclash]
  · cases hclash

end Context
end Provision
