import Provision.Proofs.Layout.NamesApart
import Provision.Proofs.Layout.Outputs
import Provision.Proofs.Layout.Requests

/-! When all outputs of a layout have names of their own. The names of outputs are names of resources with
endings, so two of them may be the same although the resources have different names. There is only one way
in which this happens: a server whose context has such an ending is called like another output. -/
namespace Provision

/-- Of two endings of one text the shorter one ends the longer one. -/
theorem suffix_or_suffix {a b u v : String} (h : a ++ u = b ++ v) :
    u.toList <:+ v.toList ∨ v.toList <:+ u.toList := by
  have hlist : a.toList ++ u.toList = b.toList ++ v.toList := by simpa using congrArg String.toList h
  exact List.suffix_or_suffix_of_suffix ⟨_, hlist⟩ ⟨_, rfl⟩

/-! Endings of names of outputs. -/

/-- The endings of names of outputs, but for those that are the names of resources. -/
def derivedEndings : List String := ["-private_key", "-id", "-cidr", "-gateway_ip", "-mac_address"]

theorem empty_not_derived : "" ∉ derivedEndings := by decide

namespace ResourceKind
variable {generated : Bool} {k : ResourceKind} {x : String}

theorem ending_cases (h : x ∈ k.outputEndings generated) : x = "" ∨ x ∈ derivedEndings := by
  revert x
  cases k <;> cases generated <;> decide

theorem outputEndings_nodup (generated : Bool) (k : ResourceKind) : (k.outputEndings generated).Nodup := by
  cases k <;> cases generated <;> decide

end ResourceKind

section Endings
variable {a b x y : String}

theorem derived_inj (hx : x ∈ derivedEndings) (hy : y ∈ derivedEndings) (h : a ++ x = b ++ y) :
    a = b ∧ x = y := by
  have htable : ∀ x ∈ derivedEndings, ∀ y ∈ derivedEndings, x.toList <:+ y.toList → x = y := by decide
  have heq : x = y := (suffix_or_suffix h).elim (htable x hx y hy) fun hs => (htable y hy x hx hs).symm
  exact ⟨(String.append_left_inj _).mp (heq ▸ h), heq⟩

theorem port_not_derived {inst network : String} (hx : x ∈ derivedEndings) :
    portName inst network ≠ b ++ x := by
  have htable : ∀ x ∈ derivedEndings, ¬ ("-port".toList <:+ x.toList ∨ x.toList <:+ "-port".toList) := by
    decide
  exact fun h => htable x hx (suffix_or_suffix h)

theorem floatingIp_not_derived {inst : String} (hx : x ∈ derivedEndings) :
    floatingIpName inst ≠ b ++ x := by
  have htable : ∀ x ∈ derivedEndings, ¬ ("-fip".toList <:+ x.toList ∨ x.toList <:+ "-fip".toList) := by
    decide
  exact fun h => htable x hx (suffix_or_suffix h)

/-- Of the instances of a server only the first can be called like that, all others end in a digit. -/
theorem instance_derived {s : Server} {i : Nat} (hx : x ∈ derivedEndings)
    (h : s.instanceName i = b ++ x) : i = 0 := by
  have htable : ∀ x ∈ derivedEndings, x.toList.getLast?.all Char.isDigit = false := by decide
  by_contra hi
  obtain ⟨d, hd⟩ : ∃ d, (Nat.toDigits 10 i).getLast? = some d :=
    ⟨_, List.getLast?_eq_some_getLast Nat.toDigits_ne_nil⟩
  have hdigit : d.isDigit = true := Server.isDigit_of_mem_toDigits (List.mem_of_getLast? hd)
  have hlast : (s.instanceName i).toList.getLast? = some d := by
    rw [Server.instanceName_eq, String.toList_append, Server.toList_number, if_neg hi,
      List.getLast?_append, List.getLast?_cons, hd]
    rfl
  rw [h, getLast?_append fun he => empty_not_derived (he ▸ hx)] at hlast
  have hending := htable x hx
  rw [hlast, Option.all_some, hdigit] at hending
  cases hending

/-- No server is called like the private key of its context, which has too few dots. -/
theorem server_ne_privateKey (s : Server) : s.resourceName ≠ keypairName s.context ++ "-private_key" := by
  intro h
  have hdots := congrArg (fun name : String => name.toList.count '.') h
  simp [Server.resourceName, Server.dn, keypairName, List.count_append] at hdots
  omega

/-- No server is called like the id of an instance. -/
theorem server_ne_id {s s' : Server} (hc : s.context = s'.context) (i : Nat) :
    s.resourceName ≠ s'.instanceName i ++ "-id" := by
  intro h
  have hlist : s.name.toList ++ ('.' :: s.context.toList ++ []) =
      s'.name.toList ++ ('.' :: s.context.toList ++ ((Server.number i).toList ++ "-id".toList)) := by
    simpa [Server.instanceName_eq, Server.resourceName, Server.dn, hc] using congrArg String.toList h
  have hdot : '.' ∉ (Server.number i).toList ++ "-id".toList := fun hm =>
    (List.mem_append.mp hm).elim (Server.dotless_number i) (by decide)
  have htail := (append_dot_inj List.not_mem_nil hdot hlist).2
  exact absurd (List.append_eq_nil_iff.mp htail.symm).2 (by decide)

end Endings

/-! Which outputs there are. -/

variable {generated : Bool} {e e' : PlanEntry} {x : String}

/-- No output of a network is called like a resource. -/
theorem Network.outputs_derived (generated : Bool) (n : Network) :
    ∀ e ∈ n.plan, "" ∉ e.2.outputEndings generated := by
  by_cases hp : n.isProvider = true <;> cases hr : n.router? <;>
    simp [plan, ResourceKind.outputEndings, hp, hr]

/-- Of the parts of an instance the instance itself has outputs, its ports and its floating address. -/
theorem Server.mem_instancePlan_cases {s : Server} {i : Nat} (he : e ∈ s.instancePlan i)
    (hx : x ∈ e.2.outputEndings generated) :
    e = (s.instanceName i, .server) ∨ e = (floatingIpName (s.instanceName i), .floatingIp) ∨
      ∃ network ∈ s.networks, e = (portName (s.instanceName i) network, .port) := by
  simp only [instancePlan, List.append_assoc, List.mem_append, List.mem_flatMap] at he
  rcases he with he | ⟨network, hn, he⟩ | he | he
  · split at he
    · obtain rfl := List.mem_singleton.mp he
      cases hx
    · cases he
  · rcases List.mem_cons.mp he with rfl | he
    · exact Or.inr (Or.inr ⟨network, hn, rfl⟩)
    · split at he
      · rcases List.mem_cons.mp he with rfl | he
        · exact Or.inr (Or.inl rfl)
        · obtain rfl := List.mem_singleton.mp he
          cases hx
      · cases he
  · exact Or.inl (List.mem_singleton.mp he)
  · split at he
    · obtain rfl := List.mem_singleton.mp he
      cases hx
    · cases he

theorem Server.mem_plan_cases {s : Server} (he : e ∈ s.plan) (hx : x ∈ e.2.outputEndings generated) :
    ∃ i < s.instances, e ∈ s.instancePlan i := by
  rcases List.mem_append.mp he with he | he
  · split at he
    · obtain rfl := List.mem_singleton.mp he
      cases hx
    · cases he
  · obtain ⟨i, hi, he⟩ := List.mem_flatMap.mp he
    exact ⟨i, List.mem_range.mp hi, he⟩

namespace Topology
variable {t : Topology}

/-- Whatever has outputs is the key pair, belongs to a network, or to an instance of a server. -/
theorem mem_plan_cases (he : e ∈ t.plan) (hx : x ∈ e.2.outputEndings generated) :
    e = (t.keypair, .keyPair) ∨ (∃ n ∈ t.networks, e ∈ n.plan) ∨
      ∃ s ∈ t.servers, ∃ i < s.instances, e ∈ s.instancePlan i := by
  rcases List.mem_append.mp he with he | he
  · rcases List.mem_append.mp he with he | he
    · rcases List.mem_append.mp he with he | he
      · rcases List.mem_cons.mp he with rfl | he
        · exact Or.inl rfl
        · obtain rfl := List.mem_singleton.mp he
          cases hx
      · obtain ⟨g, -, rfl⟩ := List.mem_map.mp he
        cases hx
    · exact Or.inr (Or.inl (List.mem_flatMap.mp he))
  · obtain ⟨s, hs, he⟩ := List.mem_flatMap.mp he
    exact Or.inr (Or.inr ⟨s, mem_placementOrder.mp hs, Server.mem_plan_cases he hx⟩)

theorem mem_portNames {name : String} : name ∈ t.portNames ↔
    ∃ s ∈ t.servers, ∃ i < s.instances, ∃ network ∈ s.networks,
      portName (s.instanceName i) network = name := by
  simp [portNames, Server.portNames]

/-- No server is called like an output of a network, or like that of the hardware address of a port. -/
structure OutputsApart (t : Topology) : Prop where
  networks : ∀ s ∈ t.servers, s.resourceName ∉ t.networks.flatMap Network.outputNames
  ports : ∀ s ∈ t.servers, s.resourceName ∉ t.portNames.map (· ++ "-mac_address")

/-- A resource that is called like an output with an ending can only be a server. -/
theorem server_of_derived {b : String} (he : e ∈ t.plan) (hbare : "" ∈ e.2.outputEndings generated)
    (hx : x ∈ derivedEndings) (heq : e.1 = b ++ x) : ∃ s ∈ t.servers, e.1 = s.resourceName := by
  rcases mem_plan_cases he hbare with rfl | ⟨n, -, he⟩ | ⟨s, hs, i, -, he⟩
  · have hnone : "" ∉ ResourceKind.keyPair.outputEndings generated := by cases generated <;> decide
    exact absurd hbare hnone
  · exact absurd hbare (n.outputs_derived generated e he)
  · rcases Server.mem_instancePlan_cases he hbare with rfl | rfl | ⟨network, -, rfl⟩
    · obtain rfl := instance_derived hx heq
      exact ⟨s, hs, rfl⟩
    · exact absurd heq (floatingIp_not_derived hx)
    · exact absurd heq (port_not_derived hx)

/-- What a server's name has to differ from to differ from all outputs with an ending. -/
theorem OutputsApart.server_ne (ha : t.OutputsApart) (h : t.WellFormed) {s : Server} (hs : s ∈ t.servers)
    (he : e ∈ t.plan) (hx : x ∈ e.2.outputEndings generated) (hd : x ∈ derivedEndings) :
    s.resourceName ≠ e.1 ++ x := by
  rcases mem_plan_cases he hx with rfl | ⟨n, hn, he⟩ | ⟨s', hs', i, hi, he⟩
  · obtain rfl : x = "-private_key" := by
      cases generated <;> simp [ResourceKind.outputEndings] at hx
      exact hx
    have hkey : t.keypair = keypairName s.context := by rw [keypair, h.server_context hs]
    exact hkey ▸ server_ne_privateKey s
  · have hm : e.1 ++ x ∈ n.outputNames := by
      rw [← n.outputNames_plan generated]
      exact List.mem_flatMap.mpr ⟨e, he, List.mem_map_of_mem hx⟩
    exact fun heq => ha.networks s hs (List.mem_flatMap.mpr ⟨n, hn, heq ▸ hm⟩)
  · have hcontext : s.context = s'.context := (h.server_context hs).trans (h.server_context hs').symm
    rcases Server.mem_instancePlan_cases he hx with rfl | rfl | ⟨network, hn, rfl⟩
    · rcases List.mem_cons.mp hx with rfl | hx
      · exact absurd hd empty_not_derived
      · obtain rfl := List.mem_singleton.mp hx
        exact server_ne_id hcontext i
    · obtain rfl := List.mem_singleton.mp hx
      exact absurd hd empty_not_derived
    · rcases List.mem_cons.mp hx with rfl | hx
      · exact absurd hd empty_not_derived
      · obtain rfl := List.mem_singleton.mp hx
        have hport := mem_portNames.mpr ⟨s', hs', i, hi, network, hn, rfl⟩
        exact fun heq => ha.ports s hs (heq ▸ List.mem_map_of_mem hport)

theorem OutputsApart.ne_of_ne (ha : t.OutputsApart) (h : t.WellFormed) {x' : String} (he : e ∈ t.plan)
    (he' : e' ∈ t.plan) (hx : x ∈ e.2.outputEndings generated)
    (hx' : x' ∈ e'.2.outputEndings generated) (hne : e.1 ≠ e'.1) :
    e.1 ++ x ≠ e'.1 ++ x' := by
  intro heq
  rcases ResourceKind.ending_cases hx with rfl | hd <;> rcases ResourceKind.ending_cases hx' with rfl | hd'
  · exact hne (by simpa using heq)
  · rw [String.append_empty] at heq
    obtain ⟨s, hs, hname⟩ := server_of_derived he hx hd' heq
    exact ha.server_ne h hs he' hx' hd' (hname ▸ heq)
  · rw [String.append_empty] at heq
    obtain ⟨s, hs, hname⟩ := server_of_derived he' hx' hd heq.symm
    exact ha.server_ne h hs he hx hd (hname ▸ heq.symm)
  · exact hne (derived_inj hd hd' heq).1

/-- In a table of outputs without repetitions an output belongs to one resource. -/
theorem entry_of_output (hn : t.outputNames.Nodup) (he : e ∈ t.plan) (he' : e' ∈ t.plan) {name : String}
    (hm : name ∈ entryOutputs t.generatesKey e)
    (hm' : name ∈ entryOutputs t.generatesKey e') : e = e' :=
  eq_of_mem_flatMap hn he he' hm hm'

/-- The other output of that name would belong to the server too, but it belongs to a resource of another
kind. -/
theorem outputsApart_of_nodup (h : t.WellFormed) (hnodup : t.outputNames.Nodup) : t.OutputsApart := by
  have hserver : ∀ s ∈ t.servers, (s.resourceName, .server) ∈ t.plan := fun s hs =>
    server_mem_plan hs (h.instances_pos hs)
  have hown : ∀ s : Server,
      s.resourceName ∈ entryOutputs t.generatesKey (s.resourceName, .server) := fun s => by
    rw [entryOutputs_server]
    exact List.mem_cons_self
  refine ⟨fun s hs hm => ?_, fun s hs hm => ?_⟩
  · obtain ⟨n, hn, hm⟩ := List.mem_flatMap.mp hm
    rw [← n.outputNames_plan t.generatesKey] at hm
    obtain ⟨e, he, hm⟩ := List.mem_flatMap.mp hm
    obtain rfl := entry_of_output hnodup (hserver s hs) (network_plan_subset hn he) (hown s) hm
    exact n.outputs_derived t.generatesKey _ he List.mem_cons_self
  · obtain ⟨port, hport, heq⟩ := List.mem_map.mp hm
    obtain ⟨s', hs', i, hi, network, hnetwork, rfl⟩ := mem_portNames.mp hport
    have hentry : (portName (s'.instanceName i) network, .port) ∈ t.plan :=
      port_mem_plan hs' hi hnetwork
    have houtput : s.resourceName ∈
        entryOutputs t.generatesKey (portName (s'.instanceName i) network, .port) := by
      rw [entryOutputs_port, ← heq]
      exact List.mem_cons_of_mem _ List.mem_cons_self
    have hkind : ResourceKind.server = .port :=
      congrArg Prod.snd (entry_of_output hnodup (hserver s hs) hentry (hown s) houtput)
    cases hkind

theorem OutputsApart.nodup (ha : t.OutputsApart) (h : t.WellFormed) (hn : (t.plan.map Prod.fst).Nodup) :
    t.outputNames.Nodup := by
  rw [outputNames, List.nodup_flatMap]
  refine ⟨fun e _ => ?_, ?_⟩
  · exact (e.2.outputEndings_nodup _).map fun _ _ heq => (String.append_right_inj _).mp heq
  · refine (List.pairwise_map.mp hn).imp_of_mem fun {e e'} he he' hne name hm hm' => ?_
    obtain ⟨x, hx, rfl⟩ := List.mem_map.mp hm
    obtain ⟨x', hx', heq⟩ := List.mem_map.mp hm'
    exact ha.ne_of_ne h he he' hx hx' hne heq.symm

/-- If resources have different names, then outputs have different names unless a server is called like
another output. -/
theorem outputNames_nodup_iff (h : t.WellFormed) (hn : (t.plan.map Prod.fst).Nodup) :
    t.outputNames.Nodup ↔ t.OutputsApart :=
  ⟨outputsApart_of_nodup h, fun ha => ha.nodup h hn⟩

end Topology

/-! Contexts whose names have none of the endings. -/

def EndsIn (name ending : String) : Prop := ∃ front, name = front ++ ending

theorem endsIn_iff (name ending : String) : EndsIn name ending ↔ ending.toList <:+ name.toList := by
  constructor
  · rintro ⟨front, rfl⟩
    exact ⟨front.toList, by simp⟩
  · rintro ⟨front, hfront⟩
    exact ⟨String.ofList front, String.toList_inj.mp (by simp [hfront])⟩

instance (name ending : String) : Decidable (EndsIn name ending) :=
  decidable_of_iff _ (endsIn_iff name ending).symm

/-- A server's name ends as that of its context does, as far as the last dot. -/
theorem Server.endsIn_of_name {s : Server} {b : String} (hx : '.' ∉ x.toList)
    (h : s.resourceName = b ++ x) : EndsIn s.context x := by
  have hlist : s.name.toList ++ '.' :: s.context.toList = b.toList ++ x.toList := by
    simpa [resourceName, dn] using congrArg String.toList h
  rcases List.suffix_or_suffix_of_suffix ⟨_, hlist⟩ (List.suffix_append b.toList x.toList) with hs | hs
  · exact absurd (hs.mem List.mem_cons_self) hx
  · rcases List.suffix_cons_iff.mp hs with heq | hs
    · exact absurd (heq ▸ List.mem_cons_self) hx
    · exact (endsIn_iff _ _).mpr hs

namespace Topology
variable {t : Topology}

theorem outputsApart_of_name (h : t.WellFormed)
    (hname : ∀ ending ∈ ["-id", "-cidr", "-gateway_ip", "-mac_address"], ¬ EndsIn t.name ending) :
    t.OutputsApart := by
  have hserver : ∀ s ∈ t.servers, ∀ b, ∀ ending ∈ ["-id", "-cidr", "-gateway_ip", "-mac_address"],
      s.resourceName ≠ b ++ ending := by
    have hdots : ∀ ending ∈ ["-id", "-cidr", "-gateway_ip", "-mac_address"], '.' ∉ ending.toList := by
      decide
    intro s hs b ending hm heq
    exact hname ending hm (h.server_context hs ▸ Server.endsIn_of_name (hdots ending hm) heq)
  refine ⟨fun s hs hm => ?_, fun s hs hm => ?_⟩
  · obtain ⟨n, -, hm⟩ := List.mem_flatMap.mp hm
    simp only [Network.outputNames, List.mem_append, List.mem_cons, List.not_mem_nil, or_false,
      Option.mem_toList, Option.map_eq_some_iff] at hm
    rcases hm with (heq | heq | heq) | ⟨r, -, heq⟩
    · exact hserver s hs _ "-id" (by simp) heq
    · exact hserver s hs _ "-cidr" (by simp) heq
    · exact hserver s hs _ "-gateway_ip" (by simp) heq
    · exact hserver s hs _ "-id" (by simp) heq.symm
  · obtain ⟨port, -, heq⟩ := List.mem_map.mp hm
    exact hserver s hs _ "-mac_address" (by simp) heq.symm

end Topology

/-- A value is about one resource only. -/
theorem Json.IsAbout.name_eq {value : Json} {r r' : Resource} (h : value.IsAbout r)
    (h' : value.IsAbout r') : r.name = r'.name := by
  rcases h with rfl | ⟨path, -, rfl⟩ <;> rcases h' with h' | ⟨path', -, h'⟩
  · simpa [resourceRef] using h'
  · simp [resourceRef, attributeRef] at h'
  · simp [resourceRef, attributeRef] at h'
  · have hsame : r.name = r'.name ∧ path = path' := by simpa [attributeRef] using h'
    exact hsame.1

namespace Context
variable {c : Context} {g : Graph}

/-- The outputs that a compiled context asks for have names of their own unless a server is called like
another output. If they do, the graph's table holds all of them, each about one resource; and they do if
the context's name has none of the endings that names of outputs have. -/
theorem outputs_kept {declared : ContextDeclaration} (h : Context.build declared = .ok c)
    (hg : c.compile.1 = .ok g) :
    (((requestsOf c.topology.steps).map Prod.fst).Nodup ↔ c.topology.OutputsApart) ∧
    (c.topology.OutputsApart → ∀ e ∈ requestsOf c.topology.steps, g.outputs.find? e.1 = some e.2 ∧
      ∃ r ∈ g.resources, e.2.value.IsAbout r ∧ ∀ r' ∈ g.resources, e.2.value.IsAbout r' → r' = r) ∧
    ((∀ ending ∈ ["-id", "-cidr", "-gateway_ip", "-mac_address"], ¬ EndsIn c.name ending) →
      c.topology.OutputsApart) := by
  have hw := (build_ok h).2
  have hplan := nodup_of_compile hw hg
  have hnodup : ((requestsOf c.topology.steps).map Prod.fst).Nodup ↔ c.topology.OutputsApart := by
    rw [Topology.names_requests hw]
    exact Topology.outputNames_nodup_iff hw hplan
  have hresources := names_nodup_of_compile hw hg
  refine ⟨hnodup, fun ha e he => ⟨?_, ?_⟩, Topology.outputsApart_of_name hw⟩
  · rw [requests_of_compile hg]
    exact SortedMap.find?_ofList_of_nodup (hnodup.mpr ha) he
  · obtain ⟨r, hr, hvalue⟩ := c.topology.answerable _ (mem_requestsOf.mp he)
    rw [← resources_of_compile hg] at hr
    exact ⟨r, hr, hvalue, fun r' hr' hvalue' =>
      List.inj_on_of_nodup_map hresources hr' hr (hvalue'.name_eq hvalue)⟩

theorem outputs_kept_sample : ∃ c g, Context.build sampleDeclaration = .ok c ∧ c.compile.1 = .ok g ∧
    c.topology.OutputsApart ∧
    (((requestsOf c.topology.steps).map Prod.fst).Nodup ↔ c.topology.OutputsApart) ∧
    (c.topology.OutputsApart → ∀ e ∈ requestsOf c.topology.steps, g.outputs.find? e.1 = some e.2 ∧
      ∃ r ∈ g.resources, e.2.value.IsAbout r ∧ ∀ r' ∈ g.resources, e.2.value.IsAbout r' → r' = r) ∧
    ((∀ ending ∈ ["-id", "-cidr", "-gateway_ip", "-mac_address"], ¬ EndsIn c.name ending) →
      c.topology.OutputsApart) := by
  obtain ⟨c, g, hc, hg⟩ := sample_compiles
  have hname : c.name = "demo" := by rw [name, Topology.name, (build_ok hc).1]; rfl
  have hkept := outputs_kept hc hg
  exact ⟨c, g, hc, hg, hkept.2.2 (by rw [hname]; decide), hkept⟩

/-- The id of the network and the address of the server are to be reported under one name. -/
def collidingDeclaration : ContextDeclaration where
  name := "prod-id"
  networks := .ofList [("x.prod", {})]
  servers := .ofList [("prod-id-x", {})]

/-- The graph that is compiled has the address of the server where the id of the network should be. -/
theorem output_replaced : ∃ c g, Context.build collidingDeclaration = .ok c ∧ c.compile.1 = .ok g ∧
    ¬ ((requestsOf c.topology.steps).map Prod.fst).Nodup ∧
    ∃ n ∈ c.topology.networks, ∃ s ∈ c.topology.servers,
      (g.outputs.find? (n.resourceName ++ "-id")).map Output.description =
        some ("Address of server " ++ s.resourceName) := by
  obtain ⟨c, hc⟩ := Checks.exists_ok
    (by decide +kernel : (Context.build collidingDeclaration).toOption.isSome = true)
  have hcompiles : (Context.build collidingDeclaration).toOption.all
      (fun c => c.compile.1.toOption.isSome) = true := by decide +kernel
  have hreplaced : ∀ c ∈ (Context.build collidingDeclaration).toOption, ∀ g ∈ c.compile.1.toOption,
      ¬ ((requestsOf c.topology.steps).map Prod.fst).Nodup ∧
      ∃ n ∈ c.topology.networks, ∃ s ∈ c.topology.servers,
        (g.outputs.find? (n.resourceName ++ "-id")).map Output.description =
          some ("Address of server " ++ s.resourceName) := by decide +kernel
  rw [hc] at hcompiles hreplaced
  obtain ⟨g, hg⟩ := Checks.exists_ok hcompiles
  exact ⟨c, g, hc, hg, hreplaced c rfl g (by rw [hg]; rfl)⟩

end Context
end Provision
