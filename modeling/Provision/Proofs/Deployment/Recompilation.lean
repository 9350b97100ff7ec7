import Provision.Proofs.Layout.Ports
import Provision.Stack.Simulated

/-! A context can be compiled at any time: whatever was done with it before, the result is that of the
fresh context, and nothing but the ports of its servers is changed by it. The ports that are known from
earlier do not matter, because the graph is built without a look at them and because each server forgets
its own before they are noted again. -/
namespace Provision

/-! The graph of a run does not depend on ports, and the ports of a server not on steps of others. -/

namespace Progress
variable {p q : Progress} {steps : List Step} {server : String}

theorem step_congr (h : p.graph = q.graph) (s : Step) :
    (p.step s).map Progress.graph = (q.step s).map Progress.graph := by
  cases s with
  | declare r =>
    simp only [step, h]
    cases q.graph.declare r <;> rfl
  | report name output => exact congrArg (fun g => Except.ok (Graph.report g name output)) h
  | clearPorts other => exact congrArg Except.ok h
  | notePort other network port => exact congrArg Except.ok h

/-- Runs of the same steps from the same graph end with the same graph and the same error. -/
theorem run_congr (h : p.graph = q.graph) (steps : List Step) :
    (p.run steps).1.graph = (q.run steps).1.graph ∧ (p.run steps).2 = (q.run steps).2 := by
  induction steps generalizing p q with
  | nil => exact ⟨h, rfl⟩
  | cons s rest ih =>
    have hstep := step_congr h s
    cases hp : p.step s with
    | error e =>
      rw [hp] at hstep
      cases hq : q.step s with
      | error e' =>
        rw [hq] at hstep
        cases hstep
        simp only [run, hp, hq, and_true]
        exact h
      | ok q' =>
        rw [hq] at hstep
        cases hstep
    | ok p' =>
      rw [hp] at hstep
      cases hq : q.step s with
      | error e' =>
        rw [hq] at hstep
        cases hstep
      | ok q' =>
        rw [hq] at hstep
        simp only [run, hp, hq]
        exact ih (Except.ok.inj hstep)

/-- Whether it ends or is refused half-way, a run of silent steps notes nothing of a server. -/
theorem portsOf_run_of_silent (h : Silent server steps) :
    portsOf (p.run steps).1.ports server = portsOf p.ports server := by
  induction steps generalizing p with
  | nil => rfl
  | cons s rest ih =>
    obtain ⟨hs, hrest⟩ := List.forall_mem_cons.mp h
    simp only [run]
    split
    · next p' hstep => rw [ih hrest, portsOf_step hstep, hs]
    · rfl

end Progress

namespace Topology
variable {t : Topology} {server : String}

theorem silent_baseSteps (t : Topology) : Silent server t.baseSteps := by
  have hkeypair : Silent server t.keypairSteps := by
    unfold keypairSteps Silent
    split <;> simp [Step.noted]
  have hgroup : Silent server t.securityGroupSteps := by
    simp [Silent, securityGroupSteps, Step.noted]
  have hgroups : Silent server ((t.serverGroups.filter fun g => !g.members.isEmpty).map serverGroupStep) := by
    intro s hs
    obtain ⟨g, -, rfl⟩ := List.mem_map.mp hs
    exact fun _ => rfl
  have hnetwork (n : Network) : Silent server n.steps := by
    unfold Network.steps Network.routerSteps Silent
    split <;> simp [Step.noted]
  exact ((hkeypair.append hgroup).append hgroups).append (.flatMap fun n _ => hnetwork n)

theorem silent_steps (h : ∀ s ∈ t.servers, s.name ≠ server) : Silent server t.steps :=
  t.silent_baseSteps.append (silent_serverSteps (fun s hs => h s (mem_placementOrder.mp hs)) [])

theorem layOut_congr (t : Topology) (ports ports' : PortTable) :
    (t.layOut ports).2 = (t.layOut ports').2 := by
  let start : Graph := .empty ("Stack for context " ++ t.name)
  obtain ⟨hgraph, herror⟩ :=
    Progress.run_congr (p := ⟨start, ports⟩) (q := ⟨start, ports'⟩) rfl t.steps
  unfold layOut
  rcases hp : Progress.run ⟨start, ports⟩ t.steps with ⟨p, e⟩
  rcases hq : Progress.run ⟨start, ports'⟩ t.steps with ⟨q, e'⟩
  rw [hp, hq] at hgraph herror
  cases herror
  cases e with
  | none => exact congrArg Except.ok hgraph
  | some e => rfl

theorem layOut_ports (t : Topology) (ports : PortTable) : (t.layOut ports).1 =
    (Progress.run ⟨.empty ("Stack for context " ++ t.name), ports⟩ t.steps).1.ports := by
  unfold layOut
  rcases Progress.run ⟨.empty ("Stack for context " ++ t.name), ports⟩ t.steps with ⟨p, _ | e⟩ <;> rfl

end Topology

/-- The ports of the first instance tell of each attached network its port, and of no other network. -/
theorem Server.find?_firstPorts (s : Server) (networks : List String) (network port : String) :
    (s.firstPorts networks).find? network = some port ↔
      network ∈ networks ∧ port = portName (s.instanceName 0) network := by
  have hkeys : network ∈ (s.firstPorts networks).keys ↔ network ∈ networks := by
    simp [firstPorts, SortedMap.mem_keys_ofList]
  have hvalue : ∀ port, (s.firstPorts networks).find? network = some port →
      port = portName (s.instanceName 0) network := by
    intro port hport
    obtain ⟨n, -, he⟩ := List.mem_map.mp (SortedMap.mem_of_mem_ofList (SortedMap.find?_eq_some.mp hport))
    cases he
    rfl
  constructor
  · intro h
    exact ⟨hkeys.mp ((SortedMap.find?_isSome _ _).mp (by rw [h]; rfl)), hvalue port h⟩
  · rintro ⟨hn, rfl⟩
    obtain ⟨port, hport⟩ := Option.isSome_iff_exists.mp
      ((SortedMap.find?_isSome _ _).mpr (hkeys.mpr hn))
    rw [hport, hvalue port hport]

namespace Context
variable {start c : Context}

/-- The contexts that become of a context when it is compiled, told outputs, deployed and undeployed, by
managers of any kind of service. Whether such a step succeeds or fails makes no difference here. -/
inductive Reached (start : Context) : Context → Prop
  | refl : Reached start start
  | compile {c : Context} : Reached start c → Reached start c.compile.2
  | applyOutputs {c : Context} (outputs : SortedMap String) :
      Reached start c → Reached start (c.applyOutputs outputs)
  | deploy {c : Context} {σ : Type} (b : Backend σ) (m : Manager σ) :
      Reached start c → Reached start (c.deploy b m).1.2
  | undeploy {c : Context} {σ : Type} (b : Backend σ) (m : Manager σ) :
      Reached start c → Reached start (c.undeploy b m).1.2

theorem topology_deploy {σ : Type} (b : Backend σ) (m : Manager σ) :
    (c.deploy b m).1.2.topology = c.topology := by
  have hcompile : c.compile.2.topology = c.topology := rfl
  unfold deploy
  split
  · next e c' hc => rwa [hc] at hcompile
  · next g c' hc =>
    rw [hc] at hcompile
    dsimp only
    split <;> exact hcompile

theorem topology_undeploy {σ : Type} (b : Backend σ) (m : Manager σ) :
    (c.undeploy b m).1.2.topology = c.topology := by
  unfold undeploy
  split <;> rfl

/-- Nothing that is done with a context changes its topology. -/
theorem Reached.topology_eq (h : start.Reached c) : c.topology = start.topology := by
  induction h with
  | refl => rfl
  | compile _ ih => exact ih
  | applyOutputs _ _ ih => exact ih
  | deploy b m _ ih => rw [topology_deploy, ih]
  | undeploy b m _ ih => rw [topology_undeploy, ih]

/-- The result of compiling is a function of the topology. -/
theorem compile_congr (h : c.topology = start.topology) : c.compile.1 = start.compile.1 := by
  have hresult (c : Context) : c.compile.1 = (c.topology.layOut c.ports).2 := rfl
  rw [hresult, hresult, h, Topology.layOut_congr]

/-- Compiling a context that was built, after anything that was done with it, gives what it gave at the
start. It changes nothing but the ports of the context's servers, and if there is a graph, these lead from
the attached networks, and from nothing else, to the ports of the first instances. -/
theorem compile_unaffected {declared : ContextDeclaration} (h : Context.build declared = .ok start)
    (hc : start.Reached c) :
    c.compile.1 = start.compile.1 ∧
    c.topology = start.topology ∧
    c.compile.2 = { c with ports := c.compile.2.ports } ∧
    (∀ name, (∀ s ∈ c.topology.servers, s.name ≠ name) →
      Progress.portsOf c.compile.2.ports name = Progress.portsOf c.ports name) ∧
    ∀ g, c.compile.1 = .ok g → ∀ s ∈ c.topology.servers, ∀ network port,
      (c.compile.2.portsOf s).find? network = some port ↔
        network ∈ s.networks ∧ port = portName (s.instanceName 0) network := by
  have htopology := hc.topology_eq
  refine ⟨compile_congr htopology, htopology, rfl, fun name hname => ?_, fun g hg s hs network port => ?_⟩
  · have hports : c.compile.2.ports = (c.topology.layOut c.ports).1 := rfl
    rw [hports, Topology.layOut_ports, Progress.portsOf_run_of_silent (Topology.silent_steps hname)]
  · have hw : c.topology.WellFormed := htopology ▸ (build_ok h).2
    have hcompile : c.compile = (.ok g, c.compile.2) := Prod.ext hg rfl
    rw [(compile_ok hw hcompile).2 s hs, Server.find?_firstPorts]

/-- The sample is compiled, told an output that is not its own, and deployed on the simulation. -/
theorem compile_unaffected_sample : ∃ start c : Context, Context.build sampleDeclaration = .ok start ∧
    start.Reached c ∧ c.stack.isSome = true ∧ (∃ g, c.compile.1 = .ok g) ∧
    c.compile.1 = start.compile.1 ∧
    c.topology = start.topology ∧
    c.compile.2 = { c with ports := c.compile.2.ports } ∧
    (∀ name, (∀ s ∈ c.topology.servers, s.name ≠ name) →
      Progress.portsOf c.compile.2.ports name = Progress.portsOf c.ports name) ∧
    ∀ g, c.compile.1 = .ok g → ∀ s ∈ c.topology.servers, ∀ network port,
      (c.compile.2.portsOf s).find? network = some port ↔
        network ∈ s.networks ∧ port = portName (s.instanceName 0) network := by
  obtain ⟨start, g, hstart, hg⟩ := sample_compiles
  have hdeployed : ∀ start ∈ (Context.build sampleDeclaration).toOption,
      (((start.compile.2.applyOutputs (.ofList [("web.demo", "10.0.0.9")])).deploy Simulation.backend
        ⟨{}, {}, [], 0, none, []⟩).1.2.stack.isSome) = true := by decide +kernel
  have hreached : start.Reached ((start.compile.2.applyOutputs
      (.ofList [("web.demo", "10.0.0.9")])).deploy Simulation.backend ⟨{}, {}, [], 0, none, []⟩).1.2 :=
    .deploy _ _ (.applyOutputs _ (.compile .refl))
  have hall := compile_unaffected hstart hreached
  exact ⟨start, _, hstart, hreached, hdeployed start (by rw [hstart]; rfl), ⟨g, hall.1.trans hg⟩, hall⟩

end Context
end Provision
