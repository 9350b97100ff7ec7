import Provision.Proofs.Render.Templates
import Provision.Proofs.Session.Lookup
import Provision.Proofs.Stack.Prompt

/-! A whole run of the command. What can be rendered can be simulated as long as the clock can tell the end of
every wait: contexts of one session have names of their own, so every stack is created under a free name, and
the simulation refuses nothing. Every server has a block, but one of two servers that have one distinguished
name has the block of the other. -/
namespace Provision

/-- How long a deployment of the context may take, in nanoseconds. -/
def ContextDeclaration.limit (d : ContextDeclaration) : Nat := Timer.second * d.timeout.toNat

namespace Manager
variable {m : Manager Simulation} {timing : Timing} {name : String} {names : List String}

/-- The manager has made a stack for every name, and the simulation has completed it at once. -/
structure Deployed (timing : Timing) (names : List String) (m : Manager Simulation) : Prop where
  orderly : m.Orderly
  prompt : m.backend.Prompt
  uncancelled : m.cancelAt = none
  timing : m.timing = timing
  clock : m.clock = 0
  records : ∀ s ∈ m.records, s.name ∈ names
  held : ∀ name ∈ names, ∃ id, (⟨id, name⟩ : Handle).HeldIn m.records .createComplete ∧
    id ∈ m.backend.held.keys

namespace Deployed

theorem fresh (timing : Timing) : Deployed timing [] { timing, backend := {} } :=
  ⟨⟨List.nodup_nil, nofun⟩, Simulation.prompt_fresh, rfl, rfl, rfl, nofun, nofun⟩

theorem find?_of_notMem (hm : Deployed timing names m) (hname : name ∉ names) : m.find? name = none :=
  List.find?_eq_none.mpr fun s hs he => hname (beq_iff_eq.mp he ▸ hm.records s hs)

/-- No time has passed, so the clock can tell whatever is ahead of it by less than all it can tell. -/
theorem told_iff (hm : Deployed timing names m) (timeout : Nat) :
    m.now + timeout < m.timing.horizon ↔ timeout < timing.horizon := by
  rw [now, hm.clock, hm.timing, Nat.mul_zero, Nat.zero_add]

/-- One more context, under a name that is free. -/
theorem deploy (hm : Deployed timing names m) {c : Context} {g : Graph} (hname : c.name ∉ names)
    (hg : c.compile.1 = .ok g) (htold : c.topology.declared.limit < timing.horizon) :
    ∃ c' m', c.deploy Simulation.backend m = ((.ok (), c'), m') ∧
      Deployed timing (names ++ [c.name]) m' ∧ c'.topology = c.topology ∧ c'.stack.isSome = true := by
  have hcompile : c.compile = (.ok g, c.compile.2) := Prod.ext hg rfl
  obtain ⟨stack, m', id, hcreate, hserved, hheld, hid⟩ := create_prompt hm.prompt hm.uncancelled
    (hm.find?_of_notMem hname) ((hm.told_iff _).mpr htold) g c.topology.declared.parameters
  have hsteps := create_steps Simulation.backend c.name g c.topology.declared.parameters
    (.blocking c.topology.declared.limit) m
  rw [hcreate] at hsteps
  have horderly := hsteps.orderly hm.orderly
  have hdeploy : c.deploy Simulation.backend m = ((.ok (),
      { c.compile.2.applyOutputs stack.outputs with stack := some stack }), m') := by
    rw [ContextDeclaration.limit] at hcreate
    rw [Context.deploy, hcompile]
    dsimp only
    rw [show c.compile.2.name = c.name from rfl, show c.compile.2.topology = c.topology from rfl, hcreate]
  refine ⟨_, m', hdeploy, ⟨horderly, hserved.onward.prompt hm.prompt,
    hserved.cancelAt.trans hm.uncancelled, hserved.timing.trans hm.timing, hserved.clock.trans hm.clock,
    fun s hs => ?_, fun other hother => ?_⟩, rfl, rfl⟩
  · by_cases he : s.name = c.name
    · exact List.mem_append_right _ (he ▸ List.mem_singleton_self _)
    · have hlookup := Stack.lookup_of_mem horderly.names hs
      rw [hserved.others _ he] at hlookup
      exact List.mem_append_left _ (hm.records s (List.mem_of_find?_eq_some hlookup))
  · rcases List.mem_append.mp hother with hother | hother
    · obtain ⟨id', hheld', hid'⟩ := hm.held other hother
      have hne : other ≠ c.name := fun he => hname (he ▸ hother)
      exact ⟨id', hserved.toAfter.heldIn hne hheld', hserved.onward.held hid'⟩
    · obtain rfl := List.mem_singleton.mp hother
      exact ⟨id, hheld, hid⟩

/-- One more context, whose deployment the clock cannot tell the end of. -/
theorem deploy_overflows (hm : Deployed timing names m) {c : Context} {g : Graph} (hname : c.name ∉ names)
    (hg : c.compile.1 = .ok g) (huntold : ¬ c.topology.declared.limit < timing.horizon) :
    (c.deploy Simulation.backend m).1.1 = .error .overflow := by
  have hcompile : c.compile = (.ok g, c.compile.2) := Prod.ext hg rfl
  have hcreate := create_overflows hm.prompt hm.uncancelled (hm.find?_of_notMem hname)
    (Nat.le_of_not_lt ((hm.told_iff _).not.mpr huntold)) g c.topology.declared.parameters
  rw [ContextDeclaration.limit] at hcreate
  rw [Context.deploy, hcompile]
  dsimp only
  rw [show c.compile.2.name = c.name from rfl, show c.compile.2.topology = c.topology from rfl]
  rcases hx : m.create Simulation.backend c.name g c.topology.declared.parameters _ with ⟨e | _, m'⟩ <;>
    rw [hx] at hcreate <;> cases hcreate
  rfl

theorem mem_deletable (hm : Deployed timing names m) (hname : name ∈ names) :
    ∃ h ∈ m.deletable, h.name = name := by
  obtain ⟨id, ⟨s, hs, hid, hstatus⟩, -⟩ := hm.held name hname
  refine ⟨⟨id, name⟩, Manager.mem_deletable.mpr ⟨s, List.mem_of_find?_eq_some hs, ?_, ?_⟩, rfl⟩
  · rw [hstatus]
    decide
  · rw [Stack.handle?, hid, Option.map_some, Stack.name_of_lookup hs]

theorem held_of_deletable (hm : Deployed timing names m) {h : Handle} (hh : h ∈ m.deletable) :
    h.id ∈ m.backend.held.keys := by
  obtain ⟨s, hs, -, hhandle⟩ := Manager.mem_deletable.mp hh
  obtain ⟨id, ⟨s', hs', hid', -⟩, hmem⟩ := hm.held s.name (hm.records s hs)
  obtain rfl := Option.some.inj ((Stack.lookup_of_mem hm.orderly.names hs).symm.trans hs')
  rw [Stack.handle?, hid', Option.map_some] at hhandle
  exact Option.some.inj hhandle ▸ hmem

/-- Deleting everything leaves no stack of a name behind. -/
theorem deleteAll (hm : Deployed timing names m) (htold : timing.deleteTimeout < timing.horizon) :
    ∃ m', m.deleteAll Simulation.backend = (.ok (), m') ∧
      (∀ s ∈ m'.records, s.status = .deleteComplete) ∧ ∀ name ∈ names, ∃ s ∈ m'.records, s.name = name := by
  obtain ⟨hnodup, hdeletable⟩ := hm.orderly.sweepable
  have hok := sweep_prompt hm.prompt ((hm.told_iff _).mpr (hm.timing.symm ▸ htold)) hm.orderly hnodup
    hdeletable (fun h hh => hm.held_of_deletable (List.mem_reverse.mp hh)) m.timing.deleteRetries
  have hswept := hm.orderly.swept_prefix Simulation.backend m.timing.deleteRetries (List.prefix_refl _)
  have hdeleted := hswept.deleted hok
  obtain ⟨-, hall⟩ | ⟨-, -, -, -, -, -, hover⟩ := deleteAll_cases Simulation.backend hm.orderly
  · rw [(firstFailure_ok_iff _).mpr hok] at hall
    refine ⟨_, hall, fun s hs => ?_, fun name hname => ?_⟩
    · have hlookup := Stack.lookup_of_mem hswept.orderly.names hs
      by_cases hname : ∃ h ∈ m.deletable, h.name = s.name
      · obtain ⟨h, hh, hname⟩ := hname
        obtain ⟨s', hs', -, hstatus⟩ := hdeleted h (List.mem_reverse.mpr hh)
        rw [hname, hlookup] at hs'
        exact Option.some.inj hs' ▸ hstatus
      · -- A record that the sweep leaves alone would be one of no name.
        rw [hswept.others s.name (by simpa using hname)] at hlookup
        exact absurd (hm.mem_deletable (hm.records s (List.mem_of_find?_eq_some hlookup))) hname
    · obtain ⟨h, hh, rfl⟩ := hm.mem_deletable hname
      obtain ⟨s, hs, -, -⟩ := hdeleted h (List.mem_reverse.mpr hh)
      exact ⟨s, List.mem_of_find?_eq_some hs, Stack.name_of_lookup hs⟩
  · cases hok _ hover

end Deployed
end Manager

open Manager (Deployed)

/-! Blocks of servers. -/

/-- The last of all servers that have the distinguished name. -/
def Session.LastWith (s : Session) (dn : String) (last : Context × Server) : Prop :=
  last.2.dn = dn ∧ ∃ before after, s.servers = before ++ last :: after ∧ ∀ other ∈ after, other.2.dn ≠ dn

theorem Session.lastWith_of_server? {s : Session} {dn : String} {last : Context × Server}
    (h : s.server? dn = some last) : s.LastWith dn last := by
  rw [Session.server?_eq_find?] at h
  obtain ⟨hdn, after, before, hsplit, hafter⟩ := List.find?_eq_some_iff_append.mp h
  refine ⟨beq_iff_eq.mp hdn, before.reverse, after.reverse, ?_, fun other hother => ?_⟩
  · rw [← List.reverse_reverse s.servers, hsplit, List.reverse_append, List.reverse_cons, List.append_assoc]
    rfl
  · simpa using hafter other (List.mem_reverse.mp hother)

/-- The contexts of a session that was rendered have names of their own. -/
theorem Mirrors.nodup_names {r : Registry} {s : Session} (h : Mirrors r s) :
    (s.contexts.map Context.name).Nodup := by
  have htopologies := congrArg (List.map Topology.name) h.topologies
  rw [List.map_map, List.map_map] at htopologies
  exact (htopologies : s.contexts.map Context.name = r.contexts.map Context.name) ▸ h.sound.names

namespace Render

/-- The block that tells how to reach a server in its context. -/
def blockOf (placed : Context × Server) : String :=
  placed.2.dn ++ " " ++ (placed.1.infoOf placed.2).toJson.pretty

/-- The block for a server tells how to reach the last one that has the same distinguished name. -/
def Shows (s : Session) (placed : Context × Server) (block : String) : Prop :=
  ∃ last, s.LastWith placed.2.dn last ∧ block = blockOf last

theorem serverBlocks_eq (s : Session) : serverBlocks s =
    s.servers.filterMap fun placed => (s.server? placed.2.dn).map blockOf := by
  refine List.filterMap_congr fun placed _ => ?_
  change ((s.server? placed.2.dn).map fun last => last.1.infoOf last.2).map _ = _
  rw [Option.map_map]
  cases hlast : s.server? placed.2.dn with
  | none => rfl
  | some last => simp only [Option.map_some, Function.comp_apply, blockOf, (Session.lastWith_of_server? hlast).1]

theorem isSome_server? {s : Session} {placed : Context × Server} (hp : placed ∈ s.servers) :
    ∃ last, s.server? placed.2.dn = some last := by
  rw [Session.server?_eq_find?, ← Option.isSome_iff_exists, List.find?_isSome]
  exact ⟨placed, List.mem_reverse.mpr hp, beq_self_eq_true _⟩

/-- Every server has a block. -/
theorem serverBlocks_show (s : Session) : List.Forall₂ (Shows s) s.servers (serverBlocks s) := by
  have hall : ∀ servers : List (Context × Server), (∀ placed ∈ servers, placed ∈ s.servers) →
      List.Forall₂ (Shows s) servers
        (servers.filterMap fun placed => (s.server? placed.2.dn).map blockOf) := by
    intro servers hservers
    induction servers with
    | nil => exact .nil
    | cons placed rest ih =>
      obtain ⟨hp, hrest⟩ := List.forall_mem_cons.mp hservers
      obtain ⟨last, hlast⟩ := isSome_server? hp
      rw [List.filterMap_cons_some (by rw [hlast]; rfl)]
      exact .cons ⟨last, Session.lastWith_of_server? hlast, rfl⟩ (ih hrest)
  rw [serverBlocks_eq]
  exact hall s.servers fun _ hp => hp

/-- It has its own if the distinguished names differ. -/
theorem serverBlocks_own {s : Session} (hs : (s.servers.map fun placed => placed.2.dn).Nodup) :
    serverBlocks s = s.servers.map blockOf := by
  rw [serverBlocks_eq, ← List.filterMap_eq_map]
  refine List.filterMap_congr fun placed hp => ?_
  obtain ⟨last, hlast⟩ := isSome_server? hp
  obtain ⟨hdn, before, after, hsplit, -⟩ := Session.lastWith_of_server? hlast
  have hmem : last ∈ s.servers := by simp [hsplit]
  rw [hlast, List.inj_on_of_nodup_map hs hmem hp hdn]
  rfl

/-- The servers of a session stand in the order of the contexts and of their declarations. -/
theorem servers_declared {s : Session} (hs : ∀ c ∈ s.contexts, c.topology.WellFormed) :
    s.servers.map (fun placed => (placed.1.name, placed.2.name)) =
      (s.contexts.map fun c => c.topology.declared).flatMap fun d => d.servers.keys.map (d.name, ·) := by
  rw [Session.servers, List.map_flatMap, List.flatMap_map]
  refine List.flatMap_congr fun c hc => ?_
  have hnames : c.topology.servers.map Server.name = c.topology.declared.servers.keys := (hs c hc).serverNames
  rw [← hnames, List.map_map, List.map_map]
  rfl

/-! The deployment of a session. -/

theorem deployEach_deployed {m : Manager Simulation} {timing : Timing} {names : List String}
    {contexts : List Context} (hm : Deployed timing names m)
    (hn : (names ++ contexts.map Context.name).Nodup) (hg : ∀ c ∈ contexts, ∃ g, c.compile.1 = .ok g)
    (htold : ∀ c ∈ contexts, c.topology.declared.limit < timing.horizon) : ∃ deployed m',
      deployEach m contexts = (.ok deployed, m') ∧
      Deployed timing (names ++ contexts.map Context.name) m' ∧
      deployed.map Context.topology = contexts.map Context.topology ∧
      ∀ c ∈ deployed, c.stack.isSome = true := by
  induction contexts generalizing m names with
  | nil =>
    rw [List.map_nil, List.append_nil]
    exact ⟨[], m, rfl, hm, rfl, fun _ hc => absurd hc List.not_mem_nil⟩
  | cons c rest ih =>
    obtain ⟨⟨g, hc⟩, hrest⟩ := List.forall_mem_cons.mp hg
    obtain ⟨htold₁, htold⟩ := List.forall_mem_cons.mp htold
    have hname : c.name ∉ names := fun hmem =>
      List.disjoint_of_nodup_append hn hmem List.mem_cons_self
    obtain ⟨c', m₁, hdeploy, hm₁, htopology, hstack⟩ := hm.deploy hname hc htold₁
    rw [List.map_cons, List.append_cons] at hn ⊢
    obtain ⟨deployed, m', hothers, hm', htopologies, hstacks⟩ := ih hm₁ hn hrest htold
    refine ⟨c' :: deployed, m', ?_, hm', ?_, List.forall_mem_cons.mpr ⟨hstack, hstacks⟩⟩
    · rw [deployEach, hdeploy]
      dsimp only
      rw [hothers]
      rfl
    · rw [List.map_cons, List.map_cons, htopology, htopologies]

/-- The contexts before the first that overflows are deployed, and that one ends it. -/
theorem deployEach_overflows {m : Manager Simulation} {timing : Timing} {names : List String}
    {contexts : List Context} (hm : Deployed timing names m)
    (hn : (names ++ contexts.map Context.name).Nodup) (hg : ∀ c ∈ contexts, ∃ g, c.compile.1 = .ok g)
    (huntold : ∃ c ∈ contexts, ¬ c.topology.declared.limit < timing.horizon) :
    (deployEach m contexts).1 = .error .overflow := by
  induction contexts generalizing m names with
  | nil =>
    obtain ⟨c, hc, -⟩ := huntold
    cases hc
  | cons c rest ih =>
    obtain ⟨⟨g, hc⟩, hrest⟩ := List.forall_mem_cons.mp hg
    have hname : c.name ∉ names := fun hmem =>
      List.disjoint_of_nodup_append hn hmem List.mem_cons_self
    by_cases htold : c.topology.declared.limit < timing.horizon
    · obtain ⟨c', m₁, hdeploy, hm₁, -⟩ := hm.deploy hname hc htold
      rw [List.map_cons, List.append_cons] at hn
      have hlater : ∃ c ∈ rest, ¬ c.topology.declared.limit < timing.horizon := by
        obtain ⟨c₁, hc₁, huntold⟩ := huntold
        obtain rfl | hc₁ := List.mem_cons.mp hc₁
        · exact absurd htold huntold
        · exact ⟨c₁, hc₁, huntold⟩
      have hothers := ih hm₁ hn hrest hlater
      rw [deployEach, hdeploy]
      dsimp only
      rw [hothers]
      rfl
    · have hover := hm.deploy_overflows hname hc htold
      rw [deployEach]
      rcases hx : c.deploy Simulation.backend m with ⟨⟨result, c'⟩, m'⟩
      rw [hx] at hover
      obtain rfl : result = .error .overflow := hover
      rfl

/-- A simulation of a session in which nothing fails. -/
structure Simulated (timing : Timing) (contexts : List ContextDeclaration) (s : Session)
    (deployed : List Context) (blocks : List String) (m : Manager Simulation) : Prop where
  simulated : simulate timing s = ((blocks, none), m)
  deploys : (deployEach { timing, backend := {} } s.contexts).1 = .ok deployed
  declared : (deployed.map fun c => c.topology.declared) = contexts
  holding : ∀ c ∈ deployed, c.stack.isSome = true
  servers : (Session.mk deployed).servers.map (fun placed => (placed.1.name, placed.2.name)) =
    contexts.flatMap fun d => d.servers.keys.map (d.name, ·)
  shown : List.Forall₂ (Shows ⟨deployed⟩) (Session.mk deployed).servers blocks
  own : ((Session.mk deployed).servers.map fun placed => placed.2.dn).Nodup →
    blocks = (Session.mk deployed).servers.map blockOf
  deleted : ∀ stack ∈ m.records, stack.status = .deleteComplete
  registered : ∀ declared ∈ contexts, ∃ stack ∈ m.records, stack.name = declared.name

/-- Whatever can be rendered can be simulated, if the clock can tell the end of every wait. -/
theorem simulate_simulated {r : Registry} {s : Session} (h : Mirrors r s) {timing : Timing}
    (hcreate : ∀ c ∈ s.contexts, c.topology.declared.limit < timing.horizon)
    (hdelete : timing.deleteTimeout < timing.horizon) : ∃ deployed blocks m,
      Simulated timing (s.contexts.map fun c => c.topology.declared) s deployed blocks m := by
  obtain ⟨deployed, m, hdeploy, hm, htopologies, hstacks⟩ :=
    deployEach_deployed (Deployed.fresh timing) h.nodup_names h.compiles hcreate
  obtain ⟨m', hdeleteAll, hdeleted, hregistered⟩ := hm.deleteAll hdelete
  have hdeclared : (deployed.map fun c => c.topology.declared) =
      s.contexts.map fun c => c.topology.declared := by
    have hcongr := congrArg (List.map Topology.declared) htopologies
    rwa [List.map_map, List.map_map] at hcongr
  have hwell : ∀ c ∈ deployed, c.topology.WellFormed := by
    intro c hc
    have htopology : c.topology ∈ r.contexts.map Context.topology :=
      h.topologies ▸ htopologies ▸ List.mem_map_of_mem hc
    obtain ⟨c', hc', he⟩ := List.mem_map.mp htopology
    exact he ▸ h.sound.contexts c' hc'
  refine ⟨deployed, serverBlocks ⟨deployed⟩, m', ⟨?_, by rw [hdeploy], hdeclared, hstacks,
    hdeclared ▸ servers_declared (s := ⟨deployed⟩) hwell, serverBlocks_show _, serverBlocks_own, hdeleted,
    fun declared hd => ?_⟩⟩
  · rw [simulate, hdeploy]
    dsimp only
    rw [hdeleteAll]
  · obtain ⟨c, hc, rfl⟩ := List.mem_map.mp hd
    exact hregistered c.name (List.mem_map_of_mem hc)

/-- A simulation ends where it stands if the clock cannot tell the end of a deployment. -/
theorem simulate_overflows {r : Registry} {s : Session} (h : Mirrors r s) {timing : Timing}
    (huntold : ∃ c ∈ s.contexts, ¬ c.topology.declared.limit < timing.horizon) :
    ∃ m, simulate timing s = (([], some .overflow), m) := by
  have hover := deployEach_overflows (Deployed.fresh timing) h.nodup_names h.compiles huntold
  rw [simulate]
  rcases hx : deployEach { timing, backend := {} } s.contexts with ⟨result, m⟩
  rw [hx] at hover
  obtain rfl : result = .error .overflow := hover
  exact ⟨m, rfl⟩

/-! A run of the command. -/

variable {options : RenderOptions} {contexts : List ContextDeclaration} {graphs : List Graph} {r : Registry}

theorem blocks_of_halts {error : RenderError} (h : Halts {} contexts graphs error) :
    blocks options contexts = (graphs.map fun g => g.template.pretty, some error) := by
  obtain ⟨before, declared, after, r, rfl, hrendered, hstops⟩ := h
  obtain ⟨s, hs, -, htemplates⟩ := templates_rendered hrendered Mirrors.empty
  rw [blocks, htemplates, templates_stopped hs hstops, List.append_nil]

theorem templates_of_rendered (h : Rendered {} contexts graphs r) : ∃ s, Mirrors r s ∧
    (s.contexts.map fun c => c.topology.declared) = contexts ∧
    templates contexts {} = (graphs.map fun g => g.template.pretty, .ok s) := by
  obtain ⟨s, hs, hdeclared, htemplates⟩ := templates_rendered h Mirrors.empty
  have hend := htemplates []
  rw [templates, List.append_nil, List.append_nil] at hend
  exact ⟨s, hs, hdeclared, hend⟩

theorem blocks_of_plain (h : Rendered {} contexts graphs r) (hsimulate : options.simulate = false) :
    blocks options contexts = (graphs.map fun g => g.template.pretty, none) := by
  obtain ⟨s, -, -, htemplates⟩ := templates_of_rendered h
  rw [blocks, htemplates, hsimulate]
  rfl

theorem blocks_of_simulated (h : Rendered {} contexts graphs r) (hsimulate : options.simulate = true)
    (hcreate : ∀ d ∈ contexts, d.limit < options.timing.horizon)
    (hdelete : options.timing.deleteTimeout < options.timing.horizon) :
    ∃ s deployed addresses m, templates contexts {} = (graphs.map fun g => g.template.pretty, .ok s) ∧
      Simulated options.timing contexts s deployed addresses m ∧
      blocks options contexts = ((graphs.map fun g => g.template.pretty) ++ addresses, none) := by
  obtain ⟨s, hs, rfl, htemplates⟩ := templates_of_rendered h
  obtain ⟨deployed, addresses, m, hsimulated⟩ :=
    simulate_simulated hs (List.forall_mem_map.mp hcreate) hdelete
  refine ⟨s, deployed, addresses, m, htemplates, hsimulated, ?_⟩
  rw [blocks, htemplates]
  dsimp only
  rw [if_pos hsimulate, hsimulated.simulated]

theorem blocks_of_overflow (h : Rendered {} contexts graphs r) (hsimulate : options.simulate = true)
    (huntold : ∃ d ∈ contexts, ¬ d.limit < options.timing.horizon) :
    blocks options contexts = (graphs.map fun g => g.template.pretty, some .overflow) := by
  obtain ⟨s, hs, rfl, htemplates⟩ := templates_of_rendered h
  obtain ⟨m, hover⟩ : ∃ m, simulate options.timing s = (([], some .overflow), m) :=
    simulate_overflows hs (by simpa using huntold)
  rw [blocks, htemplates]
  dsimp only
  rw [if_pos hsimulate, hover, List.append_nil]

/-- A run on a file prints the templates of the contexts in order, up to the first that the registry refuses
or that does not compile. If there is none and a simulation is asked for, and the clock can tell the end of
every deployment and of every deletion, all contexts are deployed, every server has one block in order, which
tells of the last server that has the same distinguished name, and so of the server itself if these names
differ, and in the end every stack is deleted. So then, and without a simulation, the run fails if and only if
there is such a context. If the clock cannot tell the end of a deployment, the simulation ends there. -/
theorem run_renders {arguments : List String} {environment : Environment} {file : String → Option String}
    {text : String} (ho : RenderOptions.read arguments environment = .ok options)
    (hf : file options.path = some text) (hr : readFile text = some contexts) :
    (∀ graphs error, Halts {} contexts graphs error →
      run arguments environment file = (graphs.map fun g => g.template.pretty, some error)) ∧
    ((¬ ∃ graphs error, Halts {} contexts graphs error) → ∃ graphs r, Rendered {} contexts graphs r ∧
      (options.simulate = false →
        run arguments environment file = (graphs.map fun g => g.template.pretty, none)) ∧
      (options.simulate = true → (∀ d ∈ contexts, d.limit < options.timing.horizon) →
        options.timing.deleteTimeout < options.timing.horizon → ∃ s deployed addresses m,
          templates contexts {} = (graphs.map fun g => g.template.pretty, .ok s) ∧
          Simulated options.timing contexts s deployed addresses m ∧
          run arguments environment file =
            ((graphs.map fun g => g.template.pretty) ++ addresses, none)) ∧
      (options.simulate = true → (∃ d ∈ contexts, ¬ d.limit < options.timing.horizon) →
        run arguments environment file = (graphs.map fun g => g.template.pretty, some .overflow))) ∧
    ((options.simulate = true → (∀ d ∈ contexts, d.limit < options.timing.horizon) ∧
        options.timing.deleteTimeout < options.timing.horizon) →
      ((run arguments environment file).2 ≠ none ↔ ∃ graphs error, Halts {} contexts graphs error)) := by
  have hrun : run arguments environment file = blocks options contexts := by
    rw [run, ho]
    dsimp only
    rw [hf]
    dsimp only
    rw [hr]
  rw [hrun]
  refine ⟨fun graphs error h => blocks_of_halts h, fun hnone => ?_, fun htold => ⟨fun hfails => ?_, ?_⟩⟩
  · obtain ⟨graphs, r, h⟩ := (halts_or_rendered {} contexts).resolve_left hnone
    exact ⟨graphs, r, h, blocks_of_plain h, blocks_of_simulated h, blocks_of_overflow h⟩
  · refine (halts_or_rendered {} contexts).resolve_right ?_
    rintro ⟨graphs, r, h⟩
    cases hsimulate : options.simulate with
    | false => exact hfails (by rw [blocks_of_plain h hsimulate])
    | true =>
      obtain ⟨hcreate, hdelete⟩ := htold hsimulate
      obtain ⟨_, _, _, _, -, -, hblocks⟩ := blocks_of_simulated h hsimulate hcreate hdelete
      exact hfails (by rw [hblocks])
  · rintro ⟨graphs, error, h⟩
    rw [blocks_of_halts h]
    exact Option.some_ne_none error

/-- Two contexts, of which each has a server, and these have one distinguished name. -/
def sampleText : String :=
  "[\x7b\"name\":\"b.c\",\"servers\":\x7b\"a\":\x7b\x7d\x7d\x7d," ++
  "\x7b\"name\":\"c\",\"servers\":\x7b\"a.b\":\x7b\x7d\x7d\x7d]"

/-- A context with a limit that the clock cannot tell. -/
def lateText : String := "[\x7b\"name\":\"demo\",\"timeout\":18446744073709551615\x7d]"

def sampleFile (path : String) : Option String :=
  if path = "topology.json" then some sampleText else if path = "late.json" then some lateText else none

/-- A run that simulates, at an interval of the environment. -/
theorem run_renders_sample : ∃ options contexts,
    RenderOptions.read ["topology.json", "--simulate"] { pollSeconds := some "7" } = .ok options ∧
    sampleFile options.path = some sampleText ∧ readFile sampleText = some contexts ∧
    ∃ graphs r s deployed addresses m, Rendered {} contexts graphs r ∧
      Simulated options.timing contexts s deployed addresses m ∧
      run ["topology.json", "--simulate"] { pollSeconds := some "7" } sampleFile =
        ((graphs.map fun g : Graph => g.template.pretty) ++ addresses, none) := by
  obtain ⟨contexts, hcontexts⟩ := Option.isSome_iff_exists.mp
    (by decide +kernel : (readFile sampleText).isSome = true)
  have hoptions : RenderOptions.read ["topology.json", "--simulate"] { pollSeconds := some "7" } =
      .ok { path := "topology.json", simulate := true, timing := { pollInterval := Timer.second * 7 } } := by
    decide +kernel
  have hfile : sampleFile "topology.json" = some sampleText := rfl
  have hnone : (run ["topology.json", "--simulate"] { pollSeconds := some "7" } sampleFile).2 = none := by
    decide +kernel
  have htold : ∀ contexts ∈ readFile sampleText, ∀ d ∈ contexts, d.limit < Timing.horizon {} := by
    decide +kernel
  replace htold := htold contexts hcontexts
  obtain ⟨-, hsucceeds, hfails⟩ := run_renders hoptions hfile hcontexts
  obtain ⟨graphs, r, hrendered, -, hsimulates, -⟩ :=
    hsucceeds fun hhalts => (hfails fun _ => ⟨htold, by decide⟩).mpr hhalts hnone
  obtain ⟨s, deployed, addresses, m, -, hsimulated, hrun⟩ := hsimulates rfl htold (by decide)
  exact ⟨_, contexts, hoptions, hfile, hcontexts, graphs, r, s, deployed, addresses, m, hrendered,
    hsimulated, hrun⟩

/-- The contexts of a file as they are deployed to a simulation. -/
def deployedFrom (text : String) : List Context :=
  match readFile text with
  | none => []
  | some contexts =>
    match (templates contexts {}).2 with
    | .error _ => []
    | .ok s => (deployEach { timing := {}, backend := {} } s.contexts).1.toOption.getD []

/-- A run whose contexts can all be rendered prints a block that is not of the server it stands for, and another
one ends with an overflow. -/
theorem simulation_not_faithful :
    (run ["topology.json", "--simulate"] {} sampleFile).1.drop 2 = serverBlocks ⟨deployedFrom sampleText⟩ ∧
    (Session.mk (deployedFrom sampleText)).servers.map (fun placed => (placed.1.name, placed.2.name)) =
      [("b.c", "a"), ("c", "a.b")] ∧
    serverBlocks ⟨deployedFrom sampleText⟩ ≠ (Session.mk (deployedFrom sampleText)).servers.map blockOf ∧
    (run ["late.json"] {} sampleFile).2 = none ∧
    (run ["late.json", "--simulate"] {} sampleFile).2 = some .overflow := by
  decide +kernel

end Render
end Provision
