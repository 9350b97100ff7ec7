import Provision.Proofs.Layout.References

/-! The outputs of a layout. Each of them is about a resource that is declared beside it: it is a reference
to the resource, or to one of its attributes. -/
namespace Provision

/-- The value is the resource or an attribute of it. -/
def Json.IsAbout (value : Json) (r : Resource) : Prop :=
  value = resourceRef r.name ∨
    ∃ path, (∀ x ∈ path, ∀ key, x.under key = []) ∧ value = attributeRef r.name path

/-- A step asks for nothing, or for an output about one of the resources. -/
def Step.AsksAbout (known : List Resource) : Step → Prop
  | .report _ output => ∃ r ∈ known, output.value.IsAbout r
  | _ => True

theorem Step.AsksAbout.mono {known more : List Resource} {s : Step} (h : s.AsksAbout known)
    (hm : known ⊆ more) : s.AsksAbout more := by
  cases s with
  | report name output =>
    obtain ⟨r, hr, hvalue⟩ := h
    exact ⟨r, hm hr, hvalue⟩
  | _ => trivial

/-- Every output that the steps ask for is about a resource that they declare. -/
def Answerable (steps : List Step) : Prop := ∀ s ∈ steps, s.AsksAbout (resourcesOf steps)

namespace Answerable
variable {a b : List Step}

theorem append (ha : Answerable a) (hb : Answerable b) : Answerable (a ++ b) := by
  intro s hs
  rw [resourcesOf_append]
  rcases List.mem_append.mp hs with hs | hs
  · exact (ha s hs).mono (List.subset_append_left _ _)
  · exact (hb s hs).mono (List.subset_append_right _ _)

theorem flatMap {α : Type} {f : α → List Step} {xs : List α} (h : ∀ x ∈ xs, Answerable (f x)) :
    Answerable (xs.flatMap f) := by
  intro s hs
  obtain ⟨x, hx, hs⟩ := List.mem_flatMap.mp hs
  refine (h x hx s hs).mono fun r hr => ?_
  rw [resourcesOf_flatMap]
  exact List.mem_flatMap.mpr ⟨x, hx, hr⟩

/-- Steps none of which asks for anything. -/
theorem of_silent (h : ∀ s ∈ a, s.AsksAbout []) : Answerable a :=
  fun s hs => (h s hs).mono (List.nil_subset _)

end Answerable

theorem Network.answerable (n : Network) : Answerable n.steps := by
  unfold steps
  refine Answerable.append ?_ ?_
  · simp only [Answerable, List.forall_mem_cons, Step.AsksAbout, true_and]
    exact ⟨⟨n.resource, by simp, .inl rfl⟩,
      ⟨n.subnet, by simp, .inr ⟨_, by simp, rfl⟩⟩,
      ⟨n.subnet, by simp, .inr ⟨_, by simp, rfl⟩⟩, by simp⟩
  · split
    · next router hr =>
      simp only [routerSteps, Answerable, List.forall_mem_cons, Step.AsksAbout, true_and]
      exact ⟨⟨n.routerResource router, by simp, .inl rfl⟩, by simp⟩
    · exact .of_silent (by simp)

namespace Server

theorem answerable_floatingIp (s : Server) (inst : String) (n : Network) :
    Answerable (s.floatingIpSteps inst n) := by
  unfold floatingIpSteps
  split
  · next f _ =>
    simp only [Answerable, List.forall_mem_cons, Step.AsksAbout, true_and]
    exact ⟨⟨floatingIpResource inst f n, by simp, .inr ⟨_, by simp, rfl⟩⟩, by simp⟩
  · exact .of_silent (by simp)

theorem answerable_port (s : Server) (i : Nat) (n : Network) : Answerable (s.portSteps i n) := by
  have hnote : Answerable (if i = 0 then
      [Step.notePort s.name n.name (portName (s.instanceName i) n.name)] else []) := by
    refine .of_silent ?_
    split <;> simp [Step.AsksAbout]
  refine Answerable.append (Answerable.append ?_ hnote) (s.answerable_floatingIp _ n)
  simp only [Answerable, List.forall_mem_cons, Step.AsksAbout, true_and]
  exact ⟨⟨_, List.mem_cons_self, .inr ⟨_, by simp, rfl⟩⟩,
    ⟨_, List.mem_cons_self, .inr ⟨_, by simp, rfl⟩⟩, by simp⟩

theorem answerable_instance (s : Server) (networks : List Network) (hints : Hints) (i : Nat) :
    Answerable (s.instanceSteps networks hints i) := by
  have hvolume : Answerable (s.volumeSteps (s.instanceName i)) := by
    refine .of_silent ?_
    unfold volumeSteps
    split <;> simp [Step.AsksAbout]
  have hattachment : Answerable (s.attachmentSteps (s.instanceName i)) := by
    refine .of_silent ?_
    unfold attachmentSteps
    split <;> simp [Step.AsksAbout]
  have hports : Answerable (networks.flatMap (s.portSteps i)) :=
    .flatMap fun n _ => s.answerable_port i n
  refine ((hvolume.append hports).append ?_).append hattachment
  simp only [Answerable, List.forall_mem_cons, Step.AsksAbout, true_and]
  exact ⟨⟨_, List.mem_cons_self, .inr ⟨_, by simp, rfl⟩⟩,
    ⟨_, List.mem_cons_self, .inl rfl⟩, by simp⟩

theorem answerable (s : Server) (networks : List Network) (hints : Hints) :
    Answerable (s.steps networks hints) := by
  have hflavor : Answerable (s.flavorSteps ++ [.clearPorts s.name]) := by
    refine .of_silent ?_
    unfold flavorSteps
    split <;> simp [Step.AsksAbout]
  exact hflavor.append (.flatMap fun i _ => s.answerable_instance _ hints i)

end Server

namespace Topology

theorem answerable_serverSteps (t : Topology) (placed : List String) (servers : List Server) :
    Answerable (t.serverSteps placed servers) := by
  induction servers generalizing placed with
  | nil => exact .of_silent (by simp [serverSteps])
  | cons s rest ih => exact (s.answerable _ _).append (ih _)

theorem answerable (t : Topology) : Answerable t.steps := by
  have hkey : Answerable t.keypairSteps := by
    unfold keypairSteps
    split
    · exact .of_silent (by simp [Step.AsksAbout])
    · simp only [Answerable, List.forall_mem_cons, Step.AsksAbout, true_and]
      exact ⟨⟨_, List.mem_cons_self, .inr ⟨_, by simp, rfl⟩⟩, by simp⟩
  have hgroup : Answerable t.securityGroupSteps :=
    .of_silent (by simp [securityGroupSteps, Step.AsksAbout])
  have hgroups : ∀ gs : List ServerGroup, Answerable (gs.map serverGroupStep) :=
    fun gs => .of_silent (by simp [serverGroupStep, Step.AsksAbout])
  refine (((hkey.append hgroup).append (hgroups _)).append ?_).append (t.answerable_serverSteps _ _)
  exact .flatMap fun n _ => n.answerable

end Topology
end Provision
