import Provision.Proofs.Address.Subnets
import Provision.Proofs.Layout.Resolution
import Provision.Proofs.Stack.Gateways
import Provision.Proofs.Stack.Reporting

/-! How plausible the values are that the simulation makes up for the outputs of a compiled context. The
addresses of ports, servers and floating addresses are numbered, so there are as many as the last number of an
address can tell apart; gateways are made from the text of the subnet. -/
namespace Provision

/-- The output asks for one of these attributes. -/
def asksFor (wanted : List String) (value : Json) : Bool :=
  (askedAttribute? value).any fun asked => wanted.contains asked.1

/-- The attributes of ports and servers that are addresses inside. -/
def fixedAttributes : List String := ["fixed_ips", "first_address"]

/-- What is made up for an address can be read as one, and for the gateway of a subnet as one of the family of
the subnet. -/
structure Plausible (networks : List Network) (value : Json) (made : String) : Prop where
  address : asksFor (fixedAttributes ++ ["floating_ip_address", "gateway_ip"]) value = true →
    ∃ ip, IpAddress.read? made.toList = some ip
  gateway : ∀ resource, askedAttribute? value = some ("gateway_ip", resource) →
    ∃ n ∈ networks, resource = n.subnetName ∧
      ∀ ip, IpAddress.read? made.toList = some ip → ip.isV6 = n.cidr.isV6

/-! One value. -/

theorem numbered_fixed (n : Nat) :
    (∃ ip, IpAddress.read? ("10.0.1." ++ toString n).toList = some ip) ↔ n < 256 := by
  have htext : ("10.0.1." ++ toString n).toList = Ip4.octet 10 ++ '.' :: (Ip4.octet 0 ++ '.' ::
      (Ip4.octet 1 ++ '.' :: Nat.toDigits 10 n)) := by
    simp
    rfl
  rw [htext, IpAddress.read?_numbered_iff]

theorem numbered_floating (n : Nat) :
    (∃ ip, IpAddress.read? ("172.24.4." ++ toString n).toList = some ip) ↔ n < 256 := by
  have htext : ("172.24.4." ++ toString n).toList = Ip4.octet 172 ++ '.' :: (Ip4.octet 24 ++ '.' ::
      (Ip4.octet 4 ++ '.' :: Nat.toDigits 10 n)) := by
    simp
    rfl
  rw [htext, IpAddress.read?_numbered_iff]

section
variable {g : Graph} {networks : List Network} {value : Json} {s : Supply} {wanted resource : String}

theorem asksFor_eq (h : askedAttribute? value = some (wanted, resource)) (attributes : List String) :
    asksFor attributes value = attributes.contains wanted := by
  rw [asksFor, h]
  rfl

theorem asksFor_none (h : askedAttribute? value = none) (attributes : List String) :
    asksFor attributes value = false := by
  rw [asksFor, h]
  rfl

theorem fixed_makeUp (g : Graph) (value : Json) (s : Supply) : (makeUp g value s).2.fixed =
    s.fixed + if asksFor fixedAttributes value = true then 1 else 0 := by
  cases hasked : askedAttribute? value with
  | none => simp [makeUp, hasked, asksFor_none hasked]
  | some asked =>
    simp only [makeUp, hasked, asksFor_eq hasked]
    grind [fixedAttributes]

theorem floating_makeUp (g : Graph) (value : Json) (s : Supply) : (makeUp g value s).2.floating =
    s.floating + if asksFor ["floating_ip_address"] value = true then 1 else 0 := by
  cases hasked : askedAttribute? value with
  | none => simp [makeUp, hasked, asksFor_none hasked]
  | some asked =>
    simp only [makeUp, hasked, asksFor_eq hasked]
    grind

theorem makeUp_fixed (h : askedAttribute? value = some (wanted, resource)) (hw : wanted ∈ fixedAttributes) :
    (makeUp g value s).1 = "10.0.1." ++ toString (10 + (s.fixed + 1)) := by
  have hw : wanted = "fixed_ips" ∨ wanted = "first_address" := by simpa [fixedAttributes] using hw
  simp [makeUp, h, hw]

theorem makeUp_floating (h : askedAttribute? value = some ("floating_ip_address", resource)) :
    (makeUp g value s).1 = "172.24.4." ++ toString (10 + (s.floating + 1)) := by
  simp [makeUp, h]

theorem makeUp_gateway (h : askedAttribute? value = some ("gateway_ip", resource)) {gateway : String}
    (hsubnet : subnetGateway? g resource = some gateway) : (makeUp g value s).1 = gateway := by
  simp [makeUp, h, hsubnet]

/-- Apart from gateways, what is asked for as an address is plausible if it is one. -/
theorem plausible_iff {made : String} (h : askedAttribute? value = some (wanted, resource))
    (hw : wanted ∈ fixedAttributes ++ ["floating_ip_address"]) :
    Plausible networks value made ↔ ∃ ip, IpAddress.read? made.toList = some ip := by
  refine ⟨fun hp => hp.address ?_, fun hip => ⟨fun _ => hip, fun resource' hresource => ?_⟩⟩
  · rw [asksFor_eq h]
    exact List.contains_iff_mem.mpr (List.mem_append.mpr ((List.mem_append.mp hw).imp id (by simp +contextual)))
  · rw [h] at hresource
    cases hresource
    exact absurd hw (by decide)

/-- Where subnets are told apart, what is made up for the gateway of one is made from its own address. -/
theorem plausible_gateway_iff
    (hsubnet : ∀ n ∈ networks, subnetGateway? g n.subnetName = some (gatewayText n.cidr.address))
    (hasked : askedAttribute? value = some ("gateway_ip", resource))
    (hresource : ∃ n ∈ networks, resource = n.subnetName) :
    Plausible networks value (makeUp g value s).1 ↔
      ∀ n ∈ networks, resource = n.subnetName → n.cidr.address.HasGateway := by
  have hmade : ∀ n ∈ networks, resource = n.subnetName →
      (makeUp g value s).1 = gatewayText n.cidr.address := fun n hn hname =>
    makeUp_gateway hasked (hname ▸ hsubnet n hn)
  constructor
  · intro hp n hn hname
    obtain ⟨ip, hip⟩ := hp.address (by rw [asksFor_eq hasked]; decide)
    rw [hmade n hn hname] at hip
    exact (IpAddress.gateway_iff _).mp ⟨ip, hip⟩
  · intro hall
    obtain ⟨n, hn, hname⟩ := hresource
    rw [hmade n hn hname]
    refine ⟨fun _ => (IpAddress.gateway_iff _).mpr (hall n hn hname), fun resource' hresource' => ?_⟩
    rw [hasked] at hresource'
    cases hresource'
    exact ⟨n, hn, hname, fun ip hip => IpAddress.gateway_family hip⟩

/-- The numbers that are given out begin with 11, and those of an address end with 255. -/
theorem plausible_makeUp_iff
    (hsubnet : ∀ n ∈ networks, subnetGateway? g n.subnetName = some (gatewayText n.cidr.address))
    (hgateway : ∀ resource, askedAttribute? value = some ("gateway_ip", resource) →
      ∃ n ∈ networks, resource = n.subnetName) :
    Plausible networks value (makeUp g value s).1 ↔
      (asksFor fixedAttributes value = true → s.fixed < 245) ∧
      (asksFor ["floating_ip_address"] value = true → s.floating < 245) ∧
      ∀ n ∈ networks, askedAttribute? value = some ("gateway_ip", n.subnetName) →
        n.cidr.address.HasGateway := by
  rcases hasked : askedAttribute? value with _ | ⟨wanted, resource⟩
  · simp only [asksFor_none hasked]
    exact iff_of_true ⟨by simp [asksFor_none hasked], by simp [hasked]⟩ (by simp)
  · simp only [asksFor_eq hasked]
    by_cases hfixed : wanted ∈ fixedAttributes
    · have hother : wanted ≠ "floating_ip_address" ∧ wanted ≠ "gateway_ip" := by
        constructor <;> · rintro rfl; exact absurd hfixed (by decide)
      rw [plausible_iff hasked (List.mem_append_left _ hfixed), makeUp_fixed hasked hfixed, numbered_fixed]
      simp [hfixed, hother]
      omega
    · by_cases hfloating : wanted = "floating_ip_address"
      · subst hfloating
        rw [plausible_iff hasked (by simp), makeUp_floating hasked, numbered_floating]
        simp [fixedAttributes]
        omega
      · by_cases hgate : wanted = "gateway_ip"
        · subst hgate
          rw [plausible_gateway_iff hsubnet hasked (hgateway resource hasked)]
          simp [fixedAttributes]
        · have hnone : wanted ∉ fixedAttributes ++ ["floating_ip_address", "gateway_ip"] := by
            simp [hfixed, hfloating, hgate]
          refine iff_of_true ⟨fun h => ?_, fun resource' h => ?_⟩ (by simp [hfixed, hfloating, hgate])
          · rw [asksFor_eq hasked, List.contains_iff_mem] at h
            exact absurd h hnone
          · rw [hasked] at h
            cases h
            exact absurd rfl hgate

/-! All values, one after another. -/

/-- The values for the outputs are plausible: there is one for each, in their order. -/
def AllPlausible (networks : List Network) (outputs : List (String × Output))
    (values : List (String × String)) : Prop :=
  List.Forall₂ (fun output value => value.1 = output.1 ∧ Plausible networks output.2.value value.2)
    outputs values

/-- One of the outputs is the gateway of the subnet. -/
def AsksGateway (outputs : List (String × Output)) (n : Network) : Prop :=
  ∃ e ∈ outputs, askedAttribute? e.2.value = some ("gateway_ip", n.subnetName)

/-- So many numbers can be given out, after so many others, that all are those of addresses. -/
def Numbered (before outputs : Nat) : Prop := outputs = 0 ∨ before + outputs ≤ 245

theorem numbered_cons (counts : Bool) (before outputs : Nat) :
    Numbered before (outputs + if counts = true then 1 else 0) ↔ (counts = true → before < 245) ∧
      Numbered (before + if counts = true then 1 else 0) outputs := by
  cases counts <;> simp [Numbered]
  omega

theorem allPlausible_makeUpAll_iff {outputs : List (String × Output)}
    (hsubnet : ∀ n ∈ networks, subnetGateway? g n.subnetName = some (gatewayText n.cidr.address))
    (hgateway : ∀ e ∈ outputs, ∀ resource, askedAttribute? e.2.value = some ("gateway_ip", resource) →
      ∃ n ∈ networks, resource = n.subnetName) :
    AllPlausible networks outputs (makeUpAll g outputs s).1 ↔
      Numbered s.fixed (outputs.countP fun e => asksFor fixedAttributes e.2.value) ∧
      Numbered s.floating (outputs.countP fun e => asksFor ["floating_ip_address"] e.2.value) ∧
      ∀ n ∈ networks, AsksGateway outputs n → n.cidr.address.HasGateway := by
  induction outputs generalizing s with
  | nil => simp [AllPlausible, makeUpAll, Numbered, AsksGateway]
  | cons e rest ih =>
    obtain ⟨he, hrest⟩ := List.forall_mem_cons.mp hgateway
    have hfirst := plausible_makeUp_iff (s := s) hsubnet he
    have hothers := ih (s := (makeUp g e.2.value s).2) hrest
    rw [fixed_makeUp, floating_makeUp] at hothers
    have hsplit : AllPlausible networks (e :: rest) (makeUpAll g (e :: rest) s).1 ↔
        Plausible networks e.2.value (makeUp g e.2.value s).1 ∧
          AllPlausible networks rest (makeUpAll g rest (makeUp g e.2.value s).2).1 := by
      simp [AllPlausible, makeUpAll]
    have hgateways : (∀ n ∈ networks, AsksGateway (e :: rest) n → n.cidr.address.HasGateway) ↔
        (∀ n ∈ networks, askedAttribute? e.2.value = some ("gateway_ip", n.subnetName) →
          n.cidr.address.HasGateway) ∧
        ∀ n ∈ networks, AsksGateway rest n → n.cidr.address.HasGateway := by
      simp only [AsksGateway, List.exists_mem_cons_iff, or_imp, forall_and]
    rw [hsplit, hfirst, hothers, List.countP_cons, List.countP_cons, numbered_cons, numbered_cons, hgateways]
    constructor
    · rintro ⟨⟨hfixed, hfloating, hn⟩, hfixed', hfloating', hn'⟩
      exact ⟨⟨hfixed, hfixed'⟩, ⟨hfloating, hfloating'⟩, hn, hn'⟩
    · rintro ⟨⟨hfixed, hfixed'⟩, ⟨hfloating, hfloating'⟩, hn, hn'⟩
      exact ⟨⟨hfixed, hfloating, hn⟩, hfixed', hfloating', hn'⟩

end

/-! The outputs of a compiled context. -/

@[simp] theorem askedAttribute?_attributeRef (resource wanted : String) (path : List Json) :
    askedAttribute? (attributeRef resource (.str wanted :: path)) = some (wanted, resource) := by
  simp [askedAttribute?, attributeRef, Json.member?, Json.items?, Json.string?]

@[simp] theorem askedAttribute?_resourceRef (resource : String) : askedAttribute? (resourceRef resource) = none := by
  simp [askedAttribute?, resourceRef, Json.member?]

section
variable {networks : List Network}

/-- The step asks for no gateway but that of one of the subnets. -/
def Step.GatewaysOf (networks : List Network) : Step → Prop
  | .report _ output => ∀ resource, askedAttribute? output.value = some ("gateway_ip", resource) →
      ∃ n ∈ networks, resource = n.subnetName
  | _ => True

theorem Network.gatewaysOf_steps {n : Network} (hn : n ∈ networks) :
    ∀ s ∈ n.steps, s.GatewaysOf networks := by
  unfold steps routerSteps
  split <;> simp [Step.GatewaysOf]
  · exact ⟨n, hn, rfl⟩
  · exact ⟨n, hn, rfl⟩

namespace Server

theorem gatewaysOf_port (s : Server) (i : Nat) (n : Network) :
    ∀ step ∈ s.portSteps i n, step.GatewaysOf networks := by
  have hfloating : ∀ step ∈ s.floatingIpSteps (s.instanceName i) n, step.GatewaysOf networks := by
    unfold floatingIpSteps
    split <;> simp [Step.GatewaysOf]
  unfold portSteps
  simp only [List.forall_mem_append]
  refine ⟨⟨by simp [Step.GatewaysOf], ?_⟩, hfloating⟩
  split <;> simp [Step.GatewaysOf]

theorem gatewaysOf_instance (s : Server) (attached : List Network) (hints : Hints) (i : Nat) :
    ∀ step ∈ s.instanceSteps attached hints i, step.GatewaysOf networks := by
  have hvolume : ∀ step ∈ s.volumeSteps (s.instanceName i), step.GatewaysOf networks := by
    unfold volumeSteps
    split <;> simp [Step.GatewaysOf]
  have hattachment : ∀ step ∈ s.attachmentSteps (s.instanceName i), step.GatewaysOf networks := by
    unfold attachmentSteps
    split <;> simp [Step.GatewaysOf]
  unfold instanceSteps
  simp only [List.forall_mem_append, List.forall_mem_flatMap]
  exact ⟨⟨⟨hvolume, fun n _ => s.gatewaysOf_port i n⟩, by simp [Step.GatewaysOf]⟩, hattachment⟩

theorem gatewaysOf_steps (s : Server) (attached : List Network) (hints : Hints) :
    ∀ step ∈ s.steps attached hints, step.GatewaysOf networks := by
  have hflavor : ∀ step ∈ s.flavorSteps, step.GatewaysOf networks := by
    unfold flavorSteps
    split <;> simp [Step.GatewaysOf]
  unfold steps
  simp only [List.forall_mem_append, List.forall_mem_flatMap]
  exact ⟨⟨hflavor, by simp [Step.GatewaysOf]⟩, fun i _ => s.gatewaysOf_instance _ hints i⟩

end Server

namespace Topology

theorem gatewaysOf_serverSteps (t : Topology) (placed : List String) (servers : List Server) :
    ∀ s ∈ t.serverSteps placed servers, s.GatewaysOf networks := by
  induction servers generalizing placed with
  | nil => simp [serverSteps]
  | cons s rest ih => exact List.forall_mem_append.mpr ⟨s.gatewaysOf_steps _ _, ih _⟩

theorem gatewaysOf_steps (t : Topology) : ∀ s ∈ t.steps, s.GatewaysOf t.networks := by
  have hkey : ∀ s ∈ t.keypairSteps, s.GatewaysOf t.networks := by
    unfold keypairSteps
    split <;> simp [Step.GatewaysOf]
  unfold steps
  simp only [List.forall_mem_append, List.forall_mem_flatMap]
  refine ⟨⟨⟨⟨hkey, ?_⟩, ?_⟩, fun n hn => n.gatewaysOf_steps hn⟩, t.gatewaysOf_serverSteps _ _⟩
  · simp [securityGroupSteps, Step.GatewaysOf]
  · exact List.forall_mem_map.mpr fun _ _ => trivial

end Topology

end

namespace Context
variable {c : Context} {g : Graph}

/-- In a compiled graph every subnet is found by its name, and its text is read back. -/
theorem subnetGateway?_of_compile (hw : c.topology.WellFormed) (hg : c.compile.1 = .ok g) :
    ∀ n ∈ c.topology.networks, subnetGateway? g n.subnetName = some (gatewayText n.cidr.address) := by
  intro n hn
  have hmem : n.subnet ∈ g.resources := resources_of_compile hg ▸ Topology.subnet_mem_resources hn
  have hfound : g.find? n.subnetName = some n.subnet :=
    (find?_iff_of_nodup (names_nodup_of_compile hw hg)).mpr ⟨hmem, rfl⟩
  have hcidr : subnetCidr? g n.subnetName = some n.cidr.text := by
    simp [subnetCidr?, hfound, Network.subnet, Json.member?, Json.string?]
  simp [subnetGateway?, hcidr, n.cidr.read?_text]

/-- The values that the simulation makes up for the outputs of a compiled context are plausible exactly if it
has to number no more than 245 addresses inside and 245 floating addresses, and if the addresses of all subnets
whose gateway is asked for leave room for that of a gateway. -/
theorem madeUp_plausible_iff {declared : ContextDeclaration} (h : Context.build declared = .ok c)
    (hg : c.compile.1 = .ok g) (issued : Nat) :
    AllPlausible c.topology.networks g.outputs.entries (makeUpAll g g.outputs.entries { issued }).1 ↔
      (g.outputs.entries.countP fun e => asksFor fixedAttributes e.2.value) ≤ 245 ∧
      (g.outputs.entries.countP fun e => asksFor ["floating_ip_address"] e.2.value) ≤ 245 ∧
      ∀ n ∈ c.topology.networks, AsksGateway g.outputs.entries n → n.cidr.address.HasGateway := by
  have hw := (build_ok h).2
  have hnumbered (outputs : Nat) : Numbered 0 outputs ↔ outputs ≤ 245 := by
    unfold Numbered
    omega
  rw [allPlausible_makeUpAll_iff (subnetGateway?_of_compile hw hg), hnumbered, hnumbered]
  exact fun e he => c.topology.gatewaysOf_steps _ (outputs_of_compile hg e he)

/-- Subnets of both families, one with an embedded address, and a server with a floating address. -/
def mixedDeclaration : ContextDeclaration where
  name := "demo"
  networks := .ofList [("four", { externalNetwork := some "public" }),
    ("six", { cidr := "2001:db8::abc/64" }), ("embedded", { cidr := "::ffff:10.0.0.25/120" })]
  servers := .ofList [("web", { floatingIp := true }), ("db", { instances := 2 })]

theorem madeUp_plausible_iff_sample : ∃ c g, Context.build mixedDeclaration = .ok c ∧ c.compile.1 = .ok g ∧
    (AllPlausible c.topology.networks g.outputs.entries
        (makeUpAll g g.outputs.entries { issued := 0 }).1 ↔
      (g.outputs.entries.countP fun e => asksFor fixedAttributes e.2.value) ≤ 245 ∧
      (g.outputs.entries.countP fun e => asksFor ["floating_ip_address"] e.2.value) ≤ 245 ∧
      ∀ n ∈ c.topology.networks, AsksGateway g.outputs.entries n → n.cidr.address.HasGateway) ∧
    AllPlausible c.topology.networks g.outputs.entries (makeUpAll g g.outputs.entries { issued := 0 }).1 := by
  obtain ⟨c, g, hc, hg, hfixed, hfloating, hgateway⟩ : ∃ c g, Context.build mixedDeclaration = .ok c ∧
      c.compile.1 = .ok g ∧
      (g.outputs.entries.countP fun e => asksFor fixedAttributes e.2.value) ≤ 245 ∧
      (g.outputs.entries.countP fun e => asksFor ["floating_ip_address"] e.2.value) ≤ 245 ∧
      ∀ n ∈ c.topology.networks, n.cidr.address.HasGateway := exists_compiled (by decide +kernel)
  have hiff := madeUp_plausible_iff hc hg 0
  exact ⟨c, g, hc, hg, hiff, hiff.mpr ⟨hfixed, hfloating, fun n hn _ => hgateway n hn⟩⟩

/-- A subnet of the second family whose address ends in a group of four digits. -/
def crampedDeclaration : ContextDeclaration where
  name := "demo"
  networks := .ofList [("lan", { cidr := "fd00::abcd/64" })]

/-- The gateway that is made up for it has a group of five digits, which is no address. -/
theorem gateway_not_address : ∃ c g, Context.build crampedDeclaration = .ok c ∧ c.compile.1 = .ok g ∧
    ∃ e ∈ g.outputs.entries, asksFor ["gateway_ip"] e.2.value = true ∧
      ∃ made ∈ (makeUpAll g g.outputs.entries { issued := 0 }).1,
        made = (e.1, "fd00::abcd1") ∧ IpAddress.read? made.2.toList = none :=
  exists_compiled (by decide +kernel)

end Context
end Provision
