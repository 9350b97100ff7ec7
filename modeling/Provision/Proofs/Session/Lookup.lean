import Provision.Proofs.Layout.Compilation
import Provision.Session

/-! Looking up servers across the contexts of a session. Contexts have names of their own, but dots may
stand in all names, so servers of two contexts may have one distinguished name: the lookup finds the one
that was built last. -/
namespace Provision

namespace Topology
variable {t : Topology} {s : Server} {dn : String}

/-- What the index tells is the last server of the name. -/
theorem server?_eq_find? (t : Topology) (dn : String) :
    t.server? dn = t.servers.reverse.find? fun s => s.dn == dn := by
  have hplaced : ∀ e ∈ t.servers.zipIdx, t.servers[e.2]? = some e.1 := fun e he =>
    List.mem_zipIdx_iff_getElem?.mp he
  rw [server?, serverIndex, SortedMap.find?_ofList, ← List.map_reverse, List.find?_map, Option.map_map,
    ← List.zipIdx_map_fst 0 t.servers, ← List.map_reverse, List.find?_map, List.zipIdx_map_fst]
  cases hfound : t.servers.zipIdx.reverse.find? ((fun e => e.1 == dn) ∘ fun e => (e.1.dn, e.2)) with
  | none => exact (Option.map_eq_none_iff.mpr hfound).symm
  | some e =>
    have he := List.mem_reverse.mp (List.mem_of_find?_eq_some hfound)
    exact (hplaced e he).trans (congrArg (Option.map Prod.fst) hfound).symm

theorem server?_eq_none : t.server? dn = none ↔ ∀ s ∈ t.servers, s.dn ≠ dn := by
  simp [server?_eq_find?]

theorem of_server? (h : t.server? dn = some s) : s ∈ t.servers ∧ s.dn = dn := by
  rw [server?_eq_find?] at h
  exact ⟨List.mem_reverse.mp (List.mem_of_find?_eq_some h), by simpa using List.find?_some h⟩

/-- Inside a topology a distinguished name tells the server. -/
theorem server?_of_mem (h : t.WellFormed) (hs : s ∈ t.servers) : t.server? s.dn = some s := by
  cases hfound : t.server? s.dn with
  | none => exact absurd rfl (server?_eq_none.mp hfound s hs)
  | some s' =>
    obtain ⟨hs', hdn⟩ := of_server? hfound
    rw [Holds.eq_of_resourceName h hs' hs hdn]

end Topology

/-- The name ends in a dot and the other name. -/
def Nests (name other : String) : Prop := ∃ front, name = front ++ "." ++ other

/-- Servers of different contexts have one distinguished name only if the name of one context ends in that
of the other. -/
theorem Server.nests_of_dn {s s' : Server} (hdn : s.dn = s'.dn) (hc : s.context ≠ s'.context) :
    Nests s.context s'.context ∨ Nests s'.context s.context := by
  have hnests : ∀ {w c c' : List Char}, '.' :: c = w ++ '.' :: c' → c ≠ c' →
      Nests (String.ofList c) (String.ofList c') := by
    intro w c c' hw hne
    cases w with
    | nil => exact absurd (List.cons.inj hw).2 hne
    | cons d w => exact ⟨String.ofList w, String.toList_inj.mp (by simp [(List.cons.inj hw).2])⟩
  have hne : s.context.toList ≠ s'.context.toList := fun h => hc (String.toList_inj.mp h)
  have hlist : s.name.toList ++ '.' :: s.context.toList = s'.name.toList ++ '.' :: s'.context.toList := by
    simpa [dn] using congrArg String.toList hdn
  rcases List.append_eq_append_iff.mp hlist with ⟨w, -, hw⟩ | ⟨w, -, hw⟩
  · simpa using Or.inl (b := Nests s'.context s.context) (hnests hw hne)
  · simpa using Or.inr (a := Nests s.context s'.context) (hnests hw hne.symm)

namespace Session
variable {session : Session} {before after : List Context} {c : Context} {s : Server}

/-- The session after declarations one after another, of which some may be refused. -/
def built (declarations : List ContextDeclaration) : Session :=
  declarations.foldl (fun session declared => (session.build declared).toOption.getD session) {}

/-- Every context was built, and no two contexts share a name. -/
structure Sound (session : Session) : Prop where
  contexts : ∀ c ∈ session.contexts, c.topology.WellFormed
  names : (session.contexts.map Context.name).Nodup

/-- A declaration that is accepted brings a context with a new name. -/
theorem build_ok {declared : ContextDeclaration} {session' : Session}
    (h : session.build declared = .ok session') : ∃ c, session'.contexts = session.contexts ++ [c] ∧
      c.topology.WellFormed ∧ c.name ∉ session.contexts.map Context.name := by
  obtain ⟨c, hc, rfl⟩ := Checks.map_ok h
  unfold newContext at hc
  split at hc
  · cases hc
  · next hfree =>
    obtain ⟨rfl, hw⟩ := Context.build_ok hc
    refine ⟨c, rfl, hw, fun hm => ?_⟩
    obtain ⟨c', hc', hname⟩ := List.mem_map.mp hm
    have htaken : (session.context? c.topology.declared.name).isSome = true :=
      List.find?_isSome.mpr ⟨c', hc', beq_iff_eq.mpr hname⟩
    rw [takenName?, if_pos htaken] at hfree
    cases hfree

theorem Sound.build (h : session.Sound) (declared : ContextDeclaration) :
    ((session.build declared).toOption.getD session).Sound := by
  cases hb : session.build declared with
  | error e => exact h
  | ok session' =>
    obtain ⟨c, hcontexts, hw, hname⟩ := build_ok hb
    refine ⟨fun c' hc' => ?_, ?_⟩
    · change c' ∈ session'.contexts at hc'
      rw [hcontexts] at hc'
      rcases List.mem_append.mp hc' with hc' | hc'
      · exact h.contexts c' hc'
      · exact List.mem_singleton.mp hc' ▸ hw
    · change (session'.contexts.map Context.name).Nodup
      rw [hcontexts, List.map_append]
      exact List.nodup_append'.mpr ⟨h.names, List.nodup_singleton _, by simpa using hname⟩

theorem sound_built (declarations : List ContextDeclaration) : (built declarations).Sound := by
  have hall : ∀ session : Session, session.Sound → (declarations.foldl
      (fun session declared => (session.build declared).toOption.getD session) session).Sound := by
    induction declarations with
    | nil => exact fun _ h => h
    | cons declared rest ih => exact fun session h => ih _ (h.build declared)
  exact hall {} ⟨fun _ h => (by cases h), List.nodup_nil⟩

/-- Contexts that were built later are asked first. -/
theorem server?_eq (hs : session.contexts = before ++ c :: after) (dn : String) :
    session.server? dn = ((Session.mk after).server? dn).or
      (((c.topology.server? dn).map (c, ·)).or ((Session.mk before).server? dn)) := by
  cases hc : c.topology.server? dn <;>
    simp [server?, hs, List.findSome?_append, hc]

/-- The lookup finds the last of all servers that have the distinguished name. -/
theorem server?_eq_find? (session : Session) (dn : String) :
    session.server? dn = session.servers.reverse.find? fun e => e.2.dn == dn := by
  rw [server?, servers, List.reverse_flatMap, List.find?_flatMap]
  refine congrArg (fun f => session.contexts.reverse.findSome? f) (funext fun c => ?_)
  rw [Topology.server?_eq_find?, Function.comp_apply, ← List.map_reverse, List.find?_map]
  rfl

theorem server?_eq_none {dn : String} :
    session.server? dn = none ↔ ∀ c ∈ session.contexts, ∀ s ∈ c.topology.servers, s.dn ≠ dn := by
  simp [server?, Topology.server?_eq_none]

theorem of_server? {dn : String} (h : session.server? dn = some (c, s)) :
    c ∈ session.contexts ∧ s ∈ c.topology.servers ∧ s.dn = dn := by
  obtain ⟨c', hc', hfound⟩ := List.exists_of_findSome?_eq_some h
  obtain ⟨s', hs', he⟩ := Option.map_eq_some_iff.mp hfound
  cases he
  exact ⟨List.mem_reverse.mp hc', Topology.of_server? hs'⟩

/-- The other contexts of a session have other names. -/
theorem Sound.name_ne (h : session.Sound) (hs : session.contexts = before ++ c :: after) {c' : Context}
    (hc : c' ∈ after) : c.name ≠ c'.name := by
  have hnames := h.names
  rw [hs, List.map_append, List.map_cons] at hnames
  have hcons := (List.nodup_append.mp hnames).2.1
  exact fun he => (List.nodup_cons.mp hcons).1 (he ▸ List.mem_map_of_mem hc)

/-- The lookup of a server finds the server unless a context that was built later has one of the same
distinguished name, in which case it finds the last of these. No context does as long as no name of a
context ends in the name of another. -/
theorem server_found {declarations : List ContextDeclaration} (hb : built declarations = session)
    (hs : session.contexts = before ++ c :: after) (hm : s ∈ c.topology.servers) :
    (session.server? s.dn = some (c, s) ↔ ∀ c' ∈ after, ∀ s' ∈ c'.topology.servers, s'.dn ≠ s.dn) ∧
    (∃ c' ∈ c :: after, ∃ s' ∈ c'.topology.servers,
      s'.dn = s.dn ∧ session.server? s.dn = some (c', s')) ∧
    ((∀ c' ∈ after, ¬ Nests c.name c'.name ∧ ¬ Nests c'.name c.name) →
      session.server? s.dn = some (c, s)) := by
  have hsound : session.Sound := hb ▸ sound_built declarations
  have hwell : ∀ c' ∈ c :: after, c'.topology.WellFormed := fun c' hc' =>
    hsound.contexts c' (hs ▸ List.mem_append_right _ hc')
  have hlookup := server?_eq hs s.dn
  rw [Topology.server?_of_mem (hwell c List.mem_cons_self) hm] at hlookup
  cases hlater : (Session.mk after).server? s.dn with
  | none =>
    have hfound : session.server? s.dn = some (c, s) := by simpa [hlater] using hlookup
    exact ⟨iff_of_true hfound (server?_eq_none.mp hlater),
      ⟨c, List.mem_cons_self, s, hm, rfl, hfound⟩, fun _ => hfound⟩
  | some found =>
    obtain ⟨c', s'⟩ := found
    have hfound : session.server? s.dn = some (c', s') := by simpa [hlater] using hlookup
    obtain ⟨hc', hs', hdn⟩ := of_server? hlater
    have hne := hsound.name_ne hs hc'
    have hother : session.server? s.dn ≠ some (c, s) := by
      rw [hfound]
      intro he
      cases he
      exact hne rfl
    refine ⟨iff_of_false hother fun h => h c' hc' s' hs' hdn,
      ⟨c', List.mem_cons_of_mem _ hc', s', hs', hdn, hfound⟩, fun hapart => ?_⟩
    have hcontext : s.context = c.name := (hwell c List.mem_cons_self).server_context hm
    have hcontext' : s'.context = c'.name :=
      (hwell c' (List.mem_cons_of_mem _ hc')).server_context hs'
    have hnests := Server.nests_of_dn hdn.symm (by rwa [hcontext, hcontext'])
    rw [hcontext, hcontext'] at hnests
    exact absurd hnests (not_or.mpr (hapart c' hc'))

/-- The server `a` of the context `b.c`, and the server `a.b` of the context `c`. -/
def shadowingDeclarations : List ContextDeclaration :=
  [{ name := "b.c", servers := .ofList [("a", {})] }, { name := "c", servers := .ofList [("a.b", {})] }]

theorem server_found_sample : ∃ session c after s, built shadowingDeclarations = session ∧
    session.contexts = [] ++ c :: after ∧ s ∈ c.topology.servers ∧
    (session.server? s.dn = some (c, s) ↔ ∀ c' ∈ after, ∀ s' ∈ c'.topology.servers, s'.dn ≠ s.dn) ∧
    (∃ c' ∈ c :: after, ∃ s' ∈ c'.topology.servers,
      s'.dn = s.dn ∧ session.server? s.dn = some (c', s')) ∧
    ((∀ c' ∈ after, ¬ Nests c.name c'.name ∧ ¬ Nests c'.name c.name) →
      session.server? s.dn = some (c, s)) := by
  obtain ⟨c, after, hc⟩ := List.exists_cons_of_ne_nil
    (by decide +kernel : (built shadowingDeclarations).contexts ≠ [])
  have hservers : ∀ c ∈ (built shadowingDeclarations).contexts, c.topology.servers ≠ [] := by
    decide +kernel
  obtain ⟨s, rest, hs⟩ := List.exists_cons_of_ne_nil (hservers c (hc ▸ List.mem_cons_self))
  have hm : s ∈ c.topology.servers := hs ▸ List.mem_cons_self
  have hsplit : (built shadowingDeclarations).contexts = [] ++ c :: after := hc
  exact ⟨_, c, after, s, rfl, hsplit, hm, server_found rfl hsplit hm⟩

/-- A lookup does not always find the server whose distinguished name it is given. -/
theorem server_shadowed : ∃ c ∈ (built shadowingDeclarations).contexts, ∃ s ∈ c.topology.servers,
    c.name = "b.c" ∧ s.name = "a" ∧ (built shadowingDeclarations).server? s.dn ≠ some (c, s) := by
  decide +kernel

end Session
end Provision
