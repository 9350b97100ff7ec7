import Mathlib.Data.Prod.Lex
import Provision.Proofs.Layout.Compilation
import Provision.Proofs.Placement.InstanceHints

/-! The order of placement as one stable sort. The servers are sorted by the number of groups they name and
then dealt out to three buckets; the buckets one after another are the servers sorted by bucket and number,
and those with both in common keep the order in which they are declared. -/
namespace Provision

section
variable {α β : Type} [LinearOrder β] {key : α → β} {xs ys zs : List α}

/-- The second list is the first one in the order of the keys. Elements with one key keep their order. -/
structure Arranges (key : α → β) (xs ys : List α) : Prop where
  sorted : ys.Pairwise fun a b => key a ≤ key b
  stable : ∀ k, (ys.filter fun a => key a = k) = xs.filter fun a => key a = k

/-- A filter after one that lets through all that it lets through. -/
theorem filter_filter_of_imp {p q : α → Bool} (l : List α) (h : ∀ a, q a = true → p a = true) :
    (l.filter p).filter q = l.filter q := by
  rw [List.filter_filter]
  refine List.filter_congr fun a _ => ?_
  cases hq : q a with
  | false => rfl
  | true => rw [h a hq, Bool.and_self]

namespace Arranges

theorem mem_iff (h : Arranges key xs ys) (a : α) : a ∈ ys ↔ a ∈ xs := by
  have hmem : ∀ zs : List α, a ∈ zs ↔ a ∈ zs.filter fun b => key b = key a := fun zs => by simp
  rw [hmem ys, hmem xs, h.stable]

/-- There is only one such order: the elements of the least key come first, and they come as they came
before. -/
theorem eq (hy : Arranges key xs ys) (hz : Arranges key xs zs) : ys = zs := by
  induction ys generalizing xs zs with
  | nil =>
    refine (List.eq_nil_iff_forall_not_mem.mpr fun a ha => ?_).symm
    exact List.not_mem_nil ((hy.mem_iff a).mpr ((hz.mem_iff a).mp ha))
  | cons a ys ih =>
    have ha : a ∈ zs := (hz.mem_iff a).mpr ((hy.mem_iff a).mp List.mem_cons_self)
    cases zs with
    | nil => cases ha
    | cons b zs =>
      obtain ⟨hay, hys⟩ := List.pairwise_cons.mp hy.sorted
      obtain ⟨hbz, hzs⟩ := List.pairwise_cons.mp hz.sorted
      have hb : b ∈ a :: ys := (hy.mem_iff b).mpr ((hz.mem_iff b).mp List.mem_cons_self)
      have hkey : key a = key b := by
        refine le_antisymm ?_ ?_
        · rcases List.mem_cons.mp hb with rfl | hb
          · exact le_rfl
          · exact hay b hb
        · rcases List.mem_cons.mp ha with rfl | ha
          · exact le_rfl
          · exact hbz a ha
      have hsame : ∀ k, ((a :: ys).filter fun c => key c = k) = (b :: zs).filter fun c => key c = k :=
        fun k => (hy.stable k).trans (hz.stable k).symm
      have hhead : a = b := by
        have hfirst := hsame (key a)
        rw [List.filter_cons_of_pos (by simp), List.filter_cons_of_pos (by simp [hkey])] at hfirst
        exact (List.cons.inj hfirst).1
      subst hhead
      refine congrArg (a :: ·) (ih ⟨hys, fun _ => rfl⟩ ⟨hzs, fun k => ?_⟩)
      have hrest := hsame k
      rw [List.filter_cons, List.filter_cons] at hrest
      split at hrest
      · exact (List.cons.inj hrest).2.symm
      · exact hrest.symm

/-- Leaving elements out of the list leaves them out of the order. -/
protected theorem filter (h : Arranges key xs ys) (p : α → Bool) :
    Arranges key (xs.filter p) (ys.filter p) := by
  refine ⟨h.sorted.filter p, fun k => ?_⟩
  rw [List.filter_comm, h.stable, List.filter_comm]

/-- A list dealt out to buckets, these one after another. -/
theorem dealt {bucket : α → ℕ} {n : ℕ} (h : Arranges key xs ys) (hn : ∀ a ∈ xs, bucket a < n) :
    Arranges (fun a => toLex (bucket a, key a)) xs
      ((List.range n).flatMap fun i => ys.filter fun a => bucket a = i) := by
  refine ⟨List.pairwise_flatMap.mpr ⟨fun i _ => ?_, ?_⟩, fun k => ?_⟩
  · refine (h.sorted.filter _).imp_of_mem fun ha hb hab => Prod.Lex.toLex_le_toLex.mpr (Or.inr ⟨?_, hab⟩)
    rw [of_decide_eq_true (List.mem_filter.mp ha).2, of_decide_eq_true (List.mem_filter.mp hb).2]
  · refine List.pairwise_lt_range.imp fun hij a ha b hb => Prod.Lex.toLex_le_toLex.mpr (Or.inl ?_)
    rw [of_decide_eq_true (List.mem_filter.mp ha).2, of_decide_eq_true (List.mem_filter.mp hb).2]
    exact hij
  · obtain ⟨i, k⟩ := k
    have hparts : ∀ a, decide (toLex (bucket a, key a) = toLex (i, k)) = true → bucket a = i ∧ key a = k :=
      fun a ha => Prod.mk.inj (toLex.injective (of_decide_eq_true ha))
    -- What has the key is in the bucket of the number `i`, so the other buckets hold nothing of it.
    have hothers : ∀ is : List ℕ, i ∉ is → ((is.flatMap fun j => ys.filter fun a => bucket a = j).filter
        fun a => toLex (bucket a, key a) = toLex (i, k)) = [] := by
      intro is hi
      refine List.filter_eq_nil_iff.mpr fun a ha hk => hi ?_
      obtain ⟨j, hj, ha⟩ := List.mem_flatMap.mp ha
      rwa [← (hparts a hk).1, of_decide_eq_true (List.mem_filter.mp ha).2]
    change List.filter (fun a => decide (toLex (bucket a, key a) = toLex (i, k))) _ =
      List.filter (fun a => decide (toLex (bucket a, key a) = toLex (i, k))) _
    by_cases hi : i < n
    · obtain ⟨before, after, hsplit⟩ := List.append_of_mem (List.mem_range.mpr hi)
      have hdistinct : (before ++ i :: after).Nodup := hsplit ▸ List.nodup_range
      obtain ⟨-, hafter, hbefore⟩ := List.nodup_append.mp hdistinct
      rw [hsplit, List.flatMap_append, List.flatMap_cons, List.filter_append, List.filter_append,
        hothers before fun hm => hbefore i hm i List.mem_cons_self rfl,
        hothers after (List.nodup_cons.mp hafter).1, List.nil_append, List.append_nil,
        filter_filter_of_imp _ fun a ha => decide_eq_true (hparts a ha).1,
        ← filter_filter_of_imp ys fun a ha => decide_eq_true (hparts a ha).2, h.stable,
        filter_filter_of_imp _ fun a ha => decide_eq_true (hparts a ha).2]
    · rw [hothers _ (List.mem_range.not.mpr hi)]
      exact (List.filter_eq_nil_iff.mpr fun a ha hk => hi ((hparts a hk).1 ▸ hn a ha)).symm

end Arranges

theorem arranges_mergeSort (key : α → β) (xs : List α) :
    Arranges key xs (xs.mergeSort fun a b => key a ≤ key b) := by
  have htrans : ∀ a b c, decide (key a ≤ key b) = true → decide (key b ≤ key c) = true →
      decide (key a ≤ key c) = true := by
    simpa using fun a b c => le_trans
  have htotal : ∀ a b, (decide (key a ≤ key b) || decide (key b ≤ key a)) = true := by
    simpa using fun a b => le_total (key a) (key b)
  refine ⟨by simpa using List.pairwise_mergeSort htrans htotal xs, fun k => ?_⟩
  have hsub : (xs.filter fun a => key a = k).Sublist (xs.mergeSort fun a b => key a ≤ key b) := by
    refine List.sublist_mergeSort htrans htotal ?_ List.filter_sublist
    refine List.pairwise_of_forall_mem_list fun a ha b hb => decide_eq_true ?_
    rw [of_decide_eq_true (List.mem_filter.mp ha).2, of_decide_eq_true (List.mem_filter.mp hb).2]
  refine (List.Sublist.eq_of_length ?_ ?_).symm
  · simpa using hsub.filter fun a => key a = k
  · exact ((List.mergeSort_perm xs _).filter _).length_eq.symm

end

/-! The sort by one number. -/

section
variable {α : Type} {key : α → ℕ}

theorem pairwise_insertByKey {a : α} {xs : List α} (h : xs.Pairwise fun a b => key a ≤ key b) :
    (insertByKey key a xs).Pairwise fun a b => key a ≤ key b := by
  induction xs with
  | nil => exact List.pairwise_singleton _ a
  | cons b xs ih =>
    obtain ⟨hb, hxs⟩ := List.pairwise_cons.mp h
    rw [insertByKey]
    split
    · next hab =>
      refine List.pairwise_cons.mpr ⟨fun c hc => ?_, h⟩
      rcases List.mem_cons.mp hc with rfl | hc
      · exact hab
      · exact hab.trans (hb c hc)
    · next hab =>
      refine List.pairwise_cons.mpr ⟨fun c hc => ?_, ih hxs⟩
      rcases List.mem_cons.mp ((insertByKey_perm key a xs).mem_iff.mp hc) with rfl | hc
      · exact Nat.le_of_not_le hab
      · exact hb c hc

/-- An element comes to stand before all others of its key. -/
theorem filter_insertByKey (a : α) (xs : List α) (k : ℕ) :
    ((insertByKey key a xs).filter fun b => key b = k) = (a :: xs).filter fun b => key b = k := by
  induction xs with
  | nil => rfl
  | cons b xs ih =>
    rw [insertByKey]
    split
    · rfl
    · next hab =>
      rw [List.filter_cons, ih, List.filter_cons, List.filter_cons, List.filter_cons]
      by_cases hb : key b = k
      · have ha : key a ≠ k := fun ha => hab (by rw [ha, hb])
        simp [ha, hb]
      · simp [hb]

theorem arranges_sortByKey (key : α → ℕ) (xs : List α) : Arranges key xs (sortByKey key xs) := by
  induction xs with
  | nil => exact ⟨List.Pairwise.nil, fun _ => rfl⟩
  | cons a xs ih =>
    refine ⟨pairwise_insertByKey ih.sorted, fun k => ?_⟩
    rw [sortByKey, filter_insertByKey, List.filter_cons, ih.stable, List.filter_cons]

end

namespace Topology
variable {t : Topology} {s : Server}

/-- The server names a group of the policy. -/
def Joins (t : Topology) (policy : PlacementPolicy) (s : Server) : Prop :=
  ∃ g ∈ t.placementGroups, g.policy = policy ∧ g.name ∈ s.placementGroups

instance (t : Topology) (policy : PlacementPolicy) (s : Server) : Decidable (t.Joins policy s) :=
  inferInstanceAs (Decidable (∃ g ∈ t.placementGroups, _))

/-- Availability comes before affinity, and affinity before the rest. -/
def bucket (t : Topology) (s : Server) : ℕ :=
  if t.Joins .availability s then 0 else if t.Joins .affinity s then 1 else 2

/-- What decides when a server is placed: its bucket, and then the number of groups it names. -/
def rank (t : Topology) (s : Server) : ℕ ×ₗ ℕ := toLex (t.bucket s, s.placementGroups.length)

theorem inPolicy_iff (h : t.WellFormed) (policy : PlacementPolicy) (s : Server) :
    t.inPolicy policy s = true ↔ t.Joins policy s := by
  have hnames : (t.placementGroups.map Group.name).Nodup :=
    h.placementGroupNames ▸ t.declared.placementGroups.nodup
  simp only [inPolicy, List.any_eq_true, List.mem_filterMap, decide_eq_true_eq]
  constructor
  · rintro ⟨g, ⟨name, hname, hg⟩, hpolicy⟩
    obtain rfl : g.name = name := by simpa using List.find?_some hg
    exact ⟨g, List.mem_of_find?_eq_some hg, hpolicy, hname⟩
  · rintro ⟨g, hg, hpolicy, hname⟩
    obtain ⟨g', hg', hfound, hsame⟩ := find?_of_name (List.mem_map_of_mem hg)
    obtain rfl := List.inj_on_of_nodup_map hnames hg' hg hsame
    exact ⟨g', ⟨g'.name, hname, hfound⟩, hpolicy⟩

theorem bucket_lt (t : Topology) (s : Server) : t.bucket s < 3 := by
  unfold bucket
  split
  · decide
  · split <;> decide

theorem bucket_eq_zero_iff : t.bucket s = 0 ↔ t.Joins .availability s := by
  unfold bucket
  split
  · next h => exact iff_of_true rfl h
  · next h => split <;> exact iff_of_false (by decide) h

theorem bucket_eq_one_iff : t.bucket s = 1 ↔ t.Joins .affinity s ∧ ¬ t.Joins .availability s := by
  unfold bucket
  split
  · next h => exact iff_of_false (by decide) fun hn => hn.2 h
  · next h =>
    split
    · next ha => exact iff_of_true rfl ⟨ha, h⟩
    · next ha => exact iff_of_false (by decide) fun hn => ha hn.1

/-- A server that names a group is in one of its policies, as groups have no other policies. -/
theorem bucket_eq_two_iff (h : t.WellFormed) (hs : s ∈ t.servers) :
    t.bucket s = 2 ↔ s.placementGroups = [] := by
  constructor
  · intro hb
    refine List.eq_nil_iff_forall_not_mem.mpr fun name hname => ?_
    obtain ⟨g, hg, -, rfl⟩ := h.placementGroup_known hs hname
    have hjoins : t.Joins g.policy s := ⟨g, hg, rfl, hname⟩
    unfold bucket at hb
    split at hb
    · cases hb
    · next ha =>
      split at hb
      · cases hb
      · next hn => cases hp : g.policy <;> rw [hp] at hjoins <;> contradiction
  · intro hnone
    have hjoins : ∀ policy, ¬ t.Joins policy s := by
      rintro policy ⟨g, -, -, hname⟩
      rw [hnone] at hname
      cases hname
    rw [bucket, if_neg (hjoins _), if_neg (hjoins _)]

/-- The order of placement takes the servers out of the row by bucket. -/
theorem placementOrder_eq_dealt (h : t.WellFormed) : t.placementOrder =
    (List.range 3).flatMap fun i => (byGroupCount t.servers).filter fun s => t.bucket s = i := by
  have hpolicy : ∀ policy s, t.inPolicy policy s = decide (t.Joins policy s) := fun policy s =>
    Bool.eq_iff_iff.mpr ((inPolicy_iff h policy s).trans decide_eq_true_iff.symm)
  have hbucket : ∀ s, t.inPolicy .availability s = decide (t.bucket s = 0) ∧
      (t.inPolicy .affinity s && !t.inPolicy .availability s) = decide (t.bucket s = 1) ∧
      (!t.inPolicy .affinity s && !t.inPolicy .availability s) = decide (t.bucket s = 2) := by
    intro s
    unfold bucket
    rw [hpolicy, hpolicy]
    by_cases ha : t.Joins .availability s <;> by_cases hn : t.Joins .affinity s <;> simp [ha, hn]
  rw [placementOrder_eq]
  rw [List.filter_congr fun s _ => (hbucket s).1, List.filter_congr fun s _ => (hbucket s).2.1,
    List.filter_congr fun s _ => (hbucket s).2.2]
  simp [List.range_succ]

/-- The order of placement is the servers, as they are declared, in the order of their ranks. -/
theorem arranges_placementOrder (h : t.WellFormed) : Arranges t.rank t.servers t.placementOrder := by
  rw [placementOrder_eq_dealt h]
  exact (arranges_sortByKey _ t.servers).dealt fun s _ => t.bucket_lt s

end Topology

/-- Servers are placed one after another as one stable sort of the declared row has them: those of an
availability group first, then those of an affinity group, then those without a group, and inside of such a
bucket by the number of groups they name. Every server is placed once. -/
theorem Context.placementOrder_stable {declared : ContextDeclaration} {c : Context}
    (h : Context.build declared = .ok c) :
    c.topology.servers.map Server.name = declared.servers.keys ∧
    (c.topology.placementOrder.map Server.dn).Nodup ∧
    (∀ dn, dn ∈ c.topology.placementOrder.map Server.dn ↔ ∃ s ∈ c.topology.servers, s.dn = dn) ∧
    c.topology.placementOrder =
      c.topology.servers.mergeSort (fun s s' => c.topology.rank s ≤ c.topology.rank s') ∧
    ∀ s ∈ c.topology.servers,
      (c.topology.bucket s = 0 ↔ c.topology.Joins .availability s) ∧
      (c.topology.bucket s = 1 ↔ c.topology.Joins .affinity s ∧ ¬ c.topology.Joins .availability s) ∧
      (c.topology.bucket s = 2 ↔ s.placementGroups = []) := by
  obtain ⟨rfl, hw⟩ := build_ok h
  refine ⟨hw.serverNames, ?_, fun dn => ?_, ?_, fun s hs => ?_⟩
  · exact (c.topology.placementOrder_perm.map _).nodup_iff.mpr (Topology.Holds.resourceNames_nodup hw)
  · simp [Topology.mem_placementOrder]
  · exact (Topology.arranges_placementOrder hw).eq (arranges_mergeSort _ _)
  · exact ⟨Topology.bucket_eq_zero_iff, Topology.bucket_eq_one_iff, Topology.bucket_eq_two_iff hw hs⟩

/-- Servers of all buckets, of which two tie. One of these names its group twice. -/
def rowDeclaration : ContextDeclaration where
  name := "demo"
  placementGroups := .ofList [("near", ⟨"affinity"⟩), ("apart", ⟨"availability"⟩)]
  servers := .ofList [
    ("plain", {}),
    ("both", { placement := some (.many ["near", "apart"]) }),
    ("web", { placement := some (.one "near") }),
    ("twice", { placement := some (.many ["apart", "apart"]) }),
    ("db", { placement := some (.one "apart") })]

theorem Context.placementOrder_stable_sample : ∃ c, Context.build rowDeclaration = .ok c ∧
    c.topology.placementOrder.map Server.dn =
      ["db.demo", "both.demo", "twice.demo", "web.demo", "plain.demo"] ∧
    c.topology.placementOrder =
      c.topology.servers.mergeSort (fun s s' => c.topology.rank s ≤ c.topology.rank s') := by
  obtain ⟨c, hc⟩ := Checks.exists_ok
    (by decide +kernel : (Context.build rowDeclaration).toOption.isSome = true)
  have horder : ∀ c ∈ (Context.build rowDeclaration).toOption, c.topology.placementOrder.map Server.dn =
      ["db.demo", "both.demo", "twice.demo", "web.demo", "plain.demo"] := by decide +kernel
  obtain ⟨-, -, -, hsorted, -⟩ := placementOrder_stable hc
  exact ⟨c, hc, horder c (by rw [hc]; rfl), hsorted⟩

end Provision
