import Provision.Topology.Basic

/-! The order in which servers are placed. Servers with fewer placement groups come first; then the
members of availability groups are taken out of this row, then those of affinity groups, then the
rest. A hint can name only servers placed earlier, so the order decides what a server sees. -/
namespace Provision

section
variable {α : Type} (key : α → Nat)

/-- Puts an element in front of the first one that has no smaller key. -/
def insertByKey (a : α) : List α → List α
  | [] => [a]
  | b :: bs => if key a ≤ key b then a :: b :: bs else b :: insertByKey a bs

/-- The elements by their keys; those with one key keep their order. -/
def sortByKey : List α → List α
  | [] => []
  | a :: as => insertByKey key a (sortByKey as)

theorem insertByKey_perm (a : α) (as : List α) : (insertByKey key a as).Perm (a :: as) := by
  induction as with
  | nil => exact .refl _
  | cons b bs ih =>
    simp only [insertByKey]
    split
    · exact .refl _
    · exact (ih.cons b).trans (.swap a b bs)

theorem sortByKey_perm (as : List α) : (sortByKey key as).Perm as := by
  induction as with
  | nil => exact .refl _
  | cons a as ih => exact (insertByKey_perm key a _).trans (ih.cons a)

end

namespace Topology

/-- Whether one of the server's placement groups has the policy. -/
def inPolicy (t : Topology) (policy : PlacementPolicy) (s : Server) : Bool :=
  (s.placementGroups.filterMap t.placementGroup?).any fun g => g.policy = policy

/-- The servers with their positions. Whoever is scheduled already is known by the position. -/
def schedule (t : Topology) : List (Server × Nat) :=
  let row := sortByKey (fun e : Server × Nat => e.1.placementGroups.length) t.servers.zipIdx
  let apart := row.filter fun e => t.inPolicy .availability e.1
  let near := row.filter fun e => t.inPolicy .affinity e.1 && !(apart.map Prod.snd).contains e.2
  let order := apart ++ near
  order ++ row.filter fun e => !(order.map Prod.snd).contains e.2

def placementOrder (t : Topology) : List Server := t.schedule.map Prod.fst

end Topology
end Provision
