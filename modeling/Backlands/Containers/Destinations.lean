/-
  Backlands.Containers.Destinations — the containers that loot can go to
  (`collectManagedContainerDestinations`, src/game.cpp; `Container::iterator`,
  src/container.cpp).

  A container is a tree: an object and what lies in it. The lists hold no empty pointers. The
  loop runs over a list that grows under it; `n` bounds its rounds.

  Proved: `destinations_once_iff`. The loop ends, and lists each container of the tree exactly
  once exactly when no container in the root holds another; `destinations_perm` says how often
  it lists each. Counterexample: `bag_listed_twice`.
-/

import Backlands.Lib.Worklist

namespace Backlands.Containers

open Backlands.Lib RoseTree

structure Thing where
  ptr : Nat
  isContainer : Bool
  deriving DecidableEq

abbrev Item := RoseTree Thing

/-- Breadth first. -/
def iterator (container : Item) : List Item := walkTrees Thing.isContainer (size container) [container]

/-- The containers among the items in `current`, at any depth. -/
def childContainers (current : Item) : List Item := (iterator current).filter fun child => child.label.isContainer

def collectManagedContainerDestinations (n : Nat) : Option Item → List Item
  | none => []
  | some root => worklist childContainers n [root]

def containers (root : Item) : List Item := root :: nestedAll Thing.isContainer root.contents

def Shallow (root : Item) : Prop :=
  ∀ c ∈ root.contents, c.label.isContainer = true → ∀ d ∈ c.contents, d.label.isContainer = false

theorem childContainers_perm (current : Item) :
    (childContainers current).Perm (nestedAll Thing.isContainer current.contents) := by
  have hsize : sizes [current] ≤ size current := by simp [sizes]
  have hwalk : (iterator current).Perm (treesAll Thing.isContainer current.contents) := by
    have hqueue := @walkTrees_perm Thing Thing.isContainer (size current) [current] hsize
    rwa [List.flatMap_singleton] at hqueue
  rw [← treesAll_filter]
  exact hwalk.filter _

theorem destinations_perm (root : Item) : ∃ N, ∀ n ≥ N,
    collectManagedContainerDestinations n (some root) = collectManagedContainerDestinations N (some root) ∧
      (collectManagedContainerDestinations n (some root)).Perm (root :: spreadAll Thing.isContainer 1 root.contents) := by
  refine ⟨([root].flatMap (listed Thing.isContainer)).length, fun n hn => ⟨?_, ?_⟩⟩
  · exact worklist_stable childContainers_perm hn
  · have hqueue := worklist_perm childContainers_perm hn
    rwa [List.flatMap_singleton] at hqueue

/-- The loop ends, and its result is every container of the tree once exactly when no container
    in the root holds another. -/
theorem destinations_once_iff (root : Item) : ∃ destinations,
    (∃ N, ∀ n ≥ N, collectManagedContainerDestinations n (some root) = destinations) ∧
      (destinations.Perm (containers root) ↔ Shallow root) := by
  obtain ⟨N, h⟩ := destinations_perm root
  refine ⟨collectManagedContainerDestinations N (some root), ⟨N, fun n hn => (h n hn).1⟩, ?_⟩
  have hlist := (h N (Nat.le_refl N)).2
  calc (collectManagedContainerDestinations N (some root)).Perm (containers root)
      ↔ (root :: spreadAll Thing.isContainer 1 root.contents).Perm (containers root) :=
        ⟨hlist.symm.trans, hlist.trans⟩
    _ ↔ (spreadAll Thing.isContainer 1 root.contents).Perm (nestedAll Thing.isContainer root.contents) :=
        List.perm_cons root
    _ ↔ ∀ c ∈ root.contents, c.label.isContainer = true → nestedAll Thing.isContainer c.contents = [] :=
        spreadAll_perm_iff root.contents
    _ ↔ Shallow root := by simp only [nestedAll_eq_nil_iff, Shallow]

def bags : Item := .node ⟨0, true⟩ [.node ⟨1, true⟩ [.node ⟨2, true⟩ []]]

theorem bag_listed_twice : ¬∀ root : Item, ∃ destinations,
    (∃ N, ∀ n ≥ N, collectManagedContainerDestinations n (some root) = destinations) ∧
      destinations.Perm (containers root) := by
  intro h
  obtain ⟨destinations, ⟨N, hN⟩, hperm⟩ := h bags
  obtain ⟨M, hM⟩ := destinations_perm bags
  have hlist := (hM (max N M) (Nat.le_max_right N M)).2
  rw [hN _ (Nat.le_max_left N M)] at hlist
  exact absurd (hlist.symm.trans hperm).length_eq (by decide)

end Backlands.Containers
