import Mathlib.Data.List.Basic
import Mathlib.Data.Nat.Notation
import Mathlib.Tactic.Ring

/-!
# Merkle trees and paths

A binary hash tree over a leaf function, for any node type and any hash of two nodes. A path climbs
from a node to the root with one sibling for each level. What the hash must satisfy is stated for
the pairs that a path and the tree hash at the same place, so that it can be checked for a concrete
hash.
-/

namespace WorldZk.MerkleTrees

variable {N : Type} (hash : N → N → N)

/-- The node at a height and a position. -/
def node (leaf : ℕ → N) : ℕ → ℕ → N
  | 0, j => leaf j
  | k + 1, j => hash (node leaf k (2 * j)) (node leaf k (2 * j + 1))

/-- The two children of a node that lies above position `idx`, with `current` at `idx`. -/
def children (idx : ℕ) (current sibling : N) : N × N :=
  if idx % 2 = 0 then (current, sibling) else (sibling, current)

/-- The node that a path reaches. -/
def climb : N → ℕ → List N → N
  | current, _, [] => current
  | current, idx, sibling :: proof =>
    climb (hash (children idx current sibling).1 (children idx current sibling).2) (idx / 2) proof

/-- The siblings on the way from a node, for `n` levels. -/
def siblings (leaf : ℕ → N) : ℕ → ℕ → ℕ → List N
  | _, _, 0 => []
  | k, idx, n + 1 =>
    node hash leaf k (if idx % 2 = 0 then idx + 1 else idx - 1) ::
      siblings leaf (k + 1) (idx / 2) n

/-- Where the path and the tree hash to one value, they hash the same pair. -/
def NoCollision (leaf : ℕ → N) : ℕ → N → ℕ → List N → Prop
  | _, _, _, [] => True
  | k, current, idx, sibling :: proof =>
    let p := children idx current sibling
    let q := (node hash leaf k (2 * (idx / 2)), node hash leaf k (2 * (idx / 2) + 1))
    (hash p.1 p.2 = hash q.1 q.2 → p = q) ∧
      NoCollision leaf (k + 1) (hash p.1 p.2) (idx / 2) proof

variable {hash} {leaf : ℕ → N} {k idx n : ℕ}

@[simp] theorem length_siblings (k idx n : ℕ) : (siblings hash leaf k idx n).length = n := by
  induction n generalizing k idx with
  | zero => rfl
  | succ n ih => rw [siblings, List.length_cons, ih]

theorem climb_append (current : N) (idx : ℕ) (proof proof' : List N) :
    climb hash current idx (proof ++ proof') =
      climb hash (climb hash current idx proof) (idx / 2 ^ proof.length) proof' := by
  induction proof generalizing current idx with
  | nil => rw [List.nil_append, climb, List.length_nil, pow_zero, Nat.div_one]
  | cons sibling proof ih =>
    rw [List.cons_append, climb, climb, ih, List.length_cons, Nat.div_div_eq_div_mul, pow_succ']

private theorem children_node (k idx : ℕ) :
    children idx (node hash leaf k idx)
        (node hash leaf k (if idx % 2 = 0 then idx + 1 else idx - 1)) =
      (node hash leaf k (2 * (idx / 2)), node hash leaf k (2 * (idx / 2) + 1)) := by
  unfold children
  split
  · have hidx : 2 * (idx / 2) = idx := by omega
    rw [hidx]
  · have hidx : idx - 1 = 2 * (idx / 2) := by omega
    have hodd : 2 * (idx / 2) + 1 = idx := by omega
    rw [hidx, hodd]

theorem climb_siblings (k idx n : ℕ) :
    climb hash (node hash leaf k idx) idx (siblings hash leaf k idx n) =
      node hash leaf (k + n) (idx / 2 ^ n) := by
  induction n generalizing k idx with
  | zero => rw [siblings, climb, pow_zero, Nat.div_one, Nat.add_zero]
  | succ n ih =>
    rw [siblings, climb, children_node]
    have hnode : hash (node hash leaf k (2 * (idx / 2))) (node hash leaf k (2 * (idx / 2) + 1)) =
        node hash leaf (k + 1) (idx / 2) := rfl
    rw [hnode, ih, Nat.div_div_eq_div_mul, ← pow_succ', Nat.add_right_comm, Nat.add_assoc]

theorem noCollision_siblings (k idx n : ℕ) :
    NoCollision hash leaf k (node hash leaf k idx) idx (siblings hash leaf k idx n) := by
  induction n generalizing k idx with
  | zero => trivial
  | succ n ih =>
    refine ⟨fun _ => children_node k idx, ?_⟩
    rw [children_node]
    exact ih (k + 1) (idx / 2)

private theorem eq_of_children_eq {k : ℕ} {current sibling : N}
    (h : children idx current sibling =
      (node hash leaf k (2 * (idx / 2)), node hash leaf k (2 * (idx / 2) + 1))) :
    current = node hash leaf k idx := by
  unfold children at h
  split at h
  · have hidx : 2 * (idx / 2) = idx := by omega
    rw [hidx] at h
    exact congrArg Prod.fst h
  · have hodd : 2 * (idx / 2) + 1 = idx := by omega
    rw [hodd] at h
    exact congrArg Prod.snd h

/-- A path that ends in a node of the tree starts in the node of the tree below it. -/
theorem eq_node_of_climb {current : N} {proof : List N}
    (hfree : NoCollision hash leaf k current idx proof)
    (h : climb hash current idx proof =
      node hash leaf (k + proof.length) (idx / 2 ^ proof.length)) :
    current = node hash leaf k idx := by
  induction proof generalizing k idx current with
  | nil => rwa [climb, List.length_nil, pow_zero, Nat.div_one, Nat.add_zero] at h
  | cons sibling proof ih =>
    obtain ⟨hpair, hfree⟩ := hfree
    rw [climb, List.length_cons, pow_succ', ← Nat.div_div_eq_div_mul, ← Nat.add_assoc,
      Nat.add_right_comm] at h
    exact eq_of_children_eq (hpair (ih hfree h))

/-! ## Levels -/

variable (hash) in
/-- The hashes of neighbouring nodes, as `chunks(2)` groups them. -/
def pairUp : List N → List N
  | a :: b :: rest => hash a b :: pairUp rest
  | _ => []

theorem pairUp_map_range (f : ℕ → N) (m : ℕ) :
    pairUp hash ((List.range (2 * m)).map f) =
      (List.range m).map fun j => hash (f (2 * j)) (f (2 * j + 1)) := by
  induction m generalizing f with
  | zero => rfl
  | succ m ih =>
    rw [Nat.mul_succ, List.range_succ_eq_map, List.range_succ_eq_map, List.range_succ_eq_map]
    simp only [List.map_cons, List.map_map, pairUp]
    exact congrArg _ (ih fun j => f (j + 2))

theorem pairUp_level (leaf : ℕ → N) (k m : ℕ) :
    pairUp hash ((List.range (2 * m)).map (node hash leaf k)) =
      (List.range m).map (node hash leaf (k + 1)) :=
  pairUp_map_range _ m

end WorldZk.MerkleTrees
