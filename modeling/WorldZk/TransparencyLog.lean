import Mathlib.Data.List.GetD
import Mathlib.Data.Nat.Bitwise
import Mathlib.Data.Nat.Log
import WorldZk.MerkleTrees
import WorldZk.Sha256

/-!
# The transparency log of the proof registry

The log is a list of hashes, padded with zeros to a power of two and hashed pairwise to a root.
`verify_inclusion` takes the tree size from the caller, and with it the length of the path. Against
the root of a log it is sound exactly for the tree sizes that this file describes.
-/

namespace WorldZk.TransparencyLog

open MerkleTrees Sha256

/-- `[u8; 32]`. -/
abbrev Hash : Type := { bytes : List UInt8 // bytes.length = 32 }

def zeroHash : Hash := ⟨List.replicate 32 0, rfl⟩

def hashPair (left right : Hash) : Hash := ⟨sha256 (left.1 ++ right.1), length_sha256 _⟩

/-! ## The functions -/

/-- The loop of `tree_depth`, on a 64-bit `size`; `none` when it runs on after `fuel` rounds. -/
def depthLoop (n : ℕ) : ℕ → ℕ → ℕ → Option ℕ
  | 0, _, _ => none
  | fuel + 1, size, depth =>
    if size < n then depthLoop n fuel (size * 2 % 2 ^ 64) (depth + 1) else some depth

/-- `tree_depth`; after 64 rounds `size` is zero and stays zero. -/
def treeDepth (n : ℕ) : Option ℕ := if n ≤ 1 then some 0 else depthLoop n 65 1 0

/-- The loop of `compute_root` over the levels. -/
def hashLevels : ℕ → List Hash → List Hash
  | 0, level => level
  | fuel + 1, level => if 1 < level.length then hashLevels fuel (pairUp hashPair level) else level

def computeRoot (leaves : List Hash) : Option Hash :=
  if leaves.isEmpty then some zeroHash
  else do
    let depth ← treeDepth leaves.length
    let paddedSize := 2 ^ depth
    let level := leaves ++ List.replicate (paddedSize - leaves.length) zeroHash
    (hashLevels paddedSize level)[0]?

/-- The loop of `merkle_proof`; `none` is a sibling out of bounds. -/
def proofLoop : ℕ → List Hash → ℕ → Option (List Hash)
  | 0, _, _ => some []
  | depth + 1, level, idx => do
    let sibling ← level[idx ^^^ 1]?
    let proof ← proofLoop depth (pairUp hashPair level) (idx / 2)
    some (sibling :: proof)

def merkleProof (leaves : List Hash) (index : ℕ) : Option (List Hash) := do
  let depth ← treeDepth leaves.length
  let paddedSize := 2 ^ depth
  let level := leaves ++ List.replicate (paddedSize - leaves.length) zeroHash
  proofLoop depth level index

/-- `none` when `tree_depth` does not return. -/
def verifyInclusion (root leaf : Hash) (index : ℕ) (proof : List Hash) (treeSize : ℕ) :
    Option Bool :=
  if treeSize = 0 then some false
  else if treeSize ≤ index then some false
  else (treeDepth treeSize).map fun expectedDepth =>
    if proof.length ≠ expectedDepth then false
    else decide (climb hashPair leaf index proof = root)

/-! ## Depth and root -/

section Depth

variable {n k fuel : ℕ}

private theorem depthLoop_pow (hn : n ≤ 2 ^ 63) (hk : k ≤ Nat.clog 2 n)
    (hfuel : Nat.clog 2 n < k + fuel) : depthLoop n fuel (2 ^ k) k = some (Nat.clog 2 n) := by
  induction fuel generalizing k with
  | zero => omega
  | succ fuel ih =>
    rw [depthLoop]
    split
    case isTrue hlt =>
      have hclog := (Nat.lt_clog_iff_pow_lt one_lt_two).mpr hlt
      have hsmall : k < 63 := (Nat.pow_lt_pow_iff_right one_lt_two).mp (hlt.trans_le hn)
      have hsize : 2 ^ k * 2 % 2 ^ 64 = 2 ^ (k + 1) := by
        rw [← pow_succ, Nat.mod_eq_of_lt (Nat.pow_lt_pow_right one_lt_two (by omega))]
      rw [hsize]
      exact ih hclog (by omega)
    case isFalse hle =>
      have hclog := (Nat.clog_le_iff_le_pow one_lt_two).mpr (Nat.le_of_not_lt hle)
      exact congrArg some (le_antisymm hk hclog)

theorem treeDepth_eq (hn : n ≤ 2 ^ 63) : treeDepth n = some (Nat.clog 2 n) := by
  rw [treeDepth]
  split
  case isTrue hle => rw [Nat.clog_of_right_le_one hle]
  case isFalse =>
    have hclog : Nat.clog 2 n ≤ 63 := (Nat.clog_le_iff_le_pow one_lt_two).mpr hn
    exact depthLoop_pow hn (Nat.zero_le _) (by omega)

/-- For a larger size the loop never ends, whatever the number of rounds. -/
theorem depthLoop_eq_none (hn : 2 ^ 63 < n) (depth : ℕ) (hk : k ≤ 64) :
    depthLoop n fuel (2 ^ k % 2 ^ 64) depth = none := by
  induction fuel generalizing k depth with
  | zero => rfl
  | succ fuel ih =>
    have hlt : 2 ^ k % 2 ^ 64 < n := by
      rcases Nat.lt_or_ge k 64 with hlt | hge
      · have hpow : 2 ^ k ≤ 2 ^ 63 := Nat.pow_le_pow_right two_pos (by omega)
        exact (Nat.mod_le _ _).trans_lt (hpow.trans_lt hn)
      · obtain rfl := le_antisymm hk hge
        rw [Nat.mod_self]
        omega
    rw [depthLoop, if_pos hlt]
    rcases Nat.lt_or_ge k 64 with hsmall | hge
    · have hnext : 2 ^ k % 2 ^ 64 * 2 % 2 ^ 64 = 2 ^ (k + 1) % 2 ^ 64 := by
        rw [Nat.mod_mul_mod, ← pow_succ]
      rw [hnext]
      exact ih (depth + 1) hsmall
    · obtain rfl := le_antisymm hk hge
      have hnext : 2 ^ 64 % 2 ^ 64 * 2 % 2 ^ 64 = 2 ^ 64 % 2 ^ 64 := by
        rw [Nat.mod_self, Nat.zero_mul, Nat.zero_mod]
      rw [hnext]
      exact ih (depth + 1) le_rfl

theorem treeDepth_eq_none (hn : 2 ^ 63 < n) : treeDepth n = none := by
  rw [treeDepth, if_neg (by omega)]
  exact depthLoop_eq_none hn 0 (Nat.zero_le 64)

end Depth

variable {leaves : List Hash} {treeSize index : ℕ} {leaf root : Hash} {proof : List Hash}

/-- The leaf of the padded tree at a position. -/
def paddedLeaf (leaves : List Hash) (j : ℕ) : Hash := leaves.getD j zeroHash

/-- The node of the padded tree at a height and a position. -/
def treeNode (leaves : List Hash) (k j : ℕ) : Hash := node hashPair (paddedLeaf leaves) k j

/-- The depth of the tree over the entries. -/
def logDepth (leaves : List Hash) : ℕ := Nat.clog 2 leaves.length

private theorem padded_eq (h : leaves.length ≤ 2 ^ logDepth leaves) :
    leaves ++ List.replicate (2 ^ logDepth leaves - leaves.length) zeroHash =
      (List.range (2 ^ logDepth leaves)).map (paddedLeaf leaves) := by
  refine List.ext_getElem (by simp [h]) fun j hj hj' => ?_
  rw [List.getElem_map, List.getElem_range, paddedLeaf]
  by_cases hlt : j < leaves.length
  · rw [List.getElem_append_left hlt, List.getD_eq_getElem _ _ hlt]
  · rw [List.getElem_append_right (Nat.le_of_not_lt hlt), List.getElem_replicate,
      List.getD_eq_default _ _ (Nat.le_of_not_lt hlt)]

private theorem pairUp_treeNode (k m : ℕ) :
    pairUp hashPair ((List.range (2 ^ (m + 1))).map (treeNode leaves k)) =
      (List.range (2 ^ m)).map (treeNode leaves (k + 1)) := by
  rw [pow_succ']
  exact pairUp_level _ k _

private theorem hashLevels_eq {k m fuel : ℕ} (hfuel : m ≤ fuel) :
    hashLevels fuel ((List.range (2 ^ m)).map (treeNode leaves k)) = [treeNode leaves (k + m) 0] := by
  induction m generalizing k fuel with
  | zero =>
    cases fuel with
    | zero => rfl
    | succ fuel =>
      rw [hashLevels, if_neg (by simp)]
      rfl
  | succ m ih =>
    obtain ⟨fuel, rfl⟩ : ∃ f, fuel = f + 1 := ⟨fuel - 1, by omega⟩
    have hlength : 1 < ((List.range (2 ^ (m + 1))).map (treeNode leaves k)).length := by
      rw [List.length_map, List.length_range]
      exact Nat.one_lt_two_pow (Nat.succ_ne_zero m)
    rw [hashLevels, if_pos hlength, pairUp_treeNode, ih (by omega), Nat.add_assoc, Nat.add_comm 1 m]

theorem computeRoot_eq (h : leaves.length ≤ 2 ^ 63) :
    computeRoot leaves = some (treeNode leaves (logDepth leaves) 0) := by
  rw [computeRoot]
  split
  case isTrue hempty =>
    obtain rfl := List.isEmpty_iff.mp hempty
    rfl
  case isFalse =>
    have hlevel := @hashLevels_eq leaves 0 (logDepth leaves) (2 ^ logDepth leaves)
      Nat.lt_two_pow_self.le
    rw [treeDepth_eq h]
    change (hashLevels (2 ^ logDepth leaves) (leaves ++
      List.replicate (2 ^ logDepth leaves - leaves.length) zeroHash))[0]? = _
    rw [padded_eq (Nat.le_pow_clog one_lt_two _)]
    change (hashLevels (2 ^ logDepth leaves)
      ((List.range (2 ^ logDepth leaves)).map (treeNode leaves 0)))[0]? = _
    rw [hlevel, Nat.zero_add]
    rfl

/-- What an accepted query is. -/
theorem verifyInclusion_eq_true (hsize : treeSize ≤ 2 ^ 63) :
    verifyInclusion root leaf index proof treeSize = some true ↔
      index < treeSize ∧ proof.length = Nat.clog 2 treeSize ∧
        climb hashPair leaf index proof = root := by
  rw [verifyInclusion, treeDepth_eq hsize]
  split
  · simp_all
  · split
    · simp_all
    · next hindex =>
      simp only [Option.map_some, Option.some.injEq]
      split
      · simp_all
      · simp_all

/-! ## Completeness -/

theorem xor_one (idx : ℕ) : idx ^^^ 1 = if idx % 2 = 0 then idx + 1 else idx - 1 := by
  split
  case isTrue heven => exact Nat.xor_one_of_even (Nat.even_iff.mpr heven)
  case isFalse hodd => exact Nat.xor_one_of_odd (Nat.not_even_iff_odd.mp (mt Nat.even_iff.mp hodd))

private theorem xor_one_lt {idx m : ℕ} (hidx : idx < 2 ^ (m + 1)) : idx ^^^ 1 < 2 ^ (m + 1) :=
  Nat.xor_lt_two_pow hidx (Nat.one_lt_two_pow (Nat.succ_ne_zero m))

private theorem proofLoop_eq {k m idx : ℕ} (hidx : idx < 2 ^ m) :
    proofLoop m ((List.range (2 ^ m)).map (treeNode leaves k)) idx =
      some (siblings hashPair (paddedLeaf leaves) k idx m) := by
  induction m generalizing k idx with
  | zero => rfl
  | succ m ih =>
    have hsibling : ((List.range (2 ^ (m + 1))).map (treeNode leaves k))[idx ^^^ 1]? =
        some (treeNode leaves k (idx ^^^ 1)) := by
      rw [List.getElem?_map, List.getElem?_range (xor_one_lt hidx)]
      rfl
    have hhalf : idx / 2 < 2 ^ m := Nat.div_lt_of_lt_mul (by rwa [← pow_succ'])
    rw [proofLoop, hsibling, pairUp_treeNode, ih hhalf, xor_one]
    rfl

theorem merkleProof_eq (h : leaves.length ≤ 2 ^ 63) (hindex : index < leaves.length) :
    merkleProof leaves index =
      some (siblings hashPair (paddedLeaf leaves) 0 index (logDepth leaves)) := by
  have hpadded : leaves.length ≤ 2 ^ logDepth leaves := Nat.le_pow_clog one_lt_two _
  rw [merkleProof, treeDepth_eq h]
  change proofLoop (logDepth leaves) (leaves ++
    List.replicate (2 ^ logDepth leaves - leaves.length) zeroHash) index = _
  rw [padded_eq hpadded]
  exact @proofLoop_eq leaves 0 _ _ (hindex.trans_le hpadded)

/-- The path of an entry is accepted for it against the root and the size of the log, and has the
length of the tree's depth. Over 2 ^ 63 entries no call returns. -/
theorem verifyInclusion_merkleProof (leaves : List Hash) (index : ℕ)
    (hindex : index < leaves.length) :
    (leaves.length ≤ 2 ^ 63 →
      ∃ root proof, computeRoot leaves = some root ∧ merkleProof leaves index = some proof) ∧
    ∀ root proof, computeRoot leaves = some root → merkleProof leaves index = some proof →
      verifyInclusion root leaves[index] index proof leaves.length = some true ∧
        treeDepth leaves.length = some proof.length := by
  refine ⟨fun hsize => ⟨_, _, computeRoot_eq hsize, merkleProof_eq hsize hindex⟩, ?_⟩
  intro root proof hroot hproof
  have hsize : leaves.length ≤ 2 ^ 63 := by
    by_contra hlarge
    rw [merkleProof, treeDepth_eq_none (Nat.lt_of_not_le hlarge)] at hproof
    cases hproof
  rw [computeRoot_eq hsize, Option.some.injEq] at hroot
  rw [merkleProof_eq hsize hindex, Option.some.injEq] at hproof
  subst hroot hproof
  rw [length_siblings]
  refine ⟨(verifyInclusion_eq_true hsize).mpr ⟨hindex, length_siblings 0 index _, ?_⟩,
    treeDepth_eq hsize⟩
  have hclimb := @climb_siblings _ hashPair (paddedLeaf leaves) 0 index (logDepth leaves)
  have hleaf : node hashPair (paddedLeaf leaves) 0 index = leaves[index] :=
    List.getD_eq_getElem _ _ hindex
  have htop : index / 2 ^ logDepth leaves = 0 :=
    Nat.div_eq_of_lt (hindex.trans_le (Nat.le_pow_clog one_lt_two _))
  rw [hleaf, Nat.zero_add, htop] at hclimb
  exact hclimb

/-! ## Soundness for a tree size -/

/-- How many levels of a path of the given size lie below the leaves of the log. -/
def levelsBelow (leaves : List Hash) (treeSize : ℕ) : ℕ := Nat.clog 2 treeSize - logDepth leaves

/-- How many levels of the log lie below the start of a path of the given size. -/
def levelsAbove (leaves : List Hash) (treeSize : ℕ) : ℕ := logDepth leaves - Nat.clog 2 treeSize

/-- Where the path and the padded tree hash to one value at the same place, they hash the same
pair. -/
def PathNoCollision (leaves : List Hash) (treeSize : ℕ) (leaf : Hash) (index : ℕ)
    (proof : List Hash) : Prop :=
  let below := levelsBelow leaves treeSize
  NoCollision hashPair (paddedLeaf leaves) (levelsAbove leaves treeSize)
    (climb hashPair leaf index (proof.take below)) (index / 2 ^ below) (proof.drop below)

/-- Whatever is accepted for the tree size against the root of the log is an entry of the log. -/
def SoundAt (leaves : List Hash) (treeSize : ℕ) : Prop :=
  ∀ root leaf index proof, computeRoot leaves = some root →
    PathNoCollision leaves treeSize leaf index proof →
    verifyInclusion root leaf index proof treeSize = some true →
    index < leaves.length ∧ leaves[index]? = some leaf

/-- The tree size is one for which an accepted path can only start in an entry. A path of the
log's own depth must end at the last entry. A shorter one starts in an inner node, and a longer
one below a leaf. -/
def SizeFits (leaves : List Hash) (treeSize : ℕ) : Prop :=
  treeSize = 0 ∨ 2 ^ 63 < treeSize ∨
  (Nat.clog 2 treeSize = logDepth leaves ∧ treeSize ≤ leaves.length) ∨
  (Nat.clog 2 treeSize < logDepth leaves ∧
    ∀ index < treeSize,
      leaves[index]? = some (treeNode leaves (logDepth leaves - Nat.clog 2 treeSize) index)) ∨
  (logDepth leaves < Nat.clog 2 treeSize ∧
    ∀ index < treeSize, ∀ leaf below,
      below.length = Nat.clog 2 treeSize - logDepth leaves →
      climb hashPair leaf index below =
        paddedLeaf leaves (index / 2 ^ (Nat.clog 2 treeSize - logDepth leaves)) →
      leaves[index]? = some leaf)

private theorem verifyInclusion_ne_true (h : treeSize = 0 ∨ 2 ^ 63 < treeSize) :
    verifyInclusion root leaf index proof treeSize ≠ some true := by
  rw [verifyInclusion]
  rcases h with rfl | hlarge
  · simp
  · rw [treeDepth_eq_none hlarge]
    split_ifs <;> simp

/-- An accepted path is one from below a node of the tree at the height where both meet. -/
private theorem soundAt_iff_meet (hleaves : leaves.length ≤ 2 ^ 63) (hsize : treeSize ≤ 2 ^ 63) :
    SoundAt leaves treeSize ↔
      ∀ index < treeSize, ∀ leaf below, below.length = levelsBelow leaves treeSize →
        climb hashPair leaf index below = treeNode leaves (levelsAbove leaves treeSize)
          (index / 2 ^ levelsBelow leaves treeSize) →
        leaves[index]? = some leaf := by
  have hdepths : levelsBelow leaves treeSize + logDepth leaves =
      Nat.clog 2 treeSize + levelsAbove leaves treeSize := by
    unfold levelsBelow levelsAbove
    omega
  have hmeet : levelsBelow leaves treeSize ≤ Nat.clog 2 treeSize := Nat.sub_le _ _
  have htop : ∀ index < treeSize, index / 2 ^ levelsBelow leaves treeSize /
      2 ^ (Nat.clog 2 treeSize - levelsBelow leaves treeSize) = 0 := by
    intro index hindex
    rw [Nat.div_div_eq_div_mul, ← pow_add, Nat.add_sub_cancel' hmeet]
    exact Nat.div_eq_of_lt (hindex.trans_le (Nat.le_pow_clog one_lt_two _))
  have hheight : levelsAbove leaves treeSize +
      (Nat.clog 2 treeSize - levelsBelow leaves treeSize) = logDepth leaves := by omega
  constructor
  · intro hsound index hindex leaf below hlength hclimb
    -- The path goes on with the siblings of the tree itself.
    have hnode := @climb_siblings _ hashPair (paddedLeaf leaves)
      (levelsAbove leaves treeSize) (index / 2 ^ levelsBelow leaves treeSize)
      (Nat.clog 2 treeSize - levelsBelow leaves treeSize)
    refine (hsound _ leaf index (below ++ siblings hashPair (paddedLeaf leaves)
      (levelsAbove leaves treeSize) (index / 2 ^ levelsBelow leaves treeSize)
      (Nat.clog 2 treeSize - levelsBelow leaves treeSize)) (computeRoot_eq hleaves) ?_
      ((verifyInclusion_eq_true hsize).mpr ⟨hindex, ?_, ?_⟩)).2
    · rw [PathNoCollision, ← hlength, List.take_left, List.drop_left, hlength, hclimb]
      exact noCollision_siblings _ _ _
    · rw [List.length_append, length_siblings, hlength, Nat.add_sub_cancel' hmeet]
    · rw [climb_append, hlength, hclimb]
      refine hnode.trans ?_
      rw [htop index hindex, hheight]
      rfl
  · intro hfit root leaf index proof hroot hfree haccept
    obtain ⟨hindex, hlength, hclimb⟩ := (verifyInclusion_eq_true hsize).mp haccept
    rw [computeRoot_eq hleaves, Option.some.injEq] at hroot
    have hbelow : (proof.take (levelsBelow leaves treeSize)).length =
        levelsBelow leaves treeSize := by
      rw [List.length_take, hlength, min_eq_left hmeet]
    have hsplit := @climb_append _ hashPair leaf index
      (proof.take (levelsBelow leaves treeSize)) (proof.drop (levelsBelow leaves treeSize))
    rw [List.take_append_drop, hclimb, hbelow, ← hroot] at hsplit
    have hstart := eq_node_of_climb hfree (by
      rw [← hsplit, List.length_drop, hlength, htop index hindex, hheight]
      rfl)
    have hentry := hfit index hindex leaf _ hbelow hstart
    exact ⟨(List.getElem?_eq_some_iff.mp hentry).1, hentry⟩

private theorem getElem?_eq_paddedLeaf_iff :
    leaves[index]? = some (paddedLeaf leaves index) ↔ index < leaves.length := by
  constructor
  · exact fun h => (List.getElem?_eq_some_iff.mp h).1
  · intro hlt
    rw [List.getElem?_eq_getElem hlt, paddedLeaf, List.getD_eq_getElem _ _ hlt]

private theorem soundAt_iff_of_depth_eq (hleaves : leaves.length ≤ 2 ^ 63)
    (hsize : treeSize ≤ 2 ^ 63) (hdepth : Nat.clog 2 treeSize = logDepth leaves) :
    SoundAt leaves treeSize ↔ treeSize ≤ leaves.length := by
  have hbelow : levelsBelow leaves treeSize = 0 := by
    rw [levelsBelow, hdepth, Nat.sub_self]
  have habove : levelsAbove leaves treeSize = 0 := by
    rw [levelsAbove, hdepth, Nat.sub_self]
  rw [soundAt_iff_meet hleaves hsize, hbelow, habove]
  constructor
  · intro h
    by_contra hlt
    have hentry := h leaves.length (Nat.lt_of_not_le hlt) (paddedLeaf leaves leaves.length) [] rfl
      (by rw [pow_zero, Nat.div_one]; rfl)
    exact lt_irrefl _ (getElem?_eq_paddedLeaf_iff.mp hentry)
  · intro hle index hindex leaf below hlength hclimb
    rw [List.length_eq_zero_iff] at hlength
    subst hlength
    rw [pow_zero, Nat.div_one] at hclimb
    have hleaf : leaf = paddedLeaf leaves index := hclimb
    rw [hleaf]
    exact getElem?_eq_paddedLeaf_iff.mpr (hindex.trans_le hle)

private theorem soundAt_iff_of_depth_lt (hleaves : leaves.length ≤ 2 ^ 63)
    (hsize : treeSize ≤ 2 ^ 63) (hdepth : Nat.clog 2 treeSize < logDepth leaves) :
    SoundAt leaves treeSize ↔ ∀ index < treeSize,
      leaves[index]? = some (treeNode leaves (logDepth leaves - Nat.clog 2 treeSize) index) := by
  have hbelow : levelsBelow leaves treeSize = 0 := Nat.sub_eq_zero_of_le hdepth.le
  rw [soundAt_iff_meet hleaves hsize, hbelow]
  constructor
  · intro h index hindex
    refine h index hindex _ [] rfl ?_
    rw [pow_zero, Nat.div_one]
    rfl
  · intro h index hindex leaf below hlength hclimb
    rw [List.length_eq_zero_iff] at hlength
    subst hlength
    rw [pow_zero, Nat.div_one] at hclimb
    rw [h index hindex]
    exact congrArg some hclimb.symm

/-- Inclusion proofs for a tree size are sound exactly when the size fits the log. -/
theorem soundAt_iff_sizeFits (leaves : List Hash) (treeSize : ℕ)
    (hleaves : leaves.length ≤ 2 ^ 63) : SoundAt leaves treeSize ↔ SizeFits leaves treeSize := by
  by_cases hnever : treeSize = 0 ∨ 2 ^ 63 < treeSize
  · have hsound : SoundAt leaves treeSize := fun _ _ _ _ _ _ haccept =>
      absurd haccept (verifyInclusion_ne_true hnever)
    have hfits : SizeFits leaves treeSize := hnever.elim Or.inl fun h => Or.inr (Or.inl h)
    exact iff_of_true hsound hfits
  · push Not at hnever
    obtain ⟨hpos, hsize⟩ := hnever
    rcases lt_trichotomy (Nat.clog 2 treeSize) (logDepth leaves) with hlt | heq | hgt
    · rw [soundAt_iff_of_depth_lt hleaves hsize hlt, SizeFits]
      simp only [hpos, hlt, hlt.ne, hlt.not_gt, hsize.not_gt, false_or, false_and, true_and,
        or_false]
    · rw [soundAt_iff_of_depth_eq hleaves hsize heq, SizeFits]
      simp only [hpos, heq, lt_irrefl, hsize.not_gt, false_or, false_and, true_and, or_false]
    · have habove : levelsAbove leaves treeSize = 0 := Nat.sub_eq_zero_of_le hgt.le
      rw [soundAt_iff_meet hleaves hsize, habove, SizeFits]
      simp only [hpos, hgt, hgt.ne', hgt.not_gt, hsize.not_gt, false_or, false_and, true_and]
      rfl

/-- A hash made of one byte. -/
def byteHash (b : UInt8) : Hash := ⟨List.replicate 32 b, rfl⟩

/-- Three entries. Their tree has depth two, as one for four entries has. -/
def threeEntries : List Hash := [byteHash 1, byteHash 2, byteHash 3]

theorem threeEntries_verifyInclusion :
    2 < threeEntries.length ∧ ∃ root proof, computeRoot threeEntries = some root ∧
      merkleProof threeEntries 2 = some proof ∧
      verifyInclusion root (byteHash 3) 2 proof 3 = some true ∧ proof.length = 2 := by
  have hindex : 2 < threeEntries.length := by decide
  obtain ⟨hreturn, haccept⟩ := verifyInclusion_merkleProof threeEntries 2 hindex
  obtain ⟨root, proof, hroot, hproof⟩ := hreturn (by decide)
  obtain ⟨htrue, hdepth⟩ := haccept root proof hroot hproof
  exact ⟨hindex, root, proof, hroot, hproof, htrue, (Option.some.inj hdepth).symm⟩

theorem threeEntries_soundAt_three :
    threeEntries.length ≤ 2 ^ 63 ∧ SoundAt threeEntries 3 := by
  have hlength : threeEntries.length ≤ 2 ^ 63 := by decide
  have hfits : SizeFits threeEntries 3 := Or.inr (Or.inr (Or.inl ⟨rfl, le_rfl⟩))
  exact ⟨hlength, (soundAt_iff_sizeFits threeEntries 3 hlength).mpr hfits⟩

/-- For a tree size of four the padding is accepted as entry three. -/
theorem padding_accepted_as_entry :
    let root := hashPair (hashPair (byteHash 1) (byteHash 2)) (hashPair (byteHash 3) zeroHash)
    let proof := [byteHash 3, hashPair (byteHash 1) (byteHash 2)]
    computeRoot threeEntries = some root ∧ PathNoCollision threeEntries 4 zeroHash 3 proof ∧
      verifyInclusion root zeroHash 3 proof 4 = some true ∧ ¬ 3 < threeEntries.length ∧
      threeEntries[3]? = none ∧ ¬ SoundAt threeEntries 4 := by
  intro root proof
  have hroot : computeRoot threeEntries = some root := computeRoot_eq (by decide)
  have hfree : PathNoCollision threeEntries 4 zeroHash 3 proof :=
    @noCollision_siblings _ hashPair (paddedLeaf threeEntries) 0 3 2
  have haccept : verifyInclusion root zeroHash 3 proof 4 = some true :=
    (verifyInclusion_eq_true (by decide)).mpr ⟨by decide, rfl, rfl⟩
  refine ⟨hroot, hfree, haccept, by decide, rfl, fun hsound => ?_⟩
  have hlt := (hsound root zeroHash 3 proof hroot hfree haccept).1
  exact absurd hlt (by decide)

end WorldZk.TransparencyLog
