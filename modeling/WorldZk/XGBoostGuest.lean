import WorldZk.LittleEndianWords
import WorldZk.Sha256
import Mathlib.Logic.Equiv.Defs

/-!
# The data of XGBoost inference

What the guest program reads and commits, and its input hash. A floating-point number is kept as
its bits.
-/

namespace WorldZk.XGBoostGuest

open LittleEndianWords

/-- An `f64` as `to_bits` gives it. -/
abbrev F64 : Type := UInt64

structure TreeNode where
  isLeaf : UInt32
  featureIdx : UInt32
  threshold : F64
  leftChild : UInt32
  rightChild : UInt32
  value : F64
deriving DecidableEq

def TreeNode.fields : TreeNode ≃ UInt32 × UInt32 × F64 × UInt32 × UInt32 × F64 where
  toFun node := (node.isLeaf, node.featureIdx, node.threshold, node.leftChild, node.rightChild,
    node.value)
  invFun p := ⟨p.1, p.2.1, p.2.2.1, p.2.2.2.1, p.2.2.2.2.1, p.2.2.2.2.2⟩
  left_inv _ := rfl
  right_inv _ := rfl

structure Tree where
  nodes : List TreeNode
deriving DecidableEq

def Tree.fields : Tree ≃ List TreeNode where
  toFun := Tree.nodes
  invFun := Tree.mk
  left_inv _ := rfl
  right_inv _ := rfl

structure XGBoostModel where
  numFeatures : UInt32
  numClasses : UInt32
  baseScore : F64
  trees : List Tree
deriving DecidableEq

structure Sample where
  id : Vector UInt8 32
  features : List F64
deriving DecidableEq

def Sample.fields : Sample ≃ Vector UInt8 32 × List F64 where
  toFun sample := (sample.id, sample.features)
  invFun p := ⟨p.1, p.2⟩
  left_inv _ := rfl
  right_inv _ := rfl

structure XGBoostInput where
  model : XGBoostModel
  samples : List Sample
  threshold : F64
deriving DecidableEq

def XGBoostInput.fields : XGBoostInput ≃
    (UInt32 × UInt32 × F64 × List Tree) × List Sample × F64 where
  toFun input := ((input.model.numFeatures, input.model.numClasses, input.model.baseScore,
    input.model.trees), input.samples, input.threshold)
  invFun p := ⟨⟨p.1.1, p.1.2.1, p.1.2.2.1, p.1.2.2.2⟩, p.2.1, p.2.2⟩
  left_inv _ := rfl
  right_inv _ := rfl

structure Prediction where
  id : Vector UInt8 32
  score : F64
  flagged : UInt32
deriving DecidableEq

structure XGBoostOutput where
  totalSamples : UInt32
  predictions : List Prediction
  flaggedCount : UInt32
  flaggedIds : List (Vector UInt8 32)
  inputHash : Vector UInt8 32
deriving DecidableEq

/-! ## The input hash -/

def hashedNode (node : TreeNode) : List UInt8 :=
  u32ToLeBytes node.isLeaf ++ u32ToLeBytes node.featureIdx ++ u64ToLeBytes node.threshold ++
    u32ToLeBytes node.leftChild ++ u32ToLeBytes node.rightChild ++ u64ToLeBytes node.value

def hashedTree (tree : Tree) : List UInt8 :=
  u32ToLeBytes (UInt32.ofNat tree.nodes.length) ++ tree.nodes.flatMap hashedNode

def hashedSample (sample : Sample) : List UInt8 :=
  sample.id.toList ++ sample.features.flatMap u64ToLeBytes

/-- The bytes that `compute_input_hash` feeds to the hasher. -/
def hashedInput (input : XGBoostInput) : List UInt8 :=
  u32ToLeBytes input.model.numFeatures ++ u32ToLeBytes input.model.numClasses ++
    u64ToLeBytes input.model.baseScore ++ input.model.trees.flatMap hashedTree ++
    input.samples.flatMap hashedSample ++ u64ToLeBytes input.threshold

def computeInputHash (input : XGBoostInput) : List UInt8 := Sha256.sha256 (hashedInput input)

theorem length_computeInputHash (input : XGBoostInput) : (computeInputHash input).length = 32 :=
  Sha256.length_sha256 _

end WorldZk.XGBoostGuest
