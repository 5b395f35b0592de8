import Mathlib.Data.Nat.Notation

/-!
# Proof and circuit data

The records that the Rust crates (`ec.rs`, `sumcheck.rs`, `gkr.rs`) and the Solidity libraries
(`HyraxVerifier`, `CommittedSumcheckVerifier`, `GKRVerifier`, `GKRDAGVerifier`) share. A 256-bit
word is the number it holds. The two languages use the same fields in the same order.
-/

namespace WorldZk.ProofTypes

/-- An affine G1 point as it is stored, with `(0, 0)` for the point at infinity. Nothing here
says that the coordinates lie on the curve. -/
structure G1Point where
  x : ℕ
  y : ℕ
deriving DecidableEq, Repr

namespace G1Point

def INFINITY : G1Point := ⟨0, 0⟩

def isInfinity (p : G1Point) : Bool := p.x == 0 && p.y == 0

@[simp] theorem isInfinity_iff (p : G1Point) : p.isInfinity = true ↔ p = INFINITY := by
  cases p
  simp [isInfinity, INFINITY]

end G1Point

structure PedersenGens where
  messageGens : List G1Point
  scalarGen : G1Point
  blindingGen : G1Point
deriving DecidableEq, Repr

/-- Proof of dot product. -/
structure PODPProof where
  commitD : G1Point
  commitDDotA : G1Point
  zVector : List ℕ
  zDelta : ℕ
  zBeta : ℕ
deriving DecidableEq, Repr

structure ProofOfProduct where
  alpha : G1Point
  beta : G1Point
  delta : G1Point
  z1 : ℕ
  z2 : ℕ
  z3 : ℕ
  z4 : ℕ
  z5 : ℕ
deriving DecidableEq, Repr

structure CommittedSumcheckProof where
  sum : G1Point
  messages : List G1Point
  podp : PODPProof
deriving DecidableEq, Repr

structure CommittedLayerProof where
  sumcheckProof : CommittedSumcheckProof
  commitments : List G1Point
  pops : List ProofOfProduct
deriving DecidableEq, Repr

structure GKRProof where
  outputClaimCommitments : List G1Point
  layerProofs : List CommittedLayerProof
deriving DecidableEq, Repr

structure DAGInputLayerProof where
  commitmentRows : List G1Point
  podps : List PODPProof
  comEvals : List G1Point
deriving DecidableEq, Repr

/-- A Pedersen opening for a public input atom. -/
structure PublicValueClaim where
  value : ℕ
  blinding : ℕ
  commitment : G1Point
deriving DecidableEq, Repr

/-- The topology of a DAG circuit, in the flat form both verifiers read. -/
structure DAGCircuitDescription where
  numComputeLayers : ℕ
  numInputLayers : ℕ
  /-- 0 for subtract and identity layers, 1 for multiply layers. -/
  layerTypes : List ℕ
  numSumcheckRounds : List ℕ
  atomOffsets : List ℕ
  atomTargetLayers : List ℕ
  atomCommitIdxs : List ℕ
  ptOffsets : List ℕ
  ptData : List ℕ
  inputIsCommitted : List Bool
  oracleProductOffsets : List ℕ
  oracleResultIdxs : List ℕ
  oracleExprCoeffs : List ℕ
deriving DecidableEq, Repr

/-- What the compute phase hands to the input phase. -/
structure VerifyContext where
  allBindings : List (List ℕ)
  outputChallenges : List ℕ
  outputEval : G1Point
deriving DecidableEq, Repr

end WorldZk.ProofTypes
