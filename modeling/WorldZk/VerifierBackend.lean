import WorldZk.CheckedRuns
import WorldZk.PoseidonSponge
import WorldZk.ProofTypes

/-!
# What the three verifiers share and where they differ

The DAG verifier exists three times: as the Rust crate `zkml-verifier`, as the Stylus crate
`gkr-verifier` (the same Rust with the curve operations behind precompile calls) and as the
Solidity libraries. They are ports of each other, function by function, so the model has one
definition for each function, over a `Backend` that holds every operation in which the ports
differ. Each port is then the instance of these definitions at its own backend.
-/

namespace WorldZk.VerifierBackend

open CheckedRuns PoseidonSponge ProofTypes

/-- The ways a verifier stops: a Solidity revert, or a Rust assertion that panics. -/
inductive VerifyError
  | indexOutOfBounds
  | arithmeticOverflow
  | inverseOfZero
  | ecAddFailed
  | ecMulFailed
  | msmLengthMismatch
  | innerProductLengthMismatch
  | bindingsLengthMismatch
  | podpVectorLengthMismatch
  | notEnoughGeneratorsForPODP
  | sumcheckFailed
  | popFailed
  | notEnoughCommitmentsForPoP
  | evalProofCountMismatch
  | emptyCommitment
  | lCoeffsLengthMismatch
  | zVectorLengthMismatch
  | committedInputEvalFailed
  | notEnoughPublicValueClaims
  | publicClaimCommitmentMismatch
  | pedersenOpeningInvalid
  | publicInputMLEMismatch
  | dataTooLargeForPoint
  | log2OfZero
  | podpEq1Failed
  | podpEq2Failed
  | inputPODPEq1Failed
  | inputPODPEq2Failed
  | mleEvalMismatch
  | onChainMLEMismatch
  | notEnoughCommitsForPoP
  | divisionByZero
  | wrongNumberOfLayerProofs
  | noOutputClaimCommitments
  | noCommitments
  | subtractNeedsTwoCommitments
  | noCommitmentsForClaim
  | noBindingsForReferencingLayer
  | committedInputVerificationFailed
  | publicInputCommitmentMismatch
  | needAtLeastOneLayerProof
  | noOutputClaims
  | noInputProofs
  | layerPoPFailed
  | publicInputClaimMismatch
deriving DecidableEq, Repr

abbrev Checked (α : Type) : Type := Except VerifyError α

/-- An array access, checked in both languages. -/
def getIdx {α : Type} (xs : List α) (i : ℕ) : Checked α :=
  getOr .indexOutOfBounds xs i

theorem getIdx_eq_ok {α : Type} {xs : List α} {i : ℕ} {a : α} :
    getIdx xs i = .ok a ↔ xs[i]? = some a := getOr_eq_ok

theorem getIdx_congr {α : Type} {xs ys : List α} {n i : ℕ} (h : xs.take n = ys.take n)
    (hi : i < n) : getIdx xs i = getIdx ys i := by
  have hget : xs[i]? = ys[i]? := by
    rw [← List.getElem?_take_of_lt hi, h, List.getElem?_take_of_lt hi]
  rw [getIdx, getIdx, getOr, getOr, hget]

/-- A write to an array, checked in both languages. -/
def setIdx {α : Type} (xs : List α) (i : ℕ) (a : α) : Checked (List α) := do
  require (decide (i < xs.length)) .indexOutOfBounds
  pure (xs.set i a)

theorem setIdx_of_lt {α : Type} {xs : List α} {i : ℕ} (h : i < xs.length) (a : α) :
    setIdx xs i a = .ok (xs.set i a) := by
  rw [setIdx, decide_eq_true h, require_true]
  rfl

/-- The operations in which the ports differ. Scalars are words modulo the group order. -/
structure Backend where
  /-- The arithmetic of the sponge. -/
  ops : WordOps
  /-- A squeezed base-field element as a scalar. -/
  toFr : ℕ → ℕ
  add : ℕ → ℕ → ℕ
  mul : ℕ → ℕ → ℕ
  sub : ℕ → ℕ → Checked ℕ
  /-- `1 - x`, as the multilinear polynomials use it. -/
  oneMinus : ℕ → Checked ℕ
  neg : ℕ → Checked ℕ
  inv : ℕ → Checked ℕ
  ecAdd : G1Point → G1Point → Checked G1Point
  ecMul : G1Point → ℕ → Checked G1Point
  /-- `1 << n` in the port's word size. -/
  shl1 : ℕ → ℕ
  /-- Bit `n` of `w`, by a shift in the port's word size. -/
  bitAt : ℕ → ℕ → ℕ
  /-- Whether a tensor over `n` coordinates can be indexed. -/
  tensorFits : ℕ → Bool
  /-- The array that holds the scanned claim points, given how many the description announces. -/
  fillClaims : ℕ → List (List ℕ) → Checked (List (List ℕ))
  /-- The length checks before an evaluation proof: number of rows, of row coefficients, of
  opened values and of column coefficients. -/
  checkEvaluation : ℕ → ℕ → ℕ → ℕ → Checked Unit

variable (b : Backend)

/-- Squeeze one challenge. -/
def challenge (s : Sponge) : ℕ × Sponge :=
  let t := squeeze b.ops s
  (b.toFr t.1, t.2)

/-- Squeeze `n` challenges in order. -/
def challenges : ℕ → Sponge → List ℕ × Sponge
  | 0, s => ([], s)
  | n + 1, s =>
    let c := challenge b s
    let cs := challenges n c.2
    (c.1 :: cs.1, cs.2)

def absorbPoint (s : Sponge) (p : G1Point) : Sponge := absorb b.ops (absorb b.ops s p.x) p.y

def absorbPoints (s : Sponge) (ps : List G1Point) : Sponge := ps.foldl (absorbPoint b) s

def absorbWords (s : Sponge) (ws : List ℕ) : Sponge := ws.foldl (absorb b.ops) s

/-- `absorb_messages_and_derive_bindings`: each message is absorbed and one binding squeezed
after it. -/
def absorbMessagesAndDeriveBindings : List G1Point → Sponge → List ℕ × Sponge
  | [], s => ([], s)
  | m :: ms, s =>
    let c := challenge b (absorbPoint b s m)
    let cs := absorbMessagesAndDeriveBindings ms c.2
    (c.1 :: cs.1, cs.2)

@[simp] theorem length_challenges (n : ℕ) (s : Sponge) : (challenges b n s).1.length = n := by
  induction n generalizing s with
  | zero => rfl
  | succ n ih => simp [challenges, ih]

theorem forall_mem_challenges {P : ℕ → Prop} (h : ∀ s, P (challenge b s).1) (n : ℕ) (s : Sponge) :
    ∀ c ∈ (challenges b n s).1, P c := by
  induction n generalizing s with
  | zero => exact fun c hc => absurd hc List.not_mem_nil
  | succ n ih =>
    rintro c (_ | ⟨_, hc⟩)
    · exact h s
    · exact ih _ c hc

@[simp] theorem length_bindings (ms : List G1Point) (s : Sponge) :
    (absorbMessagesAndDeriveBindings b ms s).1.length = ms.length := by
  induction ms generalizing s with
  | nil => rfl
  | cons m ms ih => simp [absorbMessagesAndDeriveBindings, ih]

end WorldZk.VerifierBackend
