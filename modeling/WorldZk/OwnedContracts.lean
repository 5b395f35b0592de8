import Mathlib.Algebra.Group.Nat.Defs
import Mathlib.Data.Nat.Notation
import WorldZk.CheckedRuns

/-!
# Calls, owners and pauses

What the contracts of the prover market share: the context of a call, the checked arithmetic of
`uint256`, and `Ownable2Step` with `Pausable`.
-/

namespace WorldZk.OwnedContracts

open CheckedRuns

/-- The caller, the value and the block of a call. A block is later than its parent, so that its
timestamp is not zero. -/
structure CallContext where
  sender : ℕ
  value : ℕ
  timestamp : ℕ
  blockNumber : ℕ
  timestamp_pos : 0 < timestamp
deriving DecidableEq

theorem timestamp_1000 : 0 < 1000 := by decide

def UINT256 : ℕ := 2 ^ 256

section Arithmetic

variable {ε : Type} {e : ε} {a b r : ℕ}

@[irreducible] def checkedAdd (e : ε) (a b : ℕ) : Except ε ℕ :=
  if a + b < UINT256 then .ok (a + b) else .error e

@[irreducible] def checkedSub (e : ε) (a b : ℕ) : Except ε ℕ :=
  if b ≤ a then .ok (a - b) else .error e

@[irreducible] def checkedMul (e : ε) (a b : ℕ) : Except ε ℕ :=
  if a * b < UINT256 then .ok (a * b) else .error e

theorem checkedAdd_eq_ok : checkedAdd e a b = .ok r ↔ a + b < UINT256 ∧ a + b = r := by
  unfold checkedAdd
  split
  case isTrue h => simp [h]
  case isFalse h => simp [h]

theorem checkedSub_eq_ok : checkedSub e a b = .ok r ↔ b ≤ a ∧ a - b = r := by
  unfold checkedSub
  split
  case isTrue h => simp [h]
  case isFalse h => simp [h]

theorem checkedMul_eq_ok : checkedMul e a b = .ok r ↔ a * b < UINT256 ∧ a * b = r := by
  unfold checkedMul
  split
  case isTrue h => simp [h]
  case isFalse h => simp [h]

end Arithmetic

/-! ## Owner and pause -/

structure Administration where
  owner : ℕ
  pendingOwner : ℕ
  paused : Bool
deriving DecidableEq, Repr

inductive AdminOperation
  | transferOwnership (newOwner : ℕ)
  | acceptOwnership
  | renounceOwnership
  | pause
  | unpause
deriving DecidableEq, Repr

inductive AdminError
  | ownableUnauthorizedAccount
  | enforcedPause
  | expectedPause
deriving DecidableEq, Repr

def onlyOwner (a : Administration) (sender : ℕ) : Except AdminError Unit :=
  require (sender == a.owner) .ownableUnauthorizedAccount

def whenNotPaused (a : Administration) : Except AdminError Unit :=
  require (!a.paused) .enforcedPause

def administer (a : Administration) (sender : ℕ) : AdminOperation → Except AdminError Administration
  | .transferOwnership newOwner => do
    onlyOwner a sender
    pure { a with pendingOwner := newOwner }
  | .acceptOwnership => do
    require (sender == a.pendingOwner) .ownableUnauthorizedAccount
    pure { a with owner := sender, pendingOwner := 0 }
  | .renounceOwnership => do
    onlyOwner a sender
    pure { a with owner := 0, pendingOwner := 0 }
  | .pause => do
    onlyOwner a sender
    whenNotPaused a
    pure { a with paused := true }
  | .unpause => do
    onlyOwner a sender
    require a.paused .expectedPause
    pure { a with paused := false }

theorem onlyOwner_eq_ok {a : Administration} {sender : ℕ} {u : Unit} :
    onlyOwner a sender = .ok u ↔ sender = a.owner := by
  rw [onlyOwner, require_eq_ok, beq_iff_eq]

end WorldZk.OwnedContracts
