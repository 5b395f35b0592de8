import WorldZk.FiniteTotals
import WorldZk.ProverReputation
import Mathlib.Algebra.BigOperators.Group.Finset.Basic
import Mathlib.Data.Fintype.BigOperators

/-!
# The bookkeeping of reputations

The counters of the tiers count the registered provers of each tier, so that a counter is never
zero when a prover leaves its tier. Scores stay in their range, the jobs of a prover add up, and
the slashes of a prover keep their distance.
-/

namespace WorldZk.ReputationBookkeeping

open CheckedRuns OwnedContracts ProverReputation FiniteTotals
open Function (update)

/-! ## The invariant -/

/-- The prover is registered, with the given tier. -/
def InTier (tier : Tier) (rep : Reputation) : Prop := rep.isRegistered = true ∧ rep.tier = tier

instance (tier : Tier) : DecidablePred (InTier tier) := fun _ => inferInstanceAs (Decidable (_ ∧ _))

def Registered (rep : Reputation) : Prop := rep.isRegistered = true

instance : DecidablePred Registered := fun _ => inferInstanceAs (Decidable (_ = _))

/-- What holds of the reputation of one prover. -/
structure ReputationOk (rep : Reputation) : Prop where
  score : rep.score ≤ MAX_SCORE
  jobs : rep.totalJobs = rep.completedJobs + rep.failedJobs + rep.abandonedJobs

/-- Successive slashes are at least the smallest cooldown apart. -/
def Spaced (history : List SlashEvent) : Prop :=
  history.IsChain fun e e' => e.timestamp + MIN_COOLDOWN ≤ e'.timestamp

structure Bookkeeping (c : ReputationStorage) : Prop where
  finite : {prover | Registered (c.reputations prover)}.Finite
  total : c.totalProvers = {prover | Registered (c.reputations prover)}.ncard
  tiers : ∀ tier, c.proversByTier tier = {prover | InTier tier (c.reputations prover)}.ncard
  reputations : ∀ prover, ReputationOk (c.reputations prover)
  spaced : ∀ prover, Spaced (c.slashHistory prover)
  cooldown : MIN_COOLDOWN ≤ c.slashCooldown

variable {c c' : ReputationStorage} {ctx : CallContext} {prover : ℕ} {rep : Reputation}

theorem Bookkeeping.finite_inTier (h : Bookkeeping c) (tier : Tier) :
    {prover | InTier tier (c.reputations prover)}.Finite :=
  h.finite.subset fun _ hprover => hprover.1

theorem Bookkeeping.tier_pos (h : Bookkeeping c)
    (hregistered : (c.reputations prover).isRegistered = true) :
    0 < c.proversByTier (c.reputations prover).tier := by
  rw [h.tiers, Set.ncard_pos (h.finite_inTier _)]
  exact ⟨prover, hregistered, rfl⟩

theorem Bookkeeping.sum_tiers (h : Bookkeeping c) :
    ∑ tier, c.proversByTier tier = c.totalProvers := by
  classical
  have hcount : ∀ tier, c.proversByTier tier =
      {a ∈ h.finite.toFinset | (c.reputations a).tier = tier}.card := by
    intro tier
    rw [h.tiers tier, Set.ncard_eq_toFinset_card _ (h.finite_inTier tier)]
    congr 1
    ext a
    simp [InTier, Registered]
  rw [h.total, Set.ncard_eq_toFinset_card _ h.finite,
    Finset.card_eq_sum_card_fiberwise fun a _ => Finset.mem_univ (c.reputations a).tier]
  exact Finset.sum_congr rfl fun tier _ => hcount tier

/-! ## Changes of one prover -/

theorem inTier_update (h : Bookkeeping c) (prover : ℕ) (rep : Reputation) (tier : Tier) :
    {a | InTier tier (update c.reputations prover rep a)}.ncard +
        (if InTier tier (c.reputations prover) then 1 else 0) =
      c.proversByTier tier + if InTier tier rep then 1 else 0 := by
  rw [h.tiers tier]
  exact ncard_update_add (h.finite_inTier tier) prover rep

theorem registered_update (h : Bookkeeping c) (prover : ℕ) (rep : Reputation) :
    {a | Registered (update c.reputations prover rep a)}.Finite ∧
      {a | Registered (update c.reputations prover rep a)}.ncard +
          (if Registered (c.reputations prover) then 1 else 0) =
        c.totalProvers + if Registered rep then 1 else 0 := by
  rw [h.total]
  exact ⟨finite_update h.finite prover rep, ncard_update_add h.finite prover rep⟩

theorem reputationOk_update (h : Bookkeeping c) (hrep : ReputationOk rep) (a : ℕ) :
    ReputationOk (update c.reputations prover rep a) := by
  by_cases ha : a = prover
  · rw [ha, Function.update_self]
    exact hrep
  · rw [Function.update_of_ne ha]
    exact h.reputations a

/-- A registered prover is written whose tier stays. -/
theorem Bookkeeping.write (h : Bookkeeping c)
    (hregistered : Registered (c.reputations prover))
    (hreputations : c'.reputations = update c.reputations prover rep)
    (hkept : Registered rep) (htier : rep.tier = (c.reputations prover).tier)
    (hrep : ReputationOk rep) (htotal : c'.totalProvers = c.totalProvers)
    (htiers : c'.proversByTier = c.proversByTier)
    (hspaced : ∀ a, Spaced (c'.slashHistory a)) (hcooldown : c'.slashCooldown = c.slashCooldown) :
    Bookkeeping c' := by
  obtain ⟨hfinite, hcount⟩ := registered_update h prover rep
  rw [if_pos hregistered, if_pos hkept] at hcount
  refine ⟨?_, ?_, fun tier => ?_, fun a => ?_, hspaced, hcooldown ▸ h.cooldown⟩
  · rw [hreputations]
    exact hfinite
  · rw [hreputations, htotal]
    omega
  · have htierCount := inTier_update h prover rep tier
    have hsame : InTier tier (c.reputations prover) ↔ InTier tier rep := by
      rw [InTier, InTier, htier]
      exact and_congr_left fun _ => iff_of_true hregistered hkept
    rw [hreputations, htiers]
    simp only [hsame] at htierCount
    omega
  · rw [hreputations]
    exact reputationOk_update h hrep a

theorem moveTier_eq_ok {proversByTier proversByTier' : Tier → ℕ} {oldTier newTier : Tier}
    (hne : oldTier ≠ newTier) (hmove : moveTier proversByTier oldTier newTier = .ok proversByTier')
    (tier : Tier) :
    proversByTier' tier + (if oldTier = tier then 1 else 0) =
      proversByTier tier + if newTier = tier then 1 else 0 := by
  simp only [moveTier, bind_eq_ok, checkedSub_eq_ok, checkedAdd_eq_ok, pure_eq_ok] at hmove
  obtain ⟨fewer, ⟨hle, rfl⟩, more, ⟨-, rfl⟩, rfl⟩ := hmove
  rw [Function.update_of_ne hne.symm]
  by_cases hnew : newTier = tier
  · subst hnew
    rw [Function.update_self, if_neg hne, if_pos rfl]
  · rw [Function.update_of_ne (Ne.symm hnew), if_neg hnew]
    by_cases hold : oldTier = tier
    · subst hold
      rw [Function.update_self, if_pos rfl]
      omega
    · rw [Function.update_of_ne (Ne.symm hold), if_neg hold]

theorem Bookkeeping.updateTier (h : Bookkeeping c)
    (hregistered : Registered (c.reputations prover))
    (hc : ProverReputation.updateTier c prover = .ok c') : Bookkeeping c' := by
  unfold ProverReputation.updateTier at hc
  dsimp only at hc
  split at hc
  case isTrue =>
    obtain rfl := pure_eq_ok.mp hc
    exact h
  case isFalse hne =>
    simp only [bind_eq_ok, pure_eq_ok] at hc
    obtain ⟨proversByTier, hmove, rfl⟩ := hc
    set newTier := calculateTier (c.reputations prover).score
    set moved : Reputation := { c.reputations prover with tier := newTier } with hmoved
    obtain ⟨hfinite, hcount⟩ := registered_update h prover moved
    have hkept : Registered moved := hregistered
    rw [if_pos hregistered, if_pos hkept] at hcount
    have hold := h.reputations prover
    refine ⟨hfinite, ?_, fun tier => ?_, reputationOk_update h ⟨hold.score, hold.jobs⟩, h.spaced,
      h.cooldown⟩
    · change c.totalProvers = {a | Registered (update c.reputations prover moved a)}.ncard
      omega
    · change proversByTier tier = {a | InTier tier (update c.reputations prover moved a)}.ncard
      have htierCount := inTier_update h prover moved tier
      have htierMove := moveTier_eq_ok hne hmove tier
      have hin : InTier tier (c.reputations prover) ↔ (c.reputations prover).tier = tier :=
        and_iff_right hregistered
      have hin' : InTier tier moved ↔ newTier = tier := and_iff_right hkept
      simp only [hin, hin'] at htierCount
      omega

theorem boundScore_le (score : ℕ) : boundScore score ≤ MAX_SCORE := by
  unfold boundScore
  split <;> omega

theorem increment64_eq_ok {n m : ℕ} (h : increment64 n = .ok m) : m = n + 1 := by
  unfold increment64 at h
  split at h
  · exact (Except.ok.inj h).symm
  · cases h

/-! ## The functions -/

theorem checkRegistered_eq_ok {u : Unit} :
    checkRegistered c prover = .ok u ↔ Registered (c.reputations prover) := by
  rw [checkRegistered, require_eq_ok, Registered]

/-- A registered prover is written and its tier follows. -/
theorem Bookkeeping.rescore {rep : Reputation} (h : Bookkeeping c)
    (hregistered : Registered (c.reputations prover))
    (hc : ProverReputation.updateTier (setReputation c prover rep) prover = .ok c')
    (hkept : rep.isRegistered = (c.reputations prover).isRegistered)
    (htier : rep.tier = (c.reputations prover).tier) (hrep : ReputationOk rep) :
    Bookkeeping c' := by
  have hkept' : Registered rep := hkept.trans hregistered
  have hwritten : Bookkeeping (setReputation c prover rep) :=
    h.write hregistered rfl hkept' htier hrep rfl rfl h.spaced rfl
  refine hwritten.updateTier ?_ hc
  change Registered (update c.reputations prover rep prover)
  rw [Function.update_self]
  exact hkept'

theorem register_bookkeeping (h : Bookkeeping c) (hc : register c ctx = .ok c') :
    Bookkeeping c' := by
  simp only [register, bind_eq_ok, require_eq_ok, Bool.not_eq_true', checkedAdd_eq_ok,
    pure_eq_ok] at hc
  obtain ⟨_, -, _, hnew, _, -, total, ⟨-, rfl⟩, unranked, ⟨-, rfl⟩, rfl⟩ := hc
  set rep : Reputation := ⟨0, 0, 0, 0, 0, 0, 0, uint64 ctx.timestamp, INITIAL_SCORE, .unranked, true,
    false, false⟩
  obtain ⟨hfinite, hcount⟩ := registered_update h ctx.sender rep
  have hunregistered : ¬Registered (c.reputations ctx.sender) := by
    rw [Registered, hnew]
    exact Bool.false_ne_true
  have hregistered : Registered rep := rfl
  rw [if_neg hunregistered, if_pos hregistered] at hcount
  refine ⟨hfinite, hcount.symm, fun tier => ?_, reputationOk_update h ⟨?_, rfl⟩, h.spaced,
    h.cooldown⟩
  · change update c.proversByTier .unranked (c.proversByTier .unranked + 1) tier =
      {a | InTier tier (update c.reputations ctx.sender rep a)}.ncard
    have htierCount := inTier_update h ctx.sender rep tier
    have hout : ¬InTier tier (c.reputations ctx.sender) := fun hin => hunregistered hin.1
    have hin : InTier tier rep ↔ Tier.unranked = tier := and_iff_right hregistered
    rw [if_neg hout] at htierCount
    simp only [hin] at htierCount
    by_cases htier : Tier.unranked = tier
    · subst htier
      rw [Function.update_self]
      rw [if_pos rfl] at htierCount
      omega
    · rw [Function.update_of_ne (Ne.symm htier)]
      rw [if_neg htier] at htierCount
      omega
  · change INITIAL_SCORE ≤ MAX_SCORE
    decide

theorem recordSuccess_bookkeeping {proofTimeMs earnings : ℕ} (h : Bookkeeping c)
    (hc : recordSuccess c ctx prover proofTimeMs earnings = .ok c') : Bookkeeping c' := by
  simp only [recordSuccess, bind_eq_ok, checkRegistered_eq_ok] at hc
  obtain ⟨_, -, _, hregistered, _, -, totalJobs, htotal, completedJobs, hcompleted, _, -, _, -,
    hc⟩ := hc
  refine h.rescore hregistered hc rfl rfl ⟨boundScore_le _, ?_⟩
  have hjobs := (h.reputations prover).jobs
  have htotal := increment64_eq_ok htotal
  have hcompleted := increment64_eq_ok hcompleted
  dsimp only
  omega

theorem recordFailure_bookkeeping {reason : List UInt8} (h : Bookkeeping c)
    (hc : recordFailure c ctx prover reason = .ok c') : Bookkeeping c' := by
  simp only [recordFailure, bind_eq_ok, checkRegistered_eq_ok] at hc
  obtain ⟨_, -, _, -, _, hregistered, _, -, totalJobs, htotal, failedJobs, hfailed, hc⟩ := hc
  refine h.rescore hregistered hc rfl rfl ⟨boundScore_le _, ?_⟩
  have hjobs := (h.reputations prover).jobs
  have htotal := increment64_eq_ok htotal
  have hfailed := increment64_eq_ok hfailed
  dsimp only
  omega

theorem recordAbandon_bookkeeping (h : Bookkeeping c)
    (hc : recordAbandon c ctx prover = .ok c') : Bookkeeping c' := by
  simp only [recordAbandon, bind_eq_ok, checkRegistered_eq_ok] at hc
  obtain ⟨_, -, _, hregistered, _, -, totalJobs, htotal, abandonedJobs, habandoned, hc⟩ := hc
  refine h.rescore hregistered hc rfl rfl ⟨boundScore_le _, ?_⟩
  have hjobs := (h.reputations prover).jobs
  have htotal := increment64_eq_ok htotal
  have habandoned := increment64_eq_ok habandoned
  dsimp only
  omega

/-- A slash is recorded after the cooldown, which is never below the smallest one. -/
theorem spaced_append {e : SlashEvent} (h : Bookkeeping c)
    (hcheck : checkCooldown c ctx prover = .ok ()) (he : e.timestamp = ctx.timestamp) :
    Spaced (c.slashHistory prover ++ [e]) := by
  unfold Spaced
  rw [List.isChain_append]
  refine ⟨h.spaced prover, List.isChain_singleton e, fun last hlast e' he' => ?_⟩
  obtain rfl : e = e' := Option.some.inj he'
  unfold checkCooldown at hcheck
  rw [Option.mem_def.mp hlast] at hcheck
  simp only [bind_eq_ok, checkedAdd_eq_ok, require_eq_ok, decide_eq_true_eq] at hcheck
  obtain ⟨free, ⟨-, rfl⟩, hfree⟩ := hcheck
  have := h.cooldown
  omega

theorem banAtZero_bookkeeping (h : Bookkeeping c)
    (hregistered : Registered (c.reputations prover)) : Bookkeeping (banAtZero c prover) := by
  unfold banAtZero
  split
  · have hold := h.reputations prover
    exact h.write hregistered rfl hregistered rfl ⟨hold.score, hold.jobs⟩ rfl rfl h.spaced rfl
  · exact h

theorem registered_of_updateTier (hregistered : Registered (c.reputations prover))
    (hc : ProverReputation.updateTier c prover = .ok c') :
    Registered (c'.reputations prover) := by
  unfold ProverReputation.updateTier at hc
  dsimp only at hc
  split at hc
  · obtain rfl := pure_eq_ok.mp hc
    exact hregistered
  · simp only [bind_eq_ok, pure_eq_ok] at hc
    obtain ⟨_, -, rfl⟩ := hc
    change Registered (update c.reputations prover _ prover)
    rw [Function.update_self]
    exact hregistered

theorem slash_bookkeeping {reason : List UInt8} {penaltyBps : ℕ} (h : Bookkeeping c)
    (hc : slash c ctx prover reason penaltyBps = .ok c') : Bookkeeping c' := by
  simp only [slash, bind_eq_ok, checkRegistered_eq_ok, pure_eq_ok] at hc
  obtain ⟨_, -, _, -, _, hregistered, _, -, _, hcooldown, scaled, -, slashed, hslashed, rfl⟩ := hc
  set rep : Reputation := { c.reputations prover with
    isSlashed := true
    lastUpdateAt := uint64 ctx.timestamp
    score := penalize (c.reputations prover).score (scaled / 10000) }
  set e : SlashEvent := ⟨ctx.timestamp, reason, penaltyBps, ctx.sender⟩
  set recorded : ReputationStorage := { setReputation c prover rep with
    slashHistory := update c.slashHistory prover (c.slashHistory prover ++ [e]) }
  have hspaced : ∀ a, Spaced (recorded.slashHistory a) := by
    intro a
    change Spaced (update c.slashHistory prover _ a)
    by_cases ha : a = prover
    · rw [ha, Function.update_self]
      exact spaced_append h hcooldown rfl
    · rw [Function.update_of_ne ha]
      exact h.spaced a
  have hrecorded : Bookkeeping recorded :=
    h.write hregistered rfl hregistered rfl ⟨boundScore_le _, (h.reputations prover).jobs⟩ rfl rfl
      hspaced rfl
  have hkept : Registered (recorded.reputations prover) := by
    change Registered (update c.reputations prover rep prover)
    rw [Function.update_self]
    exact hregistered
  exact banAtZero_bookkeeping (hrecorded.updateTier hkept hslashed)
    (registered_of_updateTier hkept hslashed)

theorem setBanned_bookkeeping {isBanned : Bool} (h : Bookkeeping c)
    (hc : setBanned c ctx prover isBanned = .ok c') : Bookkeeping c' := by
  simp only [setBanned, bind_eq_ok, checkRegistered_eq_ok, pure_eq_ok] at hc
  obtain ⟨_, hregistered, rfl⟩ := hc
  have hold := h.reputations prover
  exact h.write hregistered rfl hregistered rfl ⟨hold.score, hold.jobs⟩ rfl rfl h.spaced rfl

/-! ## Runs -/

theorem dispatch_bookkeeping {operation : Operation} (h : Bookkeeping c)
    (hc : dispatch c ctx operation = .ok c') : Bookkeeping c' := by
  cases operation
  case register => exact register_bookkeeping h hc
  case recordSuccess => exact recordSuccess_bookkeeping h hc
  case recordFailure => exact recordFailure_bookkeeping h hc
  case recordAbandon => exact recordAbandon_bookkeeping h hc
  case slash => exact slash_bookkeeping h hc
  case ban =>
    simp only [dispatch, ban, bind_eq_ok] at hc
    obtain ⟨_, -, _, -, hc⟩ := hc
    exact setBanned_bookkeeping h hc
  case unban =>
    simp only [dispatch, unban, bind_eq_ok] at hc
    obtain ⟨_, -, hc⟩ := hc
    exact setBanned_bookkeeping h hc
  all_goals
    simp only [dispatch, setReporter, setSlashCooldown, administerReputation, bind_eq_ok,
      require_eq_ok, decide_eq_true_eq, pure_eq_ok] at hc
  case setSlashCooldown =>
    obtain ⟨_, -, _, hbounds, rfl⟩ := hc
    exact ⟨h.finite, h.total, h.tiers, h.reputations, h.spaced, hbounds.1⟩
  all_goals
    obtain ⟨_, -, rfl⟩ := hc
    exact ⟨h.finite, h.total, h.tiers, h.reputations, h.spaced, h.cooldown⟩

theorem step_bookkeeping (h : Bookkeeping c) (tx : ReputationMessage) :
    Bookkeeping (step c tx) := by
  unfold step
  cases hexecute : execute c tx with
  | error e => exact h
  | ok c' =>
    rw [execute, bind_eq_ok] at hexecute
    obtain ⟨_, -, hc⟩ := hexecute
    exact dispatch_bookkeeping h hc

theorem run_bookkeeping (h : Bookkeeping c) (txs : List ReputationMessage) :
    Bookkeeping (run c txs) := by
  induction txs generalizing c with
  | nil => exact h
  | cons tx txs ih => exact ih (step_bookkeeping h tx)

theorem construct_bookkeeping (deployer : ℕ) : Bookkeeping (construct deployer) := by
  have hnone : {prover | Registered ((construct deployer).reputations prover)} = ∅ :=
    Set.eq_empty_of_forall_notMem fun _ h => Bool.false_ne_true h
  refine ⟨?_, ?_, fun tier => ?_, fun _ => ⟨Nat.zero_le _, rfl⟩, fun _ => List.isChain_nil, ?_⟩
  · rw [hnone]
    exact Set.finite_empty
  · rw [hnone, Set.ncard_empty]
    rfl
  · have hnoneTier : {prover | InTier tier ((construct deployer).reputations prover)} = ∅ :=
      Set.eq_empty_of_forall_notMem fun _ h => Bool.false_ne_true h.1
    rw [hnoneTier, Set.ncard_empty]
    rfl
  · change MIN_COOLDOWN ≤ 60 * 60
    decide

/-- After every sequence of calls the counters of the tiers are the numbers of registered provers
with each tier, they add up to the number of all of them and are positive for the tier of a
registered prover, the scores are in their range, the jobs of every prover add up, and successive
slashes of a prover are at least the smallest cooldown apart. -/
theorem reputation_bookkeeping (deployer : ℕ) (txs : List ReputationMessage) :
    let c := run (construct deployer) txs
    {prover | (c.reputations prover).isRegistered = true}.Finite ∧
      (∀ tier, c.proversByTier tier =
        {prover | (c.reputations prover).isRegistered = true ∧
          (c.reputations prover).tier = tier}.ncard) ∧
      ∑ tier, c.proversByTier tier = c.totalProvers ∧
      (∀ prover, (c.reputations prover).isRegistered = true →
        0 < c.proversByTier (c.reputations prover).tier) ∧
      (∀ prover, (c.reputations prover).score ≤ 10000) ∧
      (∀ prover, (c.reputations prover).totalJobs = (c.reputations prover).completedJobs +
        (c.reputations prover).failedJobs + (c.reputations prover).abandonedJobs) ∧
      ∀ prover i e e', (c.slashHistory prover)[i]? = some e →
        (c.slashHistory prover)[i + 1]? = some e' → e.timestamp + MIN_COOLDOWN ≤ e'.timestamp := by
  intro c
  have h : Bookkeeping c := run_bookkeeping (construct_bookkeeping deployer) txs
  refine ⟨h.finite, h.tiers, h.sum_tiers, fun prover => h.tier_pos,
    fun prover => (h.reputations prover).score, fun prover => (h.reputations prover).jobs,
    fun prover i e e' he he' => ?_⟩
  obtain ⟨hi, rfl⟩ := List.getElem?_eq_some_iff.mp he
  obtain ⟨hi', rfl⟩ := List.getElem?_eq_some_iff.mp he'
  exact (h.spaced prover).getElem i hi'

end WorldZk.ReputationBookkeeping
