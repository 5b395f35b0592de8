import WorldZk.EngineSettlement

/-!
# Decay of a tip

A payout falls linearly to half of the tip and stays there. Both pieces are rounded down, the
protocol's fee is rounded down once more, and nothing overflows for a tip below `2 ^ 128`.
-/

namespace WorldZk.TipDecay

open CheckedRuns ReentrantCalls OwnedContracts ExecutionEngine EngineAccounts EngineSettlement

variable {maxTip elapsed elapsed' timestamp payout protocolFeeBps : ℕ} {req : ExecutionRequest}

/-! ## Payouts -/

/-- What is left of a tip after some seconds. -/
def decayedTip (maxTip elapsed : ℕ) : ℕ :=
  if TIP_DECAY_PERIOD ≤ elapsed then maxTip / 2
  else maxTip - maxTip * elapsed / (TIP_DECAY_PERIOD * 2)

theorem decay_le_half (maxTip : ℕ) (h : elapsed ≤ TIP_DECAY_PERIOD) :
    maxTip * elapsed / (TIP_DECAY_PERIOD * 2) ≤ maxTip / 2 := by
  have hperiod : maxTip * TIP_DECAY_PERIOD / (TIP_DECAY_PERIOD * 2) = maxTip / 2 := by
    rw [Nat.mul_comm maxTip]
    exact Nat.mul_div_mul_left maxTip 2 (by decide)
  rw [← hperiod]
  exact Nat.div_le_div_right (Nat.mul_le_mul_left maxTip h)

theorem decayedTip_le : decayedTip maxTip elapsed ≤ maxTip := by
  rw [decayedTip]
  split
  · exact Nat.div_le_self maxTip 2
  · exact Nat.sub_le _ _

theorem half_le_decayedTip : maxTip / 2 ≤ decayedTip maxTip elapsed := by
  rw [decayedTip]
  split
  · exact le_rfl
  case isFalse h =>
    have hdecay := decay_le_half maxTip (Nat.le_of_not_le h)
    omega

/-- At the joint the half that is rounded down is no more than what the linear piece leaves. -/
theorem decayedTip_anti (h : elapsed ≤ elapsed') :
    decayedTip maxTip elapsed' ≤ decayedTip maxTip elapsed := by
  by_cases hlate : TIP_DECAY_PERIOD ≤ elapsed'
  · have hhalf : decayedTip maxTip elapsed' = maxTip / 2 := if_pos hlate
    rw [hhalf]
    exact half_le_decayedTip
  · have hearly : ¬TIP_DECAY_PERIOD ≤ elapsed := fun hle => hlate (hle.trans h)
    rw [decayedTip, decayedTip, if_neg hlate, if_neg hearly]
    exact Nat.sub_le_sub_left (Nat.div_le_div_right (Nat.mul_le_mul_left maxTip h)) maxTip

theorem calculatePayout_eq (htip : req.maxTip < 2 ^ 128) (hcreated : req.createdAt ≤ timestamp) :
    calculatePayout req timestamp = .ok (decayedTip req.maxTip (timestamp - req.createdAt)) := by
  have hperiod : TIP_DECAY_PERIOD = 1800 := rfl
  simp only [calculatePayout, bind_eq_ok, checkedSub_eq_ok]
  refine ⟨timestamp - req.createdAt, ⟨hcreated, rfl⟩, ?_⟩
  rw [decayedTip]
  split
  case isTrue => rfl
  case isFalse hearly =>
    simp only [bind_eq_ok, checkedMul_eq_ok, checkedSub_eq_ok]
    have hdecay := decay_le_half req.maxTip (Nat.le_of_not_le hearly)
    refine ⟨_, ⟨?_, rfl⟩, hdecay.trans (Nat.div_le_self _ _), rfl⟩
    have hbound : req.maxTip * (timestamp - req.createdAt) ≤ 2 ^ 128 * 1800 :=
      Nat.mul_le_mul htip.le (by omega)
    exact hbound.trans_lt (by decide)

/-! ## Shares -/

/-- The fee and the share of the prover make up the payout, and neither is out of range. -/
def SplitsExactly (protocolFeeBps payout : ℕ) : Prop :=
  ∃ share fee, splitPayout protocolFeeBps payout = .ok (share, fee) ∧ fee + share = payout

theorem splitsExactly (hfee : protocolFeeBps ≤ MAX_FEE_BPS) (hpayout : payout < 2 ^ 128) :
    SplitsExactly protocolFeeBps payout := by
  have hword : UINT256 = 2 ^ 256 := rfl
  have hscaled : payout * protocolFeeBps ≤ payout * 1000 := Nat.mul_le_mul_left payout hfee
  have hsplit : splitPayout protocolFeeBps payout =
      .ok (payout - payout * protocolFeeBps / 10000, payout * protocolFeeBps / 10000) := by
    simp only [splitPayout, bind_eq_ok, checkedMul_eq_ok, checkedSub_eq_ok, pure_eq_ok]
    exact ⟨_, ⟨by omega, rfl⟩, _, ⟨by omega, rfl⟩, rfl⟩
  exact ⟨_, _, hsplit, by omega⟩

theorem setProtocolFee_eq_ok {c c' : EngineStorage} {ctx : CallContext} {feeBps : ℕ}
    (h : setProtocolFee c ctx feeBps = .ok c') :
    feeBps ≤ MAX_FEE_BPS ∧ c' = { c with protocolFeeBps := feeBps } := by
  simp only [setProtocolFee, bind_eq_ok, require_eq_ok, decide_eq_true_eq, pure_eq_ok] at h
  obtain ⟨_, -, _, hfee, rfl⟩ := h
  exact ⟨hfee, rfl⟩

/-! ## Requests of the engine -/

variable {s₀ s : EngineState} {admin registry verifier feeRecipient requestId t₁ t₂ : ℕ}

/-- For every request with a tip below `2 ^ 128` and two times after its creation: the payouts are
computed without an overflow, the later one is no larger, both lie between half of the tip and the
tip, and every admissible fee and the rest make up the payout. -/
theorem payout_decays (hconstruct : construct admin registry verifier feeRecipient = .ok s₀)
    (hs : Reachable engineBody s₀ s) (htip : (s.storage.requests requestId).tip < 2 ^ 128)
    (hcreated : (s.storage.requests requestId).createdAt ≤ t₁) (hle : t₁ ≤ t₂) :
    ∃ payout₁ payout₂,
      calculatePayout (s.storage.requests requestId) t₁ = .ok payout₁ ∧
      calculatePayout (s.storage.requests requestId) t₂ = .ok payout₂ ∧
      payout₂ ≤ payout₁ ∧
      (∀ payout ∈ [payout₁, payout₂],
        (s.storage.requests requestId).maxTip / 2 ≤ payout ∧
        payout ≤ (s.storage.requests requestId).maxTip ∧
        SplitsExactly s.storage.protocolFeeBps payout ∧
        ∀ c ctx feeBps c', setProtocolFee c ctx feeBps = .ok c' →
          SplitsExactly c'.protocolFeeBps payout) := by
  have h : EngineInvariant s := guarantees.reachable (construct_invariant hconstruct).1 hs
  set req := s.storage.requests requestId
  have hmax : req.maxTip < 2 ^ 128 := by rwa [(h.request requestId).maxTip]
  refine ⟨_, _, calculatePayout_eq hmax hcreated, calculatePayout_eq hmax (hcreated.trans hle),
    decayedTip_anti (Nat.sub_le_sub_right hle _), ?_⟩
  intro payout hpayout
  obtain ⟨elapsed, rfl⟩ : ∃ elapsed, payout = decayedTip req.maxTip elapsed := by
    rw [List.mem_pair] at hpayout
    exact hpayout.elim (fun h => ⟨_, h⟩) fun h => ⟨_, h⟩
  have hsmall : decayedTip req.maxTip elapsed < 2 ^ 128 := decayedTip_le.trans_lt hmax
  refine ⟨half_le_decayedTip, decayedTip_le, splitsExactly h.fee hsmall, ?_⟩
  intro c ctx feeBps c' hset
  obtain ⟨hfee, rfl⟩ := setProtocolFee_eq_ok hset
  exact splitsExactly hfee hsmall

/-- A tip of one ether, five minutes and half an hour after the request. -/
theorem payout_decays_five_minutes :
    ∃ s₀ s payout₁ payout₂, construct 10 20 30 40 = .ok s₀ ∧ Reachable engineBody s₀ s ∧
      (s.storage.requests 1).tip = 10 ^ 18 ∧ (s.storage.requests 1).createdAt = 1001 ∧
      calculatePayout (s.storage.requests 1) 1301 = .ok payout₁ ∧
      calculatePayout (s.storage.requests 1) 2801 = .ok payout₂ ∧ payout₂ ≤ payout₁ ∧
      SplitsExactly s.storage.protocolFeeBps payout₁ := by
  have hsample : sampleEnds 300 (fun s₂ _ => (s₂.storage.requests 1).createdAt == 1001 &&
      (s₂.storage.requests 1).tip == 10 ^ 18) = true := by
    decide +kernel
  obtain ⟨s₀, s₂, -, hconstruct, hrun, -, hcheck⟩ := sampleEnds_eq_true hsample
  rw [Bool.and_eq_true, beq_iff_eq, beq_iff_eq] at hcheck
  obtain ⟨hcreated, htip⟩ := hcheck
  have hreachable : Reachable engineBody s₀ s₂ := .of_run hrun.run
  have hsmall : (s₂.storage.requests 1).tip < 2 ^ 128 := by
    rw [htip]
    decide
  have hafter : (s₂.storage.requests 1).createdAt ≤ 1301 := by
    rw [hcreated]
    decide
  have horder : 1301 ≤ 2801 := by decide
  obtain ⟨payout₁, payout₂, hpayout₁, hpayout₂, hle, hsplit⟩ :=
    payout_decays hconstruct hreachable hsmall hafter horder
  exact ⟨s₀, s₂, payout₁, payout₂, hconstruct, hreachable, htip, hcreated, hpayout₁, hpayout₂, hle,
    (hsplit payout₁ (.head _)).2.2.1⟩

end WorldZk.TipDecay
