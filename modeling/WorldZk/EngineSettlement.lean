import WorldZk.EngineAccounts

/-!
# Settlement in the execution engine

The engine is solvent in every reachable state and settles a request at most once. It does not
hand out all that it holds: a completion later than the second in which the request was made
leaves a part of the tip on the balance for good.
-/

namespace WorldZk.EngineSettlement

open CheckedRuns ReentrantCalls OwnedContracts ExecutionEngine EngineAccounts
open Relation (ReflTransGen)

variable {s₀ s t : EngineState} {tx : EngineMessage} {admin registry verifier feeRecipient : ℕ}

/-! ## Deployment -/

theorem empty_requestOk (requestId : ℕ) : RequestOk 1 requestId ExecutionRequest.empty [] where
  fresh := fun _ => rfl
  minTip := fun h => absurd rfl h
  maxTip := rfl
  status := fun h => (by cases h)
  unpaid := fun _ => rfl
  refunded := fun h => (by cases h)
  completed := fun h => (by cases h)

theorem construct_invariant (h : construct admin registry verifier feeRecipient = .ok s) :
    EngineInvariant s ∧ s.entered = false ∧ kept s = 0 := by
  simp only [construct, bind_eq_ok, pure_eq_ok] at h
  obtain ⟨_, -, _, -, _, -, _, -, rfl⟩ := h
  have hzero : (fun _ : ℕ => openTip ExecutionRequest.empty) = fun _ => 0 := rfl
  refine ⟨⟨show DEFAULT_PROTOCOL_FEE_BPS ≤ MAX_FEE_BPS by decide, Nat.one_pos, ?_, ?_, empty_requestOk⟩, rfl, ?_⟩
  · change (fun _ : ℕ => openTip ExecutionRequest.empty).support.Finite
    rw [hzero]
    simp
  · change (∑ᶠ _ : ℕ, openTip ExecutionRequest.empty) + 0 ≤ 0
    rw [hzero, finsum_zero]
  · exact Nat.zero_sub _

/-! ## Solvency and single settlement -/

/-- What was paid for a request: nothing before it is settled, its whole tip to the requester of a
cancelled one, and at most one payout and one fee, within the tip, for a completed one. -/
def SettledOnce (s : EngineState) (requestId : ℕ) : Prop :=
  let req := s.storage.requests requestId
  let paid := paymentsFor s.payments requestId
  (¬Settled req → paid = []) ∧
    (req.status = .cancelled → paid = [⟨requestId, .refund, req.requester, req.tip⟩]) ∧
    (req.status = .completed → ∃ payout fee feeRecipient, payout + fee ≤ req.tip ∧
      paid <+: [⟨requestId, .payout, req.claimedBy, payout⟩,
        ⟨requestId, .fee, feeRecipient, fee⟩])

/-- In every reachable state, also while a callee has control, the balance covers the tips of all
open requests and every request has been settled at most once; and no later call, nested or not,
changes a settled request or pays for it. -/
theorem solvent_and_settled_once
    (hconstruct : construct admin registry verifier feeRecipient = .ok s₀)
    (hs : Reachable engineBody s₀ s) :
    (fun requestId => openTip (s.storage.requests requestId)).support.Finite ∧
      openTips s ≤ s.storage.balance ∧
      (∀ requestId, SettledOnce s requestId) ∧
      ∀ t requestId, Run engineBody s t → Settled (s.storage.requests requestId) →
        t.storage.requests requestId = s.storage.requests requestId ∧
          paymentsFor t.payments requestId = paymentsFor s.payments requestId := by
  have h : EngineInvariant s := guarantees.reachable (construct_invariant hconstruct).1 hs
  refine ⟨h.finite, (Nat.le_add_right _ _).trans h.solvent, fun requestId => ?_,
    fun t requestId hrun => (guarantees.run h hrun).2.settled requestId⟩
  have hrequest := h.request requestId
  exact ⟨hrequest.unpaid, hrequest.refunded, hrequest.completed⟩

/-! ## Conservation -/

/-- The balance that comes from tips is what the open requests hold. -/
def Conserved (s : EngineState) : Prop := s.storage.balance = openTips s + s.forced

/-- If the call submits a proof, it does so in the second in which the request was made. -/
def Prompt (s : EngineState) (tx : EngineMessage) : Prop :=
  ∀ requestId sealBytes journal, tx.operation = .submitProof requestId sealBytes journal →
    tx.context.timestamp = (s.storage.requests requestId).createdAt

theorem conserved_iff (h : EngineInvariant s) : Conserved s ↔ kept s = 0 := by
  have := h.balance_eq
  unfold Conserved
  omega

theorem lost_eq_zero_iff (h : EngineInvariant s) (hcalls : Calls engineBody tx s t) :
    lost s tx = 0 ↔ Prompt s tx := by
  have hproof := (calls_outcome h hcalls).proof
  obtain ⟨ctx, operation, outside⟩ := tx
  cases operation
  case submitProof requestId sealBytes journal =>
    obtain ⟨hexists, payout, hpayout⟩ := hproof _ _ _ rfl
    have hrequest := h.request requestId
    have hmin : MIN_TIP ≤ (s.storage.requests requestId).maxTip := by
      rw [hrequest.maxTip]
      exact hrequest.minTip hexists
    have hle := calculatePayout_le hpayout
    have hfull := calculatePayout_eq_maxTip hmin hpayout
    rw [hrequest.maxTip] at hle hfull
    have hlost : lost s ⟨ctx, .submitProof requestId sealBytes journal, outside⟩ =
        (s.storage.requests requestId).tip - payout := by
      simp only [lost, hpayout]
    rw [hlost]
    constructor
    · rintro hzero _ _ _ ⟨rfl, rfl, rfl⟩
      exact hfull.mp (by omega)
    · intro hprompt
      have := hfull.mpr (hprompt _ _ _ rfl)
      omega
  all_goals exact ⟨fun _ _ _ _ hoperation => (by cases hoperation), fun _ => rfl⟩

theorem conserved_step (h : EngineInvariant s) (hcalls : Calls engineBody tx s t) :
    Conserved t ↔ Conserved s ∧ Prompt s tx := by
  have houtcome := (calls_outcome h hcalls).outcome
  rw [conserved_iff houtcome.invariant, conserved_iff h, ← lost_eq_zero_iff h hcalls,
    houtcome.kept]
  omega

/-- The states between transactions of a run with prompt calls only. -/
def PromptRun : EngineState → EngineState → Prop :=
  ReflTransGen fun s t => ∃ tx, Calls engineBody tx s t ∧ Prompt s tx

theorem PromptRun.conserved (h : EngineInvariant s) (hconserved : Conserved s)
    (hrun : PromptRun s t) : EngineInvariant t ∧ Conserved t := by
  induction hrun with
  | refl => exact ⟨h, hconserved⟩
  | tail _ hstep ih =>
    obtain ⟨tx, hcalls, hprompt⟩ := hstep
    exact ⟨(guarantees.calls ih.1 hcalls).1, (conserved_step ih.1 hcalls).mpr ⟨ih.2, hprompt⟩⟩

/-- The balance stays conserved in a run in which every proof is submitted in the second in which
its request was made, and is not conserved any more after a proof that is submitted later. -/
theorem conserved_of_promptRun
    (hconstruct : construct admin registry verifier feeRecipient = .ok s₀) :
    (∀ s, PromptRun s₀ s → Conserved s) ∧
      ∀ s tx t, Run engineBody s₀ s → Calls engineBody tx s t →
        (Conserved t ↔ Conserved s ∧ Prompt s tx) := by
  obtain ⟨h, -, hkept⟩ := construct_invariant hconstruct
  constructor
  · intro s hrun
    exact (hrun.conserved h ((conserved_iff h).mpr hkept)).2
  · intro s tx t hrun hcalls
    exact conserved_step (guarantees.run h hrun).1 hcalls

/-! A request with a tip of one ether, which `51` claims at once and proves after `delay` seconds. -/

def sampleOutside : Outside where
  isProgramActive := fun _ => true
  verifierContract := fun _ => some 0
  programVerify := fun _ _ _ _ => false
  riscZeroVerify := fun _ _ _ => true
  hasCode := fun _ => false

def sampleMessage (sender value timestamp : ℕ) (operation : Operation) : EngineMessage :=
  ⟨⟨sender, value, timestamp + 1, 1, timestamp.succ_pos⟩, operation, sampleOutside⟩

def sampleRequest : EngineMessage := sampleMessage 50 (10 ^ 18) 1000 (.requestExecution 7 8 0 0)

def sampleClaim : EngineMessage := sampleMessage 51 0 1000 (.claimExecution 1)

def sampleProof (delay : ℕ) : EngineMessage :=
  sampleMessage 51 0 (1000 + delay) (.submitProof 1 [1] [2])

/-- The state after the three calls when every payee takes its payment. -/
def sampleEnds (delay : ℕ) (p : EngineState → EngineState → Bool) : Bool :=
  okAnd (construct 10 20 30 40) fun s₀ =>
    okAnd ((engineBody sampleRequest s₀).eval fun _ => some ()) fun s₁ =>
      okAnd ((engineBody sampleClaim s₁).eval fun _ => some ()) fun s₂ =>
        okAnd ((engineBody (sampleProof delay) s₂).eval fun _ => some ()) fun s₃ => p s₂ s₃

theorem sampleEnds_eq_true {delay : ℕ} {p : EngineState → EngineState → Bool}
    (h : sampleEnds delay p = true) :
    ∃ s₀ s₂ s₃, construct 10 20 30 40 = .ok s₀ ∧ PromptRun s₀ s₂ ∧
      Calls engineBody (sampleProof delay) s₂ s₃ ∧ p s₂ s₃ = true := by
  obtain ⟨s₀, hs₀, h⟩ := okAnd_eq_true.mp h
  obtain ⟨s₁, hs₁, h⟩ := okAnd_eq_true.mp h
  obtain ⟨s₂, hs₂, h⟩ := okAnd_eq_true.mp h
  obtain ⟨s₃, hs₃, h⟩ := okAnd_eq_true.mp h
  refine ⟨s₀, s₂, s₃, hs₀, ?_, .of_eval hs₃, h⟩
  refine .tail (.single ⟨sampleRequest, .of_eval hs₁, ?_⟩) ⟨sampleClaim, .of_eval hs₂, ?_⟩
  · exact fun _ _ _ hoperation => (by cases hoperation)
  · exact fun _ _ _ hoperation => (by cases hoperation)

theorem PromptRun.run (h : PromptRun s t) : Run engineBody s t := by
  induction h with
  | refl => exact .refl
  | tail _ hstep ih =>
    obtain ⟨tx, hcalls, -⟩ := hstep
    exact ih.tail ⟨tx, hcalls⟩

theorem completed_request_settled_once :
    ∃ s₀ s, construct 10 20 30 40 = .ok s₀ ∧ Reachable engineBody s₀ s ∧
      (s.storage.requests 1).status = .completed ∧ openTips s ≤ s.storage.balance ∧
        SettledOnce s 1 := by
  have hsample : sampleEnds 300 (fun _ s₃ => (s₃.storage.requests 1).status == .completed) =
      true := by
    decide +kernel
  obtain ⟨s₀, s₂, s₃, hconstruct, hrun, hcalls, hcheck⟩ := sampleEnds_eq_true hsample
  have hreachable : Reachable engineBody s₀ s₃ := .of_run (hrun.run.tail ⟨_, hcalls⟩)
  obtain ⟨-, hsolvent, honce, -⟩ := solvent_and_settled_once hconstruct hreachable
  exact ⟨s₀, s₃, hconstruct, hreachable, beq_iff_eq.mp hcheck, hsolvent, honce 1⟩

/-- A proof in the second of the request pays the whole tip out. -/
theorem conserved_after_prompt_proof :
    ∃ s₀ s, construct 10 20 30 40 = .ok s₀ ∧ PromptRun s₀ s ∧
      (s.storage.requests 1).status = .completed ∧ Conserved s := by
  have hsample : sampleEnds 0 (fun s₂ s₃ => (s₂.storage.requests 1).createdAt == 1001 &&
      (s₃.storage.requests 1).status == .completed) = true := by
    decide +kernel
  obtain ⟨s₀, s₂, s₃, hconstruct, hrun, hcalls, hcheck⟩ := sampleEnds_eq_true hsample
  rw [Bool.and_eq_true, beq_iff_eq, beq_iff_eq] at hcheck
  have hprompt : Prompt s₂ (sampleProof 0) := by
    rintro _ _ _ ⟨rfl, rfl, rfl⟩
    exact hcheck.1.symm
  have hrun' : PromptRun s₀ s₃ := hrun.tail ⟨_, hcalls, hprompt⟩
  exact ⟨s₀, s₃, hconstruct, hrun', hcheck.2, (conserved_of_promptRun hconstruct).1 s₃ hrun'⟩

/-- A proof five minutes later leaves a twelfth of the tip on the balance. -/
theorem not_conserved_after_late_proof :
    ¬∀ s₀ s, construct 10 20 30 40 = .ok s₀ → Run engineBody s₀ s → Conserved s := by
  intro hconserved
  have hsample : sampleEnds 300 (fun s₂ _ => (s₂.storage.requests 1).createdAt == 1001) = true := by
    decide +kernel
  obtain ⟨s₀, s₂, s₃, hconstruct, hrun, hcalls, hcheck⟩ := sampleEnds_eq_true hsample
  have h := (guarantees.run (construct_invariant hconstruct).1 hrun.run).1
  have hprompt := ((conserved_step h hcalls).mp
    (hconserved s₀ s₃ hconstruct (hrun.run.tail ⟨_, hcalls⟩))).2
  have htime := hprompt 1 [1] [2] rfl
  rw [beq_iff_eq.mp hcheck] at htime
  cases htime

end WorldZk.EngineSettlement
