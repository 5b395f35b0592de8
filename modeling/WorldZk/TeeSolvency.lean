import WorldZk.TeeReentrancy
import WorldZk.FiniteTotals

/-!
# The stakes of TEE results

What the contract owes for its results is always on its balance, and the stakes of a result are
paid out once, to its submitter or its challenger, when it is settled. The states include those in
which the verifier or a payee has control.
-/

namespace WorldZk.TeeSolvency

open CheckedRuns ReentrantCalls TeeVerifier TeeDisputes TeeReentrancy FiniteTotals

/-- What was staked on a result, by its submitter and its challenger. -/
def stakes (r : PackedMLResult) : ℕ :=
  r.proverStakeAmount + if r.challenged then r.challengeBond else 0

/-- What the contract owes for a result, which is nothing once it is settled. -/
def owed (r : PackedMLResult) : ℕ := if r.finalized then 0 else stakes r

/-- Who gets the stakes of a result. -/
def winner (r : PackedMLResult) (proverWon : Bool) : ℕ :=
  if r.challenged && !proverWon then r.challenger else r.submitter

def payoutsFor (payouts : List Payout) (resultId : ℕ) : List Payout :=
  payouts.filter fun p => p.resultId == resultId

/-- The flags of a result agree with each other and with what was paid for it. -/
structure RecordOk (resultId : ℕ) (r : PackedMLResult) (resolved proverWon : Bool)
    (paid : List Payout) : Prop where
  submitted : r.finalized = true ∨ r.challenged = true → r.submittedAt ≠ 0
  resolved : resolved = (r.challenged && r.finalized)
  staked : r.submittedAt ≠ 0 → 0 < r.proverStakeAmount
  unpaid : r.finalized = false → paid = []
  paid : r.finalized = true → paid = [⟨resultId, winner r proverWon, stakes r⟩]

structure TeeInvariant (s : TeeState) : Prop where
  proverStake : 0 < s.storage.proverStake
  finite : (fun resultId => owed (s.storage.results resultId)).support.Finite
  solvent : ∑ᶠ resultId, owed (s.storage.results resultId) ≤ s.storage.balance
  record : ∀ resultId, RecordOk resultId (s.storage.results resultId)
    (s.storage.disputeResolved resultId) (s.storage.disputeProverWon resultId)
    (payoutsFor s.payouts resultId)

/-- What a call made by a callee leaves alone. -/
structure SameRecords (s t : TeeState) : Prop where
  results : t.storage.results = s.storage.results
  disputeResolved : t.storage.disputeResolved = s.storage.disputeResolved
  disputeProverWon : t.storage.disputeProverWon = s.storage.disputeProverWon
  disputeExtensions : t.storage.disputeExtensions = s.storage.disputeExtensions
  payouts : t.payouts = s.payouts
  answers : t.answers = s.answers

def Frame (s t : TeeState) : Prop := s.entered = true → t.entered = true ∧ SameRecords s t

variable {recover : ℕ → List UInt8 → Option ℕ} {c c' : TeeContract} {s t : TeeState}

theorem SameResults.sameRecords (h : SameResults s.storage c) : SameRecords s (withStorage s c) :=
  ⟨h.results, h.disputeResolved, h.disputeProverWon, h.disputeExtensions, rfl, rfl⟩

theorem Frame.refl (s : TeeState) : Frame s s := fun h => ⟨h, rfl, rfl, rfl, rfl, rfl, rfl⟩

theorem Frame.trans {u : TeeState} (hst : Frame s t) (htu : Frame t u) : Frame s u := by
  intro hs
  obtain ⟨ht, h⟩ := hst hs
  obtain ⟨hu, h'⟩ := htu ht
  exact ⟨hu, h'.results.trans h.results, h'.disputeResolved.trans h.disputeResolved,
    h'.disputeProverWon.trans h.disputeProverWon,
    h'.disputeExtensions.trans h.disputeExtensions, h'.payouts.trans h.payouts,
    h'.answers.trans h.answers⟩

theorem Frame.of_not_entered (h : s.entered = false) : Frame s t := by
  intro hs
  rw [h] at hs
  cases hs

/-! ## What keeps the invariant -/

theorem TeeInvariant.setEntered (h : TeeInvariant s) (b : Bool) :
    TeeInvariant { s with entered := b } :=
  ⟨h.proverStake, h.finite, h.solvent, h.record⟩

theorem TeeInvariant.of_sameResults (h : TeeInvariant s) (hc : SameResults s.storage c) :
    TeeInvariant (withStorage s c) where
  proverStake := hc.proverStake h.proverStake
  finite := by
    have hfinite := h.finite
    rwa [← hc.results] at hfinite
  solvent := by
    have hsolvent := h.solvent
    rw [← hc.results] at hsolvent
    exact hsolvent.trans hc.balance
  record := by
    intro resultId
    have hrecord := h.record resultId
    rwa [← hc.results, ← hc.disputeResolved, ← hc.disputeProverWon] at hrecord

/-- A change of one result keeps the invariant if the balance moves with what is owed for it. -/
theorem TeeInvariant.update {resultId : ℕ} {r : PackedMLResult} (h : TeeInvariant s)
    (hstake : t.storage.proverStake = s.storage.proverStake)
    (hresults : t.storage.results = Function.update s.storage.results resultId r)
    (hothers : ∀ id, id ≠ resultId →
      t.storage.disputeResolved id = s.storage.disputeResolved id ∧
        t.storage.disputeProverWon id = s.storage.disputeProverWon id ∧
          payoutsFor t.payouts id = payoutsFor s.payouts id)
    (hrecord : RecordOk resultId r (t.storage.disputeResolved resultId)
      (t.storage.disputeProverWon resultId) (payoutsFor t.payouts resultId))
    (hbalance : owed r + s.storage.balance ≤
      t.storage.balance + owed (s.storage.results resultId)) :
    TeeInvariant t := by
  have howed : (fun id => owed (t.storage.results id)) =
      Function.update (fun id => owed (s.storage.results id)) resultId (owed r) := by
    rw [hresults]
    exact Function.comp_update owed s.storage.results resultId r
  refine ⟨hstake ▸ h.proverStake, ?_, ?_, ?_⟩
  · rw [howed]
    exact support_update_finite h.finite resultId _
  · have htotal : ∑ᶠ id, owed (t.storage.results id) + owed (s.storage.results resultId) =
        ∑ᶠ id, owed (s.storage.results id) + owed r := by
      rw [howed]
      exact finsum_update_add h.finite resultId (owed r)
    have hsolvent := h.solvent
    omega
  · intro id
    by_cases hid : id = resultId
    · rw [hid, hresults, Function.update_self]
      exact hrecord
    · obtain ⟨hresolved, hwon, hpaid⟩ := hothers id hid
      rw [hresults, Function.update_of_ne hid, hresolved, hwon, hpaid]
      exact h.record id

theorem submitResult_invariant {msg : Message} {modelHash inputHash resultId : ℕ}
    {result attestation : List UInt8} (h : TeeInvariant s)
    (hsubmit : submitResult recover (credit s.storage msg.value) msg modelHash inputHash result
      attestation = .ok (resultId, c)) :
    TeeInvariant (withStorage s c) := by
  obtain ⟨hstake, hfresh, r, rfl, hopen, hunchallenged, -, -, hamount⟩ := submitResult_eq_ok hsubmit
  have hold := h.record resultId
  have hopen' : (s.storage.results resultId).finalized = false := by
    by_contra hfinalized
    exact hold.submitted (.inl (Bool.eq_true_of_not_eq_false hfinalized)) hfresh
  have hunchallenged' : (s.storage.results resultId).challenged = false := by
    by_contra hchallenged
    exact hold.submitted (.inr (Bool.eq_true_of_not_eq_false hchallenged)) hfresh
  refine h.update rfl rfl (fun _ _ => ⟨rfl, rfl, rfl⟩) ?_ ?_
  · refine ⟨fun hflag => ?_, ?_, fun _ => ?_, fun _ => hold.unpaid hopen', fun hfinalized => ?_⟩
    · rw [hopen, hunchallenged] at hflag
      rcases hflag with hflag | hflag <;> cases hflag
    · have hresolved := hold.resolved
      rw [hunchallenged', Bool.false_and] at hresolved
      rw [hunchallenged, Bool.false_and]
      exact hresolved
    · rw [hamount]
      exact h.proverStake.trans_le hstake
    · rw [hopen] at hfinalized
      cases hfinalized
  · have hbalance : (withStorage s (setResult (credit s.storage msg.value) resultId r)).storage.balance
        = s.storage.balance + msg.value := rfl
    rw [hbalance, owed, hopen, stakes, hunchallenged, hamount]
    simp only [Bool.false_eq_true, if_false]
    omega

theorem challenge_invariant {msg : Message} {resultId : ℕ} (h : TeeInvariant s)
    (hchallenge : challenge (credit s.storage msg.value) msg resultId = .ok c) :
    TeeInvariant (withStorage s c) := by
  obtain ⟨hsubmitted, hopen, hunchallenged, deadline, rfl⟩ := challenge_eq_ok hchallenge
  change (s.storage.results resultId).finalized = false at hopen
  change (s.storage.results resultId).challenged = false at hunchallenged
  have hold := h.record resultId
  refine h.update rfl rfl (fun _ _ => ⟨rfl, rfl, rfl⟩) ?_ ?_
  · refine ⟨fun _ => hsubmitted, ?_, hold.staked, hold.unpaid, fun hfinalized => ?_⟩
    · have hresolved := hold.resolved
      rw [hopen, Bool.and_false] at hresolved
      change s.storage.disputeResolved resultId = (true && (s.storage.results resultId).finalized)
      rw [hopen, hresolved, Bool.and_false]
    · change (s.storage.results resultId).finalized = true at hfinalized
      rw [hopen] at hfinalized
      cases hfinalized
  · have howed : owed (challengedBy (s.storage.results resultId) msg deadline) =
        (s.storage.results resultId).proverStakeAmount + msg.value := by
      simp only [owed, stakes, challengedBy, hopen, Bool.false_eq_true, if_false, if_true]
    have howed' : owed (s.storage.results resultId) =
        (s.storage.results resultId).proverStakeAmount := by
      simp only [owed, stakes, hopen, hunchallenged, Bool.false_eq_true, if_false, Nat.add_zero]
    change owed (challengedBy (s.storage.results resultId) msg deadline) + s.storage.balance ≤
      s.storage.balance + msg.value + owed (s.storage.results resultId)
    omega

-- Stated for any deadline: the new one is not to be computed when the records are compared.
theorem RecordOk.setDeadline {resultId deadline : ℕ} {r : PackedMLResult} {resolved won : Bool}
    {paid : List Payout} (h : RecordOk resultId r resolved won paid) :
    RecordOk resultId { r with disputeDeadline := deadline } resolved won paid :=
  ⟨h.submitted, h.resolved, h.staked, h.unpaid, h.paid⟩

theorem owed_setDeadline (r : PackedMLResult) (deadline : ℕ) :
    owed { r with disputeDeadline := deadline } = owed r := rfl

theorem extend_invariant {resultId : ℕ} (h : TeeInvariant s) :
    TeeInvariant (withStorage s (extended s.storage resultId)) := by
  refine h.update rfl rfl (fun _ _ => ⟨rfl, rfl, rfl⟩) (h.record resultId).setDeadline ?_
  rw [owed_setDeadline, Nat.add_comm]
  rfl

theorem payoutsFor_append_self {payouts : List Payout} {resultId payee amount : ℕ} :
    payoutsFor (payouts ++ [⟨resultId, payee, amount⟩]) resultId =
      payoutsFor payouts resultId ++ [⟨resultId, payee, amount⟩] := by
  simp [payoutsFor, List.filter_append]

theorem payoutsFor_append_of_ne {payouts : List Payout} {resultId payee amount id : ℕ}
    (hid : id ≠ resultId) :
    payoutsFor (payouts ++ [⟨resultId, payee, amount⟩]) id = payoutsFor payouts id := by
  simp [payoutsFor, List.filter_append, Ne.symm hid]

theorem settle_invariant {resultId totalPot : ℕ} {valid : Bool} (h : TeeInvariant s)
    (hchallenged : (s.storage.results resultId).challenged = true)
    (hopen : s.storage.disputeResolved resultId = false)
    (hpot : addChecked (s.storage.results resultId).challengeBond
      (s.storage.results resultId).proverStakeAmount = .ok totalPot)
    (hafford : totalPot ≤ s.storage.balance) :
    TeeInvariant (paidState (withStorage s (markSettled s.storage resultId valid)) resultId
      (if valid then (s.storage.results resultId).submitter
        else (s.storage.results resultId).challenger) totalPot) := by
  have hold := h.record resultId
  have hunsettled : (s.storage.results resultId).finalized = false := by
    have hresolved := hold.resolved
    rwa [hopen, hchallenged, Bool.true_and, eq_comm] at hresolved
  have hstakes : totalPot = stakes (s.storage.results resultId) := by
    unfold addChecked at hpot
    split at hpot
    · cases hpot
      rw [stakes, hchallenged, if_pos rfl, Nat.add_comm]
    · cases hpot
  refine h.update rfl rfl (fun id hid => ⟨?_, ?_, ?_⟩) ?_ ?_
  · exact Function.update_of_ne hid _ _
  · exact Function.update_of_ne hid _ _
  · exact payoutsFor_append_of_ne hid
  · refine ⟨fun _ => hold.submitted (.inr hchallenged), ?_, hold.staked, fun hfinalized => ?_,
      fun _ => ?_⟩
    · change Function.update s.storage.disputeResolved resultId true resultId =
        ((s.storage.results resultId).challenged && true)
      rw [Function.update_self, hchallenged]
      rfl
    · cases hfinalized
    · change payoutsFor (s.payouts ++ [_]) resultId = [Payout.mk resultId (winner _
        (Function.update s.storage.disputeProverWon resultId valid resultId)) _]
      rw [payoutsFor_append_self, hold.unpaid hunsettled, List.nil_append, hstakes,
        Function.update_self, winner]
      cases valid <;> simp [hchallenged, stakes]
  · have howed : owed (s.storage.results resultId) = totalPot := by
      rw [owed, hunsettled, if_neg Bool.false_ne_true, hstakes]
    change 0 + s.storage.balance ≤
      s.storage.balance - totalPot + owed (s.storage.results resultId)
    omega

theorem finalize_invariant {msg : Message} {resultId : ℕ} {u : Unit} (h : TeeInvariant s)
    (hcheck : checkFinalize s.storage msg resultId = .ok u)
    (hafford : (s.storage.results resultId).proverStakeAmount ≤ s.storage.balance) :
    TeeInvariant (paidState (withStorage s (setResult s.storage resultId
      { s.storage.results resultId with finalized := true })) resultId
        (s.storage.results resultId).submitter
          (s.storage.results resultId).proverStakeAmount) := by
  obtain ⟨hsubmitted, -, hunchallenged, hunsettled⟩ := checkFinalize_eq_ok.mp hcheck
  have hold := h.record resultId
  have hstakes : stakes (s.storage.results resultId) =
      (s.storage.results resultId).proverStakeAmount := by
    rw [stakes, hunchallenged, if_neg Bool.false_ne_true, Nat.add_zero]
  refine h.update rfl rfl (fun id hid => ⟨rfl, rfl, ?_⟩) ?_ ?_
  · exact payoutsFor_append_of_ne hid
  · refine ⟨fun _ => hsubmitted, ?_, hold.staked, fun hfinalized => ?_, fun _ => ?_⟩
    · have hresolved := hold.resolved
      rw [hunchallenged, Bool.false_and] at hresolved
      change s.storage.disputeResolved resultId =
        ((s.storage.results resultId).challenged && true)
      rw [hunchallenged, hresolved, Bool.false_and]
    · cases hfinalized
    · change payoutsFor (s.payouts ++ [_]) resultId = _
      rw [payoutsFor_append_self, hold.unpaid hunsettled, List.nil_append, ← hstakes]
      simp [winner, hunchallenged, stakes]
  · have howed : owed (s.storage.results resultId) =
        (s.storage.results resultId).proverStakeAmount := by
      rw [owed, hunsettled, if_neg Bool.false_ne_true, hstakes]
    change 0 + s.storage.balance ≤ s.storage.balance -
      (s.storage.results resultId).proverStakeAmount + owed (s.storage.results resultId)
    omega

/-! ## Every function keeps it -/

theorem settle_safe {resultId : ℕ} {valid : Bool} (h : TeeInvariant s)
    (hchallenged : (s.storage.results resultId).challenged = true)
    (hopen : s.storage.disputeResolved resultId = false) :
    (settle s resultId valid).Safe TeeInvariant Frame
      fun t => TeeInvariant { t with entered := false } := by
  refine safe_check fun totalPot hpot => safe_payTo (fun hafford => ?_) fun t _ ht _ => ?_
  · exact settle_invariant h hchallenged hopen hpot hafford
  · exact ht.setEntered false

theorem resolve_safe {resultId : ℕ} {call : VerifierCall} (h : TeeInvariant s)
    (hentered : s.entered = true) :
    (resolve s resultId call).Safe TeeInvariant Frame
      fun t => TeeInvariant { t with entered := false } := by
  refine safe_check fun _ hdisputed => safe_check fun _ _ => ?_
  obtain ⟨hchallenged, hopen⟩ := checkDisputed_eq_ok.mp hdisputed
  refine ⟨h, safe_check fun valid _ => ?_, fun returnData t ht hframe => safe_check fun valid _ => ?_⟩
  · exact settle_safe ⟨h.proverStake, h.finite, h.solvent, h.record⟩ hchallenged hopen
  · -- The dispute is still open after the call, since no guarded function ran meanwhile.
    obtain ⟨-, hsame⟩ := hframe hentered
    refine settle_safe ⟨ht.proverStake, ht.finite, ht.solvent, ht.record⟩ ?_ ?_
    · rw [← hsame.results] at hchallenged
      exact hchallenged
    · rw [← hsame.disputeResolved] at hopen
      exact hopen

theorem finalize_safe {msg : Message} {resultId : ℕ} (h : TeeInvariant s) :
    (finalizeResult s msg resultId).Safe TeeInvariant Frame
      fun t => TeeInvariant { t with entered := false } := by
  refine safe_check fun _ hcheck => ?_
  have hpos := (h.record resultId).staked (checkFinalize_eq_ok.mp hcheck).1
  dsimp only
  rw [if_pos hpos]
  refine safe_payTo (fun hafford => ?_) fun t _ ht _ => ?_
  · exact finalize_invariant h hcheck hafford
  · exact ht.setEntered false

/-- Once a guarded function runs, its caller had not entered the contract. -/
theorem guarded_safe {f : TeeState → TeeBody}
    (h : (f { s with entered := true }).Safe TeeInvariant Frame
      fun t => TeeInvariant { t with entered := false }) :
    (nonReentrant s f).Safe TeeInvariant Frame fun t => TeeInvariant t ∧ Frame s t :=
  safe_nonReentrant fun hentered => h.mono fun _ ht => ⟨ht, .of_not_entered hentered⟩

theorem plain_safe {tx : Transaction} (h : TeeInvariant s)
    (hadmin : isAdmin tx.operation = true) :
    (plain s (dispatch recover s.storage tx)).Safe TeeInvariant Frame
      fun t => TeeInvariant t ∧ Frame s t := by
  refine safe_plain fun c hc => ?_
  have hsame := admin_sameResults hc hadmin
  exact ⟨h.of_sameResults hsame, fun hentered => ⟨hentered, SameResults.sameRecords hsame⟩⟩

theorem dispatch_safe (tx : TeeMessage) (h : TeeInvariant s) :
    (dispatchBody recover tx (withStorage s (credit s.storage tx.msg.value))).Safe TeeInvariant
      Frame fun t => TeeInvariant t ∧ Frame (withStorage s (credit s.storage tx.msg.value)) t := by
  have hcredit := h.of_sameResults (credit_sameResults s.storage tx.msg.value)
  have hguarded := hcredit.setEntered true
  obtain ⟨msg, operation⟩ := tx
  cases operation
  case submitResult =>
    refine safe_check fun _ _ => guarded_safe (safe_plain fun c hc => ?_)
    obtain ⟨⟨resultId, c'⟩, hsubmit, rfl⟩ := map_eq_ok.mp hc
    exact (submitResult_invariant h hsubmit).setEntered false
  case challenge =>
    refine safe_check fun _ _ => guarded_safe (safe_plain fun c hc => ?_)
    exact (challenge_invariant h hc).setEntered false
  case resolveDispute =>
    exact safe_check fun _ _ => guarded_safe (resolve_safe hguarded rfl)
  case resolveDisputeHybrid =>
    exact safe_check fun _ _ => guarded_safe (safe_check fun _ _ => resolve_safe hguarded rfl)
  case resolveDisputeHybridChunked =>
    exact safe_check fun _ _ => guarded_safe (safe_check fun _ _ => resolve_safe hguarded rfl)
  case resolveDisputeByTimeout =>
    refine safe_check fun _ _ => guarded_safe (safe_check fun _ hdisputed =>
      safe_check fun _ _ => ?_)
    obtain ⟨hchallenged, hopen⟩ := checkDisputed_eq_ok.mp hdisputed
    exact settle_safe hguarded hchallenged hopen
  case extendDisputeWindow resultId =>
    apply guarded_safe (f := fun s => plain s (extendDisputeWindow s.storage msg resultId))
    refine safe_plain fun c hc => ?_
    obtain ⟨-, -, -, -, rfl⟩ := extendDisputeWindow_eq_ok hc
    exact (extend_invariant hcredit).setEntered false
  case finalize => exact safe_check fun _ _ => guarded_safe (finalize_safe hguarded)
  case receive => exact ⟨hcredit, .refl _⟩
  all_goals exact plain_safe hcredit rfl

theorem guarantees (recover : ℕ → List UInt8 → Option ℕ) :
    Guarantees (teeBody recover) TeeInvariant Frame where
  refl := Frame.refl
  trans := fun _ _ _ => Frame.trans
  safe := by
    intro tx s h
    refine safe_check fun _ _ => (dispatch_safe tx h).mono fun t ht => ⟨ht.1, ?_⟩
    have hcredit : Frame s (withStorage s (credit s.storage tx.msg.value)) := fun hentered =>
      ⟨hentered, SameResults.sameRecords (credit_sameResults _ _)⟩
    exact hcredit.trans ht.2

theorem empty_recordOk (resultId : ℕ) :
    RecordOk resultId PackedMLResult.empty false false [] := by
  constructor <;> simp [PackedMLResult.empty]

theorem initialStorage_invariant (self chainId admin remainderVerifier : ℕ) :
    TeeInvariant (deployed (initialStorage self chainId admin remainderVerifier)) where
  proverStake := show 0 < ETHER / 10 by decide
  finite := by
    convert Set.finite_empty
    ext resultId
    simp [deployed, initialStorage, owed, stakes, PackedMLResult.empty]
  solvent := by
    have hzero : (fun resultId => owed ((deployed
        (initialStorage self chainId admin remainderVerifier)).storage.results resultId)) =
          fun _ => 0 := rfl
    rw [hzero, finsum_zero]
    exact Nat.zero_le _
  record := empty_recordOk

/-- In every reachable state the balance covers what is owed for all unsettled results, nothing
has been paid for these, and the stakes of a settled result have been paid in one payment to the
submitter or to the challenger. -/
theorem solvent_and_paid_once {self chainId admin remainderVerifier : ℕ}
    (hc : initializeContract self chainId admin remainderVerifier = .ok c)
    (hs : Reachable (teeBody recover) (deployed c) s) :
    (fun resultId => owed (s.storage.results resultId)).support.Finite ∧
      ∑ᶠ resultId, owed (s.storage.results resultId) ≤ s.storage.balance ∧
      ∀ resultId, payoutsFor s.payouts resultId =
        if (s.storage.results resultId).finalized then
          [⟨resultId, winner (s.storage.results resultId) (s.storage.disputeProverWon resultId),
            stakes (s.storage.results resultId)⟩]
        else [] := by
  simp only [initializeContract, bind_eq_ok, pure_eq_ok] at hc
  obtain ⟨_, -, rfl⟩ := hc
  have h := (guarantees recover).reachable
    (initialStorage_invariant self chainId admin remainderVerifier) hs
  refine ⟨h.finite, h.solvent, fun resultId => ?_⟩
  split
  case isTrue hfinalized => exact (h.record resultId).paid hfinalized
  case isFalse hopen => exact (h.record resultId).unpaid (Bool.eq_false_iff.mpr hopen)

/-- A dispute that the challenger `13` wins, with both stakes. -/
theorem lost_dispute_paid :
    ∃ s, Reachable (teeBody sampleRecover) (deployed (initialStorage 15 1 10 11)) s ∧
      payoutsFor s.payouts (generateResultId 12 1 0 1) =
        [⟨generateResultId 12 1 0 1, 13, 2 * ETHER⟩] := by
  obtain ⟨s, hrun, hstorage, -⟩ := @run_of_plain sampleRecover
    (deployed (initialStorage 15 1 10 11)) (emptyProofRun ++ [emptyProofResolution]) rfl
  have hreachable := Reachable.of_run hrun
  obtain ⟨-, -, hpaid⟩ := solvent_and_paid_once
    (show initializeContract 15 1 10 11 = .ok (initialStorage 15 1 10 11) from rfl) hreachable
  refine ⟨s, hreachable, (hpaid _).trans ?_⟩
  rw [hstorage]
  decide +kernel

end WorldZk.TeeSolvency
