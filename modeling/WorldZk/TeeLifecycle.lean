import WorldZk.TeeSolvency

/-!
# The lifecycle of a TEE result

What one call can do to the results, and from it how the validity and the dispute deadline of a
result develop over a run.
-/

namespace WorldZk.TeeLifecycle

open CheckedRuns ReentrantCalls TeeVerifier TeeDisputes TeeReentrancy TeeSolvency
open Relation (ReflTransGen)

def isResultValid (c : TeeContract) (resultId : ℕ) : Bool :=
  let r := c.results resultId
  if r.finalized && !r.challenged then true
  else if r.challenged && c.disputeResolved resultId && c.disputeProverWon resultId then true
  else false

/-- The record of settled disputes and of extensions is the same in both states. -/
structure SameDisputes (c c' : TeeContract) : Prop where
  disputeResolved : c'.disputeResolved = c.disputeResolved
  disputeProverWon : c'.disputeProverWon = c.disputeProverWon
  disputeExtensions : c'.disputeExtensions = c.disputeExtensions

/-- What a call that is not nested in another one does to the results. -/
inductive Change (s : TeeState) (tx : TeeMessage) (t : TeeState) : Prop
  | none (results : t.storage.results = s.storage.results) (disputes : SameDisputes s.storage t.storage)
  | submitted (resultId : ℕ) (r : PackedMLResult)
      (fresh : (s.storage.results resultId).submittedAt = 0)
      (unchallenged : r.challenged = false) (unsettled : r.finalized = false)
      (results : t.storage.results = Function.update s.storage.results resultId r)
      (disputes : SameDisputes s.storage t.storage)
  | challenged (resultId deadline : ℕ)
      (unchallenged : (s.storage.results resultId).challenged = false)
      (unsettled : (s.storage.results resultId).finalized = false)
      (results : t.storage.results = Function.update s.storage.results resultId
        (challengedBy (s.storage.results resultId) tx.msg deadline))
      (disputes : SameDisputes s.storage t.storage)
  | extended (resultId : ℕ) (operation : tx.operation = .extendDisputeWindow resultId)
      (submitter : (s.storage.results resultId).submitter = tx.msg.sender)
      (first : s.storage.disputeExtensions resultId = 0)
      (results : t.storage.results = (extended s.storage resultId).results)
      (extensions : t.storage.disputeExtensions = (extended s.storage resultId).disputeExtensions)
      (disputeResolved : t.storage.disputeResolved = s.storage.disputeResolved)
      (disputeProverWon : t.storage.disputeProverWon = s.storage.disputeProverWon)
  | finalized (resultId : ℕ) (operation : tx.operation = .finalize resultId)
      (unchallenged : (s.storage.results resultId).challenged = false)
      (deadline : (s.storage.results resultId).challengeDeadline ≤ tx.msg.timestamp)
      (results : t.storage.results = Function.update s.storage.results resultId
        { s.storage.results resultId with finalized := true })
      (disputes : SameDisputes s.storage t.storage)
  | settled (resultId : ℕ) (proverWon : Bool)
      (wasChallenged : (s.storage.results resultId).challenged = true)
      (unresolved : s.storage.disputeResolved resultId = false)
      (results : t.storage.results = (markSettled s.storage resultId proverWon).results)
      (disputeResolved :
        t.storage.disputeResolved = (markSettled s.storage resultId proverWon).disputeResolved)
      (disputeProverWon :
        t.storage.disputeProverWon = (markSettled s.storage resultId proverWon).disputeProverWon)
      (extensions : t.storage.disputeExtensions = s.storage.disputeExtensions)
      (accepted : proverWon = true → ∃ call returnData,
        t.answers = s.answers ++ [⟨resultId, call, some returnData⟩] ∧
          proofValid ⟨true, returnData⟩ = .ok true)

variable {recover : ℕ → List UInt8 → Option ℕ} {c : TeeContract} {s t : TeeState}
  {tx : TeeMessage}

/-! ## One call -/

/-- The payments at the end of a function change nothing but the balance. -/
theorem payTo_change {s₁ : TeeState} {failed : TeeError} {resultId payee amount : ℕ}
    (hinvariant : amount ≤ s₁.storage.balance →
      TeeInvariant (paidState s₁ resultId payee amount))
    (hentered : s₁.entered = true)
    (hchange : ∀ t : TeeState, t.storage.results = s₁.storage.results →
      SameDisputes s₁.storage t.storage → t.answers = s₁.answers → Change s tx t) :
    (payTo s₁ failed resultId payee amount).Safe TeeInvariant Frame
      fun t => Change s tx { t with entered := false } := by
  refine safe_payTo hinvariant fun t _ _ hframe => ?_
  obtain ⟨-, hsame⟩ := hframe hentered
  exact hchange _ hsame.results
    ⟨hsame.disputeResolved, hsame.disputeProverWon, hsame.disputeExtensions⟩ hsame.answers

/-- A settlement from a state with the records of `s`. -/
theorem settle_change {s₁ : TeeState} {resultId : ℕ} {valid : Bool} (h : TeeInvariant s₁)
    (hentered : s₁.entered = true) (hresults : s₁.storage.results = s.storage.results)
    (hdisputes : SameDisputes s.storage s₁.storage)
    (hchallenged : (s.storage.results resultId).challenged = true)
    (hopen : s.storage.disputeResolved resultId = false)
    (haccepted : valid = true → ∃ call returnData,
      s₁.answers = s.answers ++ [⟨resultId, call, some returnData⟩] ∧
        proofValid ⟨true, returnData⟩ = .ok true) :
    (settle s₁ resultId valid).Safe TeeInvariant Frame
      fun t => Change s tx { t with entered := false } := by
  refine safe_check fun totalPot hpot => payTo_change (fun hafford => ?_) hentered ?_
  · refine settle_invariant h ?_ ?_ hpot hafford
    · rw [hresults]
      exact hchallenged
    · rw [hdisputes.disputeResolved]
      exact hopen
  · intro t hresults' hdisputes' hanswers
    refine .settled resultId valid hchallenged hopen ?_ ?_ ?_ ?_ ?_
    · rw [hresults']
      simp only [withStorage, markSettled, setResult, hresults]
    · rw [hdisputes'.disputeResolved]
      simp only [withStorage, markSettled, hdisputes.disputeResolved]
    · rw [hdisputes'.disputeProverWon]
      simp only [withStorage, markSettled, hdisputes.disputeProverWon]
    · exact hdisputes'.disputeExtensions.trans hdisputes.disputeExtensions
    · rw [hanswers]
      exact haccepted

theorem resolve_change {s₁ : TeeState} {resultId : ℕ} {call : VerifierCall} (h : TeeInvariant s₁)
    (hentered : s₁.entered = true) (hresults : s₁.storage.results = s.storage.results)
    (hdisputes : SameDisputes s.storage s₁.storage) (hanswers : s₁.answers = s.answers) :
    (resolve s₁ resultId call).Safe TeeInvariant Frame
      fun t => Change s tx { t with entered := false } := by
  refine safe_check fun _ hdisputed => safe_check fun _ _ => ?_
  obtain ⟨hchallenged, hopen⟩ := checkDisputed_eq_ok.mp hdisputed
  rw [hresults] at hchallenged
  rw [hdisputes.disputeResolved] at hopen
  refine ⟨h, safe_check fun valid hvalid => ?_, fun returnData t ht hframe =>
    safe_check fun valid hvalid => ?_⟩
  · -- A verifier that reverts is taken as a rejection.
    obtain rfl : false = valid := Except.ok.inj hvalid
    exact settle_change ⟨h.proverStake, h.finite, h.solvent, h.record⟩ hentered hresults hdisputes
      hchallenged hopen fun hfalse => (by cases hfalse)
  · obtain ⟨hentered', hsame⟩ := hframe hentered
    refine settle_change ⟨ht.proverStake, ht.finite, ht.solvent, ht.record⟩ hentered'
      (hsame.results.trans hresults) ?_ hchallenged hopen fun htrue => ?_
    · exact ⟨hsame.disputeResolved.trans hdisputes.disputeResolved,
        hsame.disputeProverWon.trans hdisputes.disputeProverWon,
        hsame.disputeExtensions.trans hdisputes.disputeExtensions⟩
    · rw [htrue] at hvalid
      refine ⟨call, returnData, ?_, hvalid⟩
      rw [hsame.answers, hanswers]

theorem finalize_change {s₁ : TeeState} {resultId : ℕ} (h : TeeInvariant s₁)
    (hentered : s₁.entered = true) (hresults : s₁.storage.results = s.storage.results)
    (hdisputes : SameDisputes s.storage s₁.storage) (hoperation : tx.operation = .finalize resultId) :
    (finalizeResult s₁ tx.msg resultId).Safe TeeInvariant Frame
      fun t => Change s tx { t with entered := false } := by
  refine safe_check fun _ hcheck => ?_
  obtain ⟨hsubmitted, hdeadline, hunchallenged, -⟩ := checkFinalize_eq_ok.mp hcheck
  dsimp only
  rw [if_pos ((h.record resultId).staked hsubmitted)]
  refine payTo_change (fun hafford => finalize_invariant h hcheck hafford) hentered ?_
  intro t hresults' hdisputes' _
  refine .finalized resultId hoperation ?_ ?_ ?_ ?_
  · rwa [hresults] at hunchallenged
  · rwa [hresults] at hdeadline
  · rw [hresults']
    simp only [withStorage, setResult, hresults]
  · exact ⟨hdisputes'.disputeResolved.trans hdisputes.disputeResolved,
      hdisputes'.disputeProverWon.trans hdisputes.disputeProverWon,
      hdisputes'.disputeExtensions.trans hdisputes.disputeExtensions⟩

theorem guarded_change {f : TeeState → TeeBody}
    (h : (f { s with entered := true }).Safe TeeInvariant Frame
      fun t => Change s tx { t with entered := false }) :
    (nonReentrant s f).Safe TeeInvariant Frame fun t => t.entered = false ∧ Change s tx t :=
  safe_nonReentrant fun _ => h.mono fun _ ht => ⟨rfl, ht⟩

theorem dispatch_change (h : TeeInvariant s) (hentered : s.entered = false) :
    (dispatchBody recover tx s).Safe TeeInvariant Frame
      fun t => t.entered = false ∧ Change s tx t := by
  have hguarded := h.setEntered true
  have hsame : SameDisputes s.storage s.storage := ⟨rfl, rfl, rfl⟩
  obtain ⟨msg, operation⟩ := tx
  cases operation
  case submitResult =>
    refine safe_check fun _ _ => guarded_change (safe_plain fun c hc => ?_)
    obtain ⟨⟨resultId, c'⟩, hsubmit, rfl⟩ := map_eq_ok.mp hc
    obtain ⟨-, hfresh, r, rfl, hopen, hunchallenged, -⟩ := submitResult_eq_ok hsubmit
    exact .submitted resultId r hfresh hunchallenged hopen rfl ⟨rfl, rfl, rfl⟩
  case challenge resultId =>
    refine safe_check fun _ _ => guarded_change (safe_plain fun c hc => ?_)
    obtain ⟨-, hopen, hunchallenged, deadline, rfl⟩ := challenge_eq_ok hc
    exact .challenged resultId deadline hunchallenged hopen rfl ⟨rfl, rfl, rfl⟩
  case resolveDispute =>
    exact safe_check fun _ _ => guarded_change (resolve_change hguarded rfl rfl hsame rfl)
  case resolveDisputeHybrid =>
    exact safe_check fun _ _ => guarded_change (safe_check fun _ _ =>
      resolve_change hguarded rfl rfl hsame rfl)
  case resolveDisputeHybridChunked =>
    exact safe_check fun _ _ => guarded_change (safe_check fun _ _ =>
      resolve_change hguarded rfl rfl hsame rfl)
  case resolveDisputeByTimeout =>
    refine safe_check fun _ _ => guarded_change (safe_check fun _ hdisputed =>
      safe_check fun _ _ => ?_)
    obtain ⟨hchallenged, hopen⟩ := checkDisputed_eq_ok.mp hdisputed
    exact settle_change hguarded rfl rfl hsame hchallenged hopen fun hfalse => (by cases hfalse)
  case extendDisputeWindow resultId =>
    apply guarded_change (f := fun s => plain s (extendDisputeWindow s.storage msg resultId))
    refine safe_plain fun c hc => ?_
    obtain ⟨-, -, hsubmitter, hfirst, rfl⟩ := extendDisputeWindow_eq_ok hc
    exact .extended resultId rfl hsubmitter hfirst rfl rfl rfl rfl
  case finalize => exact safe_check fun _ _ => guarded_change (finalize_change hguarded rfl rfl hsame rfl)
  case receive => exact ⟨hentered, .none rfl ⟨rfl, rfl, rfl⟩⟩
  all_goals
    refine safe_plain fun c hc => ⟨hentered, ?_⟩
    have hsame := admin_sameResults hc rfl
    exact .none hsame.results
      ⟨hsame.disputeResolved, hsame.disputeProverWon, hsame.disputeExtensions⟩

-- The credited value is on the balance only, so the change is one of `s` itself.
theorem calls_change (h : TeeInvariant s) (hentered : s.entered = false)
    (hcalls : Calls (teeBody recover) tx s t) : t.entered = false ∧ Change s tx t := by
  have hcredit := h.of_sameResults (credit_sameResults s.storage tx.msg.value)
  have hdispatch : (dispatchBody recover tx (withStorage s (credit s.storage tx.msg.value))).Safe
      TeeInvariant Frame fun t => t.entered = false ∧
        Change (withStorage s (credit s.storage tx.msg.value)) tx t :=
    dispatch_change hcredit hentered
  have hsafe : (teeBody recover tx s).Safe TeeInvariant Frame
      fun t => t.entered = false ∧ Change s tx t := by
    refine safe_check fun _ _ => hdispatch.mono fun t ⟨ht, hchange⟩ => ⟨ht, ?_⟩
    cases hchange with
    | none h₁ h => exact .none h₁ ⟨h.1, h.2, h.3⟩
    | submitted id r h₁ h₂ h₃ h₄ h => exact .submitted id r h₁ h₂ h₃ h₄ ⟨h.1, h.2, h.3⟩
    | challenged id d h₁ h₂ h₃ h => exact .challenged id d h₁ h₂ h₃ ⟨h.1, h.2, h.3⟩
    | extended id h₁ h₂ h₃ h₄ h₅ h₆ h₇ => exact .extended id h₁ h₂ h₃ h₄ h₅ h₆ h₇
    | finalized id h₁ h₂ h₃ h₄ h => exact .finalized id h₁ h₂ h₃ h₄ ⟨h.1, h.2, h.3⟩
    | settled id won h₁ h₂ h₃ h₄ h₅ h₆ h₇ => exact .settled id won h₁ h₂ h₃ h₄ h₅ h₆ h₇
  exact (guarantees recover).calls_post hsafe hcalls

/-! ## Validity -/

theorem isResultValid_iff {resultId : ℕ} :
    isResultValid c resultId = true ↔
      (c.results resultId).finalized = true ∧ (c.results resultId).challenged = false ∨
        (c.results resultId).challenged = true ∧ c.disputeResolved resultId = true ∧
          c.disputeProverWon resultId = true := by
  simp only [isResultValid]
  split_ifs <;> simp_all

theorem submitted_of_valid {resultId : ℕ} (h : TeeInvariant s)
    (hvalid : isResultValid s.storage resultId = true) :
    (s.storage.results resultId).submittedAt ≠ 0 := by
  rcases isResultValid_iff.mp hvalid with ⟨hfinalized, -⟩ | ⟨hchallenged, -⟩
  · exact (h.record resultId).submitted (.inl hfinalized)
  · exact (h.record resultId).submitted (.inr hchallenged)

/-- Validity depends on the record and on the outcome of the result. -/
theorem isResultValid_congr {c' : TeeContract} {resultId : ℕ}
    (hresult : c'.results resultId = c.results resultId)
    (hresolved : c'.disputeResolved resultId = c.disputeResolved resultId)
    (hwon : c'.disputeProverWon resultId = c.disputeProverWon resultId) :
    isResultValid c' resultId = isResultValid c resultId := by
  simp only [isResultValid, hresult, hresolved, hwon]

theorem SameDisputes.isResultValid {c' : TeeContract} {id resultId : ℕ} {r : PackedMLResult}
    (h : SameDisputes c c') (hresults : c'.results = Function.update c.results resultId r)
    (hid : id ≠ resultId) : isResultValid c' id = TeeLifecycle.isResultValid c id := by
  refine isResultValid_congr ?_ (congrFun h.disputeResolved id) (congrFun h.disputeProverWon id)
  rw [hresults, Function.update_of_ne hid]

/-- An extension writes none of the flags. -/
theorem isResultValid_extended {c' : TeeContract} {id resultId : ℕ}
    (hresults : c'.results = (extended c id).results)
    (hresolved : c'.disputeResolved = c.disputeResolved)
    (hwon : c'.disputeProverWon = c.disputeProverWon) :
    isResultValid c' resultId = isResultValid c resultId := by
  by_cases hid : resultId = id
  · subst hid
    simp only [isResultValid, hresults, hresolved, hwon, extended, setResult, Function.update_self]
  · simp only [isResultValid, hresults, hresolved, hwon, extended, setResult,
      Function.update_of_ne hid]

/-- A settlement touches one result. -/
theorem isResultValid_settled {c' : TeeContract} {id resultId : ℕ} {won : Bool}
    (hresults : c'.results = (markSettled c id won).results)
    (hresolved : c'.disputeResolved = (markSettled c id won).disputeResolved)
    (hwon : c'.disputeProverWon = (markSettled c id won).disputeProverWon)
    (hne : resultId ≠ id) : isResultValid c' resultId = isResultValid c resultId := by
  apply isResultValid_congr
  · rw [hresults]
    exact Function.update_of_ne hne _ _
  · rw [hresolved]
    exact Function.update_of_ne hne _ _
  · rw [hwon]
    exact Function.update_of_ne hne _ _

theorem Change.valid {resultId : ℕ} (h : TeeInvariant s) (hchange : Change s tx t)
    (hvalid : isResultValid s.storage resultId = true) :
    isResultValid t.storage resultId = true := by
  have hsubmitted := submitted_of_valid h hvalid
  cases hchange with
  | none hresults hdisputes =>
    rwa [isResultValid_congr (congrFun hresults _) (congrFun hdisputes.disputeResolved _)
      (congrFun hdisputes.disputeProverWon _)]
  | submitted id r hfresh _ _ hresults hdisputes =>
    have hne : resultId ≠ id := by
      rintro rfl
      exact hsubmitted hfresh
    rwa [hdisputes.isResultValid hresults hne]
  | challenged id deadline hunchallenged hunsettled hresults hdisputes =>
    have hne : resultId ≠ id := by
      rintro rfl
      rw [isResultValid_iff, hunchallenged, hunsettled] at hvalid
      simp at hvalid
    rwa [hdisputes.isResultValid hresults hne]
  | extended id _ _ _ hresults _ hresolved hwon =>
    rwa [isResultValid_extended hresults hresolved hwon]
  | finalized id _ hunchallenged _ hresults hdisputes =>
    by_cases hid : resultId = id
    · subst hid
      rw [isResultValid_iff, hresults, Function.update_self]
      exact .inl ⟨rfl, hunchallenged⟩
    · rwa [hdisputes.isResultValid hresults hid]
  | settled id won hchallenged hunresolved hresults hresolved hwon =>
    have hne : resultId ≠ id := by
      rintro rfl
      rw [isResultValid_iff, hchallenged, hunresolved] at hvalid
      simp at hvalid
    rwa [isResultValid_settled hresults hresolved hwon hne]

/-- The two ways for a result to become valid. -/
def BecomesValid (s : TeeState) (tx : TeeMessage) (t : TeeState) (resultId : ℕ) : Prop :=
  (tx.operation = .finalize resultId ∧ (s.storage.results resultId).challenged = false ∧
    (s.storage.results resultId).challengeDeadline ≤ tx.msg.timestamp) ∨
  (t.storage.disputeResolved resultId = true ∧ t.storage.disputeProverWon resultId = true ∧
    ∃ call returnData, t.answers = s.answers ++ [⟨resultId, call, some returnData⟩] ∧
      proofValid ⟨true, returnData⟩ = .ok true)

theorem Change.becomesValid {resultId : ℕ} (h : TeeInvariant s) (hchange : Change s tx t)
    (hinvalid : isResultValid s.storage resultId = false)
    (hvalid : isResultValid t.storage resultId = true) : BecomesValid s tx t resultId := by
  cases hchange with
  | none hresults hdisputes =>
    rw [isResultValid_congr (congrFun hresults _) (congrFun hdisputes.disputeResolved _)
      (congrFun hdisputes.disputeProverWon _), hinvalid] at hvalid
    cases hvalid
  | submitted id r _ hunchallenged hunsettled hresults hdisputes =>
    by_cases hid : resultId = id
    · subst hid
      rw [isResultValid_iff, hresults, Function.update_self, hunchallenged, hunsettled] at hvalid
      simp at hvalid
    · rw [hdisputes.isResultValid hresults hid, hinvalid] at hvalid
      cases hvalid
  | challenged id deadline hunchallenged _ hresults hdisputes =>
    by_cases hid : resultId = id
    · subst hid
      have hunresolved : s.storage.disputeResolved resultId = false := by
        rw [(h.record resultId).resolved, hunchallenged, Bool.false_and]
      rw [isResultValid_iff, hresults, hdisputes.disputeResolved, hunresolved,
        Function.update_self] at hvalid
      simp [challengedBy] at hvalid
    · rw [hdisputes.isResultValid hresults hid, hinvalid] at hvalid
      cases hvalid
  | extended id _ _ _ hresults _ hresolved hwon =>
    rw [isResultValid_extended hresults hresolved hwon, hinvalid] at hvalid
    cases hvalid
  | finalized id hoperation hunchallenged hdeadline hresults hdisputes =>
    by_cases hid : resultId = id
    · subst hid
      exact .inl ⟨hoperation, hunchallenged, hdeadline⟩
    · rw [hdisputes.isResultValid hresults hid, hinvalid] at hvalid
      cases hvalid
  | settled id won hchallenged _ hresults hresolved hwon _ haccepted =>
    by_cases hid : resultId = id
    · subst hid
      rw [isResultValid_iff, hresults, hresolved, hwon] at hvalid
      simp only [markSettled, setResult, Function.update_self, hchallenged, Bool.true_eq_false,
        and_false, false_or, true_and] at hvalid
      refine .inr ⟨?_, ?_, haccepted hvalid⟩
      · rw [hresolved]
        exact Function.update_self _ _ _
      · rw [hwon, hvalid]
        exact Function.update_self _ _ _
    · rw [isResultValid_settled hresults hresolved hwon hid, hinvalid] at hvalid
      cases hvalid

/-! ## The dispute deadline -/

/-- The deadline of a dispute changes by an extension only, which the submitter makes once. -/
theorem Change.deadline {resultId : ℕ} (h : TeeInvariant s) (hchange : Change s tx t)
    (hchallenged : (s.storage.results resultId).challenged = true) :
    (t.storage.results resultId).challenged = true ∧
      ((t.storage.results resultId).disputeDeadline =
          (s.storage.results resultId).disputeDeadline ∧
        t.storage.disputeExtensions resultId = s.storage.disputeExtensions resultId ∨
      tx.operation = .extendDisputeWindow resultId ∧
        (s.storage.results resultId).submitter = tx.msg.sender ∧
        s.storage.disputeExtensions resultId = 0 ∧ t.storage.disputeExtensions resultId = 1 ∧
        (t.storage.results resultId).disputeDeadline =
          uint40 ((s.storage.results resultId).disputeDeadline + EXTENSION_PERIOD)) := by
  cases hchange with
  | none hresults hdisputes =>
    rw [hresults, hdisputes.disputeExtensions]
    exact ⟨hchallenged, .inl ⟨rfl, rfl⟩⟩
  | submitted id r hfresh _ _ hresults hdisputes =>
    have hne : resultId ≠ id := by
      rintro rfl
      exact (h.record resultId).submitted (.inr hchallenged) hfresh
    rw [hresults, Function.update_of_ne hne, hdisputes.disputeExtensions]
    exact ⟨hchallenged, .inl ⟨rfl, rfl⟩⟩
  | challenged id deadline hunchallenged _ hresults hdisputes =>
    have hne : resultId ≠ id := by
      rintro rfl
      rw [hunchallenged] at hchallenged
      cases hchallenged
    rw [hresults, Function.update_of_ne hne, hdisputes.disputeExtensions]
    exact ⟨hchallenged, .inl ⟨rfl, rfl⟩⟩
  | extended id hoperation hsubmitter hfirst hresults hextensions =>
    rw [hresults, hextensions]
    by_cases hid : resultId = id
    · subst hid
      simp only [TeeReentrancy.extended, setResult, Function.update_self]
      exact ⟨hchallenged, .inr ⟨hoperation, hsubmitter, hfirst, by rw [hfirst], trivial⟩⟩
    · simp only [TeeReentrancy.extended, setResult, Function.update_of_ne hid]
      exact ⟨hchallenged, .inl ⟨trivial, trivial⟩⟩
  | finalized id _ _ _ hresults hdisputes =>
    rw [hresults, hdisputes.disputeExtensions]
    by_cases hid : resultId = id
    · subst hid
      rw [Function.update_self]
      exact ⟨hchallenged, .inl ⟨rfl, rfl⟩⟩
    · rw [Function.update_of_ne hid]
      exact ⟨hchallenged, .inl ⟨rfl, rfl⟩⟩
  | settled id won _ _ hresults _ _ hextensions =>
    rw [hresults, hextensions]
    by_cases hid : resultId = id
    · subst hid
      simp only [markSettled, setResult, Function.update_self]
      exact ⟨hchallenged, .inl ⟨trivial, trivial⟩⟩
    · simp only [markSettled, setResult, Function.update_of_ne hid]
      exact ⟨hchallenged, .inl ⟨trivial, trivial⟩⟩

theorem Change.extensions_le {resultId : ℕ} (hchange : Change s tx t)
    (h : s.storage.disputeExtensions resultId ≤ MAX_EXTENSIONS) :
    t.storage.disputeExtensions resultId ≤ MAX_EXTENSIONS := by
  cases hchange with
  | none _ hdisputes => rwa [hdisputes.disputeExtensions]
  | submitted _ _ _ _ _ _ hdisputes => rwa [hdisputes.disputeExtensions]
  | challenged _ _ _ _ _ hdisputes => rwa [hdisputes.disputeExtensions]
  | finalized _ _ _ _ _ hdisputes => rwa [hdisputes.disputeExtensions]
  | settled _ _ _ _ _ _ _ hextensions => rwa [hextensions]
  | extended id _ _ hfirst _ hextensions =>
    rw [hextensions]
    by_cases hid : resultId = id
    · subst hid
      simp only [TeeReentrancy.extended, Function.update_self, hfirst]
      exact le_rfl
    · simp only [TeeReentrancy.extended, Function.update_of_ne hid]
      exact h

/-! ## Runs -/

/-- A state between two transactions. -/
structure Idle (s : TeeState) : Prop where
  invariant : TeeInvariant s
  entered : s.entered = false
  extensions : ∀ resultId, s.storage.disputeExtensions resultId ≤ MAX_EXTENSIONS

theorem Idle.calls (h : Idle s) (hcalls : Calls (teeBody recover) tx s t) :
    Idle t ∧ Change s tx t := by
  obtain ⟨hentered, hchange⟩ := calls_change h.invariant h.entered hcalls
  exact ⟨⟨((guarantees recover).calls h.invariant hcalls).1, hentered,
    fun resultId => hchange.extensions_le (h.extensions resultId)⟩, hchange⟩

theorem Idle.run (h : Idle s) (hrun : Run (teeBody recover) s t) : Idle t := by
  induction hrun with
  | refl => exact h
  | tail _ hstep ih =>
    obtain ⟨tx, hcalls⟩ := hstep
    exact (ih.calls hcalls).1

theorem idle_of_initializeContract {self chainId admin remainderVerifier : ℕ}
    (hc : initializeContract self chainId admin remainderVerifier = .ok c) : Idle (deployed c) := by
  simp only [initializeContract, bind_eq_ok, pure_eq_ok] at hc
  obtain ⟨_, -, rfl⟩ := hc
  exact ⟨initialStorage_invariant _ _ _ _, rfl, fun _ => Nat.zero_le _⟩

theorem Idle.run_valid {resultId : ℕ} (h : Idle s) (hrun : Run (teeBody recover) s t)
    (hvalid : isResultValid s.storage resultId = true) :
    isResultValid t.storage resultId = true := by
  induction hrun with
  | refl => exact hvalid
  | tail hrun hstep ih =>
    obtain ⟨tx, hcalls⟩ := hstep
    obtain ⟨-, hchange⟩ := (h.run hrun).calls hcalls
    exact hchange.valid (h.run hrun).invariant ih

/-- A call after which an extended deadline still fits its `uint40`. -/
def FittingStep (recover : ℕ → List UInt8 → Option ℕ) (s t : TeeState) : Prop :=
  ∃ tx, Calls (teeBody recover) tx s t ∧
    ∀ resultId, tx.operation = .extendDisputeWindow resultId →
      (s.storage.results resultId).disputeDeadline + EXTENSION_PERIOD < 2 ^ 40

abbrev FittingRun (recover : ℕ → List UInt8 → Option ℕ) : TeeState → TeeState → Prop :=
  ReflTransGen (FittingStep recover)

theorem FittingRun.run (h : FittingRun recover s t) : Run (teeBody recover) s t := by
  induction h with
  | refl => exact .refl
  | tail _ hstep ih =>
    obtain ⟨tx, hcalls, -⟩ := hstep
    exact ih.tail ⟨tx, hcalls⟩

/-- The deadline and the number of extensions move together. -/
theorem FittingRun.deadline {resultId : ℕ} (h : Idle s) (hrun : FittingRun recover s t)
    (hchallenged : (s.storage.results resultId).challenged = true) :
    (t.storage.results resultId).challenged = true ∧
      s.storage.disputeExtensions resultId ≤ t.storage.disputeExtensions resultId ∧
      (t.storage.results resultId).disputeDeadline +
          EXTENSION_PERIOD * s.storage.disputeExtensions resultId =
        (s.storage.results resultId).disputeDeadline +
          EXTENSION_PERIOD * t.storage.disputeExtensions resultId := by
  induction hrun with
  | refl => exact ⟨hchallenged, le_rfl, rfl⟩
  | @tail t u hrun hstep ih =>
    obtain ⟨tx, hcalls, hfits⟩ := hstep
    obtain ⟨hchallenged', hle, heq⟩ := ih
    have hidle : Idle t := h.run (FittingRun.run hrun)
    obtain ⟨-, hchange⟩ := hidle.calls hcalls
    obtain ⟨hchallenged'', hsame | hextended⟩ := hchange.deadline hidle.invariant hchallenged'
    · rw [hsame.1, hsame.2]
      exact ⟨hchallenged'', hle, heq⟩
    · obtain ⟨hoperation, -, hzero, hone, hdeadline⟩ := hextended
      rw [uint40, Nat.mod_eq_of_lt (hfits resultId hoperation)] at hdeadline
      refine ⟨hchallenged'', by omega, ?_⟩
      rw [hzero] at heq hle
      rw [hone, hdeadline]
      have hs : s.storage.disputeExtensions resultId = 0 := Nat.le_zero.mp hle
      rw [hs] at heq ⊢
      omega

/-- A valid result stays valid and was not lost in a dispute; it becomes valid by being finalized
unchallenged after its challenge deadline, or by a proof that the verifier accepts. While the
extended deadlines fit their field, the deadline of a dispute never moves earlier and moves later
at most once, and it only moves on a call of the submitter. -/
theorem result_lifecycle {self chainId admin remainderVerifier : ℕ}
    (hc : initializeContract self chainId admin remainderVerifier = .ok c)
    (hs : Run (teeBody recover) (deployed c) s) (resultId : ℕ) :
    (∀ t, Run (teeBody recover) s t → isResultValid s.storage resultId = true →
      isResultValid t.storage resultId = true) ∧
    (s.storage.disputeResolved resultId = true → s.storage.disputeProverWon resultId = false →
      isResultValid s.storage resultId = false) ∧
    (∀ tx t, Calls (teeBody recover) tx s t → isResultValid s.storage resultId = false →
      isResultValid t.storage resultId = true → BecomesValid s tx t resultId) ∧
    ((s.storage.results resultId).challenged = true →
      (∀ t u, FittingRun recover s t → FittingRun recover t u →
        (s.storage.results resultId).disputeDeadline ≤
            (t.storage.results resultId).disputeDeadline ∧
          ¬((s.storage.results resultId).disputeDeadline <
              (t.storage.results resultId).disputeDeadline ∧
            (t.storage.results resultId).disputeDeadline <
              (u.storage.results resultId).disputeDeadline)) ∧
      ∀ tx t, Calls (teeBody recover) tx s t →
        (t.storage.results resultId).disputeDeadline ≠
          (s.storage.results resultId).disputeDeadline →
        tx.operation = .extendDisputeWindow resultId ∧
          tx.msg.sender = (s.storage.results resultId).submitter) := by
  have h : Idle s := (idle_of_initializeContract hc).run hs
  refine ⟨fun t => h.run_valid, fun hresolved hlost => ?_, fun tx t hcalls => ?_,
    fun hchallenged => ⟨fun t u hst htu => ?_, fun tx t hcalls hmoved => ?_⟩⟩
  · have hflags := (h.invariant.record resultId).resolved
    rw [hresolved, eq_comm, Bool.and_eq_true] at hflags
    rw [Bool.eq_false_iff, Ne, isResultValid_iff, hflags.1, hlost]
    simp
  · exact (h.calls hcalls).2.becomesValid h.invariant
  · have ht : Idle t := h.run hst.run
    obtain ⟨hchallenged', hle, heq⟩ := hst.deadline h hchallenged
    obtain ⟨-, hle', heq'⟩ := htu.deadline ht hchallenged'
    have hmax : u.storage.disputeExtensions resultId ≤ 1 := (ht.run htu.run).extensions resultId
    have hmoves : s.storage.disputeExtensions resultId = t.storage.disputeExtensions resultId ∨
        t.storage.disputeExtensions resultId = u.storage.disputeExtensions resultId := by
      omega
    constructor
    · have := Nat.mul_le_mul_left EXTENSION_PERIOD hle
      omega
    · rintro ⟨hfirst, hsecond⟩
      rcases hmoves with hmoves | hmoves
      · rw [hmoves] at heq
        omega
      · rw [hmoves] at heq'
        omega
  · obtain ⟨-, hsame | hextended⟩ := (h.calls hcalls).2.deadline h.invariant hchallenged
    · exact absurd hsame.1 hmoved
    · exact ⟨hextended.1, hextended.2.1.symm⟩

/-- A dispute whose deadline is the last second that a `uint40` holds. -/
def lateDispute : List Transaction :=
  let verifiers : Verifiers := fun _ _ => ⟨false, []⟩
  [sampleTransaction verifiers 10 0 100 (.registerEnclave sampleEnclave 0),
    sampleTransaction verifiers 12 ETHER (2 ^ 40 - 86500)
      (.submitResult 1 0 [] (sampleAttestation 1)),
    sampleTransaction verifiers 13 ETHER (2 ^ 40 - 86401)
      (.challenge (generateResultId 12 1 0 1))]

def lateExtension : Transaction :=
  sampleTransaction (fun _ _ => ⟨false, []⟩) 12 0 (2 ^ 40 - 86400)
    (.extendDisputeWindow (generateResultId 12 1 0 1))

/-- The extension of that deadline makes it an early one. -/
theorem deadline_moves_earlier :
    ¬∀ (c : TeeContract) (s t : TeeState) (resultId : ℕ),
      initializeContract 15 1 10 11 = .ok c → Run (teeBody sampleRecover) (deployed c) s →
        (s.storage.results resultId).challenged = true → Run (teeBody sampleRecover) s t →
          (s.storage.results resultId).disputeDeadline ≤
            (t.storage.results resultId).disputeDeadline := by
  intro h
  obtain ⟨s, hs, hstorage, hentered⟩ := @run_of_plain sampleRecover
    (deployed (initialStorage 15 1 10 11)) lateDispute rfl
  obtain ⟨t, ht, hstorage', -⟩ := run_of_plain [lateExtension] hentered
  have hdeadline := h (initialStorage 15 1 10 11) s t (generateResultId 12 1 0 1) rfl hs
  rw [hstorage', hstorage] at hdeadline
  have hbackwards : ¬(((TeeVerifier.run sampleRecover (initialStorage 15 1 10 11)
      lateDispute).results (generateResultId 12 1 0 1)).challenged = true →
        ((TeeVerifier.run sampleRecover (initialStorage 15 1 10 11) lateDispute).results
            (generateResultId 12 1 0 1)).disputeDeadline ≤
          ((TeeVerifier.run sampleRecover (TeeVerifier.run sampleRecover
            (initialStorage 15 1 10 11) lateDispute) [lateExtension]).results
              (generateResultId 12 1 0 1)).disputeDeadline) := by
    decide +kernel
  exact hbackwards fun hchallenged => hdeadline hchallenged ht

/-- The result of a dispute that the challenger won is not valid. -/
theorem lost_result_not_valid :
    ∃ s, Run (teeBody sampleRecover) (deployed (initialStorage 15 1 10 11)) s ∧
      isResultValid s.storage (generateResultId 12 1 0 1) = false := by
  obtain ⟨s, hrun, hstorage, -⟩ := @run_of_plain sampleRecover
    (deployed (initialStorage 15 1 10 11)) (emptyProofRun ++ [emptyProofResolution]) rfl
  obtain ⟨-, hlost, -⟩ := result_lifecycle
    (show initializeContract 15 1 10 11 = .ok (initialStorage 15 1 10 11) from rfl) hrun
    (generateResultId 12 1 0 1)
  have hsettled : (TeeVerifier.run sampleRecover (initialStorage 15 1 10 11)
      (emptyProofRun ++ [emptyProofResolution])).disputeResolved (generateResultId 12 1 0 1) =
        true ∧ (TeeVerifier.run sampleRecover (initialStorage 15 1 10 11)
      (emptyProofRun ++ [emptyProofResolution])).disputeProverWon (generateResultId 12 1 0 1) =
        false := by
    decide +kernel
  change s.storage = TeeVerifier.run sampleRecover (initialStorage 15 1 10 11)
    (emptyProofRun ++ [emptyProofResolution]) at hstorage
  rw [← hstorage] at hsettled
  exact ⟨s, hrun, hlost hsettled.1 hsettled.2⟩

end WorldZk.TeeLifecycle
