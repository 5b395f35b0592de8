import WorldZk.TeeLifecycle

/-!
# Attestations and the results that they back

The id of a result mixes the sender and the block into the hashes, and an attestation signs neither.
A trace of accepted calls therefore tells which results were stored from one attestation.
-/

namespace WorldZk.AttestationReplay

open CheckedRuns ReentrantCalls TeeVerifier TeeDisputes TeeReentrancy TeeSolvency TeeLifecycle

/-! ## Submissions of a trace -/

/-- What a call of `submitResult` binds together. -/
structure Submission where
  sender : ℕ
  modelHash : ℕ
  inputHash : ℕ
  blockNumber : ℕ
  attestation : List UInt8
deriving DecidableEq, Repr

def Submission.resultId (submission : Submission) : ℕ :=
  generateResultId submission.sender submission.modelHash submission.inputHash
    submission.blockNumber

def submissionOf (tx : TeeMessage) : Option Submission :=
  match tx.operation with
  | .submitResult modelHash inputHash _ attestation =>
    some ⟨tx.msg.sender, modelHash, inputHash, tx.msg.blockNumber, attestation⟩
  | _ => none

/-- The submissions among the accepted calls. -/
def submissions (txs : List TeeMessage) : List Submission := txs.filterMap submissionOf

/-- The stored results whose submission carried the attestation. -/
def storedFrom (txs : List TeeMessage) (s : TeeState) (attestation : List UInt8) : Set ℕ :=
  { resultId | (s.storage.results resultId).submittedAt ≠ 0 ∧
      ∃ submission ∈ submissions txs,
        submission.attestation = attestation ∧ submission.resultId = resultId }

variable {recover : ℕ → List UInt8 → Option ℕ} {c : TeeContract} {s s₁ t : TeeState}
  {tx : TeeMessage} {txs : List TeeMessage}

/-! ## Calls that store no result -/

/-- The same results are stored, with the same submission times. -/
def SameStored (s t : TeeState) : Prop :=
  ∀ resultId, (t.storage.results resultId).submittedAt = (s.storage.results resultId).submittedAt

private theorem SameStored.setResult {resultId : ℕ} {r : PackedMLResult} (h : SameStored s s₁)
    (ht : t.storage.results = Function.update s₁.storage.results resultId r)
    (hr : r.submittedAt = (s₁.storage.results resultId).submittedAt) : SameStored s t := by
  intro id
  rw [← h id, ht]
  by_cases hid : id = resultId
  · subst hid
    rw [Function.update_self, hr]
  · rw [Function.update_of_ne hid]

private theorem payTo_sameStored {failed : TeeError} {resultId payee amount : ℕ}
    (hinvariant : amount ≤ s₁.storage.balance → TeeInvariant (paidState s₁ resultId payee amount))
    (hentered : s₁.entered = true) (hsame : SameStored s s₁) :
    (payTo s₁ failed resultId payee amount).Safe TeeInvariant Frame
      fun t => SameStored s { t with entered := false } := by
  refine safe_payTo hinvariant fun t _ _ hframe => ?_
  obtain ⟨-, hframe⟩ := hframe hentered
  intro id
  change (t.storage.results id).submittedAt = _
  rw [hframe.results]
  exact hsame id

private theorem settle_sameStored {resultId : ℕ} {valid : Bool} (h : TeeInvariant s₁)
    (hentered : s₁.entered = true) (hsame : SameStored s s₁)
    (hchallenged : (s₁.storage.results resultId).challenged = true)
    (hopen : s₁.storage.disputeResolved resultId = false) :
    (settle s₁ resultId valid).Safe TeeInvariant Frame
      fun t => SameStored s { t with entered := false } := by
  refine safe_check fun totalPot hpot => payTo_sameStored (fun hafford => ?_) hentered ?_
  · exact settle_invariant h hchallenged hopen hpot hafford
  · exact hsame.setResult rfl rfl

private theorem resolve_sameStored {resultId : ℕ} {call : VerifierCall} (h : TeeInvariant s₁)
    (hentered : s₁.entered = true) (hsame : SameStored s s₁) :
    (resolve s₁ resultId call).Safe TeeInvariant Frame
      fun t => SameStored s { t with entered := false } := by
  refine safe_check fun _ hdisputed => safe_check fun _ _ => ?_
  obtain ⟨hchallenged, hopen⟩ := checkDisputed_eq_ok.mp hdisputed
  refine ⟨h, safe_check fun valid _ => ?_, fun returnData t ht hframe =>
    safe_check fun valid _ => ?_⟩
  · exact settle_sameStored ⟨h.proverStake, h.finite, h.solvent, h.record⟩ hentered hsame
      hchallenged hopen
  · obtain ⟨hentered', hframe⟩ := hframe hentered
    refine settle_sameStored ⟨ht.proverStake, ht.finite, ht.solvent, ht.record⟩ hentered' ?_ ?_ ?_
    · intro id
      rw [← hsame id]
      exact congrArg (fun r => (r id).submittedAt) hframe.results
    · rw [hframe.results]
      exact hchallenged
    · rw [hframe.disputeResolved]
      exact hopen

private theorem finalize_sameStored {msg : Message} {resultId : ℕ} (h : TeeInvariant s₁)
    (hentered : s₁.entered = true) (hsame : SameStored s s₁) :
    (finalizeResult s₁ msg resultId).Safe TeeInvariant Frame
      fun t => SameStored s { t with entered := false } := by
  refine safe_check fun _ hcheck => ?_
  obtain ⟨hsubmitted, -⟩ := checkFinalize_eq_ok.mp hcheck
  dsimp only
  rw [if_pos ((h.record resultId).staked hsubmitted)]
  refine payTo_sameStored (fun hafford => finalize_invariant h hcheck hafford) hentered ?_
  exact hsame.setResult rfl rfl

private theorem guarded_sameStored {f : TeeState → TeeBody}
    (h : (f { s with entered := true }).Safe TeeInvariant Frame
      fun t => SameStored s { t with entered := false }) :
    (nonReentrant s f).Safe TeeInvariant Frame fun t => SameStored s t :=
  safe_nonReentrant fun _ => h

theorem dispatch_sameStored (h : TeeInvariant s) (htx : submissionOf tx = none) :
    (dispatchBody recover tx s).Safe TeeInvariant Frame fun t => SameStored s t := by
  have hguarded := h.setEntered true
  have hsame : SameStored s { s with entered := true } := fun _ => rfl
  obtain ⟨msg, operation⟩ := tx
  cases operation
  case submitResult => cases htx
  case challenge resultId =>
    refine safe_check fun _ _ => guarded_sameStored (safe_plain fun c hc => ?_)
    obtain ⟨-, -, -, deadline, rfl⟩ := challenge_eq_ok hc
    exact hsame.setResult rfl rfl
  case resolveDispute =>
    exact safe_check fun _ _ => guarded_sameStored (resolve_sameStored hguarded rfl hsame)
  case resolveDisputeHybrid =>
    exact safe_check fun _ _ => guarded_sameStored (safe_check fun _ _ =>
      resolve_sameStored hguarded rfl hsame)
  case resolveDisputeHybridChunked =>
    exact safe_check fun _ _ => guarded_sameStored (safe_check fun _ _ =>
      resolve_sameStored hguarded rfl hsame)
  case resolveDisputeByTimeout =>
    refine safe_check fun _ _ => guarded_sameStored (safe_check fun _ hdisputed =>
      safe_check fun _ _ => ?_)
    obtain ⟨hchallenged, hopen⟩ := checkDisputed_eq_ok.mp hdisputed
    exact settle_sameStored hguarded rfl hsame hchallenged hopen
  case extendDisputeWindow resultId =>
    apply guarded_sameStored (f := fun s => plain s (extendDisputeWindow s.storage msg resultId))
    refine safe_plain fun c hc => ?_
    obtain ⟨-, -, -, -, rfl⟩ := extendDisputeWindow_eq_ok hc
    exact hsame.setResult rfl rfl
  case finalize =>
    exact safe_check fun _ _ => guarded_sameStored (finalize_sameStored hguarded rfl hsame)
  case receive => exact fun _ => rfl
  all_goals
    refine safe_plain fun c hc => ?_
    have hadmin := admin_sameResults hc rfl
    exact fun id => congrArg (fun r => (r id).submittedAt) hadmin.results

theorem calls_sameStored (h : TeeInvariant s) (htx : submissionOf tx = none)
    (hcalls : Calls (teeBody recover) tx s t) : SameStored s t := by
  have hcredit := h.of_sameResults (credit_sameResults s.storage tx.msg.value)
  have hdispatch : (dispatchBody recover tx (withStorage s (credit s.storage tx.msg.value))).Safe
      TeeInvariant Frame fun t => SameStored (withStorage s (credit s.storage tx.msg.value)) t :=
    dispatch_sameStored hcredit htx
  have hsafe : (teeBody recover tx s).Safe TeeInvariant Frame fun t => SameStored s t :=
    safe_check fun _ _ => hdispatch.mono fun _ hsame => hsame
  exact (guarantees recover).calls_post hsafe hcalls

/-! ## Submissions -/

private theorem submitResult_stored {msg : Message} {modelHash inputHash resultId : ℕ}
    {result attestation : List UInt8} {c' : TeeContract}
    (h : submitResult recover c msg modelHash inputHash result attestation = .ok (resultId, c')) :
    resultId = generateResultId msg.sender modelHash inputHash msg.blockNumber ∧
      (c.results resultId).submittedAt = 0 ∧
      ∃ r, c' = setResult c resultId r ∧ r.submittedAt = uint40 msg.timestamp := by
  simp only [submitResult, bind_eq_ok] at h
  obtain ⟨_, -, _, -, h⟩ := h
  split at h
  · cases h
  · simp only [bind_eq_ok, require_eq_ok, pure_eq_ok, Prod.mk.injEq, beq_iff_eq] at h
    obtain ⟨_, -, _, -, _, hfresh, _, -, rfl, rfl⟩ := h
    exact ⟨rfl, hfresh, _, rfl, rfl⟩

/-- What an accepted submission stores. -/
structure Stores (s : TeeState) (tx : TeeMessage) (t : TeeState) (resultId : ℕ) : Prop where
  fresh : (s.storage.results resultId).submittedAt = 0
  stored : (t.storage.results resultId).submittedAt = uint40 tx.msg.timestamp
  others : ∀ id ≠ resultId, t.storage.results id = s.storage.results id

theorem calls_stores {submission : Submission} (htx : submissionOf tx = some submission)
    (hcalls : Calls (teeBody recover) tx s t) : Stores s tx t submission.resultId := by
  obtain ⟨msg, operation⟩ := tx
  cases operation
  case submitResult modelHash inputHash result attestation =>
    obtain rfl := Option.some.inj htx
    have hsafe : (teeBody recover ⟨msg, .submitResult modelHash inputHash result attestation⟩ s).Safe
        TeeInvariant Frame fun t => Stores s
          ⟨msg, .submitResult modelHash inputHash result attestation⟩ t
          (generateResultId msg.sender modelHash inputHash msg.blockNumber) := by
      refine safe_check fun _ _ => safe_check fun _ _ => safe_nonReentrant fun _ =>
        safe_plain fun c hc => ?_
      obtain ⟨⟨resultId, c'⟩, hsubmit, rfl⟩ := map_eq_ok.mp hc
      obtain ⟨rfl, hfresh, r, rfl, hr⟩ := submitResult_stored hsubmit
      refine ⟨hfresh, ?_, fun id hid => Function.update_of_ne hid _ _⟩
      exact (congrArg PackedMLResult.submittedAt (Function.update_self _ _ _)).trans hr
    exact (guarantees recover).calls_post hsafe hcalls
  all_goals cases htx

/-! ## Traces -/

/-- The stored results are those of the submissions, and each has an id of its own. -/
structure Recorded (accepted : List Submission) (s : TeeState) : Prop where
  stored : ∀ resultId, (s.storage.results resultId).submittedAt ≠ 0 ↔
    ∃ submission ∈ accepted, submission.resultId = resultId
  distinct : (accepted.map Submission.resultId).Nodup

theorem Recorded.of_sameStored {accepted : List Submission} (h : Recorded accepted s)
    (hsame : SameStored s t) : Recorded accepted t where
  stored resultId := by
    rw [hsame resultId]
    exact h.stored resultId
  distinct := h.distinct

theorem Recorded.of_stores {accepted : List Submission} {submission : Submission}
    (h : Recorded accepted s) (hstores : Stores s tx t submission.resultId)
    (htime : uint40 tx.msg.timestamp ≠ 0) : Recorded (accepted ++ [submission]) t where
  stored resultId := by
    simp only [List.mem_append, List.mem_singleton, or_and_right, exists_or, exists_eq_left]
    by_cases hid : resultId = submission.resultId
    · subst hid
      rw [hstores.stored]
      exact iff_of_true htime (Or.inr rfl)
    · rw [hstores.others resultId hid, h.stored resultId]
      exact (or_iff_left (Ne.symm hid)).symm
  distinct := by
    rw [List.map_append, List.map_singleton, List.nodup_append]
    refine ⟨h.distinct, List.nodup_singleton _, ?_⟩
    rintro id hid _ hnew rfl
    rw [List.mem_singleton] at hnew
    subst hnew
    obtain ⟨earlier, hearlier, heq⟩ := List.mem_map.mp hid
    exact (h.stored _).mpr ⟨earlier, hearlier, heq⟩ hstores.fresh

theorem Recorded.calls (h : Recorded (submissions txs) s) (hinvariant : TeeInvariant s)
    (htime : uint40 tx.msg.timestamp ≠ 0) (hcalls : Calls (teeBody recover) tx s t) :
    Recorded (submissions (txs ++ [tx])) t := by
  rw [submissions, List.filterMap_append]
  cases htx : submissionOf tx with
  | none =>
    rw [List.filterMap_cons_none htx, List.filterMap_nil, List.append_nil]
    exact h.of_sameStored (calls_sameStored hinvariant htx hcalls)
  | some submission =>
    rw [List.filterMap_cons_some htx, List.filterMap_nil]
    exact h.of_stores (calls_stores htx hcalls) htime

theorem recorded_of_trace {self chainId admin remainderVerifier : ℕ}
    (hc : initializeContract self chainId admin remainderVerifier = .ok c)
    (htrace : Trace (teeBody recover) (deployed c) txs s)
    (htimes : ∀ tx ∈ txs, uint40 tx.msg.timestamp ≠ 0) :
    Idle s ∧ Recorded (submissions txs) s := by
  induction htrace with
  | start =>
    refine ⟨idle_of_initializeContract hc, fun resultId => ?_, List.nodup_nil⟩
    simp only [initializeContract, bind_eq_ok, pure_eq_ok] at hc
    obtain ⟨_, -, rfl⟩ := hc
    simp [submissions, deployed, initialStorage, PackedMLResult.empty]
  | @step txs tx s t _ hcalls ih =>
    obtain ⟨hidle, hrecorded⟩ := ih fun tx htx => htimes tx (List.mem_append_left _ htx)
    have htime := htimes tx (List.mem_append_right _ (List.mem_singleton_self tx))
    exact ⟨(hidle.calls hcalls).1, hrecorded.calls hidle.invariant htime hcalls⟩

/-- In every trace the stored results come from its submissions, and no attestation backs two of
them exactly when no two accepted submissions carry the same attestation. -/
theorem attestation_backs_one_iff_not_replayed {self chainId admin remainderVerifier : ℕ}
    (hc : initializeContract self chainId admin remainderVerifier = .ok c)
    (htrace : Trace (teeBody recover) (deployed c) txs s)
    (htimes : ∀ tx ∈ txs, uint40 tx.msg.timestamp ≠ 0) :
    (∀ resultId, (s.storage.results resultId).submittedAt ≠ 0 ↔
      ∃ submission ∈ submissions txs, submission.resultId = resultId) ∧
    ((∀ attestation, (storedFrom txs s attestation).Subsingleton) ↔
      ((submissions txs).map Submission.attestation).Nodup) := by
  obtain ⟨-, hrecorded⟩ := recorded_of_trace hc htrace htimes
  refine ⟨hrecorded.stored, fun hone => ?_, fun hfresh attestation => ?_⟩
  · refine hrecorded.distinct.of_map.map_on fun a ha b hb hab => ?_
    refine List.inj_on_of_nodup_map hrecorded.distinct ha hb ?_
    refine hone a.attestation ⟨(hrecorded.stored _).mpr ⟨a, ha, rfl⟩, a, ha, rfl, rfl⟩ ?_
    exact ⟨(hrecorded.stored _).mpr ⟨b, hb, rfl⟩, b, hb, hab.symm, rfl⟩
  · rintro _ ⟨-, a, ha, hattestation, rfl⟩ _ ⟨-, b, hb, rfl, rfl⟩
    rw [List.inj_on_of_nodup_map hfresh ha hb hattestation]

/-! ## A replay -/

theorem trace_of_execute {txs : List Transaction} (hentered : s.entered = false)
    (h : txs.foldlM (execute recover) s.storage = .ok c) :
    ∃ t, Trace (teeBody recover) s (txs.map fun tx => ⟨tx.msg, tx.operation⟩) t ∧
      t.storage = c ∧ t.entered = false := by
  induction txs using List.reverseRecOn generalizing c with
  | nil =>
    obtain rfl := Except.ok.inj h
    exact ⟨s, .start, rfl, hentered⟩
  | append_singleton txs tx ih =>
    rw [List.foldlM_append, bind_eq_ok] at h
    obtain ⟨c₁, hfirst, hlast⟩ := h
    obtain ⟨u, htrace, rfl, hu⟩ := ih hfirst
    rw [List.foldlM_cons, bind_eq_ok] at hlast
    obtain ⟨c₂, hexecute, hnil⟩ := hlast
    obtain rfl := Except.ok.inj hnil
    obtain ⟨t, hcalls, ht⟩ := calls_of_execute hu hexecute
    rw [List.map_append]
    exact ⟨t, htrace.step hcalls, ht⟩

/-- An attested result is submitted by `12` in block `1` and again by `14` in block `2`. -/
def replayRun : List Transaction :=
  let verifiers : Verifiers := fun _ _ => ⟨false, []⟩
  let replayed := sampleTransaction verifiers 14 ETHER 112
    (.submitResult 1 0 [] (sampleAttestation 1))
  [sampleTransaction verifiers 10 0 100 (.registerEnclave sampleEnclave 0),
    sampleTransaction verifiers 12 ETHER 101 (.submitResult 1 0 [] (sampleAttestation 1)),
    { replayed with msg := { replayed.msg with blockNumber := 2 } }]

def replayTrace : List TeeMessage := replayRun.map fun tx => ⟨tx.msg, tx.operation⟩

private theorem replayRun_succeeds (n : ℕ) :
    ∃ c, (replayRun.take n).foldlM (execute sampleRecover) (initialStorage 15 1 10 11) = .ok c := by
  have hok : (replayRun.foldlM (execute sampleRecover) (initialStorage 15 1 10 11)).isOk = true := by
    decide +kernel
  rw [← List.take_append_drop n replayRun, foldlM_append] at hok
  cases hrun : (replayRun.take n).foldlM (execute sampleRecover) (initialStorage 15 1 10 11) with
  | ok c => exact ⟨c, rfl⟩
  | error e =>
    rw [hrun] at hok
    cases hok

/-- Before the replay the attestation backs one result. -/
theorem attested_once :
    ∃ s, Trace (teeBody sampleRecover) (deployed (initialStorage 15 1 10 11))
        (replayTrace.take 2) s ∧
      ∀ attestation, (storedFrom (replayTrace.take 2) s attestation).Subsingleton := by
  obtain ⟨c, hc⟩ := replayRun_succeeds 2
  obtain ⟨s, htrace, -⟩ := trace_of_execute (s := deployed (initialStorage 15 1 10 11)) rfl hc
  rw [List.map_take] at htrace
  refine ⟨s, htrace, (attestation_backs_one_iff_not_replayed
    (show initializeContract 15 1 10 11 = .ok (initialStorage 15 1 10 11) from rfl) htrace
    (by decide)).2.mpr (by decide)⟩

/-- The replay stores a second result under another id. -/
theorem attestation_replayed :
    ∃ s, Trace (teeBody sampleRecover) (deployed (initialStorage 15 1 10 11)) replayTrace s ∧
      generateResultId 12 1 0 1 ∈ storedFrom replayTrace s (sampleAttestation 1) ∧
      generateResultId 14 1 0 2 ∈ storedFrom replayTrace s (sampleAttestation 1) ∧
      generateResultId 12 1 0 1 ≠ generateResultId 14 1 0 2 := by
  obtain ⟨c, hc⟩ := replayRun_succeeds 3
  obtain ⟨s, htrace, -⟩ := trace_of_execute (s := deployed (initialStorage 15 1 10 11)) rfl hc
  obtain ⟨-, hrecorded⟩ := recorded_of_trace
    (show initializeContract 15 1 10 11 = .ok (initialStorage 15 1 10 11) from rfl) htrace
    (by decide)
  have hsubmissions : submissions replayTrace =
      [⟨12, 1, 0, 1, sampleAttestation 1⟩, ⟨14, 1, 0, 2, sampleAttestation 1⟩] := rfl
  have hfirst : (⟨12, 1, 0, 1, sampleAttestation 1⟩ : Submission) ∈ submissions replayTrace :=
    hsubmissions ▸ List.mem_cons_self
  have hsecond : (⟨14, 1, 0, 2, sampleAttestation 1⟩ : Submission) ∈ submissions replayTrace :=
    hsubmissions ▸ List.mem_cons_of_mem _ List.mem_cons_self
  refine ⟨s, htrace, ⟨(hrecorded.stored _).mpr ⟨_, hfirst, rfl⟩, _, hfirst, rfl, rfl⟩,
    ⟨(hrecorded.stored _).mpr ⟨_, hsecond, rfl⟩, _, hsecond, rfl, rfl⟩, fun heq => ?_⟩
  have hdistinct := hrecorded.distinct
  rw [show replayRun.take 3 = replayRun from rfl] at hdistinct
  change ((submissions replayTrace).map Submission.resultId).Nodup at hdistinct
  rw [hsubmissions] at hdistinct
  exact (List.nodup_cons.mp hdistinct).1 (List.mem_singleton.mpr heq)

end WorldZk.AttestationReplay
