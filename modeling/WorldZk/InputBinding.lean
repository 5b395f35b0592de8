import WorldZk.EngineRefunds

/-!
# The input of a request and the proof that completes it

A request stores the digest of its input, and no later function reads it. The digest stays as it
was requested, so a journal that commits to it binds a proof to its input. The engine does not ask
for such a journal, and every proof that the verifier accepts can be used for any input.
-/

namespace WorldZk.InputBinding

open CheckedRuns ReentrantCalls OwnedContracts ExecutionEngine EngineAccounts EngineSettlement
  EngineRefunds

/-! ## What is asked for stays -/

/-- The requests that exist keep their program and their input. -/
structure SameInputs (s t : EngineState) : Prop where
  next : s.storage.nextRequestId ≤ t.storage.nextRequestId
  imageId : ∀ requestId < s.storage.nextRequestId,
    (t.storage.requests requestId).imageId = (s.storage.requests requestId).imageId
  inputDigest : ∀ requestId < s.storage.nextRequestId,
    (t.storage.requests requestId).inputDigest = (s.storage.requests requestId).inputDigest

variable {s s₀ t u : EngineState} {tx : EngineMessage} {txs : List EngineMessage} {requestId : ℕ}

theorem SameInputs.of_eq (hrequests : t.storage.requests = s.storage.requests)
    (hnext : t.storage.nextRequestId = s.storage.nextRequestId) : SameInputs s t :=
  ⟨hnext.ge, fun _ _ => by rw [hrequests], fun _ _ => by rw [hrequests]⟩

theorem SameInputs.refl (s : EngineState) : SameInputs s s := .of_eq rfl rfl

theorem SameInputs.trans (hst : SameInputs s t) (htu : SameInputs t u) : SameInputs s u where
  next := hst.next.trans htu.next
  imageId id hid := (htu.imageId id (hid.trans_le hst.next)).trans (hst.imageId id hid)
  inputDigest id hid := (htu.inputDigest id (hid.trans_le hst.next)).trans (hst.inputDigest id hid)

private theorem SameInputs.update {req : ExecutionRequest} (h : SameInputs s t)
    (hrequests : u.storage.requests = Function.update t.storage.requests requestId req)
    (hnext : u.storage.nextRequestId = t.storage.nextRequestId)
    (himage : req.imageId = (t.storage.requests requestId).imageId)
    (hdigest : req.inputDigest = (t.storage.requests requestId).inputDigest) : SameInputs s u := by
  refine h.trans ⟨hnext.ge, fun id _ => ?_, fun id _ => ?_⟩
  · rw [hrequests]
    by_cases hid : id = requestId
    · rw [hid, Function.update_self, himage]
    · rw [Function.update_of_ne hid]
  · rw [hrequests]
    by_cases hid : id = requestId
    · rw [hid, Function.update_self, hdigest]
    · rw [Function.update_of_ne hid]

theorem aboutRequests_sameInputs (s : EngineState) :
    AboutRequests (fun _ => True) SameInputs (SameInputs s) where
  holds := fun _ _ => trivial
  resume := fun _ _ ht _ htu => ht.trans htu
  update := fun _ _ _ _ ht hterms hrequests hnext =>
    ht.update hrequests hnext hterms.imageId hterms.inputDigest

private theorem requestExecution_sameInputs {ctx : CallContext} {outside : Outside}
    {c : EngineStorage} {imageId inputDigest callbackContract expirationSeconds : ℕ}
    (hc : requestExecution s.storage ctx outside imageId inputDigest callbackContract
      expirationSeconds = .ok c) : SameInputs s (ExecutionEngine.withStorage s c) := by
  obtain ⟨-, req, -, -, -, -, rfl⟩ := requestExecution_eq_ok hc
  refine ⟨Nat.le_succ _, fun id hid => ?_, fun id hid => ?_⟩
  · exact congrArg ExecutionRequest.imageId (Function.update_of_ne hid.ne _ _)
  · exact congrArg ExecutionRequest.inputDigest (Function.update_of_ne hid.ne _ _)

theorem guarantees_inputs : Guarantees engineBody (fun _ => True) SameInputs where
  refl := SameInputs.refl
  trans := fun _ _ _ => SameInputs.trans
  safe := by
    intro tx s _
    refine Body.safe_after fun _ _ => ?_
    have hcredit : SameInputs s (credit s tx.context.value) := .of_eq rfl rfl
    have hdispatch : (dispatch tx (credit s tx.context.value)).Safe _ _ _ :=
      (aboutRequests_sameInputs s).safe_dispatch hcredit fun _ _ _ _ _ hc =>
        hcredit.trans (requestExecution_sameInputs hc)
    exact hdispatch.mono fun t ht => ⟨trivial, ht⟩

/-! ## Completions -/

structure Completion where
  requestId : ℕ
  sealBytes : List UInt8
  journal : List UInt8
deriving DecidableEq, Repr

def completionOf (tx : EngineMessage) : Option Completion :=
  match tx.operation with
  | .submitProof requestId sealBytes journal => some ⟨requestId, sealBytes, journal⟩
  | _ => none

/-- The proofs that were accepted among the calls of a trace. -/
def completions (txs : List EngineMessage) : List Completion := txs.filterMap completionOf

/-- No pair of a seal and a journal has completed requests for two inputs of one program. -/
def InputBound (txs : List EngineMessage) (s : EngineState) : Prop :=
  ∀ a ∈ completions txs, ∀ b ∈ completions txs,
    (s.storage.requests a.requestId).imageId = (s.storage.requests b.requestId).imageId →
    (s.storage.requests a.requestId).inputDigest ≠ (s.storage.requests b.requestId).inputDigest →
    ¬(a.sealBytes = b.sealBytes ∧ a.journal = b.journal)

/-- The journal that the call submits commits to the input of the request. -/
def Commits (digestOf : List UInt8 → ℕ) (s : EngineState) (tx : EngineMessage) : Prop :=
  ∀ completion, completionOf tx = some completion →
    digestOf completion.journal = (s.storage.requests completion.requestId).inputDigest

/-- A trace of calls that all submit such journals. -/
inductive CommittedTrace (digestOf : List UInt8 → ℕ) (s₀ : EngineState) :
    List EngineMessage → EngineState → Prop
  | start : CommittedTrace digestOf s₀ [] s₀
  | step {txs : List EngineMessage} {tx : EngineMessage} {s t : EngineState} :
      CommittedTrace digestOf s₀ txs s → Commits digestOf s tx → Calls engineBody tx s t →
      CommittedTrace digestOf s₀ (txs ++ [tx]) t

theorem calls_completion {completion : Completion} (h : EngineInvariant s)
    (htx : completionOf tx = some completion) (hcalls : Calls engineBody tx s t) :
    completion.requestId < s.storage.nextRequestId := by
  obtain ⟨ctx, operation, outside⟩ := tx
  cases operation
  case submitProof requestId sealBytes journal =>
    obtain rfl := Option.some.inj htx
    have hsafe : (engineBody ⟨ctx, .submitProof requestId sealBytes journal, outside⟩ s).Safe
        (fun _ => True) SameInputs fun _ => requestId < s.storage.nextRequestId := by
      refine Body.safe_after fun _ _ => ?_
      change (nonReentrant (credit s ctx.value) _).Safe _ _ _
      refine Body.safe_guarded fun _ => Body.safe_after fun _ hcheck => ?_
      exact Body.safe_const (h.lt_next (checkProof_eq_ok hcheck).1)
    exact guarantees_inputs.calls_post hsafe hcalls
  all_goals cases htx

/-- The completed requests exist, and their journals commit to their inputs. -/
theorem CommittedTrace.commits {digestOf : List UInt8 → ℕ} {admin registry verifier feeRecipient : ℕ}
    (hconstruct : construct admin registry verifier feeRecipient = .ok s₀)
    (htrace : CommittedTrace digestOf s₀ txs s) :
    EngineInvariant s ∧ ∀ completion ∈ completions txs,
      completion.requestId < s.storage.nextRequestId ∧
        digestOf completion.journal = (s.storage.requests completion.requestId).inputDigest := by
  induction htrace with
  | start => exact ⟨(construct_invariant hconstruct).1, fun _ h => absurd h List.not_mem_nil⟩
  | @step txs tx s t _ hcommits hcalls ih =>
    obtain ⟨hinvariant, hearlier⟩ := ih
    obtain ⟨-, hsame⟩ := guarantees_inputs.calls trivial hcalls
    refine ⟨(guarantees.calls hinvariant hcalls).1, fun completion hmem => ?_⟩
    have hbefore : completion.requestId < s.storage.nextRequestId ∧
        digestOf completion.journal = (s.storage.requests completion.requestId).inputDigest := by
      rw [completions, List.filterMap_append, List.mem_append] at hmem
      rcases hmem with hold | hnew
      · exact hearlier completion hold
      · obtain ⟨_, hlast, htx⟩ := List.mem_filterMap.mp hnew
        obtain rfl := List.mem_singleton.mp hlast
        exact ⟨calls_completion hinvariant htx hcalls, hcommits completion htx⟩
    refine ⟨hbefore.1.trans_le hsame.next, ?_⟩
    rw [hsame.inputDigest _ hbefore.1]
    exact hbefore.2

/-! ## Replays -/

/-- What it takes for a pair to complete a request of the program. -/
structure Acceptable (outside : Outside) (imageId : ℕ) (sealBytes journal : List UInt8) : Prop where
  nonzero : imageId ≠ 0
  active : outside.isProgramActive imageId = true
  sealNonempty : sealBytes ≠ []
  journalNonempty : journal ≠ []
  verified : verifyProof outside imageId sealBytes journal = .ok ()

/-- An engine between transactions that its owner has left as it was deployed. -/
structure Serving (s : EngineState) : Prop where
  entered : s.entered = false
  unpaused : s.storage.admin.paused = false
  reputation : s.storage.reputation = 0
  fee : s.storage.protocolFeeBps = DEFAULT_PROTOCOL_FEE_BPS

def sentAt1000 (sender value : ℕ) (operation : Operation) (outside : Outside) : EngineMessage :=
  ⟨⟨sender, value, 1000, 1, timestamp_1000⟩, operation, outside⟩

/-- A request as `50` makes it. -/
def askedFor (requestId imageId inputDigest : ℕ) : ExecutionRequest :=
  { id := requestId
    imageId := imageId
    inputDigest := inputDigest
    requester := 50
    createdAt := uint48 1000
    expiresAt := uint48 4600
    callbackContract := 0
    status := .pending
    claimedBy := 0
    claimedAt := 0
    claimDeadline := 0
    tip := MIN_TIP
    maxTip := MIN_TIP }

/-- The request after `51` has claimed it. -/
def claimedFrom (req : ExecutionRequest) : ExecutionRequest :=
  { req with
    status := .claimed
    claimedBy := 51
    claimedAt := uint48 1000
    claimDeadline := uint48 1600 }

variable {outside : Outside} {imageId inputDigest : ℕ} {sealBytes journal : List UInt8}

private theorem uint48_eq {n : ℕ} (h : n < 2 ^ 48) : uint48 n = n := by
  rw [uint48, Nat.mod_eq_of_lt h]

private theorem eval_nonReentrant {f : EngineState → EngineBody} {answer : ExternalCall → Option Unit}
    (hs : s.entered = false) (h : (f { s with entered := true }).eval answer = .ok t) :
    (nonReentrant s f).eval answer = .ok { t with entered := false } := by
  rw [nonReentrant, Body.guarded, hs, if_neg Bool.false_ne_true, Body.eval_atEnd, h]
  rfl

private theorem eval_payTo {p : Payment} {next : EngineState → EngineBody}
    (h : p.amount ≤ s.storage.balance) :
    (payTo s p next).eval (fun _ => some ()) = (next (paidState s p)).eval fun _ => some () := by
  rw [payTo, if_pos h]
  rfl

private theorem ofAdmin_whenNotPaused {admin : Administration} (h : admin.paused = false) :
    ofAdmin (whenNotPaused admin) = .ok () := by
  rw [whenNotPaused, h]
  rfl

/-- The storage after `50` has asked for an execution. -/
private def askedStorage (s : EngineState) (imageId inputDigest : ℕ) : EngineStorage :=
  { setRequest (credit s MIN_TIP).storage s.storage.nextRequestId
      (askedFor s.storage.nextRequestId imageId inputDigest) with
    nextRequestId := s.storage.nextRequestId + 1 }

private theorem ask_calls (h : Serving s) (hnext : s.storage.nextRequestId + 1 < UINT256)
    (himage : imageId ≠ 0) (hactive : outside.isProgramActive imageId = true) :
    ∃ t, Calls engineBody
        (sentAt1000 50 MIN_TIP (.requestExecution imageId inputDigest 0 0) outside) s t ∧
      Serving t ∧ t.storage = askedStorage s imageId inputDigest := by
  have hrequest : requestExecution (credit s MIN_TIP).storage ⟨50, MIN_TIP, 1000, 1, by decide⟩
      outside imageId inputDigest 0 0 = .ok (askedStorage s imageId inputDigest) := by
    simp only [requestExecution, bind_eq_ok, require_eq_ok, decide_eq_true_eq, checkedAdd_eq_ok,
      pure_eq_ok, bne_iff_ne]
    refine ⟨(), ?_, (), himage, (), le_rfl, (), hactive, (), by decide, (), by decide, 4600,
      ⟨by decide, rfl⟩, (), by decide, _, ⟨hnext, rfl⟩, (), by decide, rfl⟩
    exact ofAdmin_whenNotPaused h.unpaused
  have heval : Body.eval (fun _ => some ()) (plain (credit s MIN_TIP) (requestExecution
      (credit s MIN_TIP).storage ⟨50, MIN_TIP, 1000, 1, by decide⟩ outside imageId inputDigest
      0 0)) = .ok (withStorage (credit s MIN_TIP) (askedStorage s imageId inputDigest)) := by
    rw [hrequest]
    rfl
  exact ⟨_, .of_eval heval, ⟨h.entered, h.unpaused, h.reputation, h.fee⟩, rfl⟩

private theorem claim_calls (h : Serving s)
    (hreq : s.storage.requests requestId = askedFor requestId imageId inputDigest)
    (hid : requestId ≠ 0) :
    ∃ t, Calls engineBody (sentAt1000 51 0 (.claimExecution requestId) outside) s t ∧
      Serving t ∧ t.storage = setRequest s.storage requestId
        (claimedFrom (askedFor requestId imageId inputDigest)) := by
  have hclaim : checkClaim s.storage ⟨51, 0, 1000, 1, by decide⟩ requestId = .ok 0 := by
    rw [checkClaim, hreq]
    simp only [bind_eq_ok, require_eq_ok, decide_eq_true_eq, bne_iff_ne]
    refine ⟨(), hid, (), ?_, rfl⟩
    change 1000 ≤ uint48 4600
    rw [uint48_eq (by decide)]
    decide
  have hdeadline : checkedAdd EngineError.panicOverflow 1000 CLAIM_WINDOW = .ok 1600 :=
    checkedAdd_eq_ok.mpr ⟨by decide, rfl⟩
  have hbody : (claimExecution { s with entered := true } ⟨51, 0, 1000, 1, by decide⟩ outside
      requestId).eval (fun _ => some ()) = .ok (withStorage { s with entered := true }
        (setRequest s.storage requestId (claimedFrom (askedFor requestId imageId inputDigest)))) := by
    simp only [claimExecution, Body.eval_after, ofAdmin_whenNotPaused h.unpaused, hclaim, hdeadline,
      hreq]
    rfl
  have heval := eval_nonReentrant (f := fun s => claimExecution s ⟨51, 0, 1000, 1, by decide⟩
    outside requestId) h.entered hbody
  exact ⟨_, .of_eval heval, ⟨rfl, h.unpaused, h.reputation, h.fee⟩, rfl⟩

/-- The prover's share of the smallest tip. -/
def proverShare : ℕ := MIN_TIP - MIN_TIP * DEFAULT_PROTOCOL_FEE_BPS / 10000

/-- The state after a proof whose payments are all taken. -/
private def provedState (s : EngineState) (c : EngineStorage) (prover requestId share fee : ℕ) :
    EngineState :=
  paidState (paidState (withStorage s c) ⟨requestId, .payout, prover, share⟩)
    ⟨requestId, .fee, c.feeRecipient, fee⟩

private theorem eval_submitProof {ctx : CallContext} {c : EngineStorage} {payout share fee : ℕ}
    (hcheck : checkProof s.storage ctx outside requestId sealBytes journal = .ok ())
    (hpayout : calculatePayout (s.storage.requests requestId) ctx.timestamp = .ok payout)
    (hsplit : splitPayout s.storage.protocolFeeBps payout = .ok (share, fee))
    (hcomplete : completeRequest s.storage ctx requestId share = .ok c)
    (hreputation : c.reputation = 0) (hcallback : (c.requests requestId).callbackContract = 0)
    (hshare : share ≤ c.balance) (hfee : fee ≤ c.balance - share) (hpos : 0 < fee) :
    (submitProof s ctx outside requestId sealBytes journal).eval (fun _ => some ()) =
      .ok (provedState s c ctx.sender requestId share fee) := by
  have hnobody : ¬(withStorage s c).storage.reputation ≠ 0 := not_not.mpr hreputation
  rw [submitProof, Body.eval_after, hcheck, ok_bind, Body.eval_after, hpayout, ok_bind,
    Body.eval_after, hsplit, ok_bind, Body.eval_after, hcomplete, ok_bind]
  rw [recordSuccess, if_neg hnobody, eval_payTo hshare]
  rw [if_pos hpos, eval_payTo hfee, runCallback]
  exact congrArg (Body.eval _) (if_neg (not_not.mpr hcallback))

private theorem prove_calls (h : Serving s) (haccept : Acceptable outside imageId sealBytes journal)
    (hreq : s.storage.requests requestId = claimedFrom (askedFor requestId imageId inputDigest))
    (hid : requestId ≠ 0) (hbalance : MIN_TIP ≤ s.storage.balance)
    (hcount : s.storage.proverCompletedCount 51 + 1 < UINT256)
    (hearnings : s.storage.proverEarnings 51 + proverShare < UINT256) :
    ∃ t, Calls engineBody (sentAt1000 51 0 (.submitProof requestId sealBytes journal) outside) s t ∧
      Serving t ∧ t.storage.requests = Function.update s.storage.requests requestId
        { claimedFrom (askedFor requestId imageId inputDigest) with status := .completed } ∧
      t.storage.balance = s.storage.balance - MIN_TIP ∧
      t.storage.proverCompletedCount = Function.update s.storage.proverCompletedCount 51
        (s.storage.proverCompletedCount 51 + 1) ∧
      t.storage.proverEarnings = Function.update s.storage.proverEarnings 51
        (s.storage.proverEarnings 51 + proverShare) := by
  have hcheck : checkProof s.storage ⟨51, 0, 1000, 1, by decide⟩ outside requestId sealBytes journal =
      .ok () := by
    simp only [checkProof, hreq, bind_eq_ok, require_eq_ok, decide_eq_true_eq, bne_iff_ne]
    refine ⟨(), ofAdmin_whenNotPaused h.unpaused, (), hid, (), rfl, (), rfl, (), ?_, (),
      haccept.sealNonempty, (), haccept.journalNonempty, haccept.verified⟩
    change 1000 ≤ uint48 1600
    rw [uint48_eq (by decide)]
    decide
  have hpayout : calculatePayout (s.storage.requests requestId) 1000 = .ok MIN_TIP := by
    have helapsed : checkedSub EngineError.panicOverflow 1000 (uint48 1000) = .ok 0 := by
      rw [uint48_eq (by decide)]
      exact checkedSub_eq_ok.mpr ⟨le_rfl, rfl⟩
    have hscaled : checkedMul EngineError.panicOverflow MIN_TIP 0 = .ok 0 :=
      checkedMul_eq_ok.mpr ⟨by decide, rfl⟩
    rw [hreq, calculatePayout]
    simp only [bind_eq_ok]
    refine ⟨0, helapsed, ?_⟩
    rw [if_neg (by decide)]
    simp only [bind_eq_ok]
    exact ⟨0, hscaled, checkedSub_eq_ok.mpr ⟨Nat.zero_le _, rfl⟩⟩
  have hsplit : splitPayout s.storage.protocolFeeBps MIN_TIP =
      .ok (proverShare, MIN_TIP * DEFAULT_PROTOCOL_FEE_BPS / 10000) := by
    rw [h.fee]
    simp only [splitPayout, bind_eq_ok, pure_eq_ok, Prod.mk.injEq]
    exact ⟨_, checkedMul_eq_ok.mpr ⟨by decide, rfl⟩, _,
      checkedSub_eq_ok.mpr ⟨by decide, rfl⟩, rfl, rfl⟩
  have hcomplete : completeRequest s.storage ⟨51, 0, 1000, 1, by decide⟩ requestId proverShare =
      .ok { setRequest s.storage requestId
          { claimedFrom (askedFor requestId imageId inputDigest) with status := .completed } with
        proverCompletedCount := Function.update s.storage.proverCompletedCount 51
          (s.storage.proverCompletedCount 51 + 1)
        proverEarnings := Function.update s.storage.proverEarnings 51
          (s.storage.proverEarnings 51 + proverShare) } := by
    simp only [completeRequest, bind_eq_ok, pure_eq_ok, hreq]
    exact ⟨_, checkedAdd_eq_ok.mpr ⟨hcount, rfl⟩, _, checkedAdd_eq_ok.mpr ⟨hearnings, rfl⟩, rfl⟩
  have hfee : 0 < MIN_TIP * DEFAULT_PROTOCOL_FEE_BPS / 10000 := by decide
  have hshares : proverShare + MIN_TIP * DEFAULT_PROTOCOL_FEE_BPS / 10000 = MIN_TIP :=
    Nat.sub_add_cancel (by decide)
  have hbody := eval_submitProof (s := { s with entered := true }) hcheck hpayout hsplit hcomplete
    h.reputation (by
      change (Function.update s.storage.requests requestId _ requestId).callbackContract = 0
      rw [Function.update_self]
      rfl)
    (show proverShare ≤ s.storage.balance by omega)
    (show _ ≤ s.storage.balance - proverShare by omega) hfee
  have heval := eval_nonReentrant (f := fun s => submitProof s ⟨51, 0, 1000, 1, by decide⟩ outside
    requestId sealBytes journal) h.entered hbody
  refine ⟨_, .of_eval heval, ⟨rfl, h.unpaused, h.reputation, h.fee⟩, rfl, ?_, rfl, rfl⟩
  change s.storage.balance - proverShare - MIN_TIP * DEFAULT_PROTOCOL_FEE_BPS / 10000 = _
  omega

/-- Two requests of one program, and one pair submitted for both. -/
def replayTrace (outside : Outside) (imageId inputDigest inputDigest' : ℕ)
    (sealBytes journal : List UInt8) : List EngineMessage :=
  [sentAt1000 50 MIN_TIP (.requestExecution imageId inputDigest 0 0) outside,
    sentAt1000 50 MIN_TIP (.requestExecution imageId inputDigest' 0 0) outside,
    sentAt1000 51 0 (.claimExecution 1) outside, sentAt1000 51 0 (.claimExecution 2) outside,
    sentAt1000 51 0 (.submitProof 1 sealBytes journal) outside,
    sentAt1000 51 0 (.submitProof 2 sealBytes journal) outside]

/-- The accounts that bound what a proof can add: the balance, and what the prover has so far. -/
private structure Accounts (s : EngineState) (balance : ℕ) : Prop where
  count : s.storage.proverCompletedCount 51 = 0
  earnings : s.storage.proverEarnings 51 = 0
  balance : s.storage.balance = balance

private theorem Accounts.asked {t : EngineState} {balance : ℕ} (h : Accounts s balance)
    (ht : t.storage = askedStorage s imageId inputDigest) : Accounts t (balance + MIN_TIP) := by
  constructor
  · rw [ht]
    exact h.count
  · rw [ht]
    exact h.earnings
  · rw [ht, ← h.balance]
    rfl

private theorem Accounts.claimed {t : EngineState} {balance : ℕ} {req : ExecutionRequest}
    (h : Accounts s balance) (ht : t.storage = setRequest s.storage requestId req) :
    Accounts t balance := by
  constructor
  · rw [ht]
    exact h.count
  · rw [ht]
    exact h.earnings
  · rw [ht]
    exact h.balance

theorem replayed_of_acceptable {admin registry verifier feeRecipient : ℕ}
    (hconstruct : construct admin registry verifier feeRecipient = .ok s₀)
    (inputDigest inputDigest' : ℕ) (haccept : Acceptable outside imageId sealBytes journal) :
    ∃ s, Trace engineBody s₀
        (replayTrace outside imageId inputDigest inputDigest' sealBytes journal) s ∧
      (s.storage.requests 1).imageId = imageId ∧ (s.storage.requests 2).imageId = imageId ∧
      (s.storage.requests 1).inputDigest = inputDigest ∧
      (s.storage.requests 2).inputDigest = inputDigest' := by
  obtain ⟨hserving, hnext, haccounts⟩ : Serving s₀ ∧ s₀.storage.nextRequestId = 1 ∧
      Accounts s₀ 0 := by
    simp only [construct, bind_eq_ok, pure_eq_ok] at hconstruct
    obtain ⟨_, -, _, -, _, -, _, -, rfl⟩ := hconstruct
    exact ⟨⟨rfl, rfl, rfl, rfl⟩, rfl, rfl, rfl, rfl⟩
  obtain ⟨s₁, hcalls₁, hserving₁, h₁⟩ := @ask_calls s₀ outside imageId inputDigest hserving
    (by rw [hnext]; decide) haccept.nonzero haccept.active
  have hnext₁ : s₁.storage.nextRequestId = 2 := by rw [h₁, askedStorage, hnext]
  obtain ⟨s₂, hcalls₂, hserving₂, h₂⟩ := @ask_calls s₁ outside imageId inputDigest' hserving₁
    (by rw [hnext₁]; decide) haccept.nonzero haccept.active
  have haccounts₂ := (haccounts.asked h₁).asked h₂
  rw [askedStorage, hnext] at h₁
  rw [askedStorage, hnext₁] at h₂
  obtain ⟨s₃, hcalls₃, hserving₃, h₃⟩ := @claim_calls s₂ 1 outside imageId inputDigest hserving₂
    (by simp [h₂, h₁, setRequest, credit, withStorage]) one_ne_zero
  obtain ⟨s₄, hcalls₄, hserving₄, h₄⟩ := @claim_calls s₃ 2 outside imageId inputDigest' hserving₃
    (by simp [h₃, h₂, setRequest]) two_ne_zero
  obtain ⟨hcount₄, hearnings₄, hbalance₄⟩ := (haccounts₂.claimed h₃).claimed h₄
  obtain ⟨s₅, hcalls₅, hserving₅, hrequests₅, hbalance₅, hcount₅, hearnings₅⟩ :=
    @prove_calls s₄ 1 outside imageId inputDigest _ _ hserving₄ haccept
      (by simp [h₄, h₃, setRequest]) one_ne_zero (by omega) (by rw [hcount₄]; decide)
      (by rw [hearnings₄]; decide)
  obtain ⟨s₆, hcalls₆, -, hrequests₆, -⟩ :=
    @prove_calls s₅ 2 outside imageId inputDigest' _ _ hserving₅ haccept
      (by simp [hrequests₅, h₄, setRequest]) two_ne_zero (by omega)
      (by rw [hcount₅, Function.update_self, hcount₄]; decide)
      (by rw [hearnings₅, Function.update_self, hearnings₄]; decide)
  have htrace := (((((Trace.start.step hcalls₁).step hcalls₂).step hcalls₃).step hcalls₄).step
    hcalls₅).step hcalls₆
  refine ⟨s₆, htrace, ?_, ?_, ?_, ?_⟩ <;>
    simp [hrequests₆, hrequests₅, claimedFrom, askedFor]

private theorem not_inputBound_replay {inputDigest' : ℕ} (hdigests : inputDigest ≠ inputDigest')
    (himage₁ : (s.storage.requests 1).imageId = imageId)
    (himage₂ : (s.storage.requests 2).imageId = imageId)
    (hdigest₁ : (s.storage.requests 1).inputDigest = inputDigest)
    (hdigest₂ : (s.storage.requests 2).inputDigest = inputDigest') :
    ¬InputBound (replayTrace outside imageId inputDigest inputDigest' sealBytes journal) s := by
  intro hbound
  refine hbound ⟨1, sealBytes, journal⟩ List.mem_cons_self ⟨2, sealBytes, journal⟩
    (List.mem_cons_of_mem _ List.mem_cons_self) ?_ ?_ ⟨rfl, rfl⟩
  · rw [himage₁, himage₂]
  · rw [hdigest₁, hdigest₂]
    exact hdigests

/-- In every run whose journals commit to the inputs of their requests a pair completes requests
for one input of a program only. Without that every pair that the verifier accepts completes
requests for any two inputs. -/
theorem completions_bound_to_input {admin registry verifier feeRecipient : ℕ}
    (hconstruct : construct admin registry verifier feeRecipient = .ok s₀) :
    (∀ digestOf txs s, CommittedTrace digestOf s₀ txs s → InputBound txs s) ∧
    ∀ outside imageId sealBytes journal, Acceptable outside imageId sealBytes journal →
      ∀ inputDigest inputDigest', inputDigest ≠ inputDigest' →
        ∃ s, Trace engineBody s₀
            (replayTrace outside imageId inputDigest inputDigest' sealBytes journal) s ∧
          ¬InputBound (replayTrace outside imageId inputDigest inputDigest' sealBytes journal) s := by
  constructor
  · rintro digestOf txs s htrace a ha b hb - hdigests ⟨-, hjournal⟩
    obtain ⟨-, hcommits⟩ := htrace.commits hconstruct
    refine hdigests ?_
    rw [← (hcommits a ha).2, ← (hcommits b hb).2, hjournal]
  · intro outside imageId sealBytes journal haccept inputDigest inputDigest' hdigests
    obtain ⟨s, htrace, himage₁, himage₂, hdigest₁, hdigest₂⟩ :=
      replayed_of_acceptable hconstruct inputDigest inputDigest' haccept
    exact ⟨s, htrace, not_inputBound_replay hdigests himage₁ himage₂ hdigest₁ hdigest₂⟩

private theorem sample_acceptable : Acceptable sampleOutside 7 [1] [2] :=
  ⟨by decide, rfl, by decide, by decide, rfl⟩

/-- A request for the input `2`, claimed and completed with a journal that holds the digest. -/
theorem journal_commits_to_input :
    ∃ s₀ s txs, construct 10 20 30 40 = .ok s₀ ∧
      CommittedTrace (fun journal => (journal.headD 0).toNat) s₀ txs s ∧
      completions txs = [⟨1, [1], [2]⟩] ∧ InputBound txs s := by
  obtain ⟨s₀, hs₀, hserving, hnext, haccounts⟩ : ∃ s₀,
      construct 10 20 30 40 = .ok s₀ ∧ Serving s₀ ∧ s₀.storage.nextRequestId = 1 ∧
      Accounts s₀ 0 :=
    ⟨_, rfl, ⟨rfl, rfl, rfl, rfl⟩, rfl, rfl, rfl, rfl⟩
  obtain ⟨s₁, hcalls₁, hserving₁, h₁⟩ := @ask_calls s₀ sampleOutside 7 2 hserving
    (by rw [hnext]; decide) sample_acceptable.nonzero sample_acceptable.active
  have haccounts₁ := haccounts.asked h₁
  rw [askedStorage, hnext] at h₁
  obtain ⟨s₂, hcalls₂, hserving₂, h₂⟩ := @claim_calls s₁ 1 sampleOutside 7 2 hserving₁
    (by simp [h₁, setRequest]) one_ne_zero
  have hrequest : s₂.storage.requests 1 = claimedFrom (askedFor 1 7 2) := by
    simp [h₂, setRequest]
  obtain ⟨hcount₂, hearnings₂, hbalance₂⟩ := haccounts₁.claimed h₂
  obtain ⟨s₃, hcalls₃, -⟩ := @prove_calls s₂ 1 sampleOutside 7 2 [1] [2] hserving₂
    sample_acceptable hrequest one_ne_zero
    (by rw [hbalance₂, Nat.zero_add]) (by rw [hcount₂]; decide) (by rw [hearnings₂]; decide)
  have htrace : CommittedTrace (fun journal => (journal.headD 0).toNat) s₀
      [sentAt1000 50 MIN_TIP (.requestExecution 7 2 0 0) sampleOutside,
        sentAt1000 51 0 (.claimExecution 1) sampleOutside,
        sentAt1000 51 0 (.submitProof 1 [1] [2]) sampleOutside] s₃ := by
    refine .step (.step (.step .start ?_ hcalls₁) ?_ hcalls₂) ?_ hcalls₃
    · exact fun _ h => (by cases h)
    · exact fun _ h => (by cases h)
    · intro completion h
      obtain rfl := Option.some.inj h
      rw [hrequest]
      rfl
  exact ⟨s₀, s₃, _, hs₀, htrace, rfl, (completions_bound_to_input hs₀).1 _ _ _ htrace⟩

/-- One pair completes the requests for the inputs `8` and `9`. -/
theorem proof_replayed_for_other_input :
    ∃ s₀ s, construct 10 20 30 40 = .ok s₀ ∧
      Trace engineBody s₀ (replayTrace sampleOutside 7 8 9 [1] [2]) s ∧
      completions (replayTrace sampleOutside 7 8 9 [1] [2]) = [⟨1, [1], [2]⟩, ⟨2, [1], [2]⟩] ∧
      (s.storage.requests 1).imageId = 7 ∧ (s.storage.requests 2).imageId = 7 ∧
      (s.storage.requests 1).inputDigest = 8 ∧ (s.storage.requests 2).inputDigest = 9 ∧
      ¬InputBound (replayTrace sampleOutside 7 8 9 [1] [2]) s := by
  obtain ⟨s₀, hs₀⟩ : ∃ s₀, construct 10 20 30 40 = .ok s₀ := ⟨_, rfl⟩
  obtain ⟨s, htrace, himage₁, himage₂, hdigest₁, hdigest₂⟩ :=
    replayed_of_acceptable hs₀ 8 9 sample_acceptable
  exact ⟨s₀, s, hs₀, htrace, rfl, himage₁, himage₂, hdigest₁, hdigest₂,
    not_inputBound_replay (by decide) himage₁ himage₂ hdigest₁ hdigest₂⟩

end WorldZk.InputBinding
