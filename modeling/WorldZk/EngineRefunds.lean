import WorldZk.EngineSettlement

/-!
# Refunds of overdue requests

A request that is overdue can be brought back to its requester by calls that the requester, or
anybody, can make, unless it is claimed and the engine has no reputation contract to report the
claim to. Then only the owner can bring it back.
-/

namespace WorldZk.EngineRefunds

open CheckedRuns ReentrantCalls OwnedContracts ExecutionEngine EngineAccounts EngineSettlement
open FiniteTotals
open Relation (ReflTransGen)

/-! ## Calls that can be made without the owner -/

/-- The code on the chain. The engine itself is a contract. -/
structure Chain where
  hasCode : ℕ → Bool
  engine : ℕ
  engine_ne_zero : engine ≠ 0
  hasCode_engine : hasCode engine = true

/-- The functions that the owner or the pending owner alone can use. -/
def restricted : Operation → Bool
  | .setProtocolFee _ => true
  | .setFeeRecipient _ => true
  | .setReputation _ => true
  | .administer _ => true
  | _ => false

/-- The message can be sent at the time `T` or later, by the requester or by anybody. -/
structure Available (chain : Chain) (requester T : ℕ) (tx : EngineMessage) : Prop where
  time : T ≤ tx.context.timestamp
  code : tx.outside.hasCode = chain.hasCode
  sender : tx.context.sender = requester ∨ restricted tx.operation = false

abbrev AvailableMessage (chain : Chain) (requester T : ℕ) : Type :=
  { tx : EngineMessage // Available chain requester T tx }

/-- The engine when nobody acts as its owner, except the requester where it is the owner. -/
def availableBody (chain : Chain) (requester T : ℕ) (tx : AvailableMessage chain requester T) :
    EngineState → EngineBody :=
  engineBody tx.val

/-- The request of `s` is cancelled in `t` and its tip is with the requester. -/
def Refunded (s : EngineState) (requestId : ℕ) (t : EngineState) : Prop :=
  (t.storage.requests requestId).status = .cancelled ∧
    paymentsFor t.payments requestId =
      [⟨requestId, .refund, (s.storage.requests requestId).requester,
        (s.storage.requests requestId).tip⟩]

/-- A finite sequence of available calls, made at the time `T` or later, refunds the request. -/
def Refundable (chain : Chain) (T : ℕ) (s : EngineState) (requestId : ℕ) : Prop :=
  ∃ t, Run (availableBody chain (s.storage.requests requestId).requester T) s t ∧
    Refunded s requestId t

/-- The request exists, is open, and `T` is after its expiry and after its claim. -/
structure Overdue (s : EngineState) (requestId T : ℕ) : Prop where
  exist : (s.storage.requests requestId).id ≠ 0
  isOpen : (s.storage.requests requestId).status = .pending ∨
    (s.storage.requests requestId).status = .claimed
  expired : (s.storage.requests requestId).expiresAt < T
  claimOver : (s.storage.requests requestId).claimDeadline < T

/-- There is a reputation contract that a bad proof can be reported to. -/
def HasReputation (chain : Chain) (s : EngineState) : Prop :=
  s.storage.reputation ≠ 0 ∧ chain.hasCode s.storage.reputation = true

variable {chain : Chain} {requester T requestId : ℕ} {s s₀ t u : EngineState}
  {admin registry verifier feeRecipient : ℕ} {req : ExecutionRequest}

/-! ## The guard between transactions -/

theorem nonReentrant_entered {f : EngineState → EngineBody} :
    (nonReentrant s f).Safe (fun _ => True) (fun s t => t.entered = s.entered) fun t =>
      True ∧ t.entered = s.entered := by
  refine Body.safe_guarded fun hentered => ?_
  have hpost : True ∧ false = s.entered := ⟨trivial, hentered.symm⟩
  exact Body.safe_const hpost

theorem plain_entered {x : EngineCall EngineStorage} :
    (plain s x).Safe (fun _ => True) (fun s t => t.entered = s.entered) fun t =>
      True ∧ t.entered = s.entered :=
  Body.safe_after fun _ _ => ⟨trivial, rfl⟩

/-- Every call leaves the re-entrancy guard as it was. -/
theorem guarantees_entered :
    Guarantees engineBody (fun _ => True) fun s t => t.entered = s.entered where
  refl := fun _ => rfl
  trans := fun _ _ _ hst htu => htu.trans hst
  safe := by
    intro tx s _
    refine Body.safe_after fun _ _ => ?_
    obtain ⟨ctx, operation, outside⟩ := tx
    cases operation
    case cancelExecution => exact nonReentrant_entered (s := credit s ctx.value)
    case claimExecution => exact nonReentrant_entered (s := credit s ctx.value)
    case submitProof => exact nonReentrant_entered (s := credit s ctx.value)
    case reportBadProof => exact nonReentrant_entered (s := credit s ctx.value)
    case forcedEther => exact ⟨trivial, rfl⟩
    all_goals exact plain_entered (s := credit s ctx.value)

/-- The accounts between transactions, when no function has control. -/
structure AtRest (s : EngineState) : Prop where
  invariant : EngineInvariant s
  entered : s.entered = false

theorem AtRest.calls {tx : EngineMessage} (h : AtRest s) (hcalls : Calls engineBody tx s t) :
    AtRest t :=
  ⟨(guarantees.calls h.invariant hcalls).1,
    (guarantees_entered.calls trivial hcalls).2.trans h.entered⟩

theorem AtRest.available {tx : AvailableMessage chain requester T} (h : AtRest s)
    (hcalls : Calls (availableBody chain requester T) tx s t) : AtRest t :=
  h.calls (Calls.of_comap (f := Subtype.val) hcalls)

theorem atRest_of_run (hconstruct : construct admin registry verifier feeRecipient = .ok s₀)
    (hrun : Run engineBody s₀ s) : AtRest s := by
  obtain ⟨hinvariant, hentered, -⟩ := construct_invariant hconstruct
  exact ⟨(guarantees.run hinvariant hrun).1,
    (guarantees_entered.run trivial hrun).2.trans hentered⟩

/-! ## The way to a refund -/

/-- A message of the requester, at the time `T`. -/
def requesterMessage (chain : Chain) (requester T : ℕ) (hT : 0 < T) (operation : Operation) :
    AvailableMessage chain requester T where
  val :=
    { context := ⟨requester, 0, T, 0, hT⟩
      operation := operation
      outside := ⟨fun _ => false, fun _ => none, fun _ _ _ _ => false, fun _ _ _ => false,
        chain.hasCode⟩ }
  property := ⟨le_rfl, rfl, .inl rfl⟩

theorem balance_covers (h : EngineInvariant s)
    (hopen : (s.storage.requests requestId).status = .pending ∨
      (s.storage.requests requestId).status = .claimed) :
    (s.storage.requests requestId).tip ≤ s.storage.balance := by
  have hentry := entry_le_finsum h.finite requestId
  rw [openTip_of_open hopen] at hentry
  have hsolvent := h.solvent
  unfold openTips at hsolvent
  omega

section Eval

variable {answer : ExternalCall → Option Unit} {f next : EngineState → EngineBody}

theorem eval_requesterMessage {hT : 0 < T} {operation : Operation} :
    (availableBody chain requester T (requesterMessage chain requester T hT operation) s).eval
        answer =
      (dispatch (requesterMessage chain requester T hT operation).val s).eval answer := by
  have hvalue : require (operation.payable || 0 == 0) EngineError.notPayable = .ok () :=
    require_eq_ok.mpr (Bool.or_true _)
  change Body.eval answer (Body.after (require (operation.payable || 0 == 0) _) _) = _
  rw [hvalue]
  rfl

theorem eval_nonReentrant (hentered : s.entered = false) :
    (nonReentrant s f).eval answer =
      (fun t => { t with entered := false }) <$> (f { s with entered := true }).eval answer := by
  rw [nonReentrant, Body.guarded, hentered, if_neg Bool.false_ne_true, Body.eval_atEnd]

theorem eval_payTo {p : Payment} (hle : p.amount ≤ s.storage.balance) :
    (payTo s p next).eval (fun _ => some ()) = (next (paidState s p)).eval fun _ => some () := by
  rw [payTo, if_pos hle]
  rfl

theorem eval_tryCall {outside : Outside} {target : ℕ} {q : ExternalCall}
    (hcode : outside.hasCode target = true) :
    (tryCall outside target q s next).eval answer = (next s).eval answer := by
  rw [tryCall, if_pos hcode]
  rfl

end Eval

theorem refundable_of_pending (h : AtRest s) (hT : 0 < T)
    (hexists : (s.storage.requests requestId).id ≠ 0)
    (hpending : (s.storage.requests requestId).status = .pending) :
    Refundable chain T s requestId := by
  set requester := (s.storage.requests requestId).requester with hrequester
  set tx := requesterMessage chain requester T hT (.cancelExecution requestId)
  have hcheck : checkCancel s.storage tx.val.context requestId = .ok () :=
    checkCancel_eq_ok.mpr ⟨hexists, rfl, hpending⟩
  have hcovered := balance_covers h.invariant (.inl hpending)
  have heval : (availableBody chain requester T tx s).eval (fun _ => some ()) =
      .ok { paidState (withStorage s (setRequest s.storage requestId
        { s.storage.requests requestId with status := .cancelled }))
          ⟨requestId, .refund, requester, (s.storage.requests requestId).tip⟩ with
        entered := false } := by
    rw [eval_requesterMessage]
    change (nonReentrant s fun s => cancelExecution s tx.val.context requestId).eval _ = _
    rw [eval_nonReentrant h.entered, cancelExecution, hcheck, Body.after, eval_payTo hcovered]
    rfl
  refine ⟨_, .single ⟨tx, .of_eval heval⟩, ?_, ?_⟩
  · change (Function.update s.storage.requests requestId _ requestId).status = _
    rw [Function.update_self]
  · have hunpaid := (h.invariant.request requestId).unpaid (not_settled_of_pending hpending)
    refine paymentsFor_append_self.trans ?_
    exact congrArg (· ++ [_]) hunpaid

/-- A first call leaves the request with its requester and its tip. -/
theorem Refundable.after {tx : AvailableMessage chain (s.storage.requests requestId).requester T}
    (hcalls : Calls (availableBody chain (s.storage.requests requestId).requester T) tx s t)
    (hrequester : (t.storage.requests requestId).requester =
      (s.storage.requests requestId).requester)
    (htip : (t.storage.requests requestId).tip = (s.storage.requests requestId).tip)
    (h : Refundable chain T t requestId) : Refundable chain T s requestId := by
  obtain ⟨u, hrun, hstatus, hpaid⟩ := h
  rw [hrequester] at hrun
  rw [hrequester, htip] at hpaid
  exact ⟨u, .head ⟨tx, hcalls⟩ hrun, hstatus, hpaid⟩

/-- The claim of an overdue request is reported, which makes the request pending again. -/
theorem refundable_of_reputation (h : AtRest s) (hoverdue : Overdue s requestId T)
    (hclaimed : (s.storage.requests requestId).status = .claimed)
    (hreputation : HasReputation chain s) : Refundable chain T s requestId := by
  have hT : 0 < T := Nat.zero_lt_of_lt hoverdue.expired
  set requester := (s.storage.requests requestId).requester with hrequester
  set tx := requesterMessage chain requester T hT (.reportBadProof requestId)
  have hcheck : checkReport s.storage tx.val.context requestId = .ok () :=
    checkReport_eq_ok.mpr ⟨hoverdue.exist, hclaimed, hoverdue.claimOver, hreputation.1⟩
  set t : EngineState := { withStorage s (setRequest s.storage requestId
    { s.storage.requests requestId with
      status := .pending
      claimedBy := 0
      claimedAt := 0
      claimDeadline := 0 }) with entered := false }
  have heval : (availableBody chain requester T tx s).eval (fun _ => none) = .ok t := by
    rw [eval_requesterMessage]
    change (nonReentrant s fun s => reportBadProof s tx.val.context tx.val.outside requestId).eval
      _ = _
    rw [eval_nonReentrant h.entered, reportBadProof, hcheck, Body.after]
    dsimp only
    rw [eval_tryCall hreputation.2]
    rfl
  have hrequest : t.storage.requests requestId =
      { s.storage.requests requestId with
        status := .pending, claimedBy := 0, claimedAt := 0, claimDeadline := 0 } :=
    Function.update_self _ _ _
  have hcalls : Calls (availableBody chain requester T) tx s t := .of_eval heval
  have ht : AtRest t := h.available hcalls
  refine .after hcalls (by rw [hrequest]) (by rw [hrequest]) ?_
  refine refundable_of_pending ht hT ?_ ?_
  · rw [hrequest]
    exact hoverdue.exist
  · rw [hrequest]

/-- A function without external calls, called by the requester. -/
theorem plain_calls {hT : 0 < T} {operation : Operation} {x : EngineCall EngineStorage}
    {c : EngineStorage}
    (hdispatch : dispatch (requesterMessage chain requester T hT operation).val s = plain s x)
    (hx : x = .ok c) :
    Calls (availableBody chain requester T) (requesterMessage chain requester T hT operation) s
      (withStorage s c) := by
  have heval : (availableBody chain requester T (requesterMessage chain requester T hT operation)
      s).eval (fun _ => none) = .ok (withStorage s c) := by
    rw [eval_requesterMessage, hdispatch, plain, hx]
    rfl
  exact .of_eval heval

/-- The owner makes the engine its own reputation contract: all that a report needs is a contract
that can be called. -/
theorem refundable_of_owner (h : AtRest s) (hoverdue : Overdue s requestId T)
    (hclaimed : (s.storage.requests requestId).status = .claimed)
    (howner : (s.storage.requests requestId).requester = s.storage.admin.owner) :
    Refundable chain T s requestId := by
  have hT : 0 < T := Nat.zero_lt_of_lt hoverdue.expired
  set requester := (s.storage.requests requestId).requester
  set tx := requesterMessage chain requester T hT (.setReputation chain.engine)
  have hset : setReputation s.storage tx.val.context chain.engine =
      .ok { s.storage with reputation := chain.engine } := by
    have hallowed : ofAdmin (onlyOwner s.storage.admin requester) = .ok () :=
      mapError_eq_ok.mpr (onlyOwner_eq_ok.mpr howner)
    exact bind_eq_ok.mpr ⟨(), hallowed, rfl⟩
  have hcalls : Calls (availableBody chain requester T) tx s
      (withStorage s { s.storage with reputation := chain.engine }) := plain_calls rfl hset
  refine .after hcalls rfl rfl ?_
  exact refundable_of_reputation (h.available hcalls)
    ⟨hoverdue.exist, hoverdue.isOpen, hoverdue.expired, hoverdue.claimOver⟩ hclaimed
    ⟨chain.engine_ne_zero, chain.hasCode_engine⟩

theorem refundable_of_pendingOwner (h : AtRest s) (hoverdue : Overdue s requestId T)
    (hclaimed : (s.storage.requests requestId).status = .claimed)
    (howner : (s.storage.requests requestId).requester = s.storage.admin.pendingOwner) :
    Refundable chain T s requestId := by
  have hT : 0 < T := Nat.zero_lt_of_lt hoverdue.expired
  set requester := (s.storage.requests requestId).requester
  set tx := requesterMessage chain requester T hT (.administer .acceptOwnership)
  have haccept : administerEngine s.storage tx.val.context .acceptOwnership =
      .ok { s.storage with
        admin := { s.storage.admin with owner := requester, pendingOwner := 0 } } := by
    have hallowed : ofAdmin (administer s.storage.admin requester .acceptOwnership) =
        .ok { s.storage.admin with owner := requester, pendingOwner := 0 } :=
      mapError_eq_ok.mpr (bind_eq_ok.mpr ⟨(), require_eq_ok.mpr (beq_iff_eq.mpr howner), rfl⟩)
    exact bind_eq_ok.mpr ⟨_, hallowed, rfl⟩
  have hcalls : Calls (availableBody chain requester T) tx s (withStorage s
      { s.storage with
        admin := { s.storage.admin with owner := requester, pendingOwner := 0 } }) :=
    plain_calls rfl haccept
  refine .after hcalls rfl rfl ?_
  exact refundable_of_owner (h.available hcalls)
    ⟨hoverdue.exist, hoverdue.isOpen, hoverdue.expired, hoverdue.claimOver⟩ hclaimed rfl

/-! ## Requests that are stuck -/

/-- The request is claimed and overdue, there is no contract to report it to, and its requester
has no rights over the engine. -/
structure Stuck (chain : Chain) (T requestId : ℕ) (req : ExecutionRequest) (s : EngineState) :
    Prop where
  request : s.storage.requests requestId = req
  claimed : req.status = .claimed
  expired : req.expiresAt < T
  claimOver : req.claimDeadline < T
  old : requestId < s.storage.nextRequestId
  reputation : ¬HasReputation chain s
  owner : req.requester ≠ s.storage.admin.owner
  pendingOwner : req.requester ≠ s.storage.admin.pendingOwner

/-- Being stuck is about the request, its number, the reputation contract and the owner only. -/
theorem Stuck.congr (h : Stuck chain T requestId req s)
    (hrequest : t.storage.requests requestId = s.storage.requests requestId)
    (hnext : s.storage.nextRequestId ≤ t.storage.nextRequestId)
    (hreputation : t.storage.reputation = s.storage.reputation)
    (hadmin : t.storage.admin = s.storage.admin) : Stuck chain T requestId req t where
  request := hrequest.trans h.request
  claimed := h.claimed
  expired := h.expired
  claimOver := h.claimOver
  old := h.old.trans_le hnext
  reputation := by
    unfold HasReputation
    rw [hreputation]
    exact h.reputation
  owner := by
    rw [hadmin]
    exact h.owner
  pendingOwner := by
    rw [hadmin]
    exact h.pendingOwner

/-- A write to another request. -/
theorem Stuck.setRequest {id : ℕ} {req' : ExecutionRequest}
    (h : Stuck chain T requestId req s) (hne : requestId ≠ id) :
    Stuck chain T requestId req (withStorage s (setRequest s.storage id req')) :=
  h.congr (Function.update_of_ne hne _ _) le_rfl rfl rfl

section Safe

variable {post : EngineState → Prop} {next : EngineState → EngineBody} {ctx : CallContext}
  {outside : Outside} {id : ℕ}

theorem stuck_safe_tryCall {target : ℕ} {q : ExternalCall} (h : Stuck chain T requestId req s)
    (hnext : ∀ t, Stuck chain T requestId req t →
      (next t).Safe (Stuck chain T requestId req) (fun _ _ => True) post) :
    (tryCall outside target q s next).Safe (Stuck chain T requestId req) (fun _ _ => True)
      post := by
  unfold tryCall
  split
  case isTrue => exact ⟨h, hnext s h, fun _ t ht _ => hnext t ht⟩
  case isFalse => trivial

theorem stuck_safe_payTo {p : Payment} (h : Stuck chain T requestId req s)
    (hnext : ∀ t, Stuck chain T requestId req t →
      (next t).Safe (Stuck chain T requestId req) (fun _ _ => True) post) :
    (payTo s p next).Safe (Stuck chain T requestId req) (fun _ _ => True) post := by
  unfold payTo
  split
  case isTrue => exact ⟨h.congr rfl le_rfl rfl rfl, trivial, fun _ t ht _ => hnext t ht⟩
  case isFalse => trivial

theorem stuck_cancel (h : Stuck chain T requestId req s) :
    (cancelExecution s ctx id).Safe (Stuck chain T requestId req) (fun _ _ => True)
      (Stuck chain T requestId req) := by
  refine Body.safe_after fun _ hcheck => ?_
  obtain ⟨-, -, hpending⟩ := checkCancel_eq_ok.mp hcheck
  have hne : requestId ≠ id := by
    rintro rfl
    rw [h.request, h.claimed] at hpending
    cases hpending
  exact stuck_safe_payTo (h.setRequest hne) fun t ht => ht

theorem stuck_claim (h : Stuck chain T requestId req s) (htime : T ≤ ctx.timestamp) :
    (claimExecution s ctx outside id).Safe (Stuck chain T requestId req) (fun _ _ => True)
      (Stuck chain T requestId req) := by
  refine Body.safe_after fun _ _ => ?_
  refine Body.safe_after fun previousClaimant hcheck => ?_
  refine Body.safe_after fun claimDeadline _ => ?_
  obtain ⟨-, hexpires, -⟩ := checkClaim_eq_ok hcheck
  have hne : requestId ≠ id := by
    rintro rfl
    rw [h.request] at hexpires
    have := h.expired
    omega
  dsimp only
  split
  · exact stuck_safe_tryCall (h.setRequest hne) fun t ht => ht
  · exact h.setRequest hne

theorem stuck_submit {sealBytes journal : List UInt8} (h : Stuck chain T requestId req s)
    (htime : T ≤ ctx.timestamp) :
    (submitProof s ctx outside id sealBytes journal).Safe (Stuck chain T requestId req)
      (fun _ _ => True) (Stuck chain T requestId req) := by
  refine Body.safe_after fun _ hcheck => ?_
  refine Body.safe_after fun payout _ => ?_
  refine Body.safe_after fun (proverPayout, fee) _ => ?_
  refine Body.safe_after fun c hcomplete => ?_
  obtain ⟨-, -, -, hdeadline⟩ := checkProof_eq_ok hcheck
  have hne : requestId ≠ id := by
    rintro rfl
    rw [h.request] at hdeadline
    have := h.claimOver
    omega
  have hc : Stuck chain T requestId req (withStorage s c) := by
    simp only [completeRequest, bind_eq_ok, pure_eq_ok] at hcomplete
    obtain ⟨_, -, _, -, rfl⟩ := hcomplete
    exact h.congr (Function.update_of_ne hne _ _) le_rfl rfl rfl
  have hcallback : ∀ t, Stuck chain T requestId req t →
      (runCallback t outside id journal).Safe (Stuck chain T requestId req) (fun _ _ => True)
        (Stuck chain T requestId req) := by
    intro t ht
    unfold runCallback
    dsimp only
    split
    · exact stuck_safe_tryCall ht fun u hu => hu
    · exact ht
  have hpay : ∀ t, Stuck chain T requestId req t →
      (payTo t ⟨id, .payout, ctx.sender, proverPayout⟩ fun s =>
        if 0 < fee then
          payTo s ⟨id, .fee, s.storage.feeRecipient, fee⟩ fun s => runCallback s outside id journal
        else runCallback s outside id journal).Safe (Stuck chain T requestId req)
          (fun _ _ => True) (Stuck chain T requestId req) := by
    intro t ht
    refine stuck_safe_payTo ht fun u hu => ?_
    split
    · exact stuck_safe_payTo hu hcallback
    · exact hcallback u hu
  unfold recordSuccess
  split
  · exact Body.safe_after fun _ _ => stuck_safe_tryCall hc hpay
  · exact hpay _ hc

/-- Nothing can be reported: there is no contract to call. -/
theorem stuck_report (h : Stuck chain T requestId req s) (hcode : outside.hasCode = chain.hasCode) :
    (reportBadProof s ctx outside id).Safe (Stuck chain T requestId req) (fun _ _ => True)
      (Stuck chain T requestId req) := by
  refine Body.safe_after fun _ hcheck => ?_
  obtain ⟨-, -, -, hreputation⟩ := checkReport_eq_ok.mp hcheck
  have hnone : ¬outside.hasCode s.storage.reputation = true := by
    rw [hcode]
    exact fun hsome => h.reputation ⟨hreputation, hsome⟩
  dsimp only
  rw [tryCall]
  change (if outside.hasCode s.storage.reputation = true then _ else _ : EngineBody).Safe _ _ _
  rw [if_neg hnone]
  trivial

end Safe

/-- The functions of the owner are of no use to anybody here. -/
theorem Stuck.not_owner {tx : EngineMessage} (h : Stuck chain T requestId req s)
    (htx : Available chain req.requester T tx) (hrestricted : restricted tx.operation = true) :
    tx.context.sender ≠ s.storage.admin.owner ∧
      tx.context.sender ≠ s.storage.admin.pendingOwner := by
  have hsender : tx.context.sender = req.requester := by
    refine htx.sender.resolve_right fun hfalse => ?_
    rw [hrestricted] at hfalse
    cases hfalse
  rw [hsender]
  exact ⟨h.owner, h.pendingOwner⟩

theorem administer_eq_error {a a' : Administration} {sender : ℕ} {operation : AdminOperation}
    (howner : sender ≠ a.owner) (hpending : sender ≠ a.pendingOwner) :
    administer a sender operation ≠ .ok a' := by
  intro h
  cases operation <;>
    simp only [administer, bind_eq_ok, onlyOwner_eq_ok, require_eq_ok, beq_iff_eq] at h
  case acceptOwnership =>
    obtain ⟨_, hsender, -⟩ := h
    exact hpending hsender
  all_goals
    obtain ⟨_, hsender, -⟩ := h
    exact howner hsender

theorem stuck_dispatch {tx : EngineMessage} (h : Stuck chain T requestId req s)
    (htx : Available chain req.requester T tx) :
    (dispatch tx s).Safe (Stuck chain T requestId req) (fun _ _ => True)
      (Stuck chain T requestId req) := by
  have hguarded : ∀ {f : EngineState → EngineBody},
      (f { s with entered := true }).Safe (Stuck chain T requestId req) (fun _ _ => True)
        (Stuck chain T requestId req) →
      (nonReentrant s f).Safe (Stuck chain T requestId req) (fun _ _ => True)
        (Stuck chain T requestId req) := fun hf =>
    Body.safe_guarded fun _ => hf.mono fun t ht => ht.congr rfl le_rfl rfl rfl
  have hentered : Stuck chain T requestId req { s with entered := true } :=
    h.congr rfl le_rfl rfl rfl
  have howner := h.not_owner htx
  obtain ⟨ctx, operation, outside⟩ := tx
  cases operation
  case requestExecution =>
    refine Body.safe_after fun c hc => ?_
    obtain ⟨-, _, -, -, -, -, rfl⟩ := requestExecution_eq_ok hc
    exact h.congr (Function.update_of_ne h.old.ne _ _) (Nat.le_succ _) rfl rfl
  case cancelExecution => exact hguarded (stuck_cancel hentered)
  case claimExecution => exact hguarded (stuck_claim hentered htx.time)
  case submitProof => exact hguarded (stuck_submit hentered htx.time)
  case reportBadProof => exact hguarded (stuck_report hentered htx.code)
  case forcedEther => exact h.congr rfl le_rfl rfl rfl
  case administer =>
    refine Body.safe_after fun c hc => ?_
    obtain ⟨admin, hadmin, -⟩ := bind_eq_ok.mp hc
    exact absurd (mapError_eq_ok.mp hadmin) (administer_eq_error (howner rfl).1 (howner rfl).2)
  all_goals
    refine Body.safe_after fun c hc => ?_
    obtain ⟨_, hsender, -⟩ := bind_eq_ok.mp hc
    exact absurd (onlyOwner_eq_ok.mp (mapError_eq_ok.mp hsender)) (howner rfl).1

/-- A stuck request stays stuck, whatever is called. -/
theorem guarantees_stuck :
    Guarantees (availableBody chain req.requester T) (Stuck chain T requestId req)
      fun _ _ => True where
  refl := fun _ => trivial
  trans := fun _ _ _ _ _ => trivial
  safe := by
    intro tx s h
    refine Body.safe_after fun _ _ => ?_
    have hcredit : Stuck chain T requestId req (credit s tx.val.context.value) :=
      h.congr rfl le_rfl rfl rfl
    exact (stuck_dispatch hcredit tx.property).mono fun t ht => ⟨ht, trivial⟩

theorem Stuck.not_refundable (h : Stuck chain T requestId (s.storage.requests requestId) s) :
    ¬Refundable chain T s requestId := by
  rintro ⟨t, hrun, hcancelled, -⟩
  have ht := (guarantees_stuck.run h hrun).1
  rw [ht.request, h.claimed] at hcancelled
  cases hcancelled

/-! ## When a request can be refunded -/

theorem refundable_of_atRest (h : AtRest s) (hoverdue : Overdue s requestId T) :
    Refundable chain T s requestId ↔
      (s.storage.requests requestId).status = .pending ∨ HasReputation chain s ∨
        (s.storage.requests requestId).requester = s.storage.admin.owner ∨
        (s.storage.requests requestId).requester = s.storage.admin.pendingOwner := by
  rcases hoverdue.isOpen with hpending | hclaimed
  · exact iff_of_true (refundable_of_pending h (Nat.zero_lt_of_lt hoverdue.expired) hoverdue.exist
      hpending) (.inl hpending)
  constructor
  · intro hrefundable
    by_contra hnone
    rw [not_or, not_or, not_or] at hnone
    obtain ⟨-, hreputation, howner, hpendingOwner⟩ := hnone
    have hstuck : Stuck chain T requestId (s.storage.requests requestId) s :=
      ⟨rfl, hclaimed, hoverdue.expired, hoverdue.claimOver, h.invariant.lt_next hoverdue.exist,
        hreputation, howner, hpendingOwner⟩
    exact hstuck.not_refundable hrefundable
  · rintro (hpending | hreputation | howner | hpendingOwner)
    · exact refundable_of_pending h (Nat.zero_lt_of_lt hoverdue.expired) hoverdue.exist hpending
    · exact refundable_of_reputation h hoverdue hclaimed hreputation
    · exact refundable_of_owner h hoverdue hclaimed howner
    · exact refundable_of_pendingOwner h hoverdue hclaimed hpendingOwner

/-- In every reachable state, an overdue request can be refunded without the owner if and only if
it is pending or there is a reputation contract to report its claim to, or its requester has the
owner's rights. -/
theorem refundable_iff (hconstruct : construct admin registry verifier feeRecipient = .ok s₀)
    (hrun : Run engineBody s₀ s) (hoverdue : Overdue s requestId T) :
    Refundable chain T s requestId ↔
      (s.storage.requests requestId).status = .pending ∨ HasReputation chain s ∨
        (s.storage.requests requestId).requester = s.storage.admin.owner ∨
        (s.storage.requests requestId).requester = s.storage.admin.pendingOwner :=
  refundable_of_atRest (atRest_of_run hconstruct hrun) hoverdue

/-! The request of `50` that `51` claims at once, looked at when it is overdue. -/

def sampleChain : Chain := ⟨fun address => address == 60 || address == 99, 99, by decide, by decide⟩

/-- The claimed request is overdue at `10000`, and the reputation contract is the given one. -/
def isOverdue (reputation : ℕ) (s : EngineState) : Bool :=
  (s.storage.requests 1).id != 0 && (s.storage.requests 1).status == .claimed &&
    (s.storage.requests 1).expiresAt < 10000 && (s.storage.requests 1).claimDeadline < 10000 &&
    s.storage.reputation == reputation && s.storage.admin == ⟨10, 0, false⟩ &&
    (s.storage.requests 1).requester == 50

theorem overdue_sample {messages : List EngineMessage} {reputation : ℕ}
    (h : okAnd (construct 10 20 30 40) (fun s₀ =>
      okAnd (evalAll engineBody (fun _ => some ()) messages s₀) (isOverdue reputation)) = true) :
    ∃ s₀ s, construct 10 20 30 40 = .ok s₀ ∧ Run engineBody s₀ s ∧ Overdue s 1 10000 ∧
      (s.storage.requests 1).status = .claimed ∧ s.storage.reputation = reputation ∧
      s.storage.admin = ⟨10, 0, false⟩ ∧ (s.storage.requests 1).requester = 50 := by
  obtain ⟨s₀, hconstruct, h⟩ := okAnd_eq_true.mp h
  obtain ⟨s, hs, h⟩ := okAnd_eq_true.mp h
  simp only [isOverdue, Bool.and_eq_true, bne_iff_ne, beq_iff_eq, decide_eq_true_eq] at h
  obtain ⟨⟨⟨⟨⟨⟨hexists, hclaimed⟩, hexpired⟩, hdeadline⟩, hreputation⟩, hadmin⟩, hrequester⟩ := h
  exact ⟨s₀, s, hconstruct, .of_evalAll hs, ⟨hexists, .inr hclaimed, hexpired, hdeadline⟩,
    hclaimed, hreputation, hadmin, hrequester⟩

/-- With a reputation contract, the requester of an overdue claim gets its tip back. -/
theorem reported_request_refundable :
    ∃ s₀ s, construct 10 20 30 40 = .ok s₀ ∧ Run engineBody s₀ s ∧ Overdue s 1 10000 ∧
      (s.storage.requests 1).status = .claimed ∧ Refundable sampleChain 10000 s 1 := by
  have hsample : okAnd (construct 10 20 30 40) (fun s₀ => okAnd (evalAll
      engineBody (fun _ => some ()) [sampleMessage 10 0 900 (.setReputation 60), sampleRequest, sampleClaim] s₀)
        (isOverdue 60)) = true := by
    decide +kernel
  obtain ⟨s₀, s, hconstruct, hrun, hoverdue, hclaimed, hreputation, -⟩ := overdue_sample hsample
  have hhas : HasReputation sampleChain s := by
    unfold HasReputation
    rw [hreputation]
    exact ⟨by decide, by decide⟩
  exact ⟨s₀, s, hconstruct, hrun, hoverdue, hclaimed,
    (refundable_iff hconstruct hrun hoverdue).mpr (.inr (.inl hhas))⟩

/-- Without one, no sequence of calls does it. -/
theorem claimed_request_not_refundable :
    ¬∀ s₀ s requestId T chain, construct 10 20 30 40 = .ok s₀ → Run engineBody s₀ s →
      Overdue s requestId T → Refundable chain T s requestId := by
  intro hrefundable
  have hsample : okAnd (construct 10 20 30 40) (fun s₀ => okAnd (evalAll
      engineBody (fun _ => some ()) [sampleRequest, sampleClaim] s₀) (isOverdue 0)) = true := by
    decide +kernel
  obtain ⟨s₀, s, hconstruct, hrun, hoverdue, hclaimed, hreputation, hadmin, hrequester⟩ :=
    overdue_sample hsample
  have h := (refundable_of_atRest (atRest_of_run hconstruct hrun) hoverdue).mp
    (hrefundable s₀ s 1 10000 sampleChain hconstruct hrun hoverdue)
  rw [hclaimed, HasReputation, hreputation, hrequester, hadmin] at h
  rcases h with h | h | h | h
  · cases h
  · exact h.1 rfl
  · exact absurd h (by decide)
  · exact absurd h (by decide)

end WorldZk.EngineRefunds
