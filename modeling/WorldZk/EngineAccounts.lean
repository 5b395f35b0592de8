import WorldZk.ExecutionEngine
import WorldZk.FiniteTotals

/-!
# The accounts of the execution engine

The balance covers the tips of all open requests, a request is settled once and stays settled, and
what a completion leaves on the balance is never paid to anybody. All of it holds while payees,
callbacks and the reputation contract have control.
-/

namespace WorldZk.EngineAccounts

open CheckedRuns ReentrantCalls OwnedContracts ExecutionEngine FiniteTotals

/-! ## Open tips and payments -/

/-- The tip that the engine still holds for a request. -/
def openTip (req : ExecutionRequest) : ℕ :=
  match req.status with
  | .pending => req.tip
  | .claimed => req.tip
  | _ => 0

/-- The tips of all open requests together. -/
noncomputable def openTips (s : EngineState) : ℕ :=
  ∑ᶠ requestId, openTip (s.storage.requests requestId)

/-- What is on the balance beyond the open tips and forced ether. -/
noncomputable def kept (s : EngineState) : ℕ := s.storage.balance - (openTips s + s.forced)

def paymentsFor (payments : List Payment) (requestId : ℕ) : List Payment :=
  payments.filter fun p => p.requestId == requestId

/-- The request is completed or cancelled. -/
def Settled (req : ExecutionRequest) : Prop :=
  req.status = .completed ∨ req.status = .cancelled

/-- A request agrees with what was paid for it. -/
structure RequestOk (nextRequestId requestId : ℕ) (req : ExecutionRequest)
    (paid : List Payment) : Prop where
  fresh : requestId = 0 ∨ nextRequestId ≤ requestId → req = ExecutionRequest.empty
  minTip : req.id ≠ 0 → MIN_TIP ≤ req.tip
  maxTip : req.maxTip = req.tip
  status : req.status ≠ .expired
  unpaid : ¬Settled req → paid = []
  refunded : req.status = .cancelled → paid = [⟨requestId, .refund, req.requester, req.tip⟩]
  completed : req.status = .completed → ∃ payout fee feeRecipient, payout + fee ≤ req.tip ∧
    paid <+: [⟨requestId, .payout, req.claimedBy, payout⟩, ⟨requestId, .fee, feeRecipient, fee⟩]

structure EngineInvariant (s : EngineState) : Prop where
  fee : s.storage.protocolFeeBps ≤ MAX_FEE_BPS
  next : 0 < s.storage.nextRequestId
  finite : (fun requestId => openTip (s.storage.requests requestId)).support.Finite
  solvent : openTips s + s.forced ≤ s.storage.balance
  request : ∀ requestId, RequestOk s.storage.nextRequestId requestId
    (s.storage.requests requestId) (paymentsFor s.payments requestId)

/-- What a call made by a callee leaves alone. It may add requests and change parameters. -/
structure SameRequests (s t : EngineState) : Prop where
  entered : t.entered = true
  requests : ∀ requestId, requestId < s.storage.nextRequestId →
    t.storage.requests requestId = s.storage.requests requestId
  next : s.storage.nextRequestId ≤ t.storage.nextRequestId
  payments : t.payments = s.payments
  kept : kept t = kept s

/-- What every call guarantees: it leaves the open requests alone if the contract was entered
before, and the settled ones in any case. -/
structure Guarantee (s t : EngineState) : Prop where
  frame : s.entered = true → SameRequests s t
  settled : ∀ requestId, Settled (s.storage.requests requestId) →
    t.storage.requests requestId = s.storage.requests requestId ∧
      paymentsFor t.payments requestId = paymentsFor s.payments requestId

variable {s t : EngineState} {tx : EngineMessage} {requestId : ℕ} {req : ExecutionRequest}

theorem Guarantee.refl (s : EngineState) : Guarantee s s :=
  ⟨fun h => ⟨h, fun _ _ => rfl, le_rfl, rfl, rfl⟩, fun _ _ => ⟨rfl, rfl⟩⟩

theorem Guarantee.trans {u : EngineState} (hst : Guarantee s t) (htu : Guarantee t u) :
    Guarantee s u where
  frame := by
    intro hs
    have h := hst.frame hs
    have h' := htu.frame h.entered
    refine ⟨h'.entered, fun id hid => ?_, h.next.trans h'.next, h'.payments.trans h.payments,
      h'.kept.trans h.kept⟩
    rw [h'.requests id (hid.trans_le h.next), h.requests id hid]
  settled := by
    intro id hid
    obtain ⟨hrequest, hpaid⟩ := hst.settled id hid
    obtain ⟨hrequest', hpaid'⟩ := htu.settled id (by rw [hrequest]; exact hid)
    exact ⟨hrequest'.trans hrequest, hpaid'.trans hpaid⟩

theorem not_settled_empty : ¬Settled ExecutionRequest.empty := by
  rintro (h | h) <;> cases h

theorem EngineInvariant.balance_eq (h : EngineInvariant s) :
    s.storage.balance = openTips s + s.forced + kept s := by
  have := h.solvent
  unfold kept
  omega

theorem EngineInvariant.lt_next (h : EngineInvariant s)
    (hexists : (s.storage.requests requestId).id ≠ 0) :
    requestId < s.storage.nextRequestId := by
  by_contra hlt
  rw [(h.request requestId).fresh (.inr (not_lt.mp hlt))] at hexists
  exact hexists rfl

theorem EngineInvariant.lt_next_of_settled (h : EngineInvariant s)
    (hsettled : Settled (s.storage.requests requestId)) :
    requestId < s.storage.nextRequestId := by
  by_contra hlt
  rw [(h.request requestId).fresh (.inr (not_lt.mp hlt))] at hsettled
  exact not_settled_empty hsettled

theorem EngineInvariant.setEntered (h : EngineInvariant s) (entered : Bool) :
    EngineInvariant { s with entered := entered } :=
  ⟨h.fee, h.next, h.finite, h.solvent, h.request⟩

/-! ## Changes of one request -/

theorem openTips_update (hfinite : (fun id => openTip (s.storage.requests id)).support.Finite)
    (hrequests : t.storage.requests = Function.update s.storage.requests requestId req) :
    (fun id => openTip (t.storage.requests id)).support.Finite ∧
      openTips t + openTip (s.storage.requests requestId) = openTips s + openTip req := by
  have hmap : (fun id => openTip (t.storage.requests id)) =
      Function.update (fun id => openTip (s.storage.requests id)) requestId (openTip req) := by
    rw [hrequests]
    exact Function.comp_update openTip s.storage.requests requestId req
  constructor
  · rw [hmap]
    exact support_update_finite hfinite requestId _
  · rw [openTips, hmap]
    exact finsum_update_add hfinite requestId (openTip req)

/-- One request may change if the balance stays above what the change makes open. -/
theorem EngineInvariant.update (h : EngineInvariant s)
    (hfee : t.storage.protocolFeeBps ≤ MAX_FEE_BPS)
    (hnext : s.storage.nextRequestId ≤ t.storage.nextRequestId)
    (hrequests : t.storage.requests = Function.update s.storage.requests requestId req)
    (hothers : ∀ id, id ≠ requestId → paymentsFor t.payments id = paymentsFor s.payments id)
    (hrequest : RequestOk t.storage.nextRequestId requestId req
      (paymentsFor t.payments requestId))
    (hforced : t.forced = s.forced)
    (hbalance : s.storage.balance + openTip req ≤
      t.storage.balance + openTip (s.storage.requests requestId) + kept s) :
    EngineInvariant t := by
  obtain ⟨hfinite, htotal⟩ := openTips_update h.finite hrequests
  have hkept := h.balance_eq
  refine ⟨hfee, h.next.trans_le hnext, hfinite, by omega, fun id => ?_⟩
  by_cases hid : id = requestId
  · rw [hid, hrequests, Function.update_self]
    exact hrequest
  · have hold := h.request id
    rw [hrequests, Function.update_of_ne hid, hothers id hid]
    refine ⟨fun hfresh => hold.fresh ?_, hold.minTip, hold.maxTip, hold.status, hold.unpaid,
      hold.refunded, hold.completed⟩
    exact hfresh.imp_right hnext.trans

theorem kept_update (h : EngineInvariant s) (ht : EngineInvariant t)
    (hrequests : t.storage.requests = Function.update s.storage.requests requestId req)
    (hforced : t.forced = s.forced) :
    t.storage.balance + openTip (s.storage.requests requestId) + kept s =
      s.storage.balance + openTip req + kept t := by
  obtain ⟨-, htotal⟩ := openTips_update h.finite hrequests
  have hs := h.balance_eq
  have ht := ht.balance_eq
  omega

theorem paymentsFor_append_self {payments : List Payment} {p : Payment} :
    paymentsFor (payments ++ [p]) p.requestId = paymentsFor payments p.requestId ++ [p] := by
  simp [paymentsFor, List.filter_append]

theorem paymentsFor_append_of_ne {payments : List Payment} {p : Payment} {id : ℕ}
    (hid : id ≠ p.requestId) : paymentsFor (payments ++ [p]) id = paymentsFor payments id := by
  simp [paymentsFor, List.filter_append, Ne.symm hid]

/-! ## What the checks of the functions say -/

section Checks

variable {c c' : EngineStorage} {ctx : CallContext} {outside : Outside} {u : Unit}

theorem checkCancel_eq_ok :
    checkCancel c ctx requestId = .ok u ↔
      (c.requests requestId).id ≠ 0 ∧ (c.requests requestId).requester = ctx.sender ∧
        (c.requests requestId).status = .pending := by
  simp only [checkCancel, bind_eq_ok, require_eq_ok, bne_iff_ne, beq_iff_eq, exists_const]

theorem checkClaim_eq_ok {previousClaimant : ℕ}
    (h : checkClaim c ctx requestId = .ok previousClaimant) :
    (c.requests requestId).id ≠ 0 ∧ ctx.timestamp ≤ (c.requests requestId).expiresAt ∧
      ((c.requests requestId).status = .pending ∨ (c.requests requestId).status = .claimed) := by
  simp only [checkClaim, bind_eq_ok, require_eq_ok, bne_iff_ne, decide_eq_true_eq] at h
  obtain ⟨_, hexists, _, hexpires, h⟩ := h
  refine ⟨hexists, hexpires, ?_⟩
  split at h
  case isTrue hclaimed => exact .inr hclaimed
  case isFalse =>
    simp only [bind_eq_ok, require_eq_ok, beq_iff_eq] at h
    obtain ⟨_, hpending, -⟩ := h
    exact .inl hpending

theorem checkProof_eq_ok {sealBytes journal : List UInt8}
    (h : checkProof c ctx outside requestId sealBytes journal = .ok u) :
    (c.requests requestId).id ≠ 0 ∧ (c.requests requestId).status = .claimed ∧
      (c.requests requestId).claimedBy = ctx.sender ∧
        ctx.timestamp ≤ (c.requests requestId).claimDeadline := by
  simp only [checkProof, bind_eq_ok, require_eq_ok, bne_iff_ne, beq_iff_eq, decide_eq_true_eq] at h
  obtain ⟨_, -, _, hexists, _, hclaimed, _, hclaimant, _, hdeadline, -⟩ := h
  exact ⟨hexists, hclaimed, hclaimant, hdeadline⟩

theorem checkReport_eq_ok :
    checkReport c ctx requestId = .ok u ↔
      (c.requests requestId).id ≠ 0 ∧ (c.requests requestId).status = .claimed ∧
        (c.requests requestId).claimDeadline < ctx.timestamp ∧ c.reputation ≠ 0 := by
  simp only [checkReport, bind_eq_ok, require_eq_ok, bne_iff_ne, beq_iff_eq, decide_eq_true_eq,
    exists_const]

theorem calculatePayout_le {timestamp payout : ℕ}
    (h : calculatePayout req timestamp = .ok payout) : payout ≤ req.maxTip := by
  simp only [calculatePayout, bind_eq_ok] at h
  obtain ⟨elapsed, -, h⟩ := h
  split at h
  · rw [pure_eq_ok] at h
    omega
  · simp only [bind_eq_ok, checkedSub_eq_ok] at h
    obtain ⟨scaled, -, -, rfl⟩ := h
    exact Nat.sub_le _ _

/-- Nothing of a tip is lost exactly when the request completes in the second it was made in. -/
theorem calculatePayout_eq_maxTip {timestamp payout : ℕ} (hmin : MIN_TIP ≤ req.maxTip)
    (h : calculatePayout req timestamp = .ok payout) :
    payout = req.maxTip ↔ timestamp = req.createdAt := by
  unfold MIN_TIP at hmin
  have hperiod : TIP_DECAY_PERIOD = 1800 := rfl
  simp only [calculatePayout, bind_eq_ok, checkedSub_eq_ok] at h
  obtain ⟨elapsed, ⟨hle, rfl⟩, h⟩ := h
  split at h
  · rw [pure_eq_ok] at h
    omega
  · simp only [bind_eq_ok, checkedMul_eq_ok, checkedSub_eq_ok, hperiod] at h
    obtain ⟨scaled, ⟨-, rfl⟩, hdecay, rfl⟩ := h
    constructor
    · intro hfull
      by_contra hlate
      have hone : 1 ≤ timestamp - req.createdAt := by omega
      have hgrows : req.maxTip ≤ req.maxTip * (timestamp - req.createdAt) :=
        Nat.le_mul_of_pos_right _ hone
      omega
    · rintro rfl
      rw [Nat.sub_self, Nat.mul_zero, Nat.zero_div, Nat.sub_zero]

theorem splitPayout_eq_ok {protocolFeeBps payout proverPayout fee : ℕ}
    (h : splitPayout protocolFeeBps payout = .ok (proverPayout, fee)) :
    proverPayout + fee = payout := by
  simp only [splitPayout, bind_eq_ok, checkedSub_eq_ok, pure_eq_ok, Prod.mk.injEq] at h
  obtain ⟨scaled, -, _, ⟨hle, rfl⟩, rfl, rfl⟩ := h
  omega

theorem completeRequest_eq_ok {proverPayout : ℕ}
    (h : completeRequest c ctx requestId proverPayout = .ok c') :
    c'.requests = Function.update c.requests requestId
        { c.requests requestId with status := .completed } ∧
      c'.nextRequestId = c.nextRequestId ∧ c'.protocolFeeBps = c.protocolFeeBps ∧
        c'.balance = c.balance := by
  simp only [completeRequest, bind_eq_ok, pure_eq_ok] at h
  obtain ⟨_, -, _, -, rfl⟩ := h
  exact ⟨rfl, rfl, rfl, rfl⟩

end Checks

/-! ## Rules for the bodies -/

section Rules

variable {post : EngineState → Prop} {next : EngineState → EngineBody}

theorem safe_tryCall {outside : Outside} {target : ℕ} {q : ExternalCall} (hs : EngineInvariant s)
    (h : ∀ t, EngineInvariant t → Guarantee s t →
      (next t).Safe EngineInvariant Guarantee post) :
    (tryCall outside target q s next).Safe EngineInvariant Guarantee post := by
  unfold tryCall
  split
  case isTrue => exact ⟨hs, h s hs (.refl s), fun _ t ht hG => h t ht hG⟩
  case isFalse => trivial

theorem safe_payTo {p : Payment}
    (hpay : p.amount ≤ s.storage.balance → EngineInvariant (paidState s p))
    (h : ∀ t, p.amount ≤ s.storage.balance → EngineInvariant t → Guarantee (paidState s p) t →
      (next t).Safe EngineInvariant Guarantee post) :
    (payTo s p next).Safe EngineInvariant Guarantee post := by
  unfold payTo
  split
  case isTrue hle => exact ⟨hpay hle, trivial, fun _ t ht hG => h t hle ht hG⟩
  case isFalse => trivial

end Rules

/-! ## The guarded functions -/

/-- What a call does to the accounts, with `lost` the part of a tip that it leaves behind. -/
structure Outcome (s : EngineState) (lost : ℕ) (t : EngineState) : Prop where
  invariant : EngineInvariant t
  settled : ∀ requestId, Settled (s.storage.requests requestId) →
    t.storage.requests requestId = s.storage.requests requestId ∧
      paymentsFor t.payments requestId = paymentsFor s.payments requestId
  kept : kept t = kept s + lost

/-- The calls made by a callee do not add to an outcome. -/
theorem Outcome.waited {u : EngineState} {lost : ℕ} (h : Outcome s lost u)
    (hentered : u.entered = true) (ht : EngineInvariant t) (hG : Guarantee u t) :
    Outcome s lost t where
  invariant := ht
  settled := by
    intro id hid
    obtain ⟨hrequest, hpaid⟩ := h.settled id hid
    obtain ⟨hrequest', hpaid'⟩ := hG.settled id (by rw [hrequest]; exact hid)
    exact ⟨hrequest'.trans hrequest, hpaid'.trans hpaid⟩
  kept := (hG.frame hentered).kept.trans h.kept

/-- A change of an open request, without a payment. -/
theorem outcome_of_update (h : EngineInvariant s)
    (hopen : ¬Settled (s.storage.requests requestId))
    (hfee : t.storage.protocolFeeBps = s.storage.protocolFeeBps)
    (hnext : t.storage.nextRequestId = s.storage.nextRequestId)
    (hbalance : t.storage.balance = s.storage.balance) (hpayments : t.payments = s.payments)
    (hforced : t.forced = s.forced)
    (hrequests : t.storage.requests = Function.update s.storage.requests requestId req)
    (hrequest : RequestOk s.storage.nextRequestId requestId req [])
    (htip : openTip req ≤ openTip (s.storage.requests requestId)) :
    Outcome s (openTip (s.storage.requests requestId) - openTip req) t := by
  have hunpaid := (h.request requestId).unpaid hopen
  have ht : EngineInvariant t := by
    refine h.update (hfee ▸ h.fee) hnext.ge hrequests (fun id _ => by rw [hpayments]) ?_ hforced ?_
    · rw [hnext, hpayments, hunpaid]
      exact hrequest
    · rw [hbalance]
      omega
  refine ⟨ht, fun id hid => ?_, ?_⟩
  · have hne : id ≠ requestId := by
      rintro rfl
      exact hopen hid
    rw [hrequests, Function.update_of_ne hne, hpayments]
    exact ⟨rfl, rfl⟩
  · have hkept := kept_update h ht hrequests hforced
    rw [hbalance] at hkept
    omega

section Functions

variable {ctx : CallContext} {outside : Outside}

theorem not_settled_of_pending (h : req.status = .pending) : ¬Settled req := by
  rintro (h' | h') <;> rw [h] at h' <;> cases h'

theorem not_settled_of_claimed (h : req.status = .claimed) : ¬Settled req := by
  rintro (h' | h') <;> rw [h] at h' <;> cases h'

/-- A request may move between pending and claimed. -/
theorem requestOk_open {nextRequestId : ℕ} {req' : ExecutionRequest} {paid : List Payment}
    (hold : RequestOk nextRequestId requestId req paid) (hexists : req.id ≠ 0)
    (htip : req'.tip = req.tip) (hmax : req'.maxTip = req.maxTip)
    (hstatus : req'.status = .pending ∨ req'.status = .claimed) :
    RequestOk nextRequestId requestId req' [] where
  fresh := by
    intro hfresh
    rw [hold.fresh hfresh] at hexists
    exact absurd rfl hexists
  minTip := fun _ => htip ▸ hold.minTip hexists
  maxTip := by rw [hmax, htip, hold.maxTip]
  status := by rcases hstatus with h | h <;> rw [h] <;> decide
  unpaid := fun _ => rfl
  refunded := by
    intro h
    rcases hstatus with h' | h' <;> rw [h'] at h <;> cases h
  completed := by
    intro h
    rcases hstatus with h' | h' <;> rw [h'] at h <;> cases h

theorem openTip_of_open (h : req.status = .pending ∨ req.status = .claimed) :
    openTip req = req.tip := by
  rcases h with h | h <;> rw [openTip, h]

theorem cancel_outcome (h : EngineInvariant s)
    (hcheck : checkCancel s.storage ctx requestId = .ok ())
    (hafford : (s.storage.requests requestId).tip ≤ s.storage.balance) :
    Outcome s 0 (paidState (withStorage s (setRequest s.storage requestId
      { s.storage.requests requestId with status := .cancelled }))
        ⟨requestId, .refund, ctx.sender, (s.storage.requests requestId).tip⟩) := by
  obtain ⟨hexists, hrequester, hpending⟩ := checkCancel_eq_ok.mp hcheck
  have hold := h.request requestId
  have hopen := not_settled_of_pending hpending
  have htip : openTip (s.storage.requests requestId) = (s.storage.requests requestId).tip :=
    openTip_of_open (.inl hpending)
  have hzero : openTip { s.storage.requests requestId with status := .cancelled } = 0 := rfl
  set t := paidState (withStorage s (setRequest s.storage requestId
    { s.storage.requests requestId with status := .cancelled }))
      ⟨requestId, .refund, ctx.sender, (s.storage.requests requestId).tip⟩ with hdef
  have hrequests : t.storage.requests = Function.update s.storage.requests requestId
      { s.storage.requests requestId with status := .cancelled } := rfl
  have hbalance : t.storage.balance =
      s.storage.balance - (s.storage.requests requestId).tip := rfl
  have ht : EngineInvariant t := by
    refine h.update h.fee le_rfl hrequests (fun id hid => ?_) ?_ rfl ?_
    · exact paymentsFor_append_of_ne hid
    · have hpaid : paymentsFor t.payments requestId =
          [⟨requestId, .refund, ctx.sender, (s.storage.requests requestId).tip⟩] := by
        rw [hdef, paidState, paymentsFor_append_self
          (p := ⟨requestId, .refund, ctx.sender, (s.storage.requests requestId).tip⟩)]
        exact congrArg (· ++ _) (hold.unpaid hopen)
      rw [hpaid]
      refine ⟨fun hfresh => ?_, hold.minTip, hold.maxTip, fun hexpired => (by cases hexpired),
        fun hcancelled => ?_, fun _ => (by rw [hrequester]), fun hcompleted => (by cases hcompleted)⟩
      · exact absurd (by rw [hold.fresh hfresh]; rfl) hexists
      · exact absurd (.inr rfl) hcancelled
    · rw [hzero, hbalance, htip]
      omega
  refine ⟨ht, fun id hid => ?_, ?_⟩
  · have hne : id ≠ requestId := by
      rintro rfl
      exact hopen hid
    exact ⟨Function.update_of_ne hne _ _, paymentsFor_append_of_ne hne⟩
  · have hkept := kept_update h ht hrequests rfl
    omega

theorem cancel_safe (h : EngineInvariant s) (hentered : s.entered = true) :
    (cancelExecution s ctx requestId).Safe EngineInvariant Guarantee (Outcome s 0) := by
  refine Body.safe_after fun _ hcheck => ?_
  refine safe_payTo (fun hle => (cancel_outcome h hcheck hle).invariant) fun t hle ht hG => ?_
  exact (cancel_outcome h hcheck hle).waited hentered ht hG

theorem claim_safe (h : EngineInvariant s) (hentered : s.entered = true) :
    (claimExecution s ctx outside requestId).Safe EngineInvariant Guarantee (Outcome s 0) := by
  refine Body.safe_after fun _ _ => ?_
  refine Body.safe_after fun previousClaimant hcheck => ?_
  refine Body.safe_after fun claimDeadline _ => ?_
  obtain ⟨hexists, -, hstatus⟩ := checkClaim_eq_ok hcheck
  have hopen : ¬Settled (s.storage.requests requestId) :=
    hstatus.elim not_settled_of_pending not_settled_of_claimed
  set claimed : ExecutionRequest :=
    { s.storage.requests requestId with
      status := .claimed
      claimedBy := ctx.sender
      claimedAt := uint48 ctx.timestamp
      claimDeadline := uint48 claimDeadline } with hclaimed
  have htip : openTip (s.storage.requests requestId) = openTip claimed :=
    openTip_of_open hstatus
  have houtcome : Outcome s 0 (withStorage s (setRequest s.storage requestId claimed)) := by
    have hclaim := outcome_of_update (t := withStorage s (setRequest s.storage requestId claimed))
      h hopen rfl rfl rfl rfl rfl rfl
      (requestOk_open (h.request requestId) hexists rfl rfl (.inr rfl)) htip.ge
    rwa [htip, Nat.sub_self] at hclaim
  dsimp only
  split
  · refine safe_tryCall houtcome.invariant fun t ht hG => ?_
    exact houtcome.waited hentered ht hG
  · exact houtcome

theorem report_safe (h : EngineInvariant s) (hentered : s.entered = true) :
    (reportBadProof s ctx outside requestId).Safe EngineInvariant Guarantee (Outcome s 0) := by
  refine Body.safe_after fun _ hcheck => ?_
  obtain ⟨hexists, hstatus, -⟩ := checkReport_eq_ok.mp hcheck
  set reset : ExecutionRequest :=
    { s.storage.requests requestId with
      status := .pending
      claimedBy := 0
      claimedAt := 0
      claimDeadline := 0 }
  have htip : openTip (s.storage.requests requestId) = openTip reset :=
    openTip_of_open (.inr hstatus)
  have houtcome : Outcome s 0 (withStorage s (setRequest s.storage requestId reset)) := by
    have hreset := outcome_of_update (t := withStorage s (setRequest s.storage requestId reset))
      h (not_settled_of_claimed hstatus) rfl rfl rfl rfl rfl rfl
      (requestOk_open (h.request requestId) hexists rfl rfl (.inl rfl)) htip.ge
    rwa [htip, Nat.sub_self] at hreset
  refine safe_tryCall houtcome.invariant fun t ht hG => ?_
  exact houtcome.waited hentered ht hG

/-- A completed request of which `paid` has been paid and `reserve` not yet. -/
structure Completing (s : EngineState) (requestId reserve : ℕ) (paid : List Payment)
    (t : EngineState) : Prop where
  entered : t.entered = true
  outcome : Outcome s reserve t
  request : t.storage.requests requestId =
    { s.storage.requests requestId with status := .completed }
  paid : paymentsFor t.payments requestId = paid

theorem Completing.waited {u : EngineState} {reserve : ℕ} {paid : List Payment}
    (h : Completing s requestId reserve paid u) (ht : EngineInvariant t) (hG : Guarantee u t) :
    Completing s requestId reserve paid t := by
  have hsettled : Settled (u.storage.requests requestId) := by
    rw [h.request]
    exact .inl rfl
  obtain ⟨hrequest, hpaid⟩ := hG.settled requestId hsettled
  exact ⟨(hG.frame h.entered).entered, h.outcome.waited h.entered ht hG,
    hrequest.trans h.request, hpaid.trans h.paid⟩

/-- A payment out of the reserve. -/
theorem Completing.pay {u : EngineState} {reserve : ℕ} {paid : List Payment} {p : Payment}
    (h : Completing s requestId reserve paid u)
    (hopen : ¬Settled (s.storage.requests requestId)) (hp : p.requestId = requestId)
    (hreserve : p.amount ≤ reserve)
    (hcompleted : ∃ payout fee feeRecipient,
      payout + fee ≤ (s.storage.requests requestId).tip ∧ paid ++ [p] <+:
        [⟨requestId, .payout, (s.storage.requests requestId).claimedBy, payout⟩,
          ⟨requestId, .fee, feeRecipient, fee⟩]) :
    Completing s requestId (reserve - p.amount) (paid ++ [p]) (paidState u p) := by
  have hu := h.outcome.invariant
  have hsame : (paidState u p).storage.requests = Function.update u.storage.requests requestId
      (u.storage.requests requestId) := (Function.update_eq_self _ _).symm
  have hpaid : paymentsFor (paidState u p).payments requestId = paid ++ [p] := by
    rw [← h.paid, ← hp]
    exact paymentsFor_append_self
  have hbalance : (paidState u p).storage.balance = u.storage.balance - p.amount := rfl
  have hkept := h.outcome.kept
  have hle : p.amount ≤ u.storage.balance := by
    have := hu.balance_eq
    omega
  have ht : EngineInvariant (paidState u p) := by
    refine hu.update hu.fee le_rfl hsame (fun id hid => ?_) ?_ rfl ?_
    · exact paymentsFor_append_of_ne (hp ▸ hid)
    · have hold := hu.request requestId
      rw [hpaid]
      refine ⟨hold.fresh, hold.minTip, hold.maxTip, hold.status, fun hnot => ?_,
        fun hcancelled => ?_, fun _ => ?_⟩
      · rw [h.request] at hnot
        exact absurd (.inl rfl) hnot
      · rw [h.request] at hcancelled
        cases hcancelled
      · rw [h.request]
        exact hcompleted
    · rw [hbalance]
      omega
  refine ⟨h.entered, ⟨ht, fun id hid => ?_, ?_⟩, h.request, hpaid⟩
  · obtain ⟨hrequest, hold⟩ := h.outcome.settled id hid
    have hne : id ≠ p.requestId := by
      rintro rfl
      rw [hp] at hid
      exact hopen hid
    refine ⟨hrequest, ?_⟩
    rw [← hold]
    exact paymentsFor_append_of_ne hne
  · have hchange := kept_update hu ht hsame rfl
    omega

theorem runCallback_safe {reserve : ℕ} {paid : List Payment} {journal : List UInt8}
    (h : Completing s requestId reserve paid t) :
    (runCallback t outside requestId journal).Safe EngineInvariant Guarantee
      (Outcome s reserve) := by
  unfold runCallback
  dsimp only
  split
  · refine safe_tryCall h.outcome.invariant fun u hu hG => ?_
    exact (h.waited hu hG).outcome
  · exact h.outcome

theorem recordSuccess_safe {reserve proverPayout : ℕ} {paid : List Payment}
    {next : EngineState → EngineBody} {post : EngineState → Prop}
    (h : Completing s requestId reserve paid t)
    (hnext : ∀ u, Completing s requestId reserve paid u →
      (next u).Safe EngineInvariant Guarantee post) :
    (recordSuccess t ctx outside requestId proverPayout next).Safe EngineInvariant Guarantee
      post := by
  unfold recordSuccess
  split
  · refine Body.safe_after fun proofTimeMs _ => ?_
    exact safe_tryCall h.outcome.invariant fun u hu hG => hnext u (h.waited hu hG)
  · exact hnext t h

theorem complete_completing {proverPayout : ℕ} {c : EngineStorage} (h : EngineInvariant s)
    (hentered : s.entered = true) (hexists : (s.storage.requests requestId).id ≠ 0)
    (hclaimed : (s.storage.requests requestId).status = .claimed)
    (hcomplete : completeRequest s.storage ctx requestId proverPayout = .ok c) :
    Completing s requestId (s.storage.requests requestId).tip [] (withStorage s c) := by
  obtain ⟨hrequests, hnext, hfee, hbalance⟩ := completeRequest_eq_ok hcomplete
  have hold := h.request requestId
  have hopen := not_settled_of_claimed hclaimed
  have htip := openTip_of_open (.inr hclaimed)
  have houtcome := outcome_of_update (t := withStorage s c) h hopen hfee hnext hbalance rfl rfl
    hrequests ?_ (Nat.zero_le _)
  · rw [htip] at houtcome
    refine ⟨hentered, houtcome, ?_, hold.unpaid hopen⟩
    change c.requests requestId = _
    rw [hrequests, Function.update_self]
  · refine ⟨fun hfresh => ?_, hold.minTip, hold.maxTip, fun hexpired => (by cases hexpired),
      fun _ => rfl, fun hcancelled => (by cases hcancelled), fun _ => ⟨0, 0, 0, ?_, ?_⟩⟩
    · exact absurd (by rw [hold.fresh hfresh]; rfl) hexists
    · exact Nat.zero_le _
    · exact List.nil_prefix

theorem submitProof_safe {sealBytes journal : List UInt8} (h : EngineInvariant s)
    (hentered : s.entered = true) :
    (submitProof s ctx outside requestId sealBytes journal).Safe EngineInvariant Guarantee
      fun t => (s.storage.requests requestId).id ≠ 0 ∧
        ∃ payout, calculatePayout (s.storage.requests requestId) ctx.timestamp = .ok payout ∧
          Outcome s ((s.storage.requests requestId).tip - payout) t := by
  refine Body.safe_after fun _ hcheck => ?_
  refine Body.safe_after fun payout hpayout => ?_
  refine Body.safe_after fun (proverPayout, fee) hsplit => ?_
  refine Body.safe_after fun c hcomplete => ?_
  obtain ⟨hexists, hclaimed, hclaimant, -⟩ := checkProof_eq_ok hcheck
  have hopen := not_settled_of_claimed hclaimed
  have hle : payout ≤ (s.storage.requests requestId).tip := by
    rw [← (h.request requestId).maxTip]
    exact calculatePayout_le hpayout
  have hsum := splitPayout_eq_ok hsplit
  refine recordSuccess_safe (complete_completing h hentered hexists hclaimed hcomplete)
    fun u hu => ?_
  have hpaid := hu.pay (p := ⟨requestId, .payout, ctx.sender, proverPayout⟩) hopen rfl
    (show proverPayout ≤ _ by omega)
    ⟨proverPayout, fee, 0, by omega, by rw [hclaimant]; exact ⟨[_], rfl⟩⟩
  refine safe_payTo (fun _ => hpaid.outcome.invariant) fun t _ ht hG => ?_
  have hpaid' := hpaid.waited ht hG
  split
  case isTrue hfee =>
    have hfeePaid := hpaid'.pay (p := ⟨requestId, .fee, t.storage.feeRecipient, fee⟩) hopen rfl
      (show fee ≤ _ - proverPayout by omega)
      ⟨proverPayout, fee, t.storage.feeRecipient, by omega, by rw [hclaimant]; exact ⟨[], rfl⟩⟩
    refine safe_payTo (fun _ => hfeePaid.outcome.invariant) fun t' _ ht' hG' => ?_
    refine (runCallback_safe (hfeePaid.waited ht' hG')).mono fun t'' ht'' =>
      ⟨hexists, payout, hpayout, ?_⟩
    rw [← hsum, ← Nat.sub_sub]
    exact ht''
  case isFalse hfee =>
    refine (runCallback_safe hpaid').mono fun t'' ht'' =>
      ⟨hexists, payout, hpayout, ?_⟩
    rw [← hsum, Nat.eq_zero_of_not_pos hfee, Nat.add_zero]
    exact ht''

/-! ## The functions that a callee can reach -/

theorem requestExecution_eq_ok {c c' : EngineStorage}
    {imageId inputDigest callbackContract expirationSeconds : ℕ}
    (h : requestExecution c ctx outside imageId inputDigest callbackContract expirationSeconds =
      .ok c') :
    MIN_TIP ≤ ctx.value ∧ ∃ req : ExecutionRequest, req.status = .pending ∧
      req.id = c.nextRequestId ∧ req.tip = ctx.value ∧ req.maxTip = ctx.value ∧
      c' = { setRequest c c.nextRequestId req with nextRequestId := c.nextRequestId + 1 } := by
  simp only [requestExecution, bind_eq_ok, pure_eq_ok, require_eq_ok, decide_eq_true_eq,
    checkedAdd_eq_ok] at h
  obtain ⟨_, -, _, -, _, hvalue, _, -, _, -, _, -, expiresAt, -, _, -, _, ⟨-, rfl⟩, _, -, rfl⟩ := h
  exact ⟨hvalue, _, rfl, rfl, rfl, rfl, rfl⟩

/-- A new request brings its tip with it. -/
theorem request_outcome {c : EngineStorage}
    {imageId inputDigest callbackContract expirationSeconds : ℕ} (h : EngineInvariant s)
    (hrequest : requestExecution (credit s ctx.value).storage ctx outside imageId inputDigest
      callbackContract expirationSeconds = .ok c) :
    Outcome s 0 (withStorage (credit s ctx.value) c) ∧
      (s.entered = true → SameRequests s (withStorage (credit s ctx.value) c)) := by
  obtain ⟨hvalue, req, hpending, hid, htip, hmax, rfl⟩ := requestExecution_eq_ok hrequest
  change req.id = s.storage.nextRequestId at hid
  set t := withStorage (credit s ctx.value) { setRequest (credit s ctx.value).storage
    (credit s ctx.value).storage.nextRequestId req with
      nextRequestId := (credit s ctx.value).storage.nextRequestId + 1 }
  have hrequests : t.storage.requests =
      Function.update s.storage.requests s.storage.nextRequestId req := rfl
  have hnext : t.storage.nextRequestId = s.storage.nextRequestId + 1 := rfl
  have hbalance : t.storage.balance = s.storage.balance + ctx.value := rfl
  have hold := h.request s.storage.nextRequestId
  have hfresh := hold.fresh (.inr le_rfl)
  have hzero : openTip (s.storage.requests s.storage.nextRequestId) = 0 := by
    rw [hfresh]
    rfl
  have hopen : openTip req = ctx.value := (openTip_of_open (.inl hpending)).trans htip
  have ht : EngineInvariant t := by
    refine h.update h.fee (by omega) hrequests (fun _ _ => rfl) ?_ rfl (by omega)
    refine ⟨fun hnew => ?_, fun _ => htip ▸ hvalue, hmax.trans htip.symm, ?_, fun _ => ?_,
      fun hcancelled => ?_, fun hcompleted => ?_⟩
    · have := h.next
      omega
    · rw [hpending]
      decide
    · exact hold.unpaid (by rw [hfresh]; exact not_settled_empty)
    · rw [hpending] at hcancelled
      cases hcancelled
    · rw [hpending] at hcompleted
      cases hcompleted
  have hkept : kept t = kept s := by
    have := kept_update h ht hrequests rfl
    omega
  refine ⟨⟨ht, fun id hsettled => ⟨?_, rfl⟩, hkept⟩, fun hentered => ⟨hentered, fun id hlt => ?_, ?_,
    rfl, hkept⟩⟩
  · rw [hrequests, Function.update_of_ne (h.lt_next_of_settled hsettled).ne]
  · rw [hrequests, Function.update_of_ne hlt.ne]
  · rw [hnext]
    exact Nat.le_succ _

/-- A change of parameters. -/
theorem parameters_outcome {c : EngineStorage} (h : EngineInvariant s)
    (hrequests : c.requests = s.storage.requests)
    (hnext : c.nextRequestId = s.storage.nextRequestId)
    (hbalance : c.balance = s.storage.balance) (hfee : c.protocolFeeBps ≤ MAX_FEE_BPS) :
    Outcome s 0 (withStorage s c) ∧ (s.entered = true → SameRequests s (withStorage s c)) := by
  have hsame : (withStorage s c).storage.requests =
      Function.update s.storage.requests 0 (s.storage.requests 0) := by
    rw [Function.update_eq_self]
    exact hrequests
  have ht : EngineInvariant (withStorage s c) := by
    refine h.update hfee hnext.ge hsame (fun _ _ => rfl) ?_ rfl ?_
    · change RequestOk c.nextRequestId _ _ _
      rw [hnext]
      exact h.request 0
    · change _ ≤ c.balance + _ + _
      rw [hbalance]
      omega
  have hkept : kept (withStorage s c) = kept s := by
    have := kept_update h ht hsame rfl
    change c.balance + _ + _ = _ at this
    omega
  refine ⟨⟨ht, fun id _ => ⟨congrFun hrequests id, rfl⟩, hkept⟩, fun hentered =>
    ⟨hentered, fun id _ => congrFun hrequests id, hnext.ge, rfl, hkept⟩⟩

/-- Ether that arrives without a call. -/
theorem forced_outcome (h : EngineInvariant s) (value : ℕ) :
    Outcome s 0 { credit s value with forced := s.forced + value } ∧
      (s.entered = true → SameRequests s { credit s value with forced := s.forced + value }) := by
  set t : EngineState := { credit s value with forced := s.forced + value }
  have htips : openTips t = openTips s := rfl
  have hbalance : t.storage.balance = s.storage.balance + value := rfl
  have hforced : t.forced = s.forced + value := rfl
  have hsolvent := h.solvent
  have hkept : kept t = kept s := by
    unfold kept
    omega
  have ht : EngineInvariant t := ⟨h.fee, h.next, h.finite, by omega, h.request⟩
  exact ⟨⟨ht, fun _ _ => ⟨rfl, rfl⟩, hkept⟩, fun hentered =>
    ⟨hentered, fun _ _ => rfl, le_rfl, rfl, hkept⟩⟩

end Functions

/-! ## Every call -/

/-- What a call leaves of a tip that nobody gets. -/
def lost (s : EngineState) (tx : EngineMessage) : ℕ :=
  match tx.operation with
  | .submitProof requestId _ _ =>
    match calculatePayout (s.storage.requests requestId) tx.context.timestamp with
    | .ok payout => (s.storage.requests requestId).tip - payout
    | .error _ => 0
  | _ => 0

/-- The outcome of a call and what it guarantees to a function that waits. A proof is for an
existing request whose payout can be computed. -/
structure CallOutcome (s : EngineState) (tx : EngineMessage) (t : EngineState) : Prop where
  outcome : Outcome s (lost s tx) t
  frame : s.entered = true → SameRequests s t
  proof : ∀ requestId sealBytes journal,
    tx.operation = .submitProof requestId sealBytes journal →
      (s.storage.requests requestId).id ≠ 0 ∧ ∃ payout,
        calculatePayout (s.storage.requests requestId) tx.context.timestamp = .ok payout

/-- A guarded function ends as its body does, and did not run inside another call. -/
theorem guarded_safe {f : EngineState → EngineBody} {post : EngineState → Prop}
    (h : (f { s with entered := true }).Safe EngineInvariant Guarantee post)
    (hpost : s.entered = false → ∀ t, post t → CallOutcome s tx { t with entered := false }) :
    (nonReentrant s f).Safe EngineInvariant Guarantee (CallOutcome s tx) :=
  Body.safe_guarded fun hentered => h.mono (hpost hentered)

theorem callOutcome_of_entered (hlost : lost s tx = 0)
    (hproof : ∀ requestId sealBytes journal,
      tx.operation ≠ .submitProof requestId sealBytes journal)
    (hentered : s.entered = false) (t : EngineState)
    (ht : Outcome { s with entered := true } 0 t) :
    CallOutcome s tx { t with entered := false } where
  outcome := ⟨ht.invariant.setEntered false, ht.settled, hlost ▸ ht.kept⟩
  frame := by
    intro htrue
    rw [hentered] at htrue
    cases htrue
  proof := fun _ _ _ hoperation => absurd hoperation (hproof _ _ _)

theorem callOutcome_of_unguarded (hlost : lost s tx = 0)
    (hproof : ∀ requestId sealBytes journal,
      tx.operation ≠ .submitProof requestId sealBytes journal)
    (ht : Outcome s 0 t ∧ (s.entered = true → SameRequests s t)) : CallOutcome s tx t :=
  ⟨hlost ▸ ht.1, ht.2, fun _ _ _ hoperation => absurd hoperation (hproof _ _ _)⟩

theorem credit_zero (s : EngineState) : credit s 0 = s := rfl

theorem submitProof_outcome {ctx : CallContext} {outside : Outside}
    {sealBytes journal : List UInt8} (h : EngineInvariant s) :
    (nonReentrant s fun s => submitProof s ctx outside requestId sealBytes journal).Safe
      EngineInvariant Guarantee
        (CallOutcome s ⟨ctx, .submitProof requestId sealBytes journal, outside⟩) := by
  refine guarded_safe (submitProof_safe (h.setEntered true) rfl) fun hentered t ht => ?_
  obtain ⟨hexists, payout, hpayout, ht⟩ := ht
  have hlost : lost s ⟨ctx, .submitProof requestId sealBytes journal, outside⟩ =
      (s.storage.requests requestId).tip - payout := by
    simp only [lost]
    rw [show calculatePayout (s.storage.requests requestId) ctx.timestamp = .ok payout
      from hpayout]
  refine ⟨⟨ht.invariant.setEntered false, ht.settled, ?_⟩, fun htrue => ?_, ?_⟩
  · rw [hlost]
    exact ht.kept
  · rw [hentered] at htrue
    cases htrue
  · rintro _ _ _ ⟨rfl, rfl, rfl⟩
    exact ⟨hexists, payout, hpayout⟩

theorem dispatch_safe (h : EngineInvariant s)
    (hvalue : (tx.operation.payable || tx.context.value == 0) = true) :
    (dispatch tx (credit s tx.context.value)).Safe EngineInvariant Guarantee
      (CallOutcome s tx) := by
  have hentered := h.setEntered true
  obtain ⟨ctx, operation, outside⟩ := tx
  cases operation
  case requestExecution =>
    exact Body.safe_after fun c hc => callOutcome_of_unguarded rfl
      (fun _ _ _ hne => by cases hne) (request_outcome h hc)
  case forcedEther =>
    exact callOutcome_of_unguarded rfl (fun _ _ _ hne => by cases hne) (forced_outcome h ctx.value)
  all_goals
    simp only [Operation.payable, Bool.false_or, beq_iff_eq] at hvalue
    rw [hvalue, credit_zero]
  case cancelExecution =>
    exact guarded_safe (cancel_safe hentered rfl)
      (callOutcome_of_entered rfl fun _ _ _ hne => by cases hne)
  case claimExecution =>
    exact guarded_safe (claim_safe hentered rfl)
      (callOutcome_of_entered rfl fun _ _ _ hne => by cases hne)
  case reportBadProof =>
    exact guarded_safe (report_safe hentered rfl)
      (callOutcome_of_entered rfl fun _ _ _ hne => by cases hne)
  case submitProof => exact submitProof_outcome h
  all_goals
    refine Body.safe_after fun c hc =>
      callOutcome_of_unguarded rfl (fun _ _ _ hne => by cases hne) ?_
    simp only [setProtocolFee, setFeeRecipient, setReputation, administerEngine, bind_eq_ok,
      pure_eq_ok, require_eq_ok, decide_eq_true_eq] at hc
  case setProtocolFee feeBps =>
    obtain ⟨_, -, _, hfee, rfl⟩ := hc
    exact parameters_outcome h rfl rfl rfl hfee
  case setFeeRecipient =>
    obtain ⟨_, -, _, -, rfl⟩ := hc
    exact parameters_outcome h rfl rfl rfl h.fee
  case setReputation =>
    obtain ⟨_, -, rfl⟩ := hc
    exact parameters_outcome h rfl rfl rfl h.fee
  case administer =>
    obtain ⟨_, -, rfl⟩ := hc
    exact parameters_outcome h rfl rfl rfl h.fee

theorem body_safe (h : EngineInvariant s) :
    (engineBody tx s).Safe EngineInvariant Guarantee (CallOutcome s tx) :=
  Body.safe_after fun _ hvalue => dispatch_safe h (require_eq_ok.mp hvalue)

theorem guarantees : Guarantees engineBody EngineInvariant Guarantee where
  refl := Guarantee.refl
  trans := fun _ _ _ => Guarantee.trans
  safe := fun _ _ h => (body_safe h).mono fun _ ht =>
    ⟨ht.outcome.invariant, ht.frame, ht.outcome.settled⟩

theorem calls_outcome (h : EngineInvariant s) (hcalls : Calls engineBody tx s t) :
    CallOutcome s tx t :=
  guarantees.calls_post (body_safe h) hcalls

/-! ## Properties of the requests -/

/-- What a request keeps in every function. -/
structure SameTerms (req req' : ExecutionRequest) : Prop where
  id : req'.id = req.id
  imageId : req'.imageId = req.imageId
  inputDigest : req'.inputDigest = req.inputDigest

/-- A property that a request changed within its terms does not break, and neither do the calls made
meanwhile. -/
structure AboutRequests (I : EngineState → Prop) (G : EngineState → EngineState → Prop)
    (P : EngineState → Prop) : Prop where
  holds : ∀ t, P t → I t
  resume : ∀ t u, P t → I u → G t u → P u
  update : ∀ t u requestId req, P t → SameTerms (t.storage.requests requestId) req →
    u.storage.requests = Function.update t.storage.requests requestId req →
    u.storage.nextRequestId = t.storage.nextRequestId → P u

section AboutRequests

variable {I P : EngineState → Prop} {G : EngineState → EngineState → Prop}
variable {ctx : CallContext} {outside : Outside} {next : EngineState → EngineBody}

theorem AboutRequests.congr (h : AboutRequests I G P) (hs : P s)
    (hrequests : t.storage.requests = s.storage.requests)
    (hnext : t.storage.nextRequestId = s.storage.nextRequestId) : P t := by
  refine h.update s t 0 (s.storage.requests 0) hs ⟨rfl, rfl, rfl⟩ ?_ hnext
  rw [Function.update_eq_self, hrequests]

theorem AboutRequests.setRequest (h : AboutRequests I G P) (hs : P s)
    (hterms : SameTerms (s.storage.requests requestId) req) :
    P (withStorage s (setRequest s.storage requestId req)) :=
  h.update s _ requestId req hs hterms rfl rfl

theorem AboutRequests.safe_tryCall (h : AboutRequests I G P) {target : ℕ} {q : ExternalCall}
    (hs : P s) (hnext : ∀ u, P u → (next u).Safe I G P) :
    (tryCall outside target q s next).Safe I G P := by
  unfold tryCall
  split
  · exact ⟨h.holds s hs, hnext s hs, fun _ u hu hG => hnext u (h.resume s u hs hu hG)⟩
  · trivial

theorem AboutRequests.safe_payTo (h : AboutRequests I G P) {p : Payment} (hs : P s)
    (hnext : ∀ u, P u → (next u).Safe I G P) : (payTo s p next).Safe I G P := by
  have hpaid : P (paidState s p) := h.congr hs rfl rfl
  unfold payTo
  split
  · exact ⟨h.holds _ hpaid, trivial, fun _ u hu hG => hnext u (h.resume _ u hpaid hu hG)⟩
  · trivial

theorem AboutRequests.safe_nonReentrant (h : AboutRequests I G P) {f : EngineState → EngineBody}
    (hf : (f { s with entered := true }).Safe I G P) : (nonReentrant s f).Safe I G P := by
  refine Body.safe_guarded fun _ => hf.mono fun t ht => ?_
  exact h.congr ht rfl rfl

theorem AboutRequests.safe_runCallback (h : AboutRequests I G P) {journal : List UInt8}
    (hs : P s) : (runCallback s outside requestId journal).Safe I G P := by
  unfold runCallback
  dsimp only
  split
  · exact h.safe_tryCall hs fun _ hu => hu
  · exact hs

theorem AboutRequests.safe_recordSuccess (h : AboutRequests I G P) {proverPayout : ℕ} (hs : P s)
    (hnext : ∀ u, P u → (next u).Safe I G P) :
    (recordSuccess s ctx outside requestId proverPayout next).Safe I G P := by
  unfold recordSuccess
  split
  · exact Body.safe_after fun _ _ => h.safe_tryCall hs hnext
  · exact hnext s hs

theorem AboutRequests.safe_submitProof (h : AboutRequests I G P) {sealBytes journal : List UInt8}
    (hs : P s) : (submitProof s ctx outside requestId sealBytes journal).Safe I G P := by
  refine Body.safe_after fun _ _ => Body.safe_after fun payout _ =>
    Body.safe_after fun ⟨proverPayout, fee⟩ _ => Body.safe_after fun c hc => ?_
  have hcompleted : P (withStorage s c) := by
    obtain ⟨hrequests, hnext, -, -⟩ := completeRequest_eq_ok hc
    exact h.update s _ requestId { s.storage.requests requestId with status := .completed } hs
      ⟨rfl, rfl, rfl⟩ hrequests hnext
  refine h.safe_recordSuccess hcompleted fun u hu => h.safe_payTo hu fun u hu => ?_
  split
  · exact h.safe_payTo hu fun u hu => h.safe_runCallback hu
  · exact h.safe_runCallback hu

theorem AboutRequests.safe_claimExecution (h : AboutRequests I G P) (hs : P s) :
    (claimExecution s ctx outside requestId).Safe I G P := by
  refine Body.safe_after fun _ _ => Body.safe_after fun _ _ => Body.safe_after fun _ _ => ?_
  dsimp only
  split
  · exact h.safe_tryCall (h.setRequest hs ⟨rfl, rfl, rfl⟩) fun _ hu => hu
  · exact h.setRequest hs ⟨rfl, rfl, rfl⟩

/-- The functions keep such a property, if a new request does not break it. -/
theorem AboutRequests.safe_dispatch (h : AboutRequests I G P) (hs : P s)
    (hrequest : ∀ imageId inputDigest callbackContract expirationSeconds c,
      requestExecution s.storage tx.context tx.outside imageId inputDigest callbackContract
        expirationSeconds = .ok c → P (withStorage s c)) : (dispatch tx s).Safe I G P := by
  have hentered : P { s with entered := true } := h.congr hs rfl rfl
  obtain ⟨ctx, operation, outside⟩ := tx
  cases operation
  case requestExecution => exact Body.safe_after fun c hc => hrequest _ _ _ _ c hc
  case cancelExecution =>
    refine h.safe_nonReentrant (Body.safe_after fun _ _ => ?_)
    exact h.safe_payTo (h.setRequest hentered ⟨rfl, rfl, rfl⟩) fun _ hu => hu
  case claimExecution => exact h.safe_nonReentrant (h.safe_claimExecution hentered)
  case submitProof => exact h.safe_nonReentrant (h.safe_submitProof hentered)
  case reportBadProof =>
    refine h.safe_nonReentrant (Body.safe_after fun _ _ => ?_)
    exact h.safe_tryCall (h.setRequest hentered ⟨rfl, rfl, rfl⟩) fun _ hu => hu
  case forcedEther => exact h.congr hs rfl rfl
  case setProtocolFee | setFeeRecipient =>
    refine Body.safe_after fun c hc => ?_
    simp only [setProtocolFee, setFeeRecipient, bind_eq_ok, pure_eq_ok] at hc
    obtain ⟨_, -, _, -, rfl⟩ := hc
    exact h.congr hs rfl rfl
  case setReputation | administer =>
    refine Body.safe_after fun c hc => ?_
    simp only [setReputation, administerEngine, bind_eq_ok, pure_eq_ok] at hc
    obtain ⟨_, -, rfl⟩ := hc
    exact h.congr hs rfl rfl

end AboutRequests

end WorldZk.EngineAccounts
