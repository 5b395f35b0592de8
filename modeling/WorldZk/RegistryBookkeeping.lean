import WorldZk.FiniteTotals
import WorldZk.ProverRegistry

/-!
# The bookkeeping of the prover registry

The list of active provers agrees with its index and with the flags of the provers, and the total
of the stakes is what it says and is covered by tokens. This holds in every reachable state, also
while the staking token has control.
-/

namespace WorldZk.RegistryBookkeeping

open CheckedRuns ReentrantCalls OwnedContracts ProverRegistry IndexedKeys FiniteTotals
open Function (update)

/-! ## The invariant -/

structure Bookkeeping (c : RegistryStorage) : Prop where
  indexed : Indexed c.activeProvers c.proverIndex
  active : ∀ prover, prover ∈ c.activeProvers ↔ (c.provers prover).active = true
  unregistered : ∀ prover, (c.provers prover).registeredAt = 0 →
    (c.provers prover).stake = 0 ∧ (c.provers prover).active = false
  finite : (fun prover => (c.provers prover).stake).support.Finite
  total : c.totalStaked = ∑ᶠ prover, (c.provers prover).stake

structure RegistryInvariant (s : RegistryState) : Prop where
  book : Bookkeeping s.storage
  funded : s.storage.totalStaked ≤ s.tokenBalance

/-- What a call made by the token leaves alone: nobody registers meanwhile. -/
structure Frame (s t : RegistryState) : Prop where
  entered : t.entered = true
  registered : ∀ prover, (t.storage.provers prover).registeredAt =
    (s.storage.provers prover).registeredAt

def Guarantee (s t : RegistryState) : Prop := s.entered = true → Frame s t

variable {s t : RegistryState} {c c' : RegistryStorage} {ctx : CallContext} {prover : ℕ}

theorem Guarantee.refl (s : RegistryState) : Guarantee s s := fun h => ⟨h, fun _ => rfl⟩

theorem Guarantee.trans {u : RegistryState} (hst : Guarantee s t) (htu : Guarantee t u) :
    Guarantee s u := by
  intro hs
  have h := hst hs
  have h' := htu h.entered
  exact ⟨h'.entered, fun prover => (h'.registered prover).trans (h.registered prover)⟩

/-! ## Changes of one prover -/

theorem stakes_update {p : Prover} (h : Bookkeeping c)
    (hprovers : c'.provers = update c.provers prover p) :
    (fun a => (c'.provers a).stake).support.Finite ∧
      ∑ᶠ a, (c'.provers a).stake + (c.provers prover).stake =
        ∑ᶠ a, (c.provers a).stake + p.stake := by
  have hmap : (fun a => (c'.provers a).stake) =
      update (fun a => (c.provers a).stake) prover p.stake := by
    rw [hprovers]
    exact Function.comp_update Prover.stake c.provers prover p
  rw [hmap]
  exact ⟨support_update_finite h.finite prover _, finsum_update_add h.finite prover p.stake⟩

/-- A prover is written whose flag stays as it was, and the total follows its stake. -/
theorem Bookkeeping.write {p : Prover} (h : Bookkeeping c)
    (hprovers : c'.provers = update c.provers prover p)
    (hkeys : c'.activeProvers = c.activeProvers) (hindex : c'.proverIndex = c.proverIndex)
    (hactive : p.active = (c.provers prover).active)
    (hregistered : p.registeredAt = 0 → p.stake = 0 ∧ p.active = false)
    (htotal : c'.totalStaked + (c.provers prover).stake = c.totalStaked + p.stake) :
    Bookkeeping c' := by
  obtain ⟨hfinite, hsum⟩ := stakes_update h hprovers
  have hold := h.total
  refine ⟨?_, fun a => ?_, fun a => ?_, hfinite, by omega⟩
  · rw [hkeys, hindex]
    exact h.indexed
  · rw [hkeys, h.active a, hprovers]
    by_cases ha : a = prover
    · rw [ha, Function.update_self, hactive]
    · rw [Function.update_of_ne ha]
  · rw [hprovers]
    by_cases ha : a = prover
    · rw [ha, Function.update_self]
      exact hregistered
    · rw [Function.update_of_ne ha]
      exact h.unregistered a

/-- A prover that is written as active and pushed to the list. -/
theorem Bookkeeping.push {p : Prover} (h : Bookkeeping c)
    (hinactive : (c.provers prover).active = false)
    (hprovers : c'.provers = update c.provers prover p)
    (hkeys : c'.activeProvers = c.activeProvers ++ [prover])
    (hindex : c'.proverIndex = update c.proverIndex prover c.activeProvers.length)
    (hactive : p.active = true) (hregistered : p.registeredAt ≠ 0)
    (htotal : c'.totalStaked + (c.provers prover).stake = c.totalStaked + p.stake) :
    Bookkeeping c' := by
  obtain ⟨hfinite, hsum⟩ := stakes_update h hprovers
  have hold := h.total
  have hnew : prover ∉ c.activeProvers := by
    rw [h.active, hinactive]
    exact Bool.false_ne_true
  refine ⟨?_, fun a => ?_, fun a => ?_, hfinite, by omega⟩
  · rw [hkeys, hindex]
    exact h.indexed.push hnew
  · rw [hkeys, hprovers, List.mem_append, List.mem_singleton, h.active a]
    by_cases ha : a = prover
    · rw [ha, Function.update_self]
      exact iff_of_true (.inr rfl) hactive
    · rw [Function.update_of_ne ha]
      exact ⟨fun hor => hor.resolve_right ha, .inl⟩
  · rw [hprovers]
    by_cases ha : a = prover
    · rw [ha, Function.update_self]
      exact fun hzero => absurd hzero hregistered
    · rw [Function.update_of_ne ha]
      exact h.unregistered a

theorem Bookkeeping.activate (h : Bookkeeping c)
    (hinactive : (c.provers prover).active = false)
    (hregistered : (c.provers prover).registeredAt ≠ 0) :
    Bookkeeping (activateProver c prover) :=
  h.push hinactive rfl rfl rfl rfl hregistered rfl

/-! ## Removal from the list -/

theorem activeProverAt_eq_ok {i : ℕ} :
    activeProverAt c i = .ok prover ↔ c.activeProvers[i]? = some prover := by
  unfold activeProverAt
  cases c.activeProvers[i]? <;> simp

/-- What `deactivateProver` does to an active prover. -/
theorem deactivateProver_eq_ok (h : Bookkeeping c) (hactive : (c.provers prover).active = true)
    (hc : deactivateProver c prover = .ok c') :
    ∃ last, c.activeProvers[c.activeProvers.length - 1]? = some last ∧
      c' = { setProver c prover { c.provers prover with active := false } with
        activeProvers := removeAt c.activeProvers (c.proverIndex prover) last
        proverIndex := indexWithout c.proverIndex prover last } := by
  have hmem : prover ∈ c.activeProvers := (h.active prover).mpr hactive
  simp only [deactivateProver, hactive, Bool.not_true, Bool.false_eq_true, if_false, bind_eq_ok,
    checkedSub_eq_ok, pure_eq_ok] at hc
  obtain ⟨lastIdx, ⟨-, rfl⟩, moved, hmoved, rfl⟩ := hc
  unfold moveLast at hmoved
  split at hmoved
  case isTrue heq =>
    -- The removed prover is the last one itself.
    have hlast := h.indexed.getElem? hmem
    refine ⟨prover, heq ▸ hlast, ?_⟩
    obtain rfl := pure_eq_ok.mp hmoved
    have hset : c.activeProvers.set (c.proverIndex prover) prover = c.activeProvers := by
      obtain ⟨hlt, hget⟩ := List.getElem?_eq_some_iff.mp hlast
      nth_rewrite 2 [← hget]
      exact List.set_getElem_self hlt
    have hindex : update c.proverIndex prover (c.proverIndex prover) = c.proverIndex :=
      Function.update_eq_self _ _
    simp only [removeAt, indexWithout, hset, hindex]
    rfl
  case isFalse =>
    simp only [bind_eq_ok, activeProverAt_eq_ok, pure_eq_ok] at hmoved
    obtain ⟨last, hlast, _, -, rfl⟩ := hmoved
    exact ⟨last, hlast, rfl⟩

theorem Bookkeeping.remove (h : Bookkeeping c)
    (hactive : (c.provers prover).active = true)
    (hc : deactivateProver c prover = .ok c') : Bookkeeping c' := by
  obtain ⟨last, hlast, rfl⟩ := deactivateProver_eq_ok h hactive hc
  have hmem : prover ∈ c.activeProvers := (h.active prover).mpr hactive
  set p : Prover := { c.provers prover with active := false } with hp
  obtain ⟨hfinite, hsum⟩ := stakes_update h
    (show (setProver c prover p).provers = update c.provers prover p from rfl)
  have hold := h.total
  refine ⟨h.indexed.removeAt hlast, fun a => ?_, fun a => ?_, hfinite, ?_⟩
  · refine (h.indexed.mem_removeAt hmem hlast).trans ?_
    change _ ↔ (update c.provers prover p a).active = true
    rw [h.active a]
    by_cases ha : a = prover
    · rw [ha, Function.update_self]
      exact iff_of_false (fun hne => hne.2 rfl) Bool.false_ne_true
    · rw [Function.update_of_ne ha]
      exact ⟨fun hboth => hboth.1, fun hleft => ⟨hleft, ha⟩⟩
  · change (update c.provers prover p a).registeredAt = 0 →
      (update c.provers prover p a).stake = 0 ∧ (update c.provers prover p a).active = false
    by_cases ha : a = prover
    · rw [ha, Function.update_self]
      exact fun hzero => ⟨(h.unregistered prover hzero).1, rfl⟩
    · rw [Function.update_of_ne ha]
      exact h.unregistered a
  · change c.totalStaked = ∑ᶠ a, ((setProver c prover p).provers a).stake
    have hstake : p.stake = (c.provers prover).stake := rfl
    omega

/-! ## The functions -/

theorem checkRegistered_eq_ok {u : Unit} :
    checkRegistered c prover = .ok u ↔ (c.provers prover).registeredAt ≠ 0 := by
  rw [checkRegistered, require_eq_ok, bne_iff_ne]

/-- What an operation does to the books: the total changes by what is paid in and paid out, and
who is registered does not change. -/
structure Booked (c : RegistryStorage) (paidIn paidOut : ℕ) (c' : RegistryStorage) : Prop where
  book : Bookkeeping c'
  total : c'.totalStaked + paidOut = c.totalStaked + paidIn
  registered : ∀ prover, (c'.provers prover).registeredAt = (c.provers prover).registeredAt

theorem registered_of_update {p : Prover} (hprovers : c'.provers = update c.provers prover p)
    (hregistered : p.registeredAt = (c.provers prover).registeredAt) (a : ℕ) :
    (c'.provers a).registeredAt = (c.provers a).registeredAt := by
  rw [hprovers]
  by_cases ha : a = prover
  · rw [ha, Function.update_self, hregistered]
  · rw [Function.update_of_ne ha]

theorem activateProver_booked (h : Bookkeeping c) (hinactive : (c.provers prover).active = false)
    (hregistered : (c.provers prover).registeredAt ≠ 0) :
    Booked c 0 0 (activateProver c prover) :=
  ⟨h.activate hinactive hregistered, rfl, registered_of_update rfl rfl⟩

theorem deactivateProver_booked (h : Bookkeeping c)
    (hactive : (c.provers prover).active = true)
    (hc : deactivateProver c prover = .ok c') : Booked c 0 0 c' := by
  have hbook := h.remove hactive hc
  obtain ⟨last, -, rfl⟩ := deactivateProver_eq_ok h hactive hc
  exact ⟨hbook, rfl, registered_of_update rfl rfl⟩

theorem createProver_book {stake : ℕ} {endpoint : List UInt8} (h : Bookkeeping c)
    (hnew : (c.provers ctx.sender).registeredAt = 0)
    (hc : createProver c ctx stake endpoint = .ok c') :
    Bookkeeping c' ∧ c'.totalStaked = c.totalStaked + stake := by
  simp only [createProver, bind_eq_ok, checkedAdd_eq_ok, pure_eq_ok] at hc
  obtain ⟨total, ⟨-, rfl⟩, rfl⟩ := hc
  obtain ⟨hstake, hinactive⟩ := h.unregistered _ hnew
  refine ⟨h.push hinactive rfl rfl rfl rfl ctx.timestamp_pos.ne' ?_, rfl⟩
  rw [hstake]
  rfl

theorem creditStake_booked {amount : ℕ} (h : Bookkeeping c)
    (hregistered : (c.provers ctx.sender).registeredAt ≠ 0)
    (hc : creditStake c ctx amount = .ok c') : Booked c amount 0 c' := by
  simp only [creditStake, bind_eq_ok, checkedAdd_eq_ok] at hc
  obtain ⟨stake, ⟨-, hstake⟩, total, ⟨-, htotal⟩, hc⟩ := hc
  set credited : RegistryStorage :=
    { setProver c ctx.sender { c.provers ctx.sender with stake := stake } with
      totalStaked := total } with hcredited
  have hbook : Bookkeeping credited := by
    refine h.write rfl rfl rfl rfl (fun hzero => absurd hzero hregistered) ?_
    change total + _ = _ + stake
    omega
  have hsame : ∀ a, (credited.provers a).registeredAt = (c.provers a).registeredAt :=
    registered_of_update rfl rfl
  split at hc
  case isTrue hcond =>
    rw [pure_eq_ok] at hc
    rw [Bool.and_eq_true, Bool.not_eq_true'] at hcond
    have hreg : (credited.provers ctx.sender).registeredAt ≠ 0 := by
      rw [hsame]
      exact hregistered
    have hactivated := activateProver_booked hbook hcond.1 hreg
    rw [hc] at hactivated
    refine ⟨hactivated.book, ?_, fun a => (hactivated.registered a).trans (hsame a)⟩
    have := hactivated.total
    change _ = total + 0 at this
    omega
  case isFalse =>
    rw [pure_eq_ok] at hc
    rw [← hc]
    refine ⟨hbook, ?_, hsame⟩
    change total + 0 = _
    omega

theorem debitStake_booked {amount : ℕ} (h : Bookkeeping c)
    (hc : debitStake c ctx amount = .ok c') : Booked c 0 amount c' := by
  simp only [debitStake, bind_eq_ok, checkRegistered_eq_ok, checkedSub_eq_ok, pure_eq_ok] at hc
  obtain ⟨_, hregistered, _, -, newStake, ⟨hle, hstake⟩, _, -, total, ⟨hle', htotal⟩, rfl⟩ := hc
  refine ⟨h.write rfl rfl rfl rfl (fun hzero => absurd hzero hregistered) ?_, ?_,
    registered_of_update rfl rfl⟩
  · change total + _ = _ + newStake
    omega
  · change total + _ = _
    omega

theorem deactivateBelowMinimum_booked (h : Bookkeeping c)
    (hc : deactivateBelowMinimum c prover = .ok c') : Booked c 0 0 c' := by
  unfold deactivateBelowMinimum at hc
  split at hc
  case isTrue hcond => exact deactivateProver_booked h hcond.2 hc
  case isFalse =>
    obtain rfl := pure_eq_ok.mp hc
    exact ⟨h, rfl, fun _ => rfl⟩

theorem applySlash_booked {reason : List UInt8} {slashAmount : ℕ} (h : Bookkeeping c)
    (hc : applySlash c ctx prover reason = .ok (c', slashAmount)) : Booked c 0 slashAmount c' := by
  simp only [applySlash, bind_eq_ok, checkRegistered_eq_ok, checkedSub_eq_ok, pure_eq_ok,
    Prod.mk.injEq] at hc
  obtain ⟨_, -, _, -, _, hregistered, scaled, -, stake, ⟨hle, hstake⟩, proofsFailed, -, total,
    ⟨hle', htotal⟩, retained, -, slashed, hslashed, rfl, rfl⟩ := hc
  set debited : RegistryStorage := { setProver c prover
    { c.provers prover with
      stake := stake, proofsFailed := proofsFailed, reputation := retained / 100 } with
    totalStaked := total } with hdebited
  have hbook : Bookkeeping debited := by
    refine h.write rfl rfl rfl rfl (fun hzero => absurd hzero hregistered) ?_
    change total + _ = _ + stake
    omega
  have hbelow := deactivateBelowMinimum_booked hbook hslashed
  have hsame : ∀ a, (debited.provers a).registeredAt = (c.provers a).registeredAt :=
    registered_of_update rfl rfl
  have hslashedTotal := hbelow.total
  change _ = total + 0 at hslashedTotal
  have hfields := hbelow.book
  refine ⟨⟨hfields.indexed, hfields.active, hfields.unregistered, hfields.finite, hfields.total⟩,
    ?_, fun a => (hbelow.registered a).trans (hsame a)⟩
  change slashed.totalStaked + _ = _
  omega

theorem recordSuccess_booked {reward : ℕ} (h : Bookkeeping c)
    (hc : recordSuccess c ctx prover reward = .ok c') : Booked c 0 0 c' := by
  simp only [recordSuccess, bind_eq_ok, checkRegistered_eq_ok, pure_eq_ok] at hc
  obtain ⟨_, -, _, -, _, hregistered, _, -, _, -, _, -, rfl⟩ := hc
  exact ⟨h.write rfl rfl rfl rfl (fun hzero => absurd hzero hregistered) rfl, rfl,
    registered_of_update rfl rfl⟩

/-- A change of something that the books are not about. -/
theorem booked_of_eq (h : Bookkeeping c) (hprovers : c'.provers = c.provers)
    (hkeys : c'.activeProvers = c.activeProvers) (hindex : c'.proverIndex = c.proverIndex)
    (htotal : c'.totalStaked = c.totalStaked) : Booked c 0 0 c' := by
  refine ⟨⟨?_, ?_, ?_, ?_, ?_⟩, by rw [htotal], fun a => by rw [hprovers]⟩
  · rw [hkeys, hindex]
    exact h.indexed
  · rw [hkeys, hprovers]
    exact h.active
  · rw [hprovers]
    exact h.unregistered
  · rw [hprovers]
    exact h.finite
  · rw [hprovers, htotal]
    exact h.total

/-! ## Every call -/

section Rules

variable {post : RegistryState → Prop} {next : RegistryState → RegistryBody} {amount : ℕ}

theorem safe_pullTokens {sender : ℕ} (h : RegistryInvariant s)
    (hnext : ∀ t, RegistryInvariant t → Guarantee s t →
      (next { t with tokenBalance := t.tokenBalance + amount }).Safe RegistryInvariant Guarantee
        post) :
    (pullTokens s sender amount next).Safe RegistryInvariant Guarantee post :=
  ⟨h, trivial, fun _ t ht hG => hnext t ht hG⟩

theorem safe_sendTokens {recipient : ℕ}
    (h : RegistryInvariant { s with tokenBalance := s.tokenBalance - amount })
    (hpost : ∀ t, RegistryInvariant t → post t) :
    (sendTokens s recipient amount).Safe RegistryInvariant Guarantee post := by
  unfold sendTokens
  split
  case isTrue => exact ⟨h, trivial, fun _ t ht _ => hpost t ht⟩
  case isFalse => trivial

end Rules

theorem register_safe {stake : ℕ} {endpoint : List UInt8} (h : RegistryInvariant s)
    (hentered : s.entered = true) :
    (register s ctx stake endpoint).Safe RegistryInvariant Guarantee RegistryInvariant := by
  refine Body.safe_after fun _ hcheck => ?_
  simp only [checkRegister, bind_eq_ok, require_eq_ok, beq_iff_eq] at hcheck
  obtain ⟨_, -, _, -, _, hnew, -⟩ := hcheck
  refine safe_pullTokens h fun t ht hG => Body.safe_after fun c hc => ?_
  have hnew' : (t.storage.provers ctx.sender).registeredAt = 0 := by
    rw [(hG hentered).registered]
    exact hnew
  obtain ⟨hbook, htotal⟩ := createProver_book ht.book hnew' hc
  refine ⟨hbook, ?_⟩
  have hfunded := ht.funded
  change c.totalStaked ≤ t.tokenBalance + stake
  omega

theorem addStake_safe {amount : ℕ} (h : RegistryInvariant s) (hentered : s.entered = true) :
    (addStake s ctx amount).Safe RegistryInvariant Guarantee RegistryInvariant := by
  refine Body.safe_after fun _ hcheck => ?_
  simp only [checkAddStake, bind_eq_ok, checkRegistered_eq_ok] at hcheck
  obtain ⟨_, -, hregistered⟩ := hcheck
  refine safe_pullTokens h fun t ht hG => Body.safe_after fun c hc => ?_
  have hregistered' : (t.storage.provers ctx.sender).registeredAt ≠ 0 := by
    rw [(hG hentered).registered]
    exact hregistered
  have hbooked := creditStake_booked ht.book hregistered' hc
  refine ⟨hbooked.book, ?_⟩
  have hfunded := ht.funded
  have htotal := hbooked.total
  change c.totalStaked ≤ t.tokenBalance + amount
  change c.totalStaked + 0 = t.storage.totalStaked + amount at htotal
  omega

/-- What is paid out has left the total before. -/
theorem invariant_of_paidOut {amount : ℕ} (h : RegistryInvariant s)
    (hbooked : Booked s.storage 0 amount c) :
    RegistryInvariant { withStorage s c with tokenBalance := s.tokenBalance - amount } := by
  refine ⟨hbooked.book, ?_⟩
  have hfunded := h.funded
  have htotal := hbooked.total
  change c.totalStaked ≤ s.tokenBalance - amount
  omega

theorem withdrawStake_safe {amount : ℕ} (h : RegistryInvariant s) :
    (withdrawStake s ctx amount).Safe RegistryInvariant Guarantee RegistryInvariant := by
  refine Body.safe_after fun c hc => ?_
  exact safe_sendTokens (invariant_of_paidOut h (debitStake_booked h.book hc)) fun t ht => ht

theorem slash_safe {reason : List UInt8} (h : RegistryInvariant s) :
    (slash s ctx prover reason).Safe RegistryInvariant Guarantee RegistryInvariant := by
  refine Body.safe_after fun (c, slashAmount) hc => ?_
  exact safe_sendTokens (invariant_of_paidOut h (applySlash_booked h.book hc)) fun t ht => ht

/-- A function behind the guard, which was not entered before it. -/
theorem guarded_safe {f : RegistryState → RegistryBody}
    (h : (f { s with entered := true }).Safe RegistryInvariant Guarantee RegistryInvariant) :
    (nonReentrant s f).Safe RegistryInvariant Guarantee fun t =>
      RegistryInvariant t ∧ Guarantee s t := by
  refine Body.safe_guarded fun hentered => h.mono fun t ht => ⟨⟨ht.book, ht.funded⟩, fun htrue => ?_⟩
  rw [hentered] at htrue
  cases htrue

/-- A function without external calls, which the token may call. -/
theorem booked_safe (h : RegistryInvariant s) (hbooked : Booked s.storage 0 0 c)
    (hstorage : t.storage = c) (hentered : t.entered = s.entered)
    (hbalance : t.tokenBalance = s.tokenBalance) : RegistryInvariant t ∧ Guarantee s t := by
  subst hstorage
  have htotal := hbooked.total
  refine ⟨⟨hbooked.book, ?_⟩, fun htrue => ⟨hentered.trans htrue, hbooked.registered⟩⟩
  rw [hbalance]
  have := h.funded
  omega

theorem finish_safe {x : RegistryCall RegistryStorage} (h : RegistryInvariant s)
    (hx : ∀ c, x = .ok c → Booked s.storage 0 0 c) :
    (finish s x).Safe RegistryInvariant Guarantee fun t => RegistryInvariant t ∧ Guarantee s t :=
  Body.safe_after fun c hc => booked_safe h (hx c hc) rfl rfl rfl

variable {hashes : ℕ → ℕ}

theorem deactivate_booked (h : Bookkeeping c) (hc : deactivate c ctx = .ok c') :
    Booked c 0 0 c' := by
  simp only [deactivate, bind_eq_ok, require_eq_ok] at hc
  obtain ⟨_, -, _, -, _, hactive, hc⟩ := hc
  exact deactivateProver_booked h hactive hc

theorem reactivate_booked (h : Bookkeeping c) (hc : reactivate c ctx = .ok c') :
    Booked c 0 0 c' := by
  simp only [reactivate, bind_eq_ok, checkRegistered_eq_ok] at hc
  obtain ⟨_, -, _, hregistered, hc⟩ := hc
  split at hc
  case isTrue =>
    obtain rfl := pure_eq_ok.mp hc
    exact booked_of_eq h rfl rfl rfl rfl
  case isFalse hinactive =>
    simp only [bind_eq_ok, pure_eq_ok] at hc
    obtain ⟨_, -, rfl⟩ := hc
    exact activateProver_booked h (Bool.eq_false_iff.mpr hinactive) hregistered

theorem dispatch_safe {tx : RegistryMessage} (h : RegistryInvariant s) :
    (dispatch hashes tx s).Safe RegistryInvariant Guarantee fun t =>
      RegistryInvariant t ∧ Guarantee s t := by
  have hentered : RegistryInvariant { s with entered := true } := ⟨h.book, h.funded⟩
  obtain ⟨ctx, operation⟩ := tx
  cases operation
  case register => exact guarded_safe (register_safe hentered rfl)
  case addStake => exact guarded_safe (addStake_safe hentered rfl)
  case withdrawStake => exact guarded_safe (withdrawStake_safe hentered)
  case slash => exact guarded_safe (slash_safe hentered)
  case deactivate => exact finish_safe h fun c hc => deactivate_booked h.book hc
  case reactivate => exact finish_safe h fun c hc => reactivate_booked h.book hc
  case recordSuccess => exact finish_safe h fun c hc => recordSuccess_booked h.book hc
  case tokensReceived amount =>
    refine ⟨⟨h.book, h.funded.trans (Nat.le_add_right _ _)⟩, fun htrue => ⟨htrue, fun _ => rfl⟩⟩
  case fulfillProverSelection =>
    refine Body.safe_after fun (c, fulfilment) hc => ?_
    simp only [fulfillProverSelection, bind_eq_ok, pure_eq_ok, Prod.mk.injEq] at hc
    obtain ⟨_, -, _, -, _, -, rfl, -⟩ := hc
    refine booked_safe h ?_ rfl rfl rfl
    exact booked_of_eq h.book rfl rfl rfl rfl
  all_goals
    refine finish_safe h fun c hc => ?_
    simp only [requestProverSelection, setMinStake, setSlashBasisPoints, setSlasher,
      administerRegistry, bind_eq_ok, pure_eq_ok] at hc
  case requestProverSelection =>
    obtain ⟨_, -, _, -, rfl⟩ := hc
    exact booked_of_eq h.book rfl rfl rfl rfl
  case setSlashBasisPoints =>
    obtain ⟨_, -, _, -, rfl⟩ := hc
    exact booked_of_eq h.book rfl rfl rfl rfl
  all_goals
    obtain ⟨_, -, rfl⟩ := hc
    exact booked_of_eq h.book rfl rfl rfl rfl

theorem guarantees : Guarantees (registryBody hashes) RegistryInvariant Guarantee where
  refl := Guarantee.refl
  trans := fun _ _ _ => Guarantee.trans
  safe := fun _ _ h => Body.safe_after fun _ _ => dispatch_safe h

theorem construct_invariant {deployer minStake slashBasisPoints tokenBalance : ℕ} :
    RegistryInvariant (construct deployer minStake slashBasisPoints tokenBalance) where
  book :=
    { indexed := fun i a h => by cases h
      active := fun prover => iff_of_false List.not_mem_nil Bool.false_ne_true
      unregistered := fun _ _ => ⟨rfl, rfl⟩
      finite := by
        change (fun _ : ℕ => 0).support.Finite
        simp
      total := finsum_zero.symm }
  funded := Nat.zero_le _

/-- In every reachable state, also while the token has control, the active provers are listed
without duplicates and at the places that the index gives, they are the provers whose flag is set,
and the total is the sum of the stakes, which the registry has the tokens for. -/
theorem registry_bookkeeping {deployer minStake slashBasisPoints tokenBalance : ℕ}
    (hs : Reachable (registryBody hashes)
      (construct deployer minStake slashBasisPoints tokenBalance) s) :
    s.storage.activeProvers.Nodup ∧
      (∀ i prover, s.storage.activeProvers[i]? = some prover →
        s.storage.proverIndex prover = i) ∧
      (∀ prover, prover ∈ s.storage.activeProvers ↔ (s.storage.provers prover).active = true) ∧
      (fun prover => (s.storage.provers prover).stake).support.Finite ∧
      s.storage.totalStaked = ∑ᶠ prover, (s.storage.provers prover).stake ∧
      s.storage.totalStaked ≤ s.tokenBalance := by
  have h : RegistryInvariant s := guarantees.reachable construct_invariant hs
  exact ⟨h.book.indexed.nodup, h.book.indexed, h.book.active, h.book.finite, h.book.total,
    h.funded⟩

def sampleMessage (sender blockNumber : ℕ) (operation : Operation) : RegistryMessage :=
  ⟨⟨sender, 0, 1, blockNumber, Nat.one_pos⟩, operation⟩

/-- Three provers register and the first one leaves the list, so that the last one takes its
place. -/
theorem first_prover_deactivated :
    ∃ s, Reachable (registryBody fun _ => 1) (construct 10 100 500 0) s ∧
      s.storage.activeProvers = [63, 62] ∧ s.storage.proverIndex 63 = 0 ∧
      s.storage.totalStaked = 600 ∧ s.storage.totalStaked ≤ s.tokenBalance := by
  have hsample : okAnd (evalAll (registryBody fun _ => 1) (fun _ => some ())
      [sampleMessage 61 1 (.register 100 []), sampleMessage 62 1 (.register 200 []),
        sampleMessage 63 1 (.register 300 []), sampleMessage 61 1 .deactivate]
      (construct 10 100 500 0)) (fun s => s.storage.activeProvers == [63, 62] &&
        s.storage.totalStaked == 600) = true := by
    decide +kernel
  obtain ⟨s, hs, hcheck⟩ := okAnd_eq_true.mp hsample
  rw [Bool.and_eq_true, beq_iff_eq, beq_iff_eq] at hcheck
  have hreachable : Reachable (registryBody fun _ => 1) (construct 10 100 500 0) s :=
    .of_run (.of_evalAll hs)
  obtain ⟨-, hindex, -, -, -, hfunded⟩ := registry_bookkeeping hreachable
  refine ⟨s, hreachable, hcheck.1, hindex 0 63 ?_, hcheck.2, hfunded⟩
  rw [hcheck.1]
  rfl

end WorldZk.RegistryBookkeeping
