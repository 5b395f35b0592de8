import WorldZk.RegistryBookkeeping

/-!
# The seeds of prover selections

A selection is committed to in one block and revealed in a later one, and its seed is made of the
secret and of the hash of the block after the commitment. That hash is known to the contract in
256 blocks only, of which the first is two blocks after the commitment. The reveal is accepted in
every later block than that of the commitment, and outside the window the hash reads as zero.
-/

namespace WorldZk.ProverSelection

open CheckedRuns ReentrantCalls OwnedContracts ProverRegistry RegistryBookkeeping Transcript
open Keccak256

/-! ## Seeds -/

/-- The seed is made of the secret and of the nonzero hash of a block that was mined after the
commitment. -/
def FreshSeed (hashes : ℕ → ℕ) (f : Fulfilment) : Prop :=
  f.seed = keccak256 (wordToBeBytes f.secret ++ wordToBeBytes f.hashWord) ∧ f.hashWord ≠ 0 ∧
    ∃ block, f.commitBlock < block ∧ block < f.revealBlock ∧ f.hashWord = hashes block

/-- The reveal is in a block from which the hash of the block after the commitment can be read. -/
def InWindow (f : Fulfilment) : Prop :=
  f.commitBlock + 2 ≤ f.revealBlock ∧ f.revealBlock ≤ f.commitBlock + 257

/-- How a fulfilment was made. -/
structure Made (hashes : ℕ → ℕ) (f : Fulfilment) : Prop where
  later : f.commitBlock < f.revealBlock
  hashWord : f.hashWord = blockhash hashes f.revealBlock (f.commitBlock + 1)
  seed : f.seed = keccak256 (wordToBeBytes f.secret ++ wordToBeBytes f.hashWord)

variable {hashes : ℕ → ℕ} {f : Fulfilment} {s t : RegistryState} {c c' : RegistryStorage}
  {ctx : CallContext} {prover : ℕ}

theorem Made.freshSeed_iff (h : Made hashes f) (hhashes : ∀ block, hashes block ≠ 0) :
    FreshSeed hashes f ↔ InWindow f := by
  have hword := h.hashWord
  unfold blockhash at hword
  constructor
  · rintro ⟨-, hnonzero, -⟩
    split at hword
    case isTrue hknown => exact ⟨by omega, by omega⟩
    case isFalse => exact absurd hword hnonzero
  · rintro ⟨hfirst, hlast⟩
    rw [if_pos ⟨by omega, by omega⟩] at hword
    refine ⟨h.seed, hword ▸ hhashes _, f.commitBlock + 1, Nat.lt_succ_self _, hfirst, hword⟩

/-! ## The log of fulfilments -/

/-- The log agrees with the requests. -/
structure SelectionInvariant (hashes : ℕ → ℕ) (s : RegistryState) : Prop where
  made : ∀ f ∈ s.fulfilments, Made hashes f
  logged : ∀ f ∈ s.fulfilments, (s.storage.selectionRequests f.requestId).fulfilled = true ∧
    (s.storage.selectionRequests f.requestId).blockNumber = f.commitBlock
  fulfilled : ∀ requestId, (s.storage.selectionRequests requestId).fulfilled = true →
    requestId < s.storage.nextRequestId ∧ ∃ f ∈ s.fulfilments, f.requestId = requestId
  unused : ∀ requestId, s.storage.nextRequestId ≤ requestId →
    (s.storage.selectionRequests requestId).requester = 0

/-- The selections are the same. -/
structure SameSelections (c c' : RegistryStorage) : Prop where
  requests : c'.selectionRequests = c.selectionRequests
  next : c'.nextRequestId = c.nextRequestId

theorem SelectionInvariant.same (h : SelectionInvariant hashes s)
    (hsame : SameSelections s.storage t.storage) (hlog : t.fulfilments = s.fulfilments) :
    SelectionInvariant hashes t := by
  refine ⟨?_, ?_, ?_, ?_⟩
  · rw [hlog]
    exact h.made
  · rw [hlog, hsame.requests]
    exact h.logged
  · rw [hlog, hsame.requests, hsame.next]
    exact h.fulfilled
  · rw [hsame.requests, hsame.next]
    exact h.unused

theorem SelectionInvariant.request {commitment : ℕ} (h : SelectionInvariant hashes s)
    (hc : requestProverSelection s.storage ctx commitment = .ok c) :
    SelectionInvariant hashes (withStorage s c) := by
  simp only [requestProverSelection, bind_eq_ok, checkedAdd_eq_ok, pure_eq_ok] at hc
  obtain ⟨_, -, _, ⟨-, rfl⟩, rfl⟩ := hc
  refine ⟨h.made, fun f hf => ?_, fun requestId hfulfilled => ?_, fun requestId hle => ?_⟩
  · have hold := h.logged f hf
    have hne := (h.fulfilled f.requestId hold.1).1.ne
    have hrequest : (Function.update s.storage.selectionRequests s.storage.nextRequestId
        ⟨commitment, ctx.blockNumber, ctx.sender, false⟩) f.requestId =
          s.storage.selectionRequests f.requestId := Function.update_of_ne hne _ _
    rw [← hrequest] at hold
    exact hold
  · change (Function.update s.storage.selectionRequests s.storage.nextRequestId _
      requestId).fulfilled = true at hfulfilled
    by_cases hid : requestId = s.storage.nextRequestId
    · rw [hid, Function.update_self] at hfulfilled
      cases hfulfilled
    · rw [Function.update_of_ne hid] at hfulfilled
      obtain ⟨hlt, hlog⟩ := h.fulfilled requestId hfulfilled
      exact ⟨hlt.trans (Nat.lt_succ_self _), hlog⟩
  · change s.storage.nextRequestId + 1 ≤ requestId at hle
    change (Function.update s.storage.selectionRequests s.storage.nextRequestId _
      requestId).requester = 0
    rw [Function.update_of_ne (by omega)]
    exact h.unused requestId (by omega)

theorem fulfill_eq_ok {requestId secret : ℕ}
    (hc : fulfillProverSelection hashes c ctx requestId secret = .ok (c', f)) :
    (c.selectionRequests requestId).requester ≠ 0 ∧
      (c.selectionRequests requestId).fulfilled = false ∧ Made hashes f ∧
      f.requestId = requestId ∧ f.commitBlock = (c.selectionRequests requestId).blockNumber ∧
      c'.selectionRequests = Function.update c.selectionRequests requestId
        { c.selectionRequests requestId with fulfilled := true } ∧
      c'.nextRequestId = c.nextRequestId := by
  simp only [fulfillProverSelection, checkFulfill, bind_eq_ok, require_eq_ok, bne_iff_ne,
    Bool.not_eq_true', decide_eq_true_eq, checkedAdd_eq_ok, pure_eq_ok, Prod.mk.injEq] at hc
  obtain ⟨_, ⟨_, -, _, hrequester, _, hopen, _, -, _, hlater, -⟩, _, ⟨-, rfl⟩, _, -, rfl, rfl⟩ := hc
  exact ⟨hrequester, hopen, ⟨hlater, rfl, rfl⟩, rfl, rfl, rfl, rfl⟩

theorem SelectionInvariant.fulfill {requestId secret : ℕ} (h : SelectionInvariant hashes s)
    (hc : fulfillProverSelection hashes s.storage ctx requestId secret = .ok (c, f)) :
    SelectionInvariant hashes { s with storage := c, fulfilments := s.fulfilments ++ [f] } := by
  obtain ⟨hrequester, hopen, hmade, hid, hcommit, hrequests, hnextEq⟩ := fulfill_eq_ok hc
  have hself : c.selectionRequests requestId =
      { s.storage.selectionRequests requestId with fulfilled := true } := by
    rw [hrequests, Function.update_self]
  have hother : ∀ id, id ≠ requestId →
      c.selectionRequests id = s.storage.selectionRequests id := fun id hne => by
    rw [hrequests, Function.update_of_ne hne]
  have hlt : requestId < s.storage.nextRequestId := by
    by_contra hle
    exact hrequester (h.unused requestId (not_lt.mp hle))
  refine ⟨fun g hg => ?_, fun g hg => ?_, fun id hfulfilled => ?_, fun id hle => ?_⟩
  · rcases List.mem_append.mp hg with hg | hg
    · exact h.made g hg
    · rw [List.mem_singleton.mp hg]
      exact hmade
  · change (c.selectionRequests g.requestId).fulfilled = true ∧
      (c.selectionRequests g.requestId).blockNumber = g.commitBlock
    rcases List.mem_append.mp hg with hg | hg
    · have hold := h.logged g hg
      have hne : g.requestId ≠ requestId := by
        intro heq
        rw [heq, hopen] at hold
        exact Bool.false_ne_true hold.1
      rw [hother _ hne]
      exact hold
    · rw [List.mem_singleton.mp hg, hid, hself]
      exact ⟨rfl, hcommit.symm⟩
  · change (c.selectionRequests id).fulfilled = true at hfulfilled
    change id < c.nextRequestId ∧ _
    rw [hnextEq]
    by_cases heq : id = requestId
    · subst heq
      exact ⟨hlt, f, List.mem_append_right _ (List.mem_singleton_self f), hid⟩
    · rw [hother id heq] at hfulfilled
      obtain ⟨hlt, g, hg, hgid⟩ := h.fulfilled id hfulfilled
      exact ⟨hlt, g, List.mem_append_left _ hg, hgid⟩
  · change c.nextRequestId ≤ id at hle
    rw [hnextEq] at hle
    change (c.selectionRequests id).requester = 0
    rw [hother id (by omega)]
    exact h.unused id hle

/-! ## The functions that leave the selections alone -/

theorem SameSelections.refl (c : RegistryStorage) : SameSelections c c := ⟨rfl, rfl⟩

theorem deactivateProver_same (hc : deactivateProver c prover = .ok c') : SameSelections c c' := by
  unfold deactivateProver at hc
  split at hc
  · obtain rfl := pure_eq_ok.mp hc
    exact .refl _
  · simp only [bind_eq_ok, moveLast, pure_eq_ok] at hc
    obtain ⟨_, -, moved, hmoved, rfl⟩ := hc
    split at hmoved
    · obtain rfl := pure_eq_ok.mp hmoved
      exact ⟨rfl, rfl⟩
    · simp only [bind_eq_ok, pure_eq_ok] at hmoved
      obtain ⟨_, -, _, -, rfl⟩ := hmoved
      exact ⟨rfl, rfl⟩

theorem deactivate_same (hc : deactivate c ctx = .ok c') : SameSelections c c' := by
  simp only [deactivate, bind_eq_ok] at hc
  obtain ⟨_, -, _, -, _, -, hc⟩ := hc
  exact deactivateProver_same hc

theorem reactivate_same (hc : reactivate c ctx = .ok c') : SameSelections c c' := by
  simp only [reactivate, bind_eq_ok] at hc
  obtain ⟨_, -, _, -, hc⟩ := hc
  split at hc
  · obtain rfl := pure_eq_ok.mp hc
    exact .refl _
  · simp only [bind_eq_ok, pure_eq_ok] at hc
    obtain ⟨_, -, rfl⟩ := hc
    exact ⟨rfl, rfl⟩

theorem createProver_same {stake : ℕ} {endpoint : List UInt8}
    (hc : createProver c ctx stake endpoint = .ok c') : SameSelections c c' := by
  simp only [createProver, bind_eq_ok, pure_eq_ok] at hc
  obtain ⟨_, -, rfl⟩ := hc
  exact ⟨rfl, rfl⟩

theorem creditStake_same {amount : ℕ} (hc : creditStake c ctx amount = .ok c') :
    SameSelections c c' := by
  simp only [creditStake, bind_eq_ok] at hc
  obtain ⟨_, -, _, -, hc⟩ := hc
  split at hc <;>
  · obtain rfl := pure_eq_ok.mp hc
    exact ⟨rfl, rfl⟩

theorem debitStake_same {amount : ℕ} (hc : debitStake c ctx amount = .ok c') :
    SameSelections c c' := by
  simp only [debitStake, bind_eq_ok, pure_eq_ok] at hc
  obtain ⟨_, -, _, -, _, -, _, -, _, -, rfl⟩ := hc
  exact ⟨rfl, rfl⟩

theorem applySlash_same {reason : List UInt8} {slashAmount : ℕ}
    (hc : applySlash c ctx prover reason = .ok (c', slashAmount)) : SameSelections c c' := by
  simp only [applySlash, bind_eq_ok, pure_eq_ok, Prod.mk.injEq] at hc
  obtain ⟨_, -, _, -, _, -, _, -, _, -, _, -, _, -, _, -, slashed, hslashed, rfl, -⟩ := hc
  unfold deactivateBelowMinimum at hslashed
  split at hslashed
  · obtain ⟨hrequests, hnext⟩ := deactivateProver_same hslashed
    exact ⟨hrequests, hnext⟩
  · obtain rfl := pure_eq_ok.mp hslashed
    exact ⟨rfl, rfl⟩

/-! ## Every call -/

theorem pull_safe {sender amount : ℕ} {x : RegistryStorage → RegistryCall RegistryStorage}
    (h : SelectionInvariant hashes s) (hx : ∀ c c', x c = .ok c' → SameSelections c c') :
    (pullTokens s sender amount fun s => finish s (x s.storage)).Safe
      (SelectionInvariant hashes) (fun _ _ => True) (SelectionInvariant hashes) := by
  refine ⟨h, trivial, fun _ t ht _ => Body.safe_after fun c hc => ?_⟩
  exact ht.same (hx t.storage c hc) rfl

theorem send_safe {recipient amount : ℕ} (h : SelectionInvariant hashes s) :
    (sendTokens s recipient amount).Safe (SelectionInvariant hashes) (fun _ _ => True)
      (SelectionInvariant hashes) := by
  unfold sendTokens
  split
  case isTrue => exact ⟨h.same (.refl _) rfl, trivial, fun _ t ht _ => ht⟩
  case isFalse => trivial

theorem dispatch_safe {tx : RegistryMessage} (h : SelectionInvariant hashes s) :
    (dispatch hashes tx s).Safe (SelectionInvariant hashes) (fun _ _ => True)
      (SelectionInvariant hashes) := by
  have hguarded : ∀ {f : RegistryState → RegistryBody},
      (f { s with entered := true }).Safe (SelectionInvariant hashes) (fun _ _ => True)
        (SelectionInvariant hashes) →
      (nonReentrant s f).Safe (SelectionInvariant hashes) (fun _ _ => True)
        (SelectionInvariant hashes) := fun hf =>
    Body.safe_guarded fun _ => hf.mono fun t ht => ht.same (.refl _) rfl
  have hfinish : ∀ {x : RegistryCall RegistryStorage},
      (∀ c, x = .ok c → SameSelections s.storage c) →
      (finish s x).Safe (SelectionInvariant hashes) (fun _ _ => True)
        (SelectionInvariant hashes) := fun hx =>
    Body.safe_after fun c hc => h.same (hx c hc) rfl
  have hentered : SelectionInvariant hashes { s with entered := true } := h.same (.refl _) rfl
  obtain ⟨ctx, operation⟩ := tx
  cases operation
  case register stake endpoint =>
    exact hguarded (Body.safe_after fun _ _ => pull_safe hentered fun _ _ => createProver_same)
  case addStake amount =>
    exact hguarded (Body.safe_after fun _ _ => pull_safe hentered fun _ _ => creditStake_same)
  case withdrawStake =>
    refine hguarded (Body.safe_after fun c hc => send_safe ?_)
    exact hentered.same (debitStake_same hc) rfl
  case slash =>
    refine hguarded (Body.safe_after fun (c, slashAmount) hc => send_safe ?_)
    exact hentered.same (applySlash_same hc) rfl
  case deactivate => exact hfinish fun c => deactivate_same
  case reactivate => exact hfinish fun c => reactivate_same
  case requestProverSelection => exact Body.safe_after fun c hc => h.request hc
  case fulfillProverSelection => exact Body.safe_after fun (c, f) hc => h.fulfill hc
  case tokensReceived => exact h.same (.refl _) rfl
  all_goals
    refine hfinish fun c hc => ?_
    simp only [recordSuccess, setMinStake, setSlashBasisPoints, setSlasher, administerRegistry,
      bind_eq_ok, pure_eq_ok] at hc
  case recordSuccess =>
    obtain ⟨_, -, _, -, _, -, _, -, _, -, _, -, rfl⟩ := hc
    exact ⟨rfl, rfl⟩
  case setSlashBasisPoints =>
    obtain ⟨_, -, _, -, rfl⟩ := hc
    exact ⟨rfl, rfl⟩
  all_goals
    obtain ⟨_, -, rfl⟩ := hc
    exact ⟨rfl, rfl⟩

theorem guarantees_selection :
    Guarantees (registryBody hashes) (SelectionInvariant hashes) fun _ _ => True where
  refl := fun _ => trivial
  trans := fun _ _ _ _ _ => trivial
  safe := fun _ _ h => Body.safe_after fun _ _ => (dispatch_safe h).mono fun _ ht => ⟨ht, trivial⟩

theorem construct_selection {deployer minStake slashBasisPoints tokenBalance : ℕ} :
    SelectionInvariant hashes (construct deployer minStake slashBasisPoints tokenBalance) where
  made := fun _ hf => (List.not_mem_nil hf).elim
  logged := fun _ hf => (List.not_mem_nil hf).elim
  fulfilled := fun _ h => (Bool.false_ne_true h).elim
  unused := fun _ _ => rfl

/-! ## Which selections have a fresh seed -/

/-- In every reachable state, the log has a fulfilment for every fulfilled request, and the seed of
a fulfilment is fresh exactly when it was revealed in the window. -/
theorem freshSeed_iff_inWindow {deployer minStake slashBasisPoints tokenBalance : ℕ}
    (hhashes : ∀ block, hashes block ≠ 0)
    (hs : Reachable (registryBody hashes)
      (construct deployer minStake slashBasisPoints tokenBalance) s) :
    (∀ requestId, (s.storage.selectionRequests requestId).fulfilled = true →
      ∃ f ∈ s.fulfilments, f.requestId = requestId) ∧
      ∀ f ∈ s.fulfilments,
        f.commitBlock = (s.storage.selectionRequests f.requestId).blockNumber ∧
          (FreshSeed hashes f ↔ InWindow f) := by
  have h : SelectionInvariant hashes s := guarantees_selection.reachable construct_selection hs
  refine ⟨fun requestId hfulfilled => (h.fulfilled requestId hfulfilled).2, fun f hf => ?_⟩
  exact ⟨(h.logged f hf).2.symm, (h.made f hf).freshSeed_iff hhashes⟩

/-- One prover; a selection is committed to in block 10 and revealed in the given one. -/
def sampleSelection (revealBlock : ℕ) : List RegistryMessage :=
  [sampleMessage 61 1 (.register 100 []),
    sampleMessage 70 10 (.requestProverSelection (keccak256 (wordToBeBytes 7))),
    sampleMessage 70 revealBlock (.fulfillProverSelection 0 7)]

theorem reachable_sampleSelection (revealBlock : ℕ)
    (h : okAnd (evalAll (registryBody fun block => block + 1) (fun _ => some ())
      (sampleSelection revealBlock) (construct 10 100 500 0))
        (fun s => s.fulfilments.map (fun f => (f.commitBlock, f.revealBlock)) ==
          [(10, revealBlock)]) = true) :
    ∃ s f, Reachable (registryBody fun block => block + 1) (construct 10 100 500 0) s ∧
      f ∈ s.fulfilments ∧ f.commitBlock = 10 ∧ f.revealBlock = revealBlock := by
  obtain ⟨s, hs, hcheck⟩ := okAnd_eq_true.mp h
  have hlog := beq_iff_eq.mp hcheck
  obtain ⟨f, hf, hblocks⟩ : ∃ f ∈ s.fulfilments, (f.commitBlock, f.revealBlock) =
      (10, revealBlock) := by
    rw [← List.mem_map, hlog]
    exact List.mem_singleton_self _
  rw [Prod.mk.injEq] at hblocks
  exact ⟨s, f, .of_run (.of_evalAll hs), hf, hblocks.1, hblocks.2⟩

/-- A reveal two blocks after the commitment. -/
theorem freshSeed_in_second_block :
    ∃ s f, Reachable (registryBody fun block => block + 1) (construct 10 100 500 0) s ∧
      f ∈ s.fulfilments ∧ FreshSeed (fun block => block + 1) f := by
  obtain ⟨s, f, hs, hf, hcommit, hreveal⟩ :=
    reachable_sampleSelection 12 (by decide +kernel)
  refine ⟨s, f, hs, hf, ?_⟩
  have hwindow : InWindow f := by
    rw [InWindow, hcommit, hreveal]
    exact ⟨by decide, by decide⟩
  exact (((freshSeed_iff_inWindow Nat.succ_ne_zero hs).2 f hf).2).mpr hwindow

/-- A reveal in the block after the commitment is accepted, with a hash of zero. -/
theorem not_freshSeed_in_next_block :
    ¬∀ s f, Reachable (registryBody fun block => block + 1) (construct 10 100 500 0) s →
      f ∈ s.fulfilments → FreshSeed (fun block => block + 1) f := by
  intro hfresh
  obtain ⟨s, f, hs, hf, hcommit, hreveal⟩ :=
    reachable_sampleSelection 11 (by decide +kernel)
  have h : SelectionInvariant (fun block => block + 1) s :=
    guarantees_selection.reachable construct_selection hs
  have hwindow := ((h.made f hf).freshSeed_iff Nat.succ_ne_zero).mp (hfresh s f hs hf)
  rw [InWindow, hcommit, hreveal] at hwindow
  exact absurd hwindow.1 (by decide)

end WorldZk.ProverSelection
