import WorldZk.CumulativeSelection
import WorldZk.ProverSelection
import WorldZk.RegistryBookkeeping

/-!
# The shares of the weighted selection

The scan of `_weightedSelect` returns every prover for as many residues as it weighs, so that the
return after the loop is never reached, and the view chooses as the commit-reveal selection does.
-/

namespace WorldZk.WeightedSelection

open CheckedRuns ReentrantCalls OwnedContracts ProverRegistry CumulativeSelection
open Transcript Keccak256

variable {c c' : RegistryStorage} {total : ℕ}

/-- The weight of the prover at an address, without the overflow checks. -/
def weightOf (c : RegistryStorage) (prover : ℕ) : ℕ :=
  (c.provers prover).stake * (c.provers prover).reputation / 10000

/-- What `_weightedSelect` does once it has drawn `random`. -/
def selectAt (c : RegistryStorage) (random : ℕ) : RegistryCall ℕ := do
  match ← firstAbove c random c.activeProvers 0 with
  | some prover => pure prover
  | none => activeProverAt c (c.activeProvers.length - 1)

/-! ## The two loops -/

theorem weight_eq_ok {p : Prover} {w : ℕ} (h : weight p = .ok w) :
    w = p.stake * p.reputation / 10000 := by
  simp only [weight, bind_eq_ok, checkedMul_eq_ok, pure_eq_ok] at h
  obtain ⟨_, ⟨-, rfl⟩, rfl⟩ := h
  rfl

/-- Where the first loop does not overflow, it adds up the weights, and no running sum of the
second loop overflows either. -/
theorem loops_eq {provers : List ℕ} {start : ℕ}
    (h : provers.foldlM (fun total prover => do
      let w ← weight (c.provers prover)
      checkedAdd RegistryError.panicOverflow total w) start = .ok total) :
    total = start + (provers.map (weightOf c)).sum ∧
      ∀ r, firstAbove c r provers start = .ok (pick (weightOf c) r provers start) := by
  induction provers generalizing start with
  | nil =>
    rw [List.foldlM_nil, pure_eq_ok] at h
    exact ⟨h.symm, fun r => rfl⟩
  | cons prover provers ih =>
    simp only [List.foldlM_cons, bind_eq_ok] at h
    obtain ⟨next, ⟨w, hw, hnext⟩, hrest⟩ := h
    obtain ⟨-, hsum⟩ := checkedAdd_eq_ok.mp hnext
    have hweight : w = weightOf c prover := weight_eq_ok hw
    obtain ⟨htotal, hscan⟩ := ih hrest
    constructor
    · rw [htotal, ← hsum, hweight, List.map_cons, List.sum_cons, Nat.add_assoc]
    · intro r
      rw [firstAbove, hw, ok_bind, hnext, ok_bind, pick, ← hweight, hsum, hscan]
      split_ifs <;> rfl

theorem totalWeight_eq (h : totalWeight c = .ok total) :
    total = (c.activeProvers.map (weightOf c)).sum := by
  rw [(loops_eq h).1, Nat.zero_add]

theorem selectAt_eq {r : ℕ} (h : totalWeight c = .ok total) (hr : r < total) :
    ∃ prover ∈ c.activeProvers, pick (weightOf c) r c.activeProvers 0 = some prover ∧
      firstAbove c r c.activeProvers 0 = .ok (some prover) ∧ selectAt c r = .ok prover := by
  have hlt : r < 0 + (c.activeProvers.map (weightOf c)).sum := by
    rwa [Nat.zero_add, ← totalWeight_eq h]
  obtain ⟨prover, hmem, hpick⟩ := exists_pick (Nat.zero_le r) hlt
  have hscan : firstAbove c r c.activeProvers 0 = .ok (some prover) := by
    rw [(loops_eq h).2, hpick]
  refine ⟨prover, hmem, hpick, hscan, ?_⟩
  rw [selectAt, hscan]
  rfl

theorem card_selectAt (h : totalWeight c = .ok total) (prover : ℕ) :
    ((Finset.range total).filter fun r => selectAt c r = .ok prover).card =
      c.activeProvers.count prover * weightOf c prover := by
  have hfilter : (Finset.range total).filter (fun r => selectAt c r = .ok prover) =
      (Finset.range total).filter
        fun r => pick (weightOf c) r c.activeProvers 0 = some prover := by
    refine Finset.filter_congr fun r hr => ?_
    obtain ⟨selected, -, hpick, -, hselect⟩ := selectAt_eq h (Finset.mem_range.mp hr)
    rw [hpick, hselect, Except.ok.injEq, Option.some_inj]
  have htotal : total = 0 + (c.activeProvers.map (weightOf c)).sum := by
    rw [Nat.zero_add, totalWeight_eq h]
  rw [hfilter, Finset.range_eq_Ico, htotal, card_pick]

/-! ## The view and the commit-reveal selection -/

theorem weightedSelect_eq (h : totalWeight c = .ok total) (hpos : 0 < total) (seed : ℕ) :
    weightedSelect c seed = selectAt c (keccak256 (wordToBeBytes seed) % total) := by
  rw [weightedSelect, h, ok_bind, if_neg hpos.ne']
  rfl

/-- The view has the two loops of `_weightedSelect` and the special case of a single prover. -/
theorem selectProver_eq_selectActive (hne : c.activeProvers.length ≠ 0) (seed : ℕ) :
    selectProver c seed = selectActive c seed := by
  rw [selectProver, if_neg hne]
  rfl

theorem selectActive_eq_weightedSelect (h : totalWeight c = .ok total) (hpos : 0 < total)
    (seed : ℕ) : selectActive c seed = weightedSelect c seed := by
  rw [selectActive]
  split_ifs with hone
  · obtain ⟨prover, hmem, -, -, hselect⟩ :=
      selectAt_eq h (Nat.mod_lt (keccak256 (wordToBeBytes seed)) hpos)
    obtain ⟨only, honly⟩ := List.length_eq_one_iff.mp hone
    rw [weightedSelect_eq h hpos, hselect, activeProverAt, honly]
    rw [honly, List.mem_singleton] at hmem
    rw [hmem]
    rfl
  · rfl

theorem length_ne_zero (h : totalWeight c = .ok total) (hpos : 0 < total) :
    c.activeProvers.length ≠ 0 := by
  intro hzero
  rw [totalWeight_eq h, List.length_eq_zero_iff.mp hzero] at hpos
  exact Nat.lt_irrefl 0 hpos

/-- The prover that a fulfilment logs is the one that the view returns for its seed. -/
theorem selectProver_of_fulfill {hashes : ℕ → ℕ} {ctx : CallContext} {requestId secret : ℕ}
    {f : Fulfilment} (hc : fulfillProverSelection hashes c ctx requestId secret = .ok (c', f)) :
    selectProver c f.seed = .ok f.prover := by
  simp only [fulfillProverSelection, checkFulfill, bind_eq_ok, require_eq_ok, decide_eq_true_eq,
    pure_eq_ok, Prod.mk.injEq] at hc
  obtain ⟨_, ⟨_, -, _, -, _, -, _, -, _, -, hne⟩, _, -, _, hselect, -, rfl⟩ := hc
  rw [selectProver_eq_selectActive hne]
  exact hselect

/-! ## Exact shares -/

/-- For every list of active provers with a positive total weight, every prover is returned for as
many residues as it weighs, once for each of its places in the list, and in a reachable state it
has one place. The loop returns for every residue. The view and the selections of
`_weightedSelect` and `fulfillProverSelection` agree for every seed. -/
theorem weighted_selection_exact (htotal : totalWeight c = .ok total) (hpos : 0 < total) :
    (∀ prover, ((Finset.range total).filter fun r => selectAt c r = .ok prover).card =
      c.activeProvers.count prover *
        ((c.provers prover).stake * (c.provers prover).reputation / 10000)) ∧
    (∀ (hashes : ℕ → ℕ) (deployer minStake slashBasisPoints tokenBalance : ℕ) (s : RegistryState),
      Reachable (registryBody hashes) (construct deployer minStake slashBasisPoints tokenBalance)
        s → s.storage = c → ∀ prover ∈ c.activeProvers,
        ((Finset.range total).filter fun r => selectAt c r = .ok prover).card =
          (c.provers prover).stake * (c.provers prover).reputation / 10000) ∧
    (∀ r < total, ∃ prover ∈ c.activeProvers,
      firstAbove c r c.activeProvers 0 = .ok (some prover)) ∧
    (∀ seed, weightedSelect c seed = selectAt c (keccak256 (wordToBeBytes seed) % total) ∧
      selectProver c seed = weightedSelect c seed ∧
      selectActive c seed = weightedSelect c seed) ∧
    ∀ (hashes : ℕ → ℕ) (ctx : CallContext) (requestId secret : ℕ) (c' : RegistryStorage)
      (f : Fulfilment), fulfillProverSelection hashes c ctx requestId secret = .ok (c', f) →
        selectProver c f.seed = .ok f.prover := by
  refine ⟨card_selectAt htotal, ?_, fun r hr => ?_, fun seed => ?_, fun _ _ _ _ _ _ hc => ?_⟩
  · rintro hashes deployer minStake slashBasisPoints tokenBalance s hs rfl prover hmem
    have hbook : RegistryBookkeeping.RegistryInvariant s :=
      RegistryBookkeeping.guarantees.reachable RegistryBookkeeping.construct_invariant hs
    rw [card_selectAt htotal, List.count_eq_one_of_mem hbook.book.indexed.nodup hmem,
      Nat.one_mul]
    rfl
  · obtain ⟨prover, hmem, -, hscan, -⟩ := selectAt_eq htotal hr
    exact ⟨prover, hmem, hscan⟩
  · refine ⟨weightedSelect_eq htotal hpos seed, ?_, selectActive_eq_weightedSelect htotal hpos seed⟩
    rw [selectProver_eq_selectActive (length_ne_zero htotal hpos),
      selectActive_eq_weightedSelect htotal hpos]
  · exact selectProver_of_fulfill hc

/-- Two provers with three and one parts of the stake share two hundred residues. -/
theorem two_provers_share :
    ∃ s, Reachable (registryBody fun _ => 1) (construct 10 100 500 0) s ∧
      totalWeight s.storage = .ok 200 ∧
      ((Finset.range 200).filter fun r => selectAt s.storage r = .ok 61).card = 150 ∧
      ((Finset.range 200).filter fun r => selectAt s.storage r = .ok 62).card = 50 := by
  have hsample : okAnd (evalAll (registryBody fun _ => 1) (fun _ => some ())
      [RegistryBookkeeping.sampleMessage 61 1 (.register 300 []),
        RegistryBookkeeping.sampleMessage 62 1 (.register 100 [])]
      (construct 10 100 500 0)) (fun s => s.storage.activeProvers == [61, 62] &&
        (s.storage.provers 61).stake == 300 && (s.storage.provers 61).reputation == 5000 &&
        (s.storage.provers 62).stake == 100 && (s.storage.provers 62).reputation == 5000 &&
        okAnd (totalWeight s.storage) (· == 200)) = true := by
    decide +kernel
  obtain ⟨s, hs, hcheck⟩ := okAnd_eq_true.mp hsample
  simp only [Bool.and_eq_true, beq_iff_eq] at hcheck
  obtain ⟨⟨⟨⟨⟨hactive, hstake₁⟩, hreputation₁⟩, hstake₂⟩, hreputation₂⟩, hweight⟩ := hcheck
  obtain ⟨total, htotal, hvalue⟩ := okAnd_eq_true.mp hweight
  rw [beq_iff_eq.mp hvalue] at htotal
  have hreachable : Reachable (registryBody fun _ => 1) (construct 10 100 500 0) s :=
    .of_run (.of_evalAll hs)
  obtain ⟨-, hshares, -⟩ := weighted_selection_exact htotal (by decide)
  refine ⟨s, hreachable, htotal, ?_, ?_⟩
  · rw [hshares _ 10 100 500 0 s hreachable rfl 61 (by rw [hactive]; decide), hstake₁,
      hreputation₁]
  · rw [hshares _ 10 100 500 0 s hreachable rfl 62 (by rw [hactive]; decide), hstake₂,
      hreputation₂]

end WorldZk.WeightedSelection
