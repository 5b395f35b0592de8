import WorldZk.GreedySelection
import WorldZk.RegistryBookkeeping
import Mathlib.Data.Set.Card

/-!
# The ranking of the provers

`getTopProvers` selects active provers by their reputation, one scan of the list for each place of
the result. A scan starts from the reputation zero and the index zero, so a prover whose reputation
is zero is found by no scan, and a scan that finds nothing returns the first prover of the list.
-/

namespace WorldZk.ProverRanking

open CheckedRuns ReentrantCalls ProverRegistry RegistryBookkeeping GreedySelection

/-! ## The loops -/

/-- The reputation of the active prover at an index. -/
def reputationAt (c : RegistryStorage) (i : ℕ) : ℕ :=
  (c.provers (c.activeProvers.getD i 0)).reputation

/-- The array `used` when the given indices have been selected. -/
def usedFlags (c : RegistryStorage) (ps : List ℕ) : List Bool :=
  (List.range c.activeProvers.length).map fun j => decide (j ∈ ps)

def proversAt (c : RegistryStorage) (ps : List ℕ) : List ℕ :=
  ps.map fun i => c.activeProvers.getD i 0

/-- The array `result`, of length `n`, when the given indices have been selected. -/
def partialResult (c : RegistryStorage) (n : ℕ) (ps : List ℕ) : List ℕ :=
  proversAt c ps ++ List.replicate (n - ps.length) 0

variable {c : RegistryStorage} {ps : List ℕ}

@[simp] theorem length_usedFlags : (usedFlags c ps).length = c.activeProvers.length := by
  simp [usedFlags]

@[simp] theorem length_proversAt : (proversAt c ps).length = ps.length := List.length_map _

theorem usedFlags_nil : usedFlags c [] = List.replicate c.activeProvers.length false := by
  simp [usedFlags]

theorem usedFlags_snoc (i : ℕ) : usedFlags c (ps ++ [i]) = (usedFlags c ps).set i true := by
  apply List.ext_getElem
  · simp
  · intro j hj hj'
    rw [List.getElem_set]
    simp only [usedFlags, List.getElem_map, List.getElem_range, List.mem_append,
      List.mem_singleton]
    split
    case isTrue heq => simp [heq]
    case isFalse hne =>
      have hne' : j ≠ i := fun h => hne h.symm
      simp [hne']

theorem partialResult_snoc {n : ℕ} (hlt : ps.length < n) (i : ℕ) :
    partialResult c n (ps ++ [i]) =
      (partialResult c n ps).set ps.length (c.activeProvers.getD i 0) := by
  obtain ⟨m, rfl⟩ : ∃ m, n = ps.length + (m + 1) := ⟨n - (ps.length + 1), by omega⟩
  have hleft : ps.length + (m + 1) - (ps ++ [i]).length = m := by
    rw [List.length_append, List.length_singleton]
    omega
  rw [partialResult, partialResult, hleft, Nat.add_sub_cancel_left, List.replicate_succ]
  have hlength : ps.length = (proversAt c ps).length := length_proversAt.symm
  rw [hlength, List.set_append_right _ _ le_rfl, Nat.sub_self, List.set_cons_zero]
  simp [proversAt]

theorem activeProverAt_of_lt {i : ℕ} (hi : i < c.activeProvers.length) :
    activeProverAt c i = .ok (c.activeProvers.getD i 0) := by
  rw [activeProverAt_eq_ok]
  simp [hi]

theorem scanRound_eq {best : ℕ × ℕ} {j : ℕ} (hj : j < c.activeProvers.length) :
    scanRound c (usedFlags c ps) best j =
      .ok (better (reputationAt c) (fun j => decide (j ∈ ps)) best j) := by
  have hused : getOr RegistryError.panicOutOfBounds (usedFlags c ps) j =
      .ok (decide (j ∈ ps)) := by
    rw [getOr_eq_ok]
    simp [usedFlags, hj]
  rw [scanRound, hused, ok_bind, better, activeProverAt_of_lt hj]
  by_cases hmem : j ∈ ps
  · simp only [decide_eq_true hmem]
    rfl
  · simp only [decide_eq_false hmem]
    change (if best.1 < reputationAt c j then _ else _) = _
    split <;> rfl

/-- The inner loop. -/
theorem scanLoop_eq :
    (List.range c.activeProvers.length).foldlM (scanRound c (usedFlags c ps)) (0, 0) =
      .ok (scan (reputationAt c) 0 c.activeProvers.length fun j => decide (j ∈ ps)) := by
  have hcongr : ∀ best, ∀ j ∈ List.range c.activeProvers.length,
      scanRound c (usedFlags c ps) best j =
        pure (better (reputationAt c) (fun j => decide (j ∈ ps)) best j) :=
    fun best j hj => scanRound_eq (List.mem_range.mp hj)
  rw [foldlM_congr hcongr, List.foldlM_pure]
  rfl

theorem scan_lt (hpos : 0 < c.activeProvers.length) :
    (scan (reputationAt c) 0 c.activeProvers.length fun j => decide (j ∈ ps)).2 <
      c.activeProvers.length := by
  rcases scan_eq_or (reputationAt c) 0 c.activeProvers.length
    fun j => decide (j ∈ ps) with hnone | ⟨i, hi, -, -, hfound⟩
  · rw [hnone]
    exact hpos
  · rw [hfound]
    exact hi

/-- One round of the outer loop selects the place that a scan finds. -/
theorem selectRound_eq {n : ℕ} (hlt : ps.length < n) (hn : n ≤ c.activeProvers.length) {i : ℕ}
    (hi : (scan (reputationAt c) 0 c.activeProvers.length fun j => decide (j ∈ ps)).2 = i) :
    selectRound c (partialResult c n ps, usedFlags c ps) ps.length =
      .ok (partialResult c n (ps ++ [i]), usedFlags c (ps ++ [i])) := by
  have hpos : 0 < c.activeProvers.length := by omega
  have hbound := @scan_lt c ps hpos
  rw [hi] at hbound
  have hwrite : ps.length < (partialResult c n ps).length := by
    rw [partialResult, List.length_append, length_proversAt, List.length_replicate]
    omega
  have hmark : i < (usedFlags c ps).length := by
    rw [length_usedFlags]
    exact hbound
  simp only [selectRound, scanLoop_eq, ok_bind, hi, activeProverAt_of_lt hbound,
    decide_eq_true hwrite, decide_eq_true hmark, require_true]
  rw [partialResult_snoc hlt, usedFlags_snoc]
  rfl

/-- The outer loop. -/
theorem selectLoop_eq {n : ℕ} (hn : n ≤ c.activeProvers.length) {k : ℕ} (hk : k ≤ n) :
    (List.range k).foldlM (selectRound c) (partialResult c n [], usedFlags c []) =
      .ok (partialResult c n (picks (reputationAt c) 0 c.activeProvers.length k),
        usedFlags c (picks (reputationAt c) 0 c.activeProvers.length k)) := by
  induction k with
  | zero => rfl
  | succ k ih =>
    have hlt : (picks (reputationAt c) 0 c.activeProvers.length k).length < n := by
      rw [length_picks]
      omega
    have hround := selectRound_eq (c := c) hlt hn rfl
    rw [length_picks] at hround
    rw [List.range_succ, List.foldlM_append, ih (Nat.le_of_succ_le hk), ok_bind, List.foldlM_cons,
      hround]
    rfl

/-- `getTopProvers` returns the provers at the selected places. -/
theorem getTopProvers_eq {n : ℕ} (hn : n ≤ MAX_TOP_PROVERS) :
    getTopProvers c n = .ok (proversAt c
      (picks (reputationAt c) 0 c.activeProvers.length (min n c.activeProvers.length))) := by
  have hmin : (if c.activeProvers.length < n then c.activeProvers.length else n) =
      min n c.activeProvers.length := by
    split <;> omega
  have hloop := selectLoop_eq (c := c) (n := min n c.activeProvers.length) (min_le_right _ _) le_rfl
  rw [partialResult, usedFlags_nil] at hloop
  simp only [getTopProvers, decide_eq_true hn, require_true, ok_bind, hmin]
  change (List.foldlM _ _ _ >>= _) = _
  rw [show List.replicate (min n c.activeProvers.length) 0 =
    proversAt c [] ++ List.replicate (min n c.activeProvers.length - [].length) 0 from rfl,
    hloop, ok_bind, partialResult, length_picks, Nat.sub_self, List.replicate_zero,
    List.append_nil]
  rfl

/-! ## Rankings -/

/-- A list of the best active provers, as many as there are but at most `n`. -/
structure TopRanking (c : RegistryStorage) (n : ℕ) (top : List ℕ) : Prop where
  length : top.length = min n {prover | (c.provers prover).active = true}.ncard
  nodup : top.Nodup
  active : ∀ prover ∈ top, (c.provers prover).active = true
  ordered : top.Pairwise fun prover other =>
    (c.provers other).reputation ≤ (c.provers prover).reputation
  rest : ∀ prover, (c.provers prover).active = true → prover ∉ top →
    ∀ last, top.getLast? = some last → (c.provers prover).reputation ≤ (c.provers last).reputation

/-- The number of active provers whose reputation is not zero. -/
def positiveProvers (c : RegistryStorage) : ℕ :=
  c.activeProvers.countP fun prover => decide (0 < (c.provers prover).reputation)

theorem ncard_active (h : Bookkeeping c) :
    {prover | (c.provers prover).active = true}.ncard = c.activeProvers.length := by
  have hset : {prover | (c.provers prover).active = true} = ↑c.activeProvers.toFinset := by
    ext prover
    simp [h.active prover]
  rw [hset, Set.ncard_coe_finset, List.toFinset_card_of_nodup h.indexed.nodup]

theorem activeProvers_eq_map :
    c.activeProvers = (List.range c.activeProvers.length).map (c.activeProvers.getD · 0) := by
  apply List.ext_getElem
  · simp
  · intro i hi hi'
    simp [hi]

theorem card_above :
    (above (reputationAt c) 0 c.activeProvers.length).card = positiveProvers c := by
  rw [positiveProvers]
  nth_rewrite 2 [activeProvers_eq_map]
  rw [List.countP_map, List.countP_eq_length_filter]
  rfl

theorem getD_mem {i : ℕ} (hi : i < c.activeProvers.length) :
    c.activeProvers.getD i 0 ∈ c.activeProvers := by
  simp [hi]

theorem getD_inj (h : Bookkeeping c) {i j : ℕ} (hi : i < c.activeProvers.length)
    (hj : j < c.activeProvers.length) :
    c.activeProvers.getD i 0 = c.activeProvers.getD j 0 ↔ i = j := by
  simp [hi, hj, h.indexed.nodup.getElem_inj_iff]

/-- The provers at some places are a ranking when the places are one. -/
theorem topRanking_iff (h : Bookkeeping c) {n : ℕ}
    (hlength : ps.length = min n c.activeProvers.length)
    (hin : ∀ i ∈ ps, i < c.activeProvers.length) :
    TopRanking c n (proversAt c ps) ↔ Ranked (reputationAt c) c.activeProvers.length ps := by
  have hmem : ∀ j < c.activeProvers.length,
      c.activeProvers.getD j 0 ∈ proversAt c ps ↔ j ∈ ps := by
    intro j hj
    rw [proversAt, List.mem_map]
    constructor
    · rintro ⟨i, hi, heq⟩
      exact (getD_inj h (hin i hi) hj).mp heq ▸ hi
    · exact fun hj => ⟨j, hj, rfl⟩
  constructor
  · intro htop
    have hordered := List.pairwise_map.mp htop.ordered
    refine ⟨htop.nodup.of_map _, hin, hordered, fun j hj hnot i hi => ?_⟩
    -- What is at most the last one is at most all of them.
    obtain ⟨init, last, rfl⟩ := (List.eq_nil_or_concat' ps).resolve_left (List.ne_nil_of_mem hi)
    have hrest := htop.rest _ ((h.active _).mp (getD_mem hj)) (mt (hmem j hj).mp hnot)
      (c.activeProvers.getD last 0) (by simp [proversAt])
    rcases List.mem_append.mp hi with hi | hi
    · have hlast := (List.pairwise_append.mp hordered).2.2 i hi last (List.mem_singleton_self _)
      exact hrest.trans hlast
    · rw [List.mem_singleton.mp hi]
      exact hrest
  · intro hranked
    refine ⟨?_, ?_, fun prover hprover => ?_, List.pairwise_map.mpr hranked.ordered, ?_⟩
    · rw [length_proversAt, hlength, ncard_active h]
    · exact hranked.nodup.map_on fun i hi j hj heq => (getD_inj h (hin i hi) (hin j hj)).mp heq
    · obtain ⟨i, hi, rfl⟩ := List.mem_map.mp hprover
      exact (h.active _).mp (getD_mem (hin i hi))
    · intro prover hactive hnot last hlast
      obtain ⟨i, hi, rfl⟩ := List.mem_map.mp (List.mem_of_getLast? hlast)
      have hprover := (h.active prover).mpr hactive
      rw [activeProvers_eq_map] at hprover
      obtain ⟨j, hj, rfl⟩ := List.mem_map.mp hprover
      rw [List.mem_range] at hj
      exact hranked.rest j hj (mt (hmem j hj).mpr hnot) i hi

/-! ## Every reachable state -/

/-- What `getTopProvers` is for. -/
def RanksTop (c : RegistryStorage) (n : ℕ) : Prop :=
  (n ≤ MAX_TOP_PROVERS → ∃ top, getTopProvers c n = .ok top ∧ TopRanking c n top) ∧
    (MAX_TOP_PROVERS < n → getTopProvers c n = .error .tooManyTopProversRequested)

theorem getTopProvers_of_lt {n : ℕ} (hn : MAX_TOP_PROVERS < n) :
    getTopProvers c n = .error .tooManyTopProversRequested := by
  rw [getTopProvers, decide_eq_false (Nat.not_le_of_lt hn)]
  rfl

theorem picks_lt {k : ℕ} (hk : k ≤ c.activeProvers.length) :
    ∀ i ∈ picks (reputationAt c) 0 c.activeProvers.length k, i < c.activeProvers.length := by
  induction k with
  | zero => exact fun i hi => absurd hi List.not_mem_nil
  | succ k ih =>
    intro i hi
    rcases List.mem_append.mp hi with hi | hi
    · exact ih (Nat.le_of_succ_le hk) i hi
    · rw [List.mem_singleton.mp hi]
      exact scan_lt (Nat.zero_lt_of_lt hk)

theorem reputationAt_zero (hpos : 0 < c.activeProvers.length) :
    reputationAt c 0 = 0 ↔
      ∃ first, c.activeProvers.head? = some first ∧ (c.provers first).reputation = 0 := by
  obtain ⟨first, rest, heq⟩ := List.exists_cons_of_length_pos hpos
  simp [reputationAt, heq]

theorem ranksTop_iff (h : Bookkeeping c) (n : ℕ) :
    RanksTop c n ↔ MAX_TOP_PROVERS < n ∨
      min n c.activeProvers.length ≤ positiveProvers c ∨
      (min n c.activeProvers.length = positiveProvers c + 1 ∧
        ∃ first, c.activeProvers.head? = some first ∧ (c.provers first).reputation = 0) := by
  rcases Nat.lt_or_ge MAX_TOP_PROVERS n with hlt | hle
  · exact iff_of_true ⟨fun hle => absurd hlt hle.not_gt, getTopProvers_of_lt⟩ (.inl hlt)
  · have hranked := (topRanking_iff h (length_picks _) (picks_lt (min_le_right n _))).trans
      (ranked_picks_iff (fun i _ => Nat.zero_le (reputationAt c i))
        (min_le_right n _))
    rw [card_above] at hranked
    have htop : RanksTop c n ↔ TopRanking c n (proversAt c
        (picks (reputationAt c) 0 c.activeProvers.length (min n c.activeProvers.length))) := by
      constructor
      · rintro ⟨hreturns, -⟩
        obtain ⟨top, heq, hranking⟩ := hreturns hle
        rw [getTopProvers_eq hle] at heq
        exact Except.ok.inj heq ▸ hranking
      · exact fun hranking => ⟨fun _ => ⟨_, getTopProvers_eq hle, hranking⟩,
          fun hlt => absurd hlt hle.not_gt⟩
    rw [htop, hranked]
    constructor
    · rintro (hcount | ⟨hcount, hzero⟩)
      · exact .inr (.inl hcount)
      · exact .inr (.inr ⟨hcount, (reputationAt_zero (by omega)).mp hzero⟩)
    · rintro (hlt | hcount | ⟨hcount, hfirst⟩)
      · exact absurd hlt hle.not_gt
      · exact .inl hcount
      · exact .inr ⟨hcount, (reputationAt_zero (by omega)).mpr hfirst⟩

section Reachable

variable {hashes : ℕ → ℕ} {s : RegistryState}
  {deployer minStake slashBasisPoints tokenBalance : ℕ}

/-- In a reachable state `getTopProvers` ranks the active provers, unless more are asked for than
have a reputation above zero. One more is possible, when it is the first prover of the list. -/
theorem ranks_top_iff
    (hs : Reachable (registryBody hashes)
      (construct deployer minStake slashBasisPoints tokenBalance) s) (n : ℕ) :
    RanksTop s.storage n ↔ MAX_TOP_PROVERS < n ∨
      min n s.storage.activeProvers.length ≤ positiveProvers s.storage ∨
      (min n s.storage.activeProvers.length = positiveProvers s.storage + 1 ∧
        ∃ first, s.storage.activeProvers.head? = some first ∧
          (s.storage.provers first).reputation = 0) :=
  ranksTop_iff (guarantees.reachable construct_invariant hs).book n

/-- Two provers with a stake of ten thousand times the minimum, and the second one slashed until
nothing of its reputation is left. -/
def slashedMessages : List RegistryMessage :=
  [sampleMessage 61 1 (.register (10 ^ 21) []), sampleMessage 62 1 (.register (10 ^ 21) [])] ++
    List.replicate 119 (sampleMessage 10 1 (.slash 62 []))

theorem reputation_slashed :
    ∃ s, Reachable (registryBody fun _ => 1) (construct 10 (10 ^ 17) 500 0) s ∧
      s.storage.activeProvers = [61, 62] ∧ (s.storage.provers 61).reputation = 5000 ∧
      (s.storage.provers 62).reputation = 0 := by
  have hsample : okAnd (evalAll (registryBody fun _ => 1) (fun _ => some ()) slashedMessages
      (construct 10 (10 ^ 17) 500 0)) (fun s => s.storage.activeProvers == [61, 62] &&
        (s.storage.provers 61).reputation == 5000 &&
        (s.storage.provers 62).reputation == 0) = true := by
    decide +kernel
  obtain ⟨s, hs, hcheck⟩ := okAnd_eq_true.mp hsample
  simp only [Bool.and_eq_true, beq_iff_eq] at hcheck
  exact ⟨s, .of_run (.of_evalAll hs), hcheck.1.1, hcheck.1.2, hcheck.2⟩

/-- One prover is ranked there, as one of the two has a reputation above zero. -/
theorem one_prover_ranked :
    ∃ s, Reachable (registryBody fun _ => 1) (construct 10 (10 ^ 17) 500 0) s ∧
      RanksTop s.storage 1 := by
  obtain ⟨s, hs, hactive, hfirst, -⟩ := reputation_slashed
  have hpositive : 1 ≤ positiveProvers s.storage := by
    simp [positiveProvers, hactive, hfirst]
  exact ⟨s, hs, (ranks_top_iff hs 1).mpr (.inr (.inl ((min_le_left _ _).trans hpositive)))⟩

/-- The first prover is returned twice, and the second one, which is active too, not at all. -/
theorem first_prover_returned_twice :
    ∃ s, Reachable (registryBody fun _ => 1) (construct 10 (10 ^ 17) 500 0) s ∧
      s.storage.activeProvers = [61, 62] ∧ getTopProvers s.storage 2 = .ok [61, 61] ∧
      ¬ RanksTop s.storage 2 := by
  obtain ⟨s, hs, hactive, hfirst, hsecond⟩ := reputation_slashed
  have htop : getTopProvers s.storage 2 = .ok [61, 61] := by
    simp [getTopProvers, selectRound, scanRound, hactive, hfirst, hsecond, activeProverAt, getOr,
      MAX_TOP_PROVERS, List.range_succ]
  refine ⟨s, hs, hactive, htop, fun hranks => ?_⟩
  obtain ⟨top, heq, hranking⟩ := hranks.1 (by decide)
  obtain rfl := Except.ok.inj (htop.symm.trans heq)
  exact absurd hranking.nodup (by decide)

end Reachable

end WorldZk.ProverRanking
