import WorldZk.FieldMultiplication

/-!
# The reduction is the remainder

What one turn of the division loop does to its window, and from it what the whole loop leaves:
the dividend modulo the divisor, in both builds. The estimate of a quotient digit is the digit or
one more, and the second case is put right by adding the divisor back.
-/

namespace WorldZk.FieldReduction

open CheckedRuns LimbArithmetic Bn254Moduli FieldMultiplication

variable (overflowChecks : Bool)

section Estimate

theorem shifted_or {r u : ℕ} (hr : r < 2 ^ 64) (hu : u < 2 ^ 64) :
    (r <<< 64 % 2 ^ 128 ||| u) = r * 2 ^ 64 + u := by
  rw [Nat.shiftLeft_eq, Nat.mod_eq_of_lt (by omega), mul_comm, ← Nat.two_pow_add_eq_or_of_lt hu]

theorem tooLarge_ok {vNext uNext q r : ℕ} (hv : vNext < 2 ^ 64) (hu : uNext < 2 ^ 64)
    (hr : r < 2 ^ 64) : tooLarge overflowChecks vNext uNext q r =
      .ok (decide (2 ^ 64 ≤ q ∨ r * 2 ^ 64 + uNext < q * vNext)) := by
  by_cases hq : 2 ^ 64 ≤ q
  · rw [tooLarge, if_pos hq, decide_eq_true (Or.inl hq)]
    rfl
  · have hprod : q * vNext ≤ (2 ^ 64 - 1) * (2 ^ 64 - 1) := Nat.mul_le_mul (by omega) (by omega)
    rw [tooLarge, if_neg hq, u128_of_lt _ (by omega), shifted_or hr hu, ok_bind]
    simp only [hq, false_or]
    rfl

/-- The loop ends with an estimate that fits a word and is the quotient or one more. -/
theorem correctEstimate_ok {U V X vTop vNext u₄ u₃ u₂ : ℕ}
    (h : LeadingDigits (2 ^ 64) U V X vTop vNext u₄ u₃ u₂) (hvTop : vTop < 2 ^ 64)
    {fuel q r : ℕ} (hqr : q * vTop + r = u₄ * 2 ^ 64 + u₃) (hr : r < 2 ^ 64) (hq : U / V ≤ q)
    (hfuel : 2 ^ 64 ≤ r + fuel) :
    ∃ q', correctEstimate overflowChecks vTop vNext u₂ fuel q r = .ok q' ∧ q' < 2 ^ 64 ∧
      U / V ≤ q' ∧ q' * V < U + V := by
  induction fuel generalizing q r with
  | zero => omega
  | succ fuel ih =>
    have hpos := h.vTop_pos
    rw [correctEstimate, tooLarge_ok overflowChecks h.vNext_lt h.u₂_lt hr, ok_bind]
    by_cases htest : 2 ^ 64 ≤ q ∨ r * 2 ^ 64 + u₂ < q * vNext
    · -- the estimate is above the quotient, whichever half of the test says so
      have hlt : U / V < q := by
        rcases htest with hword | hlead
        · exact h.quotient_lt.trans_le hword
        · exact h.quotient_lt_of_test hqr hlead
      have hone : 1 ≤ q := Nat.one_le_of_lt hlt
      have hle : U / V ≤ q - 1 := Nat.le_sub_one_of_lt hlt
      have hqr' : (q - 1) * vTop + (r + vTop) = u₄ * 2 ^ 64 + u₃ := by
        obtain ⟨k, rfl⟩ := Nat.exists_eq_add_of_le' hone
        rw [← hqr, Nat.add_sub_cancel]
        ring
      rw [decide_eq_true htest, if_pos rfl, u128Sub_of_le _ hone, ok_bind,
        u128_of_lt _ (by omega), ok_bind]
      split
      · exact ih hqr' ‹_› hle (by omega)
      · exact ⟨q - 1, rfl, h.lt_base_of_remainder hqr' (by omega), hle,
          h.mul_lt_of_remainder hqr' (by omega)⟩
    · obtain ⟨hword, hlead⟩ := not_or.mp htest
      rw [decide_eq_false htest]
      exact ⟨q, rfl, by omega, hq, h.mul_lt_of_test hqr (by omega) (by omega)⟩

end Estimate

section Turns

/-- Subtracting a digit's product keeps the exact difference: the borrow holds at most one word
and one more. -/
theorem subtractTurn_exact {qHat : ℕ} (hq : qHat < 2 ^ 64) :
    CarryStep (2 ^ 64) (subtractTurn overflowChecks qHat) (-qHat) (fun c => -c)
      (fun c => 0 ≤ c ∧ c ≤ 2 ^ 64) where
  exact_step := by
    intro c u v hc hu hv
    obtain ⟨hc0, hc1⟩ := hc
    have hmul : qHat * v ≤ (2 ^ 64 - 1) * (2 ^ 64 - 1) := Nat.mul_le_mul (by omega) (by omega)
    have hhigh : (qHat * v) >>> 64 ≤ 2 ^ 64 - 2 := by
      rw [Nat.shiftRight_eq_div_pow]
      omega
    have hlow : qHat * v % 2 ^ 64 < 2 ^ 64 := Nat.mod_lt _ (by decide)
    have hsplit : qHat * v % 2 ^ 64 + 2 ^ 64 * (qHat * v) >>> 64 = qHat * v := by
      rw [Nat.shiftRight_eq_div_pow]
      exact Nat.mod_add_div _ _
    generalize hlo : qHat * v % 2 ^ 64 = low at hlow hsplit
    generalize hhi : (qHat * v) >>> 64 = high at hhigh hsplit
    have hword := asU64_add ((u : ℤ) - c - low)
    have hlt := asU64_lt ((u : ℤ) - c - low)
    refine ⟨asU64 (u - c - low), high - (u - c - low) >>> (64 : ℕ), ?_, hlt,
      ⟨by omega, by omega⟩, ?_⟩
    · rw [subtractTurn, u128_of_lt _ (by omega), ok_bind, i128_of_mem _ (by omega) (by omega),
        ok_bind, hlo, i128_of_mem _ (by omega) (by omega), ok_bind, hhi,
        i128_of_mem _ (by omega) (by omega), ok_bind]
      rfl
    · have hsplit' : (low : ℤ) + 2 ^ 64 * high = qHat * v := by exact_mod_cast hsplit
      push_cast
      linear_combination hsplit' - hword

theorem addBackTurn_exact :
    CarryStep (2 ^ 64) (addBackTurn overflowChecks) 1 (fun c => (c : ℤ)) (· < 2 ^ 64) where
  exact_step := by
    intro c u v hc hu hv
    have hcarry : (u + v + c) >>> 64 < 2 ^ 64 := by
      rw [Nat.shiftRight_eq_div_pow]
      omega
    refine ⟨(u + v + c) % 2 ^ 64, (u + v + c) >>> 64, ?_, Nat.mod_lt _ (by decide), hcarry, ?_⟩
    · rw [addBackTurn, u128_of_lt _ (by omega), ok_bind, u128_of_lt _ (by omega), ok_bind,
        Nat.mod_eq_of_lt hcarry]
      rfl
    · rw [Nat.shiftRight_eq_div_pow]
      push_cast
      omega

/-- Adding the divisor to a window below zero leaves the remainder, with a carry of one. -/
theorem addBack_ok {vn lo ds : List ℕ} (hi : List ℕ) {j r : ℕ} (hj : j = lo.length)
    (hvn : Limbs (2 ^ 64) vn) (hvnlen : vn.length = 4) (hds : Limbs (2 ^ 64) ds)
    (hdslen : ds.length = 4)
    (hsum : Nat.ofDigits (2 ^ 64) ds + Nat.ofDigits (2 ^ 64) vn = r + (2 ^ 64) ^ 4)
    (hr : r < Nat.ofDigits (2 ^ 64) vn) :
    ∃ ds', carryLoop .indexOutOfBounds (addBackTurn overflowChecks) j vn 4 (lo ++ ds ++ hi) 0 =
        .ok (lo ++ ds' ++ hi, 1) ∧ Limbs (2 ^ 64) ds' ∧ ds'.length = 4 ∧
      Nat.ofDigits (2 ^ 64) ds' = r := by
  obtain ⟨ds', carry, hrun, hdslen', hds', -, hval⟩ :=
    (addBackTurn_exact overflowChecks).carryLoop .indexOutOfBounds hi hj hvnlen.ge hvn hdslen hds
      (by decide : 0 < 2 ^ 64)
  have hV : Nat.ofDigits (2 ^ 64) vn < (2 ^ 64) ^ 4 := hvnlen ▸ hvn.ofDigits_lt (by decide)
  have hD : Nat.ofDigits (2 ^ 64) ds' < (2 ^ 64) ^ 4 := hdslen' ▸ hds'.ofDigits_lt (by decide)
  have hval' : Nat.ofDigits (2 ^ 64) ds + Nat.ofDigits (2 ^ 64) vn =
      Nat.ofDigits (2 ^ 64) ds' + (2 ^ 64) ^ 4 * carry := by
    rw [List.take_of_length_le hvnlen.le, one_mul] at hval
    exact_mod_cast hval
  have hone : carry = 1 := by omega
  subst hone
  exact ⟨ds', hrun, hds', hdslen', by omega⟩

/-- The digit's product comes out of the window, and where that goes below zero the divisor goes
back in: the window holds the remainder, and its top limb is zero. -/
theorem subtractEstimate_ok {vn lo mid : List ℕ} (hi : List ℕ) {j u₄ q U V : ℕ}
    (hj : j = lo.length) (hvn : Limbs (2 ^ 64) vn) (hvnlen : vn.length = 4)
    (hmid : Limbs (2 ^ 64) mid) (hmidlen : mid.length = 4) (hq : q < 2 ^ 64)
    (hU : U = Nat.ofDigits (2 ^ 64) mid + (2 ^ 64) ^ 4 * u₄) (hV : V = Nat.ofDigits (2 ^ 64) vn)
    (hpos : 0 < V) (hlow : U / V ≤ q) (hhigh : q * V < U + V) :
    ∃ ds, subtractEstimate overflowChecks vn q (lo ++ mid ++ u₄ :: hi) j =
        .ok (lo ++ ds ++ 0 :: hi) ∧ Limbs (2 ^ 64) ds ∧ ds.length = 4 ∧
      Nat.ofDigits (2 ^ 64) ds = U % V := by
  have hVN : V < (2 ^ 64) ^ 4 := by
    rw [hV, ← hvnlen]
    exact hvn.ofDigits_lt (by decide)
  obtain ⟨ds, borrow, hrun, hdslen, hds, -, hval⟩ :=
    (subtractTurn_exact overflowChecks hq).carryLoop .indexOutOfBounds (u₄ :: hi) hj hvnlen.ge hvn
      hmidlen hmid ⟨le_refl (0 : ℤ), by decide⟩
  have hD : Nat.ofDigits (2 ^ 64) ds < (2 ^ 64) ^ 4 := hdslen ▸ hds.ofDigits_lt (by decide)
  have hdiff : (U : ℤ) - q * V =
      (Nat.ofDigits (2 ^ 64) ds : ℕ) + ((2 ^ 64) ^ 4 : ℕ) * ((u₄ : ℤ) - borrow) := by
    rw [List.take_of_length_le hvnlen.le, ← hV] at hval
    rw [hU]
    simp only [Nat.cast_add, Nat.cast_mul, Nat.cast_pow] at hval ⊢
    linear_combination hval
  have hat : j + 4 = (lo ++ ds).length := by rw [List.length_append, hj, hdslen]
  rw [subtractEstimate, hrun, ok_bind]
  simp only [limb_append hat, ok_bind]
  rcases subtracted_window hpos hVN.le hD hlow hhigh hdiff with ⟨ht, hrem⟩ | ⟨ht, hrem⟩
  · have hzero : i128 overflowChecks 0 = .ok 0 := i128_of_mem _ (by decide) (by decide)
    refine ⟨ds, ?_, hds, hdslen, hrem⟩
    simp only [ht, hzero, setLimb_append hat, ok_bind]
    rfl
  · have hneg : i128 overflowChecks (-1) = .ok (-1) := i128_of_mem _ (by decide) (by decide)
    have htop : asU64 (-1) = 2 ^ 64 - 1 := by decide
    obtain ⟨ds', hrun', hds', hdslen', hval'⟩ :=
      addBack_ok overflowChecks ((2 ^ 64 - 1) :: hi) hj hvn hvnlen hds hdslen (hV ▸ hrem)
        (hV ▸ Nat.mod_lt U hpos)
    have hat' : j + 4 = (lo ++ ds').length := by rw [List.length_append, hj, hdslen']
    refine ⟨ds', ?_, hds', hdslen', hval'.trans (by rw [hV])⟩
    -- the carry of the addition meets the borrow of the subtraction
    simp only [ht, hneg, htop, setLimb_append hat, ok_bind]
    rw [if_pos (by decide), hrun', ok_bind]
    simp only [limb_append hat', setLimb_append hat', ok_bind]
    rfl

end Turns

section Loop

/-- The leading digits of the window `d, r₀, …, r₃` over the divisor, when the part above `d` is
already reduced. -/
theorem window_leading {v₀ v₁ v₂ v₃ d r₀ r₁ r₂ r₃ : ℕ}
    (hv : Limbs (2 ^ 64) [v₀, v₁, v₂, v₃]) (hd : d < 2 ^ 64)
    (hr : Limbs (2 ^ 64) [r₀, r₁, r₂, r₃]) (hpos : 0 < v₃)
    (hlt : Nat.ofDigits (2 ^ 64) [r₀, r₁, r₂, r₃] < Nat.ofDigits (2 ^ 64) [v₀, v₁, v₂, v₃]) :
    LeadingDigits (2 ^ 64) (Nat.ofDigits (2 ^ 64) [d, r₀, r₁, r₂, r₃])
      (Nat.ofDigits (2 ^ 64) [v₀, v₁, v₂, v₃]) (2 ^ 128) v₃ v₂ r₃ r₂ r₁ := by
  simp only [Limbs.cons_iff, Limbs.nil, and_true] at hv hr
  obtain ⟨hv₀, hv₁, hv₂, hv₃⟩ := hv
  obtain ⟨hr₀, hr₁, hr₂, hr₃⟩ := hr
  simp only [Nat.ofDigits_cons, Nat.ofDigits_nil] at hlt ⊢
  exact ⟨by omega, by omega, by omega, by omega, by omega, hpos, hv₂, hr₂, hr₁⟩

/-- The estimate of a turn is read off the window's and the divisor's leading limbs. -/
theorem estimate_ok {v₀ v₁ v₂ v₃ d r₀ r₁ r₂ r₃ : ℕ} {lo hi : List ℕ} {U V X : ℕ}
    (h : LeadingDigits (2 ^ 64) U V X v₃ v₂ r₃ r₂ r₁) (hv₃ : v₃ < 2 ^ 64) (hr₃ : r₃ < 2 ^ 64) :
    ∃ q, estimate overflowChecks [v₀, v₁, v₂, v₃] (lo ++ [d, r₀, r₁, r₂, r₃] ++ hi) lo.length =
        .ok q ∧ q < 2 ^ 64 ∧ U / V ≤ q ∧ q * V < U + V := by
  have hpos := h.vTop_pos
  obtain ⟨q, hrun, hq, hlow, hhigh⟩ :=
    correctEstimate_ok overflowChecks h hv₃ (Nat.div_add_mod' (r₃ * 2 ^ 64 + r₂) v₃)
      ((Nat.mod_lt _ hpos).trans hv₃) h.quotient_le (Nat.le_add_left _ _)
  have hwindow : ∀ i x, [d, r₀, r₁, r₂, r₃][i]? = some x →
      limb (lo ++ [d, r₀, r₁, r₂, r₃] ++ hi) (lo.length + i) = .ok x :=
    fun i x hx => getOr_window hx
  have hdivisor : ∀ i x, [v₀, v₁, v₂, v₃][i]? = some x → limb [v₀, v₁, v₂, v₃] i = .ok x :=
    fun i x hx => getOr_eq_ok.mpr hx
  refine ⟨q, ?_, hq, hlow, hhigh⟩
  rw [estimate, hwindow 4 r₃ rfl, ok_bind, hwindow 3 r₂ rfl, ok_bind, hdivisor 3 v₃ rfl, ok_bind,
    decide_eq_true hpos.ne', require_true, ok_bind, hdivisor 2 v₂ rfl, ok_bind,
    hwindow 2 r₁ rfl, ok_bind, shifted_or hr₃ h.u₃_lt, hrun]

/-- One turn brings the next digit down and reduces. -/
theorem divideTurn_ok {vn lo rem : List ℕ} (hi : List ℕ) {d : ℕ}
    (hvn : Limbs (2 ^ 64) vn) (hvnlen : vn.length = 4) (htop : 0 < vn[3]) (hd : d < 2 ^ 64)
    (hrem : Limbs (2 ^ 64) rem) (hremlen : rem.length = 4)
    (hlt : Nat.ofDigits (2 ^ 64) rem < Nat.ofDigits (2 ^ 64) vn) :
    ∃ rem', divideTurn overflowChecks vn (lo ++ d :: rem ++ hi) lo.length =
        .ok (lo ++ rem' ++ 0 :: hi) ∧ Limbs (2 ^ 64) rem' ∧ rem'.length = 4 ∧
      Nat.ofDigits (2 ^ 64) rem' =
        Nat.ofDigits (2 ^ 64) (d :: rem) % Nat.ofDigits (2 ^ 64) vn := by
  obtain ⟨v₀, v₁, v₂, v₃, rfl⟩ := List.length_eq_four.mp hvnlen
  obtain ⟨r₀, r₁, r₂, r₃, rfl⟩ := List.length_eq_four.mp hremlen
  have hlead := window_leading hvn hd hrem htop hlt
  have hv₃ : v₃ < 2 ^ 64 := hvn _ (by simp)
  obtain ⟨q, hest, hq, hlow, hhigh⟩ := @estimate_ok overflowChecks v₀ v₁ v₂ v₃ d r₀ r₁ r₂ r₃ lo hi
    _ _ _ hlead hv₃ (hrem _ (by simp))
  have hmid : Limbs (2 ^ 64) [d, r₀, r₁, r₂] := by
    simp only [Limbs.cons_iff] at hrem ⊢
    exact ⟨hd, hrem.1, hrem.2.1, hrem.2.2.1, Limbs.nil⟩
  have hU : Nat.ofDigits (2 ^ 64) [d, r₀, r₁, r₂, r₃] =
      Nat.ofDigits (2 ^ 64) [d, r₀, r₁, r₂] + (2 ^ 64) ^ 4 * r₃ := by
    simp only [Nat.ofDigits_cons, Nat.ofDigits_nil]
    ring
  obtain ⟨rem', hsub, hlimbs, hlen, hval⟩ :=
    @subtractEstimate_ok overflowChecks _ lo _ hi _ r₃ q _ _ rfl hvn hvnlen hmid rfl hq hU rfl
      hlead.divisor_pos hlow hhigh
  refine ⟨rem', ?_, hlimbs, hlen, hval⟩
  rw [divideTurn, hest, ok_bind, ← hsub, List.append_assoc, List.append_assoc]
  rfl

/-- The loop from limb `lo.length - 1` down to limb 0 reduces the whole array. -/
theorem divideLoop_ok {vn lo rem : List ℕ} (hi : List ℕ) (hvn : Limbs (2 ^ 64) vn)
    (hvnlen : vn.length = 4) (htop : 0 < vn[3]) (hlo : Limbs (2 ^ 64) lo)
    (hrem : Limbs (2 ^ 64) rem) (hremlen : rem.length = 4)
    (hlt : Nat.ofDigits (2 ^ 64) rem < Nat.ofDigits (2 ^ 64) vn) :
    ∃ rem' hi', (List.range lo.length).reverse.foldlM (divideTurn overflowChecks vn)
        (lo ++ rem ++ hi) = .ok (rem' ++ hi') ∧ Limbs (2 ^ 64) rem' ∧ rem'.length = 4 ∧
      Nat.ofDigits (2 ^ 64) rem' =
        Nat.ofDigits (2 ^ 64) (lo ++ rem) % Nat.ofDigits (2 ^ 64) vn := by
  induction lo using List.reverseRecOn generalizing rem hi with
  | nil => exact ⟨rem, hi, rfl, hrem, hremlen, (Nat.mod_eq_of_lt hlt).symm⟩
  | append_singleton lo d ih =>
    obtain ⟨hlo, hd⟩ := Limbs.append_iff.mp hlo
    have hd : d < 2 ^ 64 := (Limbs.cons_iff.mp hd).1
    obtain ⟨rem₁, hturn, hrem₁, hlen₁, hval₁⟩ :=
      @divideTurn_ok overflowChecks vn lo rem hi d hvn hvnlen htop hd hrem hremlen hlt
    have hlt₁ : Nat.ofDigits (2 ^ 64) rem₁ < Nat.ofDigits (2 ^ 64) vn := by
      rw [hval₁]
      exact Nat.mod_lt _ ((Nat.zero_le _).trans_lt hlt)
    obtain ⟨rem', hi', hrun, hrem', hlen', hval'⟩ := ih (0 :: hi) hlo hrem₁ hlen₁ hlt₁
    refine ⟨rem', hi', ?_, hrem', hlen', ?_⟩
    · have hstart : lo ++ [d] ++ rem ++ hi = lo ++ d :: rem ++ hi := by simp
      rw [List.length_append, List.length_singleton, List.range_succ, List.reverse_append,
        List.reverse_singleton, List.singleton_append, List.foldlM_cons, hstart, hturn, ok_bind,
        hrun]
    · have hsplit : lo ++ [d] ++ rem = lo ++ d :: rem := by simp
      rw [hval', hsplit, Nat.ofDigits_append, Nat.ofDigits_append, hval₁, Nat.add_mod,
        Nat.mul_mod, Nat.mod_mod, ← Nat.mul_mod, ← Nat.add_mod]

end Loop

section Normalization

theorem leadingZeros_spec {x : ℕ} (hx : 0 < x) (hlt : x < 2 ^ 64) :
    leadingZeros x < 64 ∧ 2 ^ 63 ≤ 2 ^ leadingZeros x * x ∧ 2 ^ leadingZeros x * x < 2 ^ 64 := by
  have hpos : 0 < Nat.size x := Nat.size_pos.mpr hx
  have hle : Nat.size x ≤ 64 := Nat.size_le.mpr hlt
  have hlow : 2 ^ (Nat.size x - 1) ≤ x := Nat.lt_size.mp (by omega)
  have hhigh : x < 2 ^ Nat.size x := Nat.lt_size_self x
  refine ⟨by unfold leadingZeros; omega, ?_, ?_⟩
  · calc 2 ^ 63 = 2 ^ leadingZeros x * 2 ^ (Nat.size x - 1) := by
          rw [← pow_add, leadingZeros]
          congr 1
          omega
      _ ≤ 2 ^ leadingZeros x * x := Nat.mul_le_mul_left _ hlow
  · calc 2 ^ leadingZeros x * x < 2 ^ leadingZeros x * 2 ^ Nat.size x :=
          Nat.mul_lt_mul_of_pos_left hhigh (by positivity)
      _ = 2 ^ 64 := by rw [← pow_add, leadingZeros, Nat.sub_add_cancel hle]

variable {s : ℕ} (hpos : 0 < s) (hs : s < 64)

include hpos hs in
theorem joinUp_ok (hi lo : ℕ) :
    joinUp overflowChecks s hi lo = .ok (hi <<< s % 2 ^ 64 ||| lo >>> (64 - s)) := by
  rw [joinUp, shl_of_lt _ hs, ok_bind, shr_of_lt _ (by omega), ok_bind]
  rfl

include hpos hs in
theorem joinDown_ok (lo hi : ℕ) :
    joinDown overflowChecks s lo hi = .ok (lo >>> s ||| hi <<< (64 - s) % 2 ^ 64) := by
  rw [joinDown, shr_of_lt _ hs, ok_bind, shl_of_lt _ (by omega), ok_bind]
  rfl

include hs in
theorem normalizedDivisor_ok {m : List ℕ} (hm : Limbs (2 ^ 64) m) (hlen : m.length = 4)
    (htop : 2 ^ s * m[3] < 2 ^ 64) :
    ∃ vn, normalizedDivisor overflowChecks m s = .ok vn ∧ Limbs (2 ^ 64) vn ∧ vn.length = 4 ∧
      Nat.ofDigits (2 ^ 64) vn = 2 ^ s * Nat.ofDigits (2 ^ 64) m := by
  obtain ⟨m₀, m₁, m₂, m₃, rfl⟩ := List.length_eq_four.mp hlen
  rcases Nat.eq_zero_or_pos s with rfl | hpos
  · exact ⟨[m₀, m₁, m₂, m₃], rfl, hm, rfl, (one_mul _).symm⟩
  · have hout : m₃ >>> (64 - s) = 0 := by
      rw [Nat.shiftRight_eq_div_pow]
      refine Nat.div_eq_of_lt (Nat.lt_of_mul_lt_mul_left (a := 2 ^ s) ?_)
      rw [← pow_add, Nat.add_sub_cancel' hs.le]
      exact htop
    have hshift : shiftUp 64 s 0 [m₀, m₁, m₂, m₃] = [m₀ <<< s % 2 ^ 64,
        m₁ <<< s % 2 ^ 64 ||| m₀ >>> (64 - s), m₂ <<< s % 2 ^ 64 ||| m₁ >>> (64 - s),
        m₃ <<< s % 2 ^ 64 ||| m₂ >>> (64 - s)] ++ [0] := by
      simp only [shiftUp, Nat.zero_shiftRight, Nat.or_zero, hout, List.cons_append,
        List.nil_append]
    have hvalue := ofDigits_shiftUp hs.le (by decide : 0 < 2 ^ 64) hm
    have hlimbs := shiftUp_limbs (s := s) (by decide : 0 < 2 ^ 64) hm
    rw [hshift, Nat.ofDigits_append_zero, Nat.zero_div, add_zero] at hvalue
    rw [hshift, Limbs.append_iff] at hlimbs
    refine ⟨_, ?_, hlimbs.1, rfl, hvalue⟩
    have hread : ∀ i x, [m₀, m₁, m₂, m₃][i]? = some x → limb [m₀, m₁, m₂, m₃] i = .ok x :=
      fun i x hx => getOr_eq_ok.mpr hx
    rw [normalizedDivisor, hread 0 m₀ rfl, ok_bind, hread 1 m₁ rfl, ok_bind, hread 2 m₂ rfl,
      ok_bind, hread 3 m₃ rfl, ok_bind, if_pos hpos, shl_of_lt _ hs, ok_bind,
      joinUp_ok _ hpos hs, ok_bind, joinUp_ok _ hpos hs, ok_bind, joinUp_ok _ hpos hs, ok_bind]
    rfl

include hs in
theorem normalizedDividend_ok {val : List ℕ} (hval : Limbs (2 ^ 64) val) (hlen : val.length = 8) :
    ∃ un, normalizedDividend overflowChecks val s = .ok un ∧ Limbs (2 ^ 64) un ∧ un.length = 9 ∧
      Nat.ofDigits (2 ^ 64) un = 2 ^ s * Nat.ofDigits (2 ^ 64) val := by
  rcases Nat.eq_zero_or_pos s with rfl | hpos
  · refine ⟨val ++ [0], rfl, Limbs.append_iff.mpr ⟨hval, Limbs.singleton (by decide)⟩,
      by simp [hlen], ?_⟩
    rw [Nat.ofDigits_append_zero, pow_zero, one_mul]
  · have hvalue := ofDigits_shiftUp hs.le (by decide : 0 < 2 ^ 64) hval
    have hlimbs := shiftUp_limbs (s := s) (by decide : 0 < 2 ^ 64) hval
    rw [Nat.zero_div, add_zero] at hvalue
    obtain ⟨x₀, x₁, x₂, x₃, hlow⟩ := List.length_eq_four.mp (by simp [hlen] :
      (val.take 4).length = 4)
    obtain ⟨x₄, x₅, x₆, x₇, hhigh⟩ := List.length_eq_four.mp (by simp [hlen] :
      (val.drop 4).length = 4)
    obtain rfl : val = [x₀, x₁, x₂, x₃, x₄, x₅, x₆, x₇] := by
      rw [← List.take_append_drop 4 val, hlow, hhigh]
      rfl
    refine ⟨_, ?_, hlimbs, rfl, hvalue⟩
    have hread : ∀ i x, [x₀, x₁, x₂, x₃, x₄, x₅, x₆, x₇][i]? = some x →
        limb [x₀, x₁, x₂, x₃, x₄, x₅, x₆, x₇] i = .ok x := fun i x hx => getOr_eq_ok.mpr hx
    have hturn : ∀ un i x y, [x₀, x₁, x₂, x₃, x₄, x₅, x₆, x₇][i]? = some x →
        [x₀, x₁, x₂, x₃, x₄, x₅, x₆, x₇][i - 1]? = some y →
        shiftTurn overflowChecks [x₀, x₁, x₂, x₃, x₄, x₅, x₆, x₇] s un i =
          setLimb un i (x <<< s % 2 ^ 64 ||| y >>> (64 - s)) := by
      intro un i x y hx hy
      rw [shiftTurn, hread i x hx, ok_bind, hread (i - 1) y hy, ok_bind, joinUp_ok _ hpos hs,
        ok_bind]
    simp only [List.foldlM_cons, List.foldlM_nil, normalizedDividend, if_pos hpos,
      hread 7 x₇ rfl, hread 0 x₀ rfl, ok_bind, shl_of_lt _ hs,
      shr_of_lt overflowChecks (by omega : 64 - s < 64)]
    simp only [hturn _ 7 x₇ x₆ rfl rfl, hturn _ 6 x₆ x₅ rfl rfl, hturn _ 5 x₅ x₄ rfl rfl,
      hturn _ 4 x₄ x₃ rfl rfl, hturn _ 3 x₃ x₂ rfl rfl, hturn _ 2 x₂ x₁ rfl rfl,
      hturn _ 1 x₁ x₀ rfl rfl, shiftUp, Nat.zero_shiftRight, Nat.or_zero]
    rfl

include hs in
theorem denormalized_ok {rem : List ℕ} (hi : List ℕ) (hrem : Limbs (2 ^ 64) rem)
    (hlen : rem.length = 4) :
    ∃ r, denormalized overflowChecks (rem ++ hi) s = .ok r ∧ Limbs (2 ^ 64) r ∧ r.length = 4 ∧
      Nat.ofDigits (2 ^ 64) r = Nat.ofDigits (2 ^ 64) rem / 2 ^ s := by
  obtain ⟨r₀, r₁, r₂, r₃, rfl⟩ := List.length_eq_four.mp hlen
  rcases Nat.eq_zero_or_pos s with rfl | hpos
  · exact ⟨[r₀, r₁, r₂, r₃], rfl, hrem, rfl, by rw [pow_zero, Nat.div_one]⟩
  · refine ⟨shiftDown 64 s [r₀, r₁, r₂, r₃], ?_, shiftDown_limbs hrem, rfl,
      ofDigits_shiftDown hs.le hrem⟩
    have hread : ∀ i x, [r₀, r₁, r₂, r₃][i]? = some x →
        limb ([] ++ [r₀, r₁, r₂, r₃] ++ hi) (0 + i) = .ok x := fun i x hx => getOr_window hx
    simp only [List.nil_append, Nat.zero_add] at hread
    rw [denormalized, hread 0 r₀ rfl, ok_bind, hread 1 r₁ rfl, ok_bind, hread 2 r₂ rfl, ok_bind,
      hread 3 r₃ rfl, ok_bind, if_pos hpos, joinDown_ok _ hpos hs, ok_bind,
      joinDown_ok _ hpos hs, ok_bind, joinDown_ok _ hpos hs, ok_bind, shr_of_lt _ hs, ok_bind]
    rfl

end Normalization

/-- A divisor scaled to the top of its four limbs has a top limb, and any higher part of a scaled
dividend is below it. -/
theorem scaled_bounds {vn un : List ℕ} (hvn : Limbs (2 ^ 64) vn) (hvnlen : vn.length = 4)
    (hV : 2 ^ 63 * (2 ^ 64) ^ 3 ≤ Nat.ofDigits (2 ^ 64) vn)
    (hU : Nat.ofDigits (2 ^ 64) un < 2 ^ 63 * (2 ^ 64) ^ 8) (hunlen : un.length = 9) :
    0 < vn[3] ∧ Nat.ofDigits (2 ^ 64) (un.drop 5) < Nat.ofDigits (2 ^ 64) vn := by
  constructor
  · obtain ⟨v₀, v₁, v₂, v₃, rfl⟩ := List.length_eq_four.mp hvnlen
    simp only [Limbs.cons_iff] at hvn
    obtain ⟨hv₀, hv₁, hv₂, -⟩ := hvn
    simp only [Nat.ofDigits_cons, Nat.ofDigits_nil] at hV
    change 0 < v₃
    omega
  · have hsplit := @Nat.ofDigits_append (2 ^ 64) (un.take 5) (un.drop 5)
    rw [List.take_append_drop, List.length_take_of_le (by omega)] at hsplit
    omega

/-- The loop of `reduce_512` leaves the scaled dividend modulo the scaled divisor. -/
theorem divide_ok {vn un : List ℕ} (hvn : Limbs (2 ^ 64) vn) (hvnlen : vn.length = 4)
    (hV : 2 ^ 63 * (2 ^ 64) ^ 3 ≤ Nat.ofDigits (2 ^ 64) vn) (hun : Limbs (2 ^ 64) un)
    (hunlen : un.length = 9) (hU : Nat.ofDigits (2 ^ 64) un < 2 ^ 63 * (2 ^ 64) ^ 8) :
    ∃ rem hi, [4, 3, 2, 1, 0].foldlM (divideTurn overflowChecks vn) un = .ok (rem ++ hi) ∧
      Limbs (2 ^ 64) rem ∧ rem.length = 4 ∧
      Nat.ofDigits (2 ^ 64) rem = Nat.ofDigits (2 ^ 64) un % Nat.ofDigits (2 ^ 64) vn := by
  obtain ⟨htop, hlt⟩ := scaled_bounds hvn hvnlen hV hU hunlen
  obtain ⟨hlo, hrem⟩ := Limbs.append_iff.mp ((List.take_append_drop 5 un).symm ▸ hun)
  have hindices : (List.range (un.take 5).length).reverse = [4, 3, 2, 1, 0] := by
    rw [List.length_take_of_le (by omega)]
    rfl
  obtain ⟨rem, hi, hloop, hremlimbs, hremlen, hremval⟩ :=
    divideLoop_ok overflowChecks [] hvn hvnlen htop hlo hrem (by simp [hunlen]) hlt
  rw [List.append_nil, List.take_append_drop, hindices] at hloop
  rw [List.take_append_drop] at hremval
  exact ⟨rem, hi, hloop, hremlimbs, hremlen, hremval⟩

/-- `reduce_512` is the remainder by every modulus whose top limb is not zero. -/
theorem reduce512_ok (val : LimbArray 8) (modulus : U256) (htop : 2 ^ 192 ≤ modulus.toNat) :
    ∃ r : U256, reduce512 overflowChecks val.limbs modulus.limbs = .ok r.limbs ∧
      r.toNat = val.toNat % modulus.toNat := by
  obtain ⟨m₀, m₁, m₂, m₃, hm⟩ := List.length_eq_four.mp modulus.length_eq
  have hmod : modulus.toNat = Nat.ofDigits (2 ^ 64) [m₀, m₁, m₂, m₃] := by
    rw [LimbArray.toNat, hm]
  have hbounded : Limbs (2 ^ 64) [m₀, m₁, m₂, m₃] := hm ▸ modulus.bounded
  have hvalue : modulus.toNat = m₀ + 2 ^ 64 * (m₁ + 2 ^ 64 * (m₂ + 2 ^ 64 * m₃)) := by
    rw [hmod]
    simp [Nat.ofDigits_cons]
  have hm₃ : m₃ < 2 ^ 64 := hbounded _ (by simp)
  have hpos : 0 < m₃ := by
    have := hbounded
    simp only [Limbs.cons_iff] at this
    omega
  obtain ⟨hs, hnorm, hword⟩ := leadingZeros_spec hpos hm₃
  obtain ⟨vn, hvn, hvnlimbs, hvnlen, hvnval⟩ :=
    normalizedDivisor_ok overflowChecks hs hbounded rfl hword
  obtain ⟨un, hun, hunlimbs, hunlen, hunval⟩ :=
    normalizedDividend_ok overflowChecks hs val.bounded val.length_eq
  have hV : 2 ^ 63 * (2 ^ 64) ^ 3 ≤ Nat.ofDigits (2 ^ 64) vn := by
    rw [hvnval, ← hmod]
    calc 2 ^ 63 * (2 ^ 64) ^ 3 ≤ 2 ^ leadingZeros m₃ * m₃ * (2 ^ 64) ^ 3 :=
          Nat.mul_le_mul_right _ hnorm
      _ = 2 ^ leadingZeros m₃ * (m₃ * (2 ^ 64) ^ 3) := mul_assoc _ _ _
      _ ≤ 2 ^ leadingZeros m₃ * modulus.toNat := Nat.mul_le_mul_left _ (by omega)
  have hU : Nat.ofDigits (2 ^ 64) un < 2 ^ 63 * (2 ^ 64) ^ 8 := by
    have hval : Nat.ofDigits (2 ^ 64) val.limbs < (2 ^ 64) ^ 8 :=
      (val.bounded.ofDigits_lt (by decide)).trans_eq (by rw [val.length_eq])
    rw [hunval]
    exact Nat.mul_lt_mul_of_le_of_lt (Nat.pow_le_pow_right (by decide) (by omega)) hval
      (by positivity)
  obtain ⟨rem, hi, hloop, hremlimbs, hremlen, hremval⟩ :=
    divide_ok overflowChecks hvnlimbs hvnlen hV hunlimbs hunlen hU
  rw [hunval, hvnval, Nat.mul_mod_mul_left] at hremval
  obtain ⟨r, hr, hrlimbs, hrlen, hrval⟩ :=
    denormalized_ok overflowChecks hs hi hremlimbs hremlen
  refine ⟨⟨r, hrlen, hrlimbs⟩, ?_, ?_⟩
  · have hread : limb [m₀, m₁, m₂, m₃] 3 = .ok m₃ := rfl
    simp only [reduce512, hm, hread, ok_bind, hvn, hun, hloop, hr]
  · rw [LimbArray.toNat, hrval, hremval, Nat.mul_div_cancel_left _ (by positivity), hmod]
    rfl

/-- `field_mul` is the exact product modulo every modulus whose top limb is not zero. -/
theorem fieldMul_ok (a b modulus : U256) (htop : 2 ^ 192 ≤ modulus.toNat) :
    ∃ r : U256, fieldMul overflowChecks a b modulus = .ok r.limbs ∧
      r.toNat = FieldArithmetic.fieldMul a.toNat b.toNat modulus.toNat := by
  obtain ⟨product, hproduct, hval⟩ := mulWide_ok overflowChecks a b
  obtain ⟨r, hr, hrval⟩ := reduce512_ok overflowChecks product modulus htop
  refine ⟨r, ?_, by rw [hrval, hval, FieldArithmetic.fieldMul]⟩
  rw [fieldMul, hproduct, ok_bind, hr]

/-- Modular multiplication is exact for all operands and both moduli, in a build that stops on
overflow and in one that wraps. -/
theorem field_mul_exact (a b : U256) :
    (∃ r : U256, fieldMul overflowChecks a b FQ_LIMBS = .ok r.limbs ∧
      r.toNat = a.toNat * b.toNat % FQ_MOD) ∧
    ∃ r : U256, fieldMul overflowChecks a b FR_LIMBS = .ok r.limbs ∧
      r.toNat = a.toNat * b.toNat % FR_MOD := by
  have hq := fieldMul_ok overflowChecks a b FQ_LIMBS (by decide)
  have hr := fieldMul_ok overflowChecks a b FR_LIMBS (by decide)
  rw [FQ_LIMBS_toNat] at hq
  rw [FR_LIMBS_toNat] at hr
  exact ⟨hq, hr⟩

end WorldZk.FieldReduction
