import WorldZk.VerifierBackend

/-!
# Laws of the sponge

Both arithmetics compute the Poseidon permutation of the base field: whatever words represent
the state, the permuted state is the canonical representative of the permuted field elements.
So outputs are reduced, and the Rust and the Solidity sponge stay in step on every sequence of
words.
-/

namespace WorldZk.PoseidonSponge

open Bn254Moduli FieldArithmetic

/-- Word arithmetic that represents the base field. -/
structure Lawful (ops : WordOps) : Prop where
  cast_add : ∀ {a b}, a < WORD → b < WORD → a < FQ_MOD ∨ b < FQ_MOD →
    (ops.add a b : ZMod FQ_MOD) = a + b
  add_lt : ∀ {a b}, a < WORD → b < WORD → a < FQ_MOD ∨ b < FQ_MOD → ops.add a b < WORD
  cast_mul : ∀ a b, (ops.mul a b : ZMod FQ_MOD) = a * b
  mul_lt : ∀ a b, ops.mul a b < FQ_MOD
  cast_sum3 : ∀ {a b c}, a < FQ_MOD → b < FQ_MOD → c < FQ_MOD →
    (ops.sum3 a b c : ZMod FQ_MOD) = a + b + c
  sum3_lt : ∀ {a b c}, a < FQ_MOD → b < FQ_MOD → c < FQ_MOD → ops.sum3 a b c < FQ_MOD

private theorem fieldAdd_comm (a b m : ℕ) : fieldAdd a b m = fieldAdd b a m := by
  simp only [fieldAdd, add_comm]

private theorem fieldAdd_word {a b : ℕ} (ha : a < FQ_MOD) (hb : b < WORD) :
    (fieldAdd a b FQ_MOD : ZMod FQ_MOD) = a + b ∧ fieldAdd a b FQ_MOD < WORD := by
  have hq : FQ_MOD < WORD := FQ_MOD_lt_word
  rw [fieldAdd_eq_ite hq ha hb]
  split
  · refine ⟨?_, by omega⟩
    rw [Nat.cast_sub ‹_›, ZMod.natCast_self, sub_zero, Nat.cast_add]
  · exact ⟨Nat.cast_add a b, by omega⟩

theorem lawful_rustOps : Lawful rustOps where
  cast_add {a b} ha hb h := by
    rcases h with h | h
    · exact (fieldAdd_word h hb).1
    · rw [add_comm (a : ZMod FQ_MOD)]
      simpa only [rustOps, fieldAdd_comm a b] using (fieldAdd_word h ha).1
  add_lt {a b} ha hb h := by
    rcases h with h | h
    · exact (fieldAdd_word h hb).2
    · simpa only [rustOps, fieldAdd_comm a b] using (fieldAdd_word h ha).2
  cast_mul a b := cast_fieldMul a b FQ_MOD
  mul_lt a b := fieldMul_lt FQ_MOD_prime.pos a b
  cast_sum3 {a b c} ha hb hc := by
    simp only [rustOps]
    rw [cast_fieldAdd FQ_MOD_lt_word (fieldAdd_lt FQ_MOD_lt_word ha hb) hc,
      cast_fieldAdd FQ_MOD_lt_word ha hb]
  sum3_lt {a b c} ha hb hc :=
    fieldAdd_lt FQ_MOD_lt_word (fieldAdd_lt FQ_MOD_lt_word ha hb) hc

theorem lawful_solOps : Lawful solOps where
  cast_add {a b} _ _ _ := by simp only [solOps, ZMod.natCast_mod, Nat.cast_add]
  add_lt {a b} _ _ _ := (Nat.mod_lt _ FQ_MOD_prime.pos).trans FQ_MOD_lt_word
  cast_mul a b := by simp only [solOps, ZMod.natCast_mod, Nat.cast_mul]
  mul_lt a b := Nat.mod_lt _ FQ_MOD_prime.pos
  cast_sum3 {a b c} _ _ _ := by
    simp only [solOps, ZMod.natCast_mod, Nat.cast_add]
    ring
  sum3_lt {a b c} _ _ _ := Nat.mod_lt _ FQ_MOD_prime.pos

/-! ## The permutation of the field -/

/-- One row of the linear layer over the field. -/
def mdsRowF (row : ℕ × ℕ × ℕ) (t0 t1 t2 : ZMod FQ_MOD) : ZMod FQ_MOD :=
  row.1 * t0 + row.2.1 * t1 + row.2.2 * t2

/-- The rounds over the field. -/
def roundsF : List (ℕ × ℕ × ℕ) → ℕ → ZMod FQ_MOD → ZMod FQ_MOD → ZMod FQ_MOD →
    ZMod FQ_MOD × ZMod FQ_MOD × ZMod FQ_MOD
  | [], _, s0, s1, s2 => (s0, s1, s2)
  | rc :: rcs, i, s0, s1, s2 =>
    let t0 := (s0 + rc.1) ^ 5
    let t1 := if isFullRound i then (s1 + rc.2.1) ^ 5 else s1 + rc.2.1
    let t2 := if isFullRound i then (s2 + rc.2.2) ^ 5 else s2 + rc.2.2
    roundsF rcs (i + 1) (mdsRowF MDS.1 t0 t1 t2) (mdsRowF MDS.2.1 t0 t1 t2)
      (mdsRowF MDS.2.2 t0 t1 t2)

section Rounds

variable {ops : WordOps} (h : Lawful ops)

include h

private theorem cast_pow5 (x : ℕ) : (pow5 ops x : ZMod FQ_MOD) = (x : ZMod FQ_MOD) ^ 5 := by
  simp only [pow5, h.cast_mul]
  ring

private theorem mdsRow_spec (row : ℕ × ℕ × ℕ) (t0 t1 t2 : ℕ) :
    (mdsRow ops row t0 t1 t2 : ZMod FQ_MOD) = mdsRowF row t0 t1 t2 ∧
      mdsRow ops row t0 t1 t2 < FQ_MOD := by
  refine ⟨?_, h.sum3_lt (h.mul_lt _ _) (h.mul_lt _ _) (h.mul_lt _ _)⟩
  rw [mdsRow, h.cast_sum3 (h.mul_lt _ _) (h.mul_lt _ _) (h.mul_lt _ _)]
  simp only [h.cast_mul, mdsRowF]

private theorem cast_sbox (full : Bool) {s rc : ℕ} (hs : s < WORD) (hrc : rc < FQ_MOD) :
    ((if full then pow5 ops (ops.add s rc) else ops.add s rc : ℕ) : ZMod FQ_MOD) =
      if full then ((s : ZMod FQ_MOD) + rc) ^ 5 else (s : ZMod FQ_MOD) + rc := by
  have hadd := h.cast_add hs (hrc.trans FQ_MOD_lt_word) (Or.inr hrc)
  cases full
  · simpa using hadd
  · simp only [if_true, cast_pow5 h, hadd]

private theorem rounds_lt {rcs : List (ℕ × ℕ × ℕ)} (i : ℕ) {s0 s1 s2 : ℕ}
    (hs : rcs ≠ [] ∨ s0 < FQ_MOD ∧ s1 < FQ_MOD ∧ s2 < FQ_MOD) :
    (rounds ops rcs i s0 s1 s2).1 < FQ_MOD ∧ (rounds ops rcs i s0 s1 s2).2.1 < FQ_MOD ∧
      (rounds ops rcs i s0 s1 s2).2.2 < FQ_MOD := by
  induction rcs generalizing i s0 s1 s2 with
  | nil => exact hs.resolve_left (by simp)
  | cons rc rcs ih =>
    rw [rounds]
    exact ih (i + 1) (Or.inr ⟨(mdsRow_spec h _ _ _ _).2, (mdsRow_spec h _ _ _ _).2,
      (mdsRow_spec h _ _ _ _).2⟩)

/-- The rounds compute the field permutation, whatever words stand for the state. -/
private theorem cast_rounds {rcs : List (ℕ × ℕ × ℕ)}
    (hrcs : ∀ rc ∈ rcs, rc.1 < FQ_MOD ∧ rc.2.1 < FQ_MOD ∧ rc.2.2 < FQ_MOD) (i : ℕ) {s0 s1 s2 : ℕ}
    (h0 : s0 < WORD) (h1 : s1 < WORD) (h2 : s2 < WORD) :
    let t := rounds ops rcs i s0 s1 s2
    ((t.1 : ZMod FQ_MOD), (t.2.1 : ZMod FQ_MOD), (t.2.2 : ZMod FQ_MOD)) =
      roundsF rcs i s0 s1 s2 := by
  induction rcs generalizing i s0 s1 s2 with
  | nil => rfl
  | cons rc rcs ih =>
    obtain ⟨hr0, hr1, hr2⟩ := hrcs rc List.mem_cons_self
    have ht0 := cast_sbox h true h0 hr0
    have ht1 := cast_sbox h (isFullRound i) h1 hr1
    have ht2 := cast_sbox h (isFullRound i) h2 hr2
    simp only [if_true] at ht0
    have hm := fun row => mdsRow_spec h row (pow5 ops (ops.add s0 rc.1))
      (if isFullRound i then pow5 ops (ops.add s1 rc.2.1) else ops.add s1 rc.2.1)
      (if isFullRound i then pow5 ops (ops.add s2 rc.2.2) else ops.add s2 rc.2.2)
    have hw := fun row => (hm row).2.trans FQ_MOD_lt_word
    have hcast := ih (fun rc' hrc' => hrcs rc' (List.mem_cons_of_mem _ hrc')) (i + 1)
      (hw MDS.1) (hw MDS.2.1) (hw MDS.2.2)
    rw [(hm _).1, (hm _).1, (hm _).1, ht0, ht1, ht2] at hcast
    exact hcast

theorem permute_lt (s0 s1 s2 : ℕ) :
    (permute ops s0 s1 s2).1 < FQ_MOD ∧ (permute ops s0 s1 s2).2.1 < FQ_MOD ∧
      (permute ops s0 s1 s2).2.2 < FQ_MOD := by
  rw [permute]
  exact rounds_lt h 0 (Or.inl (by simp [ROUND_CONSTANTS]))

theorem cast_permute {s0 s1 s2 : ℕ} (h0 : s0 < WORD) (h1 : s1 < WORD) (h2 : s2 < WORD) :
    let t := permute ops s0 s1 s2
    ((t.1 : ZMod FQ_MOD), (t.2.1 : ZMod FQ_MOD), (t.2.2 : ZMod FQ_MOD)) =
      roundsF ROUND_CONSTANTS 0 s0 s1 s2 := by
  have hconst : ∀ rc ∈ ROUND_CONSTANTS, rc.1 < FQ_MOD ∧ rc.2.1 < FQ_MOD ∧ rc.2.2 < FQ_MOD := by
    decide
  rw [permute]
  exact cast_rounds h hconst 0 h0 h1 h2

theorem squeeze_lt (s : Sponge) : (squeeze ops s).1 < FQ_MOD := by
  unfold squeeze
  simp only
  split
  · exact (permute_lt h _ _ _).2.1
  · exact (permute_lt h _ _ _).2.1

end Rounds

/-! ## Sponge states -/

/-- The state words fit in 256 bits, and the positions not yet absorbed into are reduced. -/
structure Sponge.Valid (s : Sponge) : Prop where
  s0_lt : s.s0 < FQ_MOD
  s1_lt : s.s1 < WORD
  s1_reduced : s.absorbing = 0 → s.s1 < FQ_MOD
  s2_lt : s.s2 < FQ_MOD

theorem init_valid : init.Valid := by
  refine ⟨?_, ?_, fun _ => ?_, ?_⟩ <;> decide

section Valid

variable {ops : WordOps} (h : Lawful ops)

include h

theorem permuted_valid (s0 s1 s2 : ℕ) : (permuted ops s0 s1 s2).Valid := by
  obtain ⟨ht0, ht1, ht2⟩ := permute_lt h s0 s1 s2
  exact ⟨ht0, ht1.trans FQ_MOD_lt_word, fun _ => ht1, ht2⟩

theorem absorb_valid {s : Sponge} (hs : s.Valid) {v : ℕ} (hv : v < WORD) :
    (absorb ops s v).Valid := by
  unfold absorb
  split
  · rename_i h0
    exact ⟨hs.s0_lt, h.add_lt hs.s1_lt hv (Or.inl (hs.s1_reduced h0)), fun h1 => by simp at h1,
      hs.s2_lt⟩
  · exact permuted_valid h _ _ _

theorem squeeze_valid (s : Sponge) : (squeeze ops s).2.Valid := by
  unfold squeeze
  simp only
  split <;> exact permuted_valid h _ _ _

end Valid

end WorldZk.PoseidonSponge
