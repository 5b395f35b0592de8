import WorldZk.SpongeLaws

/-!
# Agreement of the two sponges

The Rust and the Solidity sponge on one sequence of calls. Absorbed words are whole 256-bit words:
the Rust sponge takes one as it is or after the single conditional subtraction of
`Fq::from_be_bytes`, the Solidity sponge reduces in `addmod`.
-/

namespace WorldZk.PoseidonSponge

open Bn254Moduli FieldArithmetic

/-- A call of the sponge: `absorb_u256` of a word, `absorb` of the element that
`Fq::from_be_bytes` makes of it, or `squeeze`. -/
inductive SpongeCall
  | absorbU256 (value : Fin WORD)
  | absorbFq (value : Fin WORD)
  | squeeze
deriving DecidableEq

/-- One call of the Rust sponge, with the output of a squeeze. -/
def rustStep (s : Sponge) : SpongeCall → Option ℕ × Sponge
  | .absorbU256 value => (none, absorb rustOps s value)
  | .absorbFq value => (none, absorb rustOps s (fieldFromWord value FQ_MOD))
  | .squeeze => (some (squeeze rustOps s).1, (squeeze rustOps s).2)

/-- One call of the Solidity sponge; both ways of absorbing are its `absorb`. -/
def solStep (s : Sponge) : SpongeCall → Option ℕ × Sponge
  | .absorbU256 value => (none, absorb solOps s value)
  | .absorbFq value => (none, absorb solOps s value)
  | .squeeze => (some (squeeze solOps s).1, (squeeze solOps s).2)

/-- The outputs of a sequence of calls, and the state it ends in. -/
def runCalls (step : Sponge → SpongeCall → Option ℕ × Sponge) :
    List SpongeCall → Sponge → List ℕ × Sponge
  | [], s => ([], s)
  | call :: calls, s =>
    let t := step s call
    let rest := runCalls step calls t.2
    (t.1.toList ++ rest.1, rest.2)

/-- The same state modulo the base field, at the same rate position. -/
structure Congruent (s t : Sponge) : Prop where
  s0 : s.s0 ≡ t.s0 [MOD FQ_MOD]
  s1 : s.s1 ≡ t.s1 [MOD FQ_MOD]
  s2 : s.s2 ≡ t.s2 [MOD FQ_MOD]
  absorbing : s.absorbing = t.absorbing

theorem Congruent.refl (s : Sponge) : Congruent s s := ⟨rfl, rfl, rfl, rfl⟩

private theorem modEq_iff_cast {a b : ℕ} : a ≡ b [MOD FQ_MOD] ↔ (a : ZMod FQ_MOD) = b :=
  (ZMod.natCast_eq_natCast_iff a b FQ_MOD).symm

theorem permute_agree {s0 s1 s2 t0 t1 t2 : ℕ} (hs0 : s0 < WORD) (hs1 : s1 < WORD) (hs2 : s2 < WORD)
    (ht0 : t0 < WORD) (ht1 : t1 < WORD) (ht2 : t2 < WORD) (h0 : s0 ≡ t0 [MOD FQ_MOD])
    (h1 : s1 ≡ t1 [MOD FQ_MOD]) (h2 : s2 ≡ t2 [MOD FQ_MOD]) :
    permuted rustOps s0 s1 s2 = permuted solOps t0 t1 t2 := by
  have hr := cast_permute lawful_rustOps hs0 hs1 hs2
  have ht := cast_permute lawful_solOps ht0 ht1 ht2
  simp only at hr ht
  rw [modEq_iff_cast] at h0 h1 h2
  rw [h0, h1, h2, ← ht] at hr
  obtain ⟨hc0, hc12⟩ := Prod.mk.inj hr
  obtain ⟨hc1, hc2⟩ := Prod.mk.inj hc12
  obtain ⟨hr0, hr1, hr2⟩ := permute_lt lawful_rustOps s0 s1 s2
  obtain ⟨hl0, hl1, hl2⟩ := permute_lt lawful_solOps t0 t1 t2
  have h0' := Nat.ModEq.eq_of_lt_of_lt (modEq_iff_cast.mpr hc0) hr0 hl0
  have h1' := Nat.ModEq.eq_of_lt_of_lt (modEq_iff_cast.mpr hc1) hr1 hl1
  have h2' := Nat.ModEq.eq_of_lt_of_lt (modEq_iff_cast.mpr hc2) hr2 hl2
  rw [permuted, permuted, h0', h1', h2']

section Steps

variable {s t : Sponge} (hs : s.Valid) (ht : t.Valid) (h : Congruent s t)

private theorem add_agree {a b v w : ℕ} (ha : a < FQ_MOD) (hb : b < FQ_MOD) (hv : v < WORD)
    (hw : w < WORD) (hab : a ≡ b [MOD FQ_MOD]) (hvw : v ≡ w [MOD FQ_MOD]) :
    rustOps.add a v ≡ solOps.add b w [MOD FQ_MOD] := by
  rw [modEq_iff_cast] at hab hvw ⊢
  rw [lawful_rustOps.cast_add (ha.trans FQ_MOD_lt_word) hv (Or.inl ha),
    lawful_solOps.cast_add (hb.trans FQ_MOD_lt_word) hw (Or.inl hb), hab, hvw]

include hs ht h

theorem absorb_agree {v w : ℕ} (hv : v < WORD) (hw : w < WORD) (hvw : v ≡ w [MOD FQ_MOD]) :
    Congruent (absorb rustOps s v) (absorb solOps t w) := by
  unfold absorb
  rw [← h.absorbing]
  split
  · rename_i h0
    exact ⟨h.s0, add_agree (hs.s1_reduced h0) (ht.s1_reduced (h.absorbing ▸ h0)) hv hw h.s1 hvw, h.s2,
      rfl⟩
  · have hsum := add_agree hs.s2_lt ht.s2_lt hv hw h.s2 hvw
    rw [permute_agree (hs.s0_lt.trans FQ_MOD_lt_word) hs.s1_lt
      (lawful_rustOps.add_lt (hs.s2_lt.trans FQ_MOD_lt_word) hv (Or.inl hs.s2_lt))
      (ht.s0_lt.trans FQ_MOD_lt_word) ht.s1_lt
      (lawful_solOps.add_lt (ht.s2_lt.trans FQ_MOD_lt_word) hw (Or.inl ht.s2_lt)) h.s0 h.s1 hsum]
    exact Congruent.refl _

theorem squeeze_agree : squeeze rustOps s = squeeze solOps t := by
  have hone : 1 < WORD := by decide
  have hs0 := hs.s0_lt.trans FQ_MOD_lt_word
  have ht0 := ht.s0_lt.trans FQ_MOD_lt_word
  have hs2 := hs.s2_lt.trans FQ_MOD_lt_word
  have ht2 := ht.s2_lt.trans FQ_MOD_lt_word
  unfold squeeze
  rw [← h.absorbing]
  split
  · rename_i h0
    have hr := hs.s1_reduced h0
    have hl := ht.s1_reduced (h.absorbing ▸ h0)
    rw [permute_agree hs0 (lawful_rustOps.add_lt hs.s1_lt hone (Or.inl hr)) hs2 ht0
      (lawful_solOps.add_lt ht.s1_lt hone (Or.inl hl)) ht2 h.s0
      (add_agree hr hl hone hone h.s1 rfl) h.s2]
  · rw [permute_agree hs0 hs.s1_lt (lawful_rustOps.add_lt hs2 hone (Or.inl hs.s2_lt)) ht0 ht.s1_lt
      (lawful_solOps.add_lt ht2 hone (Or.inl ht.s2_lt)) h.s0 h.s1
      (add_agree hs.s2_lt ht.s2_lt hone hone h.s2 rfl)]

end Steps

/-- `Fq::from_be_bytes` keeps the residue, although it subtracts the modulus at most once. -/
private theorem fieldFromWord_modEq {v : ℕ} (hv : v < WORD) :
    fieldFromWord v FQ_MOD < WORD ∧ fieldFromWord v FQ_MOD ≡ v [MOD FQ_MOD] := by
  unfold fieldFromWord
  split
  · rename_i hle
    have hmod : v - FQ_MOD + FQ_MOD ≡ v - FQ_MOD [MOD FQ_MOD] := Nat.add_modEq_right
    rw [Nat.sub_add_cancel hle] at hmod
    rw [subNoMod_of_le hv hle]
    exact ⟨(Nat.sub_le _ _).trans_lt hv, hmod.symm⟩
  · exact ⟨hv, rfl⟩

/-- What one call keeps: valid states that are congruent, and equal outputs below the modulus. -/
structure StepAgrees (x y : Option ℕ × Sponge) : Prop where
  valid : x.2.Valid
  valid' : y.2.Valid
  congruent : Congruent x.2 y.2
  output : x.1 = y.1
  output_lt : ∀ out ∈ x.1, out < FQ_MOD

theorem step_agrees {s t : Sponge} (hs : s.Valid) (ht : t.Valid) (h : Congruent s t)
    (call : SpongeCall) : StepAgrees (rustStep s call) (solStep t call) := by
  cases call with
  | absorbU256 value =>
    exact ⟨absorb_valid lawful_rustOps hs value.isLt, absorb_valid lawful_solOps ht value.isLt,
      absorb_agree hs ht h value.isLt value.isLt rfl, rfl, by simp [rustStep]⟩
  | absorbFq value =>
    obtain ⟨hlt, hmod⟩ := fieldFromWord_modEq value.isLt
    exact ⟨absorb_valid lawful_rustOps hs hlt, absorb_valid lawful_solOps ht value.isLt,
      absorb_agree hs ht h hlt value.isLt hmod, rfl, by simp [rustStep]⟩
  | squeeze =>
    have hsqueeze := squeeze_agree hs ht h
    refine ⟨squeeze_valid lawful_rustOps s, squeeze_valid lawful_solOps t, ?_, ?_, ?_⟩
    · simp only [rustStep, solStep, hsqueeze]
      exact Congruent.refl _
    · simp only [rustStep, solStep, hsqueeze]
    · simp only [rustStep, Option.mem_some_iff, forall_eq']
      exact squeeze_lt lawful_rustOps s

private theorem runCalls_agree {s t : Sponge} (hs : s.Valid) (ht : t.Valid) (h : Congruent s t)
    (calls : List SpongeCall) :
    (runCalls rustStep calls s).1 = (runCalls solStep calls t).1 ∧
      (∀ out ∈ (runCalls rustStep calls s).1, out < FQ_MOD) ∧
      Congruent (runCalls rustStep calls s).2 (runCalls solStep calls t).2 := by
  induction calls generalizing s t with
  | nil => exact ⟨rfl, by simp [runCalls], h⟩
  | cons call calls ih =>
    have hstep := step_agrees hs ht h call
    obtain ⟨houts, hlt, hend⟩ := ih hstep.valid hstep.valid' hstep.congruent
    refine ⟨?_, ?_, hend⟩
    · simp only [runCalls]
      rw [hstep.output, houts]
    · intro out hout
      rcases List.mem_append.mp hout with hout | hout
      · exact hstep.output_lt out (Option.mem_toList.mp hout)
      · exact hlt out hout

/-- On every sequence of calls the two sponges return the same outputs, all of them below the
modulus, and come to the same state modulo the base field. -/
theorem sponges_agree (calls : List SpongeCall) :
    (runCalls rustStep calls init).1 = (runCalls solStep calls init).1 ∧
      (∀ out ∈ (runCalls rustStep calls init).1, out < FQ_MOD) ∧
      Congruent (runCalls rustStep calls init).2 (runCalls solStep calls init).2 :=
  runCalls_agree init_valid init_valid (Congruent.refl init) calls

end WorldZk.PoseidonSponge
