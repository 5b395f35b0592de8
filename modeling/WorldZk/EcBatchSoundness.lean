import WorldZk.BatchedEquations
import WorldZk.EcBatchCircuits
import WorldZk.GroupBackends

/-!
# Soundness of the batch equations

`Define` of both circuits adds the claimed multiplications up with the powers `r^0, …, r^(M-1)` of
the batch challenge and the claimed additions with the powers `r^M, …, r^(M+A-1)`. Over a group of
prime order a wrong claim satisfies both equations for fewer than `M + A` challenges, and right
claims satisfy them for all.
-/

namespace WorldZk.EcBatchSoundness

open Bn254Moduli ProofTypes EcBatchCircuits PedersenCommitments BatchedEquations GroupBackends

/-! ## The equations at a challenge -/

/-- `rPowers` of both circuits, in a native field of order `r`. -/
def challengePowers (r batchChallenge n : ℕ) : List ℕ :=
  (List.range n).map fun i => batchChallenge ^ i % r

/-- The two batch equations of `Define`. -/
structure BatchEquations (gnark : Gnark) (r batchChallenge : ℕ) (ops : ECOperations) : Prop where
  muls : 0 < ops.muls.length →
    let powers := (challengePowers r batchChallenge (ops.muls.length + ops.adds.length)).take
      ops.muls.length
    gnark.multiScalarMul (ops.muls.map (·.result)) powers =
      gnark.multiScalarMul (ops.muls.map (·.base))
        (powers.zipWith (fun p s => p * s % r) (ops.muls.map (·.scalar)))
  adds : 0 < ops.adds.length →
    let powers := (challengePowers r batchChallenge (ops.muls.length + ops.adds.length)).drop
      ops.muls.length
    gnark.multiScalarMul (ops.adds.map (·.result)) powers =
      gnark.addUnified (gnark.multiScalarMul (ops.adds.map (·.p1)) powers)
        (gnark.multiScalarMul (ops.adds.map (·.p2)) powers)

/-! ## Claims about group elements -/

/-- The gadgets compute in a group whose elements they see through `encode`. -/
structure GadgetsComputeIn (gnark : Gnark) {G : Type*} [AddCommGroup G] (encode : G → G1Point) :
    Prop where
  injective : Function.Injective encode
  multiScalarMul : ∀ terms : List (G × ℕ),
    gnark.multiScalarMul (terms.map fun t => encode t.1) (terms.map Prod.snd) =
      encode (terms.map fun t => t.2 • t.1).sum
  addUnified : ∀ P Q, gnark.addUnified (encode P) (encode Q) = encode (P + Q)

structure MulClaim (G : Type*) where
  base : G
  scalar : ℕ
  result : G

structure AddClaim (G : Type*) where
  p1 : G
  p2 : G
  result : G

/-- The secret inputs for claims about group elements. -/
def claimedOps {G : Type*} (encode : G → G1Point) (muls : List (MulClaim G))
    (adds : List (AddClaim G)) : ECOperations where
  muls := muls.map fun m => ⟨encode m.base, m.scalar, encode m.result⟩
  adds := adds.map fun a => ⟨encode a.p1, encode a.p2, encode a.result⟩

section Claims

variable {G : Type*} [AddCommGroup G]

def MulClaim.error (m : MulClaim G) : G := m.result - m.scalar • m.base

def AddClaim.error (a : AddClaim G) : G := a.result - (a.p1 + a.p2)

/-- Every claimed multiplication and addition is true. -/
def ClaimsTrue (muls : List (MulClaim G)) (adds : List (AddClaim G)) : Prop :=
  (∀ m ∈ muls, m.result = m.scalar • m.base) ∧ ∀ a ∈ adds, a.result = a.p1 + a.p2

end Claims

section Combinations

variable {F : Type} [Field F] {G : Type*} [AddCommGroup G] [Module F G] {α : Type*}

theorem combine_map_add (l : List α) (f g : α → G) (xs : List F) :
    combine (l.map fun a => f a + g a) xs = combine (l.map f) xs + combine (l.map g) xs := by
  induction l generalizing xs with
  | nil => simp [combine]
  | cons a l ih =>
    cases xs with
    | nil => simp
    | cons x xs =>
      rw [List.map_cons, List.map_cons, List.map_cons, combine_cons, combine_cons, combine_cons, ih]
      module

theorem combine_map_sub (l : List α) (f g : α → G) (xs : List F) :
    combine (l.map fun a => f a - g a) xs = combine (l.map f) xs - combine (l.map g) xs := by
  have hadd := combine_map_add l (fun a => f a - g a) g xs
  simp only [sub_add_cancel] at hadd
  exact eq_sub_of_add_eq hadd.symm

theorem combine_map_smul (l : List α) (f : α → G) (k : α → F) (xs : List F) :
    combine (l.map f) (xs.zipWith (· * ·) (l.map k)) = combine (l.map fun a => k a • f a) xs := by
  induction l generalizing xs with
  | nil => simp [combine]
  | cons a l ih =>
    cases xs with
    | nil => simp
    | cons x xs =>
      rw [List.map_cons, List.map_cons, List.map_cons, List.zipWith_cons_cons, combine_cons,
        combine_cons, ih, mul_smul]

end Combinations

/-! ## The equations between group elements -/

section Equations

variable {r : ℕ} [Fact r.Prime] {G : Type*} [AddCommGroup G] [Module (ZMod r) G]
  {encode : G → G1Point} {gnark : Gnark} (hgnark : GadgetsComputeIn gnark encode)

theorem scalars_challengePowers (c : ZMod r) (n : ℕ) :
    scalars r (challengePowers r c.val n) = (List.range n).map fun i => c ^ i := by
  rw [scalars, challengePowers, List.map_map]
  refine List.map_congr_left fun i _ => ?_
  rw [Function.comp_apply, ZMod.natCast_mod, Nat.cast_pow, ZMod.natCast_rightInverse c]

theorem take_challengePowers (c : ZMod r) (m n : ℕ) :
    scalars r ((challengePowers r c.val (m + n)).take m) =
      (List.range m).map fun i => c ^ i := by
  rw [scalars, List.map_take, ← scalars, scalars_challengePowers, ← List.map_take, List.take_range,
    Nat.min_eq_left (Nat.le_add_right m n)]

theorem drop_challengePowers (c : ZMod r) (m n : ℕ) :
    scalars r ((challengePowers r c.val (m + n)).drop m) =
      (List.range n).map fun i => c ^ (m + i) := by
  rw [scalars, List.map_drop, ← scalars, scalars_challengePowers, List.range_add, List.map_append,
    List.drop_append_of_le_length (by simp), List.drop_of_length_le (by simp), List.nil_append,
    List.map_map]
  rfl

include hgnark

theorem multiScalarMul_eq (gs : List G) (ws : List ℕ) (hlen : gs.length = ws.length) :
    gnark.multiScalarMul (gs.map encode) ws = encode (combine gs (scalars r ws)) := by
  have hterms := hgnark.multiScalarMul (gs.zip ws)
  have hpoints : (gs.zip ws).map (fun t => encode t.1) = gs.map encode := by
    nth_rewrite 2 [← List.map_fst_zip hlen.le]
    rw [List.map_map]
    rfl
  have hsum : ((gs.zip ws).map fun t => t.2 • t.1).sum = combine gs (scalars r ws) := by
    clear hterms hpoints
    induction gs generalizing ws with
    | nil => simp [combine]
    | cons g gs ih =>
      obtain ⟨w, ws, rfl⟩ := List.exists_cons_of_length_eq_add_one hlen.symm
      rw [List.zip_cons_cons, List.map_cons, List.sum_cons, ih _ (by simpa using hlen),
        scalars_cons, combine_cons, Nat.cast_smul_eq_nsmul]
  rwa [hpoints, List.map_snd_zip hlen.ge, hsum] at hterms

omit [Fact r.Prime] hgnark in
theorem length_of_scalars {powers : List ℕ} {f : ℕ → ZMod r} {n : ℕ}
    (hpowers : scalars r powers = (List.range n).map f) : powers.length = n := by
  rw [← length_scalars r powers, hpowers, List.length_map, List.length_range]

omit hgnark in
theorem scalars_zipWith_mul (ps ss : List ℕ) :
    scalars r (ps.zipWith (fun p s => p * s % r) ss) =
      (scalars r ps).zipWith (· * ·) (scalars r ss) := by
  induction ps generalizing ss with
  | nil => rfl
  | cons p ps ih =>
    cases ss with
    | nil => rfl
    | cons s ss =>
      rw [List.zipWith_cons_cons, scalars_cons, ih, scalars_cons, scalars_cons,
        List.zipWith_cons_cons, ZMod.natCast_mod, Nat.cast_mul]

theorem mulEquation_iff (muls : List (MulClaim G)) {powers : List ℕ} {f : ℕ → ZMod r}
    (hpowers : scalars r powers = (List.range muls.length).map f) :
    gnark.multiScalarMul (muls.map fun m => encode m.result) powers =
        gnark.multiScalarMul (muls.map fun m => encode m.base)
          (powers.zipWith (fun p s => p * s % r) (muls.map (·.scalar))) ↔
      ∑ i ∈ Finset.range muls.length, f i • (muls.map MulClaim.error).getD i 0 = 0 := by
  have hlength := length_of_scalars hpowers
  have hleft := multiScalarMul_eq (r := r) hgnark (muls.map (·.result)) powers
    (by simp [hlength])
  have hright := multiScalarMul_eq (r := r) hgnark (muls.map (·.base))
    (powers.zipWith (fun p s => p * s % r) (muls.map (·.scalar))) (by simp [hlength])
  rw [List.map_map] at hleft hright
  have hscalars : scalars r (muls.map (·.scalar)) = muls.map fun m => (m.scalar : ZMod r) := by
    rw [scalars, List.map_map]
    rfl
  have herror : (fun m : MulClaim G => m.result - (m.scalar : ZMod r) • m.base) =
      MulClaim.error := by
    funext m
    rw [MulClaim.error, Nat.cast_smul_eq_nsmul]
  change gnark.multiScalarMul (muls.map (encode ∘ (·.result))) powers =
    gnark.multiScalarMul (muls.map (encode ∘ (·.base))) _ ↔ _
  rw [hleft, hright, hgnark.injective.eq_iff, scalars_zipWith_mul, hscalars, combine_map_smul,
    ← sub_eq_zero, ← combine_map_sub, herror, hpowers, combine_map_range]

theorem addEquation_iff (adds : List (AddClaim G)) {powers : List ℕ} {f : ℕ → ZMod r}
    (hpowers : scalars r powers = (List.range adds.length).map f) :
    gnark.multiScalarMul (adds.map fun a => encode a.result) powers =
        gnark.addUnified (gnark.multiScalarMul (adds.map fun a => encode a.p1) powers)
          (gnark.multiScalarMul (adds.map fun a => encode a.p2) powers) ↔
      ∑ i ∈ Finset.range adds.length, f i • (adds.map AddClaim.error).getD i 0 = 0 := by
  have hlength := length_of_scalars hpowers
  have hgadget : ∀ part : AddClaim G → G, gnark.multiScalarMul ((adds.map part).map encode) powers =
      encode (combine (adds.map part) (scalars r powers)) := fun part =>
    multiScalarMul_eq hgnark (adds.map part) _ (by rw [List.length_map, hlength])
  have hresult := hgadget (·.result)
  have hp1 := hgadget (·.p1)
  have hp2 := hgadget (·.p2)
  rw [List.map_map] at hresult hp1 hp2
  change gnark.multiScalarMul (adds.map (encode ∘ (·.result))) powers =
    gnark.addUnified (gnark.multiScalarMul (adds.map (encode ∘ (·.p1))) powers)
      (gnark.multiScalarMul (adds.map (encode ∘ (·.p2))) powers) ↔ _
  rw [hresult, hp1, hp2, hgnark.addUnified, hgnark.injective.eq_iff, ← combine_map_add,
    ← sub_eq_zero, ← combine_map_sub, hpowers, ← combine_map_range]
  rfl

/-- The batch equations, as equations between sums of group elements. -/
theorem batchEquations_iff (muls : List (MulClaim G)) (adds : List (AddClaim G)) (c : ZMod r) :
    BatchEquations gnark r c.val (claimedOps encode muls adds) ↔
      ∑ i ∈ Finset.range muls.length, c ^ i • (muls.map MulClaim.error).getD i 0 = 0 ∧
        ∑ j ∈ Finset.range adds.length,
          c ^ (muls.length + j) • (adds.map AddClaim.error).getD j 0 = 0 := by
  have hmuls := mulEquation_iff hgnark muls (take_challengePowers c muls.length adds.length)
  have hadds := addEquation_iff hgnark adds (drop_challengePowers c muls.length adds.length)
  have hmulLength : (claimedOps encode muls adds).muls.length = muls.length := List.length_map _
  have haddLength : (claimedOps encode muls adds).adds.length = adds.length := List.length_map _
  constructor
  · rintro ⟨hmul, hadd⟩
    rw [hmulLength, haddLength] at hmul hadd
    simp only [claimedOps, List.map_map] at hmul hadd
    constructor
    · rcases Nat.eq_zero_or_pos muls.length with hzero | hpos
      · rw [hzero, Finset.range_zero, Finset.sum_empty]
      · exact hmuls.mp (hmul hpos)
    · rcases Nat.eq_zero_or_pos adds.length with hzero | hpos
      · rw [hzero, Finset.range_zero, Finset.sum_empty]
      · exact hadds.mp (hadd hpos)
  · rintro ⟨hmul, hadd⟩
    constructor
    · rw [hmulLength, haddLength]
      simp only [claimedOps, List.map_map]
      exact fun _ => hmuls.mpr hmul
    · rw [hmulLength, haddLength]
      simp only [claimedOps, List.map_map]
      exact fun _ => hadds.mpr hadd

omit [Fact r.Prime] [Module (ZMod r) G] hgnark in
theorem error_getD {α : Type*} (error : α → G) (l : List α) (i : ℕ) (hi : i < l.length) :
    (l.map error).getD i 0 = error l[i] := by
  simp [hi]

omit [Fact r.Prime] [Module (ZMod r) G] hgnark in
theorem exists_error {muls : List (MulClaim G)} {adds : List (AddClaim G)}
    (h : ¬ClaimsTrue muls adds) :
    (∃ i < muls.length, (muls.map MulClaim.error).getD i 0 ≠ 0) ∨
      ∃ j < adds.length, (adds.map AddClaim.error).getD j 0 ≠ 0 := by
  rw [ClaimsTrue, not_and_or] at h
  push Not at h
  rcases h with ⟨m, hm, hne⟩ | ⟨a, ha, hne⟩
  · obtain ⟨i, hi, rfl⟩ := List.getElem_of_mem hm
    refine .inl ⟨i, hi, ?_⟩
    rw [error_getD MulClaim.error muls i hi]
    exact sub_ne_zero.mpr hne
  · obtain ⟨j, hj, rfl⟩ := List.getElem_of_mem ha
    refine .inr ⟨j, hj, ?_⟩
    rw [error_getD AddClaim.error adds j hj]
    exact sub_ne_zero.mpr hne

/-- Batching is sound: when a claimed multiplication or addition is false, fewer challenges than
there are claims satisfy both batch equations, none for a single claim. It is complete: when all
are true, every challenge does. -/
theorem batching_sound (muls : List (MulClaim G)) (adds : List (AddClaim G)) :
    (¬ClaimsTrue muls adds →
      {c : ZMod r | BatchEquations gnark r c.val (claimedOps encode muls adds)}.ncard ≤
          muls.length + adds.length - 1 ∧
        (muls.length + adds.length = 1 →
          ∀ c : ZMod r, ¬BatchEquations gnark r c.val (claimedOps encode muls adds))) ∧
      (ClaimsTrue muls adds →
        ∀ c : ZMod r, BatchEquations gnark r c.val (claimedOps encode muls adds)) := by
  constructor
  · intro hfalse
    have hcard : {c : ZMod r | BatchEquations gnark r c.val (claimedOps encode muls adds)}.ncard ≤
        muls.length + adds.length - 1 := by
      simp only [batchEquations_iff hgnark]
      exact ncard_batches_le _ _ _ _ (exists_error hfalse)
    refine ⟨hcard, fun hone c hc => ?_⟩
    rw [hone, Nat.sub_self, Nat.le_zero, Set.ncard_eq_zero] at hcard
    exact Set.eq_empty_iff_forall_notMem.mp hcard c hc
  · rintro ⟨hmuls, hadds⟩ c
    refine (batchEquations_iff hgnark muls adds c).mpr ⟨?_, ?_⟩
    · refine Finset.sum_eq_zero fun i hi => ?_
      rw [error_getD MulClaim.error muls i (Finset.mem_range.mp hi), MulClaim.error,
        hmuls _ (List.getElem_mem _), sub_self, smul_zero]
    · refine Finset.sum_eq_zero fun j hj => ?_
      rw [error_getD AddClaim.error adds j (Finset.mem_range.mp hj), AddClaim.error,
        hadds _ (List.getElem_mem _), sub_self, smul_zero]

end Equations

/-! ## On the curve -/

section Curve

open NativeCurve

theorem gadgetsComputeIn_of_lawful {gnark : Gnark} (h : gnark.Lawful) :
    GadgetsComputeIn gnark NativeCurve.encode where
  injective := encode_injective
  multiScalarMul := h.multiScalarMul
  addUnified := h.addUnified

/-- Two wrong claims about the generator, which one challenge at most can hide. -/
theorem wrong_claims_batched :
    {c : ZMod FR_MOD | BatchEquations (curveGnark List.sum) FR_MOD c.val
      (claimedOps encode [⟨generator, 2, generator⟩]
        [⟨generator, generator, generator⟩])}.ncard ≤ 1 := by
  have hne : generator ≠ 2 • generator := by
    intro h
    rw [two_nsmul, left_eq_add] at h
    have hzero := congrArg encode h
    rw [encode_generator, encode_zero] at hzero
    cases hzero
  refine ((batching_sound (gadgetsComputeIn_of_lawful (curveGnark_lawful List.sum))
    [⟨generator, 2, generator⟩] [⟨generator, generator, generator⟩]).1 ?_).1
  exact fun htrue => hne (htrue.1 _ List.mem_cons_self)

end Curve

end WorldZk.EcBatchSoundness
