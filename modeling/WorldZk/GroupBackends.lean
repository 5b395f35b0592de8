import WorldZk.ClaimBinding
import WorldZk.PedersenCommitments
import Mathlib.Algebra.Module.ZMod

/-!
# Backends that compute in a group of prime order

The protocols of the verifier are about a group of prime order, of which the code sees encoded
elements and scalars as words. A backend computes in such a group when its curve operations are
those of the group and its scalar operations those modulo the order. The checks of the two sigma
protocols then are equations between commitments. The native backend is one of these.
-/

namespace WorldZk.GroupBackends

open CheckedRuns Bn254Moduli FieldArithmetic PoseidonSponge ProofTypes VerifierBackend
open CommittedSumcheck TensorProducts PedersenCommitments

/-- The backend adds and multiplies scalars modulo `r`. A factor may be any word. -/
structure ComputesModulo (b : Backend) (r : ℕ) : Prop where
  pos : 0 < r
  add : ∀ x < r, ∀ y < r, b.add x y = (x + y) % r
  mul : ∀ x y, b.mul x y = x * y % r

/-- The backend computes in the group `G`, whose elements it sees through `encode`, with scalars
modulo `r`. A scalar may be any word where it multiplies. -/
structure ComputesIn (b : Backend) (r : ℕ) {G : Type*} [AddCommGroup G] (encode : G → G1Point) :
    Prop extends ComputesModulo b r where
  lt_word : r < WORD
  injective : Function.Injective encode
  zero : encode 0 = G1Point.INFINITY
  ecAdd : ∀ P Q, b.ecAdd (encode P) (encode Q) = .ok (encode (P + Q))
  ecMul : ∀ P, ∀ s < WORD, b.ecMul (encode P) s = .ok (encode (s • P))
  sub : ∀ x < r, ∀ y < r, b.sub x y = .ok ((x + (r - y)) % r)
  neg : ∀ x < r, b.neg x = .ok ((r - x) % r)
  inv : ∀ x < r, x ≠ 0 → ∃ y < r, b.inv x = .ok y ∧ (y : ZMod r) = (x : ZMod r)⁻¹
  challenge_lt : ∀ s, (challenge b s).1 < r

/-- The words as scalars. -/
def scalars (r : ℕ) (ws : List ℕ) : List (ZMod r) := ws.map (↑)

@[simp] theorem length_scalars (r : ℕ) (ws : List ℕ) : (scalars r ws).length = ws.length :=
  List.length_map _

@[simp] theorem scalars_nil (r : ℕ) : scalars r [] = [] := rfl

@[simp] theorem scalars_cons (r w : ℕ) (ws : List ℕ) :
    scalars r (w :: ws) = (w : ZMod r) :: scalars r ws := rfl

/-- All entries are 256-bit words. -/
def Words (ws : List ℕ) : Prop := ∀ w ∈ ws, w < WORD

section Operations

variable {b : Backend} {r : ℕ}

section Modulo

variable (hb : ComputesModulo b r)

include hb

theorem ComputesModulo.mul_lt (x y : ℕ) : b.mul x y < r := by
  rw [hb.mul]
  exact Nat.mod_lt _ hb.pos

theorem ComputesModulo.cast_mul (x y : ℕ) : ((b.mul x y : ℕ) : ZMod r) = x * y := by
  rw [hb.mul, ZMod.natCast_mod, Nat.cast_mul]

theorem ComputesModulo.add_lt {x y : ℕ} (hx : x < r) (hy : y < r) : b.add x y < r := by
  rw [hb.add x hx y hy]
  exact Nat.mod_lt _ hb.pos

theorem ComputesModulo.cast_add {x y : ℕ} (hx : x < r) (hy : y < r) :
    ((b.add x y : ℕ) : ZMod r) = x + y := by
  rw [hb.add x hx y hy, ZMod.natCast_mod, Nat.cast_add]

/-- The inner product of words of one length, as a word below the order. -/
theorem ComputesModulo.innerProduct_eq {as bs : List ℕ} (hlen : as.length = bs.length) :
    ∃ v < r, innerProduct b as bs = .ok v ∧ (v : ZMod r) = dot (scalars r as) (scalars r bs) := by
  have hfold : ∀ (as bs : List ℕ), ∀ acc < r,
      (as.zip bs).foldl (fun acc p => b.add acc (b.mul p.1 p.2)) acc < r ∧
        (((as.zip bs).foldl (fun acc p => b.add acc (b.mul p.1 p.2)) acc : ℕ) : ZMod r) =
          acc + dot (scalars r as) (scalars r bs) := by
    intro as
    induction as with
    | nil => exact fun bs acc hacc => ⟨hacc, by simp⟩
    | cons a as ih =>
      intro bs acc hacc
      cases bs with
      | nil => exact ⟨hacc, by simp [dot]⟩
      | cons b' bs =>
        obtain ⟨hlt, hcast⟩ := ih bs _ (hb.add_lt hacc (hb.mul_lt a b'))
        refine ⟨hlt, ?_⟩
        rw [List.zip_cons_cons, List.foldl_cons, hcast, hb.cast_add hacc (hb.mul_lt a b'),
          hb.cast_mul, scalars_cons, scalars_cons, dot_cons, add_assoc]
  obtain ⟨hlt, hcast⟩ := hfold as bs 0 hb.pos
  refine ⟨_, hlt, ?_, by rw [hcast, Nat.cast_zero, zero_add]⟩
  simp only [innerProduct, beq_iff_eq.mpr hlen, require_true, ok_bind]
  rfl

end Modulo

section Group

variable {G : Type*} [AddCommGroup G] {encode : G → G1Point} (hb : ComputesIn b r encode)

include hb

theorem ComputesIn.sub_eq {x y : ℕ} (hx : x < r) (hy : y < r) :
    ∃ z < r, b.sub x y = .ok z ∧ (z : ZMod r) = x - y := by
  refine ⟨_, Nat.mod_lt _ hb.pos, hb.sub x hx y hy, ?_⟩
  rw [ZMod.natCast_mod, Nat.cast_add, Nat.cast_sub hy.le, ZMod.natCast_self]
  ring

theorem ComputesIn.neg_eq {x : ℕ} (hx : x < r) :
    ∃ z < r, b.neg x = .ok z ∧ (z : ZMod r) = -x := by
  refine ⟨_, Nat.mod_lt _ hb.pos, hb.neg x hx, ?_⟩
  rw [ZMod.natCast_mod, Nat.cast_sub hx.le, ZMod.natCast_self, zero_sub]

theorem ComputesIn.mem_challenges_lt {n : ℕ} {s : Sponge} {c : ℕ}
    (hc : c ∈ (challenges b n s).1) : c < r :=
  forall_mem_challenges (P := (· < r)) b hb.challenge_lt n s c hc

end Group

end Operations

section Commitments

variable {b : Backend} {r : ℕ} [Fact r.Prime] {G : Type*} [AddCommGroup G] [Module (ZMod r) G]
  {encode : G → G1Point} (hb : ComputesIn b r encode)

include hb

theorem ComputesIn.ecMul_cast (P : G) {s : ℕ} (hs : s < WORD) :
    b.ecMul (encode P) s = .ok (encode ((s : ZMod r) • P)) := by
  rw [hb.ecMul P s hs, Nat.cast_smul_eq_nsmul]

/-- A sum of multiples, as the verifier computes it. -/
theorem ComputesIn.multiScalarMul_eq {gs : List G} {ws : List ℕ} (hlen : gs.length = ws.length)
    (hws : Words ws) :
    multiScalarMul b (gs.map encode) ws = .ok (encode (combine gs (scalars r ws))) := by
  have hfold : ∀ (gs : List G) (ws : List ℕ), Words ws → ∀ acc : G,
      ((gs.map encode).zip ws).foldlM (fun acc ps => do b.ecAdd acc (← b.ecMul ps.1 ps.2))
        (encode acc) = .ok (encode (acc + combine gs (scalars r ws))) := by
    intro gs
    induction gs with
    | nil => exact fun ws _ acc => by simp [combine]; rfl
    | cons g gs ih =>
      intro ws hws acc
      cases ws with
      | nil => simp; rfl
      | cons w ws =>
        have hrest := ih ws (fun v hv => hws v (List.mem_cons_of_mem _ hv))
          (acc + (w : ZMod r) • g)
        rw [List.map_cons, List.zip_cons_cons, List.foldlM_cons,
          hb.ecMul_cast g (hws w List.mem_cons_self), ok_bind, hb.ecAdd, ok_bind, hrest,
          scalars_cons, combine_cons, add_assoc]
  have hlength : ((gs.map encode).length == ws.length) = true := by
    rw [List.length_map, beq_iff_eq, hlen]
  simp only [multiScalarMul, hlength, require_true, ok_bind]
  cases gs with
  | nil =>
    change Except.ok G1Point.INFINITY = _
    rw [← hb.zero]
    simp [combine]
  | cons g gs =>
    obtain ⟨w, ws, rfl⟩ := List.exists_cons_of_length_eq_add_one hlen.symm
    rw [List.map_cons, List.zip_cons_cons]
    simp only [hb.ecMul_cast g (hws w List.mem_cons_self), ok_bind]
    rw [hfold gs ws (fun v hv => hws v (List.mem_cons_of_mem _ hv)), scalars_cons, combine_cons]

theorem ComputesIn.podpLhs_eq (X D : G) {c : ℕ} (hc : c < WORD) :
    podpLhs b (encode X) c (encode D) = .ok (encode ((c : ZMod r) • X + D)) := by
  rw [podpLhs, hb.ecMul_cast X hc, ok_bind, hb.ecAdd]

theorem ComputesIn.podpRhs_eq {gs : List G} {g h : G} (podp : PODPProof) {as : List ℕ}
    (hlen : podp.zVector.length = as.length) (hgens : podp.zVector.length ≤ gs.length)
    (hz : Words podp.zVector) (hdelta : podp.zDelta < WORD) (hbeta : podp.zBeta < WORD) :
    podpRhs b podp as ⟨gs.map encode, encode g, encode h⟩ =
      .ok (encode (commitVector gs h (scalars r podp.zVector) (podp.zDelta : ZMod r)),
        encode (commit g h (dot (scalars r podp.zVector) (scalars r as))
          (podp.zBeta : ZMod r))) := by
  obtain ⟨v, hv, hinner, hcast⟩ := hb.innerProduct_eq hlen
  have htake : (gs.map encode).take podp.zVector.length =
      (gs.take podp.zVector.length).map encode := List.map_take.symm
  have hmsm : msmWithTruncatedGens b (gs.map encode) podp.zVector =
      .ok (encode (combine gs (scalars r podp.zVector))) := by
    have hle : decide (podp.zVector.length ≤ (gs.map encode).length) = true := by
      rw [List.length_map]
      exact decide_eq_true hgens
    rw [msmWithTruncatedGens, hle, require_true, ok_bind, htake,
      hb.multiScalarMul_eq (by rw [List.length_take]; omega) hz]
    have htrunc := combine_take gs (scalars r podp.zVector)
    rw [length_scalars] at htrunc
    rw [htrunc]
  have hgens' : decide (podp.zVector.length ≤ (gs.map encode).length) = true := by
    rw [List.length_map]
    exact decide_eq_true hgens
  have hlen' : (podp.zVector.length == as.length) = true := beq_iff_eq.mpr hlen
  simp only [podpRhs, hlen', hgens', require_true, ok_bind, hinner, hmsm,
    hb.ecMul_cast h hdelta, hb.ecMul_cast h hbeta, hb.ecMul_cast g (hv.trans hb.lt_word), hb.ecAdd,
    hcast]
  rfl

/-- `verify_podp` accepts when the two equations hold between the group elements. -/
theorem ComputesIn.verifyPodp_iff {gs : List G} {g h X Y D E : G} {as zs : List ℕ}
    {c zDelta zBeta : ℕ} (hc : c < WORD) (hz : Words zs) (hdelta : zDelta < WORD)
    (hbeta : zBeta < WORD) :
    verifyPodp b ⟨encode D, encode E, zs, zDelta, zBeta⟩ c (encode X) (encode Y) as
        ⟨gs.map encode, encode g, encode h⟩ = .ok true ↔
      zs.length = as.length ∧ zs.length ≤ gs.length ∧
        DotProductAccepted gs g h X Y D E (scalars r as) (c : ZMod r) (scalars r zs)
          (zDelta : ZMod r) (zBeta : ZMod r) := by
  rw [verifyPodp_true, hb.podpLhs_eq X D hc, hb.podpLhs_eq Y E hc]
  constructor
  · rintro ⟨rhs, hrhs, hvector, hvalue⟩
    have hlengths : zs.length = as.length ∧ zs.length ≤ gs.length := by
      simp only [podpRhs, bind_eq_ok, require_eq_ok, beq_iff_eq, decide_eq_true_eq,
        List.length_map] at hrhs
      obtain ⟨_, hlen, _, hgens, -⟩ := hrhs
      exact ⟨hlen, hgens⟩
    rw [hb.podpRhs_eq ⟨encode D, encode E, zs, zDelta, zBeta⟩ hlengths.1 hlengths.2 hz
      hdelta hbeta] at hrhs
    obtain rfl := Except.ok.inj hrhs
    exact ⟨hlengths.1, hlengths.2, hb.injective (Except.ok.inj hvector),
      hb.injective (Except.ok.inj hvalue)⟩
  · rintro ⟨hlen, hgens, haccepted⟩
    refine ⟨_, hb.podpRhs_eq ⟨encode D, encode E, zs, zDelta, zBeta⟩ hlen hgens hz hdelta
      hbeta, ?_, ?_⟩
    · rw [haccepted.vector]
    · rw [haccepted.value]

/-- The three equations of a product proof hold between the group elements. -/
theorem ComputesIn.popCheckEquations_iff {g h X Y Z A B D : G} {z₁ z₂ z₃ z₄ z₅ c : ℕ}
    {gens : List G1Point} (hc : c < WORD) (hz : Words [z₁, z₂, z₃, z₄, z₅]) :
    popCheckEquations b ⟨encode A, encode B, encode D, z₁, z₂, z₃, z₄, z₅⟩ (encode X) (encode Y)
        (encode Z) ⟨gens, encode g, encode h⟩ c = .ok true ↔
      ProductAccepted g h X Y Z A B D (c : ZMod r) (z₁ : ZMod r) (z₂ : ZMod r) (z₃ : ZMod r)
        (z₄ : ZMod r) (z₅ : ZMod r) := by
  simp only [Words, List.mem_cons, List.not_mem_nil, or_false, forall_eq_or_imp, forall_eq] at hz
  obtain ⟨hz₁, hz₂, hz₃, hz₄, hz₅⟩ := hz
  simp only [popCheckEquations, hb.ecMul_cast _ hc, hb.ecMul_cast _ hz₁, hb.ecMul_cast _ hz₂,
    hb.ecMul_cast _ hz₃, hb.ecMul_cast _ hz₄, hb.ecMul_cast _ hz₅, ok_bind, hb.ecAdd, ne_eq,
    ite_not]
  constructor
  · intro h
    split at h
    case isFalse => cases h
    case isTrue hleft =>
      split at h
      case isFalse => cases h
      case isTrue hright =>
        rw [pure_eq_ok, decide_eq_true_eq] at h
        exact ⟨(add_comm _ _).trans (hb.injective hleft),
          (add_comm _ _).trans (hb.injective hright), (add_comm _ _).trans (hb.injective h)⟩
  · rintro ⟨hleft, hright, hproduct⟩
    rw [add_comm, commit] at hleft hright hproduct
    rw [hleft, if_pos rfl, hright, if_pos rfl, hproduct, pure_eq_ok, decide_eq_true_eq]

/-! ## Honest proofs -/

/-- The scalars as words below the order. -/
def words (xs : List (ZMod r)) : List ℕ := xs.map ZMod.val

omit hb in
theorem scalars_words (xs : List (ZMod r)) : scalars r (words xs) = xs := by
  rw [scalars, words, List.map_map]
  exact (List.map_congr_left fun x _ => ZMod.natCast_rightInverse x).trans (List.map_id' xs)

omit [Module (ZMod r) G] in
theorem ComputesIn.val_lt (x : ZMod r) : x.val < WORD := (ZMod.val_lt x).trans hb.lt_word

omit [Module (ZMod r) G] in
theorem ComputesIn.words_words (xs : List (ZMod r)) : Words (words xs) := by
  intro w hw
  obtain ⟨x, -, rfl⟩ := List.mem_map.mp hw
  exact hb.val_lt x

/-- The dot-product proof of a prover that knows the vector `xs` with the blindings of both
commitments, and masks them with `ds`, `rd` and `re`. -/
def honestPodp (encode : G → G1Point) (gs : List G) (g h : G) (as : List (ZMod r)) (c : ℕ)
    (xs ds : List (ZMod r)) (rx rd ry re : ZMod r) : PODPProof where
  commitD := encode (commitVector gs h ds rd)
  commitDDotA := encode (commit g h (dot ds as) re)
  zVector := words (blend c 1 xs ds)
  zDelta := (c * rx + rd).val
  zBeta := (c * ry + re).val

theorem ComputesIn.verifyPodp_honest {gs : List G} (g h : G) {as : List ℕ} {c : ℕ} (hc : c < WORD)
    {xs ds : List (ZMod r)} (hlen : xs.length = as.length) (hmask : ds.length = as.length)
    (hgens : as.length ≤ gs.length) (rx rd ry re : ZMod r) :
    verifyPodp b (honestPodp encode gs g h (scalars r as) c xs ds rx rd ry re) c
        (encode (commitVector gs h xs rx)) (encode (commit g h (dot xs (scalars r as)) ry)) as
        ⟨gs.map encode, encode g, encode h⟩ = .ok true := by
  have hlength : (words (blend (c : ZMod r) 1 xs ds)).length = as.length := by
    rw [words, List.length_map, length_blend]
    omega
  refine (hb.verifyPodp_iff hc (hb.words_words _) (hb.val_lt _) (hb.val_lt _)).mpr
    ⟨hlength, hlength.trans_le hgens, ?_⟩
  rw [scalars_words, ZMod.natCast_rightInverse, ZMod.natCast_rightInverse]
  exact .respond (hlen.trans hmask.symm) rx rd ry re

/-- The product proof of a prover that knows the openings, with masks. -/
def honestPop (encode : G → G1Point) (g h : G) (c : ℕ) (x rx y ry rz a ra b rb rd : ZMod r) :
    ProofOfProduct where
  alpha := encode (commit g h a ra)
  beta := encode (commit g h b rb)
  delta := encode (commit (commit g h x rx) h b rd)
  z1 := (c * x + a).val
  z2 := (c * rx + ra).val
  z3 := (c * y + b).val
  z4 := (c * ry + rb).val
  z5 := (c * (rz - rx * y) + rd).val

theorem ComputesIn.popCheckEquations_honest (gens : List G1Point) (g h : G) {c : ℕ}
    (hc : c < WORD) (x rx y ry rz a ra m rb rd : ZMod r) :
    popCheckEquations b (honestPop encode g h c x rx y ry rz a ra m rb rd)
        (encode (commit g h x rx)) (encode (commit g h y ry)) (encode (commit g h (x * y) rz))
        ⟨gens, encode g, encode h⟩ c = .ok true := by
  have hwords := hb.words_words [c * x + a, c * rx + ra, c * y + m, c * ry + rb,
    c * (rz - rx * y) + rd]
  refine (hb.popCheckEquations_iff hc hwords).mpr ?_
  simp only [ZMod.natCast_rightInverse _]
  exact .respond x rx y ry rz a ra m rb rd

end Commitments

/-! ## The native backend -/

section Native

open NativeCurve ZkmlVerifier

/-- The group of the curve is a vector space over the scalar field. -/
instance : Module (ZMod FR_MOD) G1 := AddCommGroup.zmodModule FR_MOD_nsmul

/-- The Rust verifier computes in the group of the curve. -/
theorem zkml_computesIn : ComputesIn zkmlBackend FR_MOD NativeCurve.encode where
  pos := FR_MOD_prime.pos
  lt_word := FR_MOD_lt_word
  injective := encode_injective
  zero := encode_zero
  ecAdd P Q := congrArg Except.ok (ecAdd_encode P Q)
  ecMul P _ hs := congrArg Except.ok (ecMul_encode P hs)
  add _ hx _ hy := fieldAdd_eq_mod FR_MOD_lt_word hx hy
  mul _ _ := rfl
  sub _ hx _ hy := congrArg Except.ok (fieldSub_eq_mod FR_MOD_lt_word hx hy)
  neg _ hx := congrArg Except.ok (fieldNeg_eq_mod FR_MOD_lt_word hx)
  inv x _ _ :=
    ⟨_, fieldInv_lt FR_MOD_prime.one_lt x, rfl, cast_fieldInv FR_MOD_lt_word (by decide) x⟩
  challenge_lt := ClaimBinding.challenge_lt

end Native

end WorldZk.GroupBackends
