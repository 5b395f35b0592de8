import WorldZk.ProofEncoding

/-!
# Decoding what the prover wrote

`try_decode_proof_for_dag` reads the words of `encode_hyrax_proof` back. The decoder passes over
some sections without looking at them and over others twice, so that each section has one lemma
for reading it and one for skipping it.
-/

namespace WorldZk.EncodingRoundTrip

open CheckedRuns ProofTypes ProofDecoding Transcript Bn254Moduli OffsetParsers ZkmlVerifier
open FlatDescription ProofEncoding

/-! ## The decoder with its offset -/

/-- `try_decode_proof_for_dag`. The public inputs are read by a decoder of their own from the
start of the data, and the claims by one that starts where the common part left them. -/
def tryDecodeProofForDag (r : Reader) : Parser DecodedProof := fun offset => do
  let (embedded, _) ← (extractEmbeddedPublicInputs r).run 0
  let ((gkrProof, pubClaimsOffset), offset) ← (decodeProofCommon r).run offset
  let (claims, _) ← (decodePublicValueClaims r).run pubClaimsOffset
  let (inputs, offset) ← (readArray r (decodeDagInputLayerProof r)).run offset
  pure (⟨gkrProof, embedded, inputs, claims⟩, offset)

/-! ## What a proof decodes to -/

def podpProof (podp : ProofOfDotProduct) : PODPProof :=
  ⟨podp.commitD.val, podp.commitDDotA.val, podp.zVector.map (·.val), podp.zDelta.val,
    podp.zBeta.val⟩

def proofOfProduct (pop : HyraxProofOfProduct) : ProofOfProduct :=
  ⟨pop.alpha.val, pop.beta.val, pop.delta.val, pop.z1.val, pop.z2.val, pop.z3.val, pop.z4.val,
    pop.z5.val⟩

def committedLayerProof (lp : HyraxLayerProof) : CommittedLayerProof :=
  ⟨⟨lp.proofOfSumcheck.sum.val, lp.proofOfSumcheck.messages.map (·.val),
    podpProof lp.proofOfSumcheck.podp⟩, lp.commitments.map (·.val),
    lp.proofsOfProduct.map proofOfProduct⟩

def publicValueClaim (claim : HyraxClaim) : PublicValueClaim :=
  ⟨claim.value.val, claim.blinding.val, claim.commitment.val⟩

def dagInputLayerProof (ip : HyraxInputProof) : DAGInputLayerProof :=
  ⟨ip.inputCommitment.map (·.val),
    ip.evaluationProofs.map fun ep => podpProof ep.podpEvaluationProof,
    ip.evaluationProofs.map (·.commitmentToEvaluation.val)⟩

/-- The parts of a proof that the verifier works with. -/
def decodedProof (proof : HyraxProof) : DecodedProof where
  gkrProof := ⟨proof.outputClaimCommitments.map (·.val), proof.layerProofs.map committedLayerProof⟩
  embeddedPubInputs := proof.publicInputs.flatMap fun input => (publicInputValues input).map (·.val)
  dagInputProofs := proof.hyraxInputProofs.map dagInputLayerProof
  publicValueClaims := proof.claimsOnPublicValues.map publicValueClaim

/-! ## Reading the words back -/

/-- The reader finds the given words in its data. -/
structure WordReader (r : Reader) (data : List ℕ) : Prop where
  word : ∀ v, Reads 32 data r.readU256 [v] v
  count : ∀ v ≤ MAX_ARRAY_LEN, Reads 32 data r.readUsize [v] v
  advance : ∀ k n, k + n ≤ data.length → (r.advance (32 * n)).run (32 * k) = .ok ((), 32 * (k + n))

theorem tryReader_wordReader {ws : List ℕ} (hws : ∀ w ∈ ws, w < 2 ^ 256)
    (hlen : 32 * ws.length < 2 ^ 64) : WordReader (tryReader (ws.flatMap wordToBeBytes)) ws := by
  have hread : (tryReader (ws.flatMap wordToBeBytes)).readU256 = readWord ws :=
    readU256_flatMap_wordToBeBytes hws
  have hword : ∀ v, Reads 32 ws (tryReader (ws.flatMap wordToBeBytes)).readU256 [v] v := by
    intro v
    rw [hread]
    exact reads_readWord ws v
  refine ⟨hword, ?_, ?_⟩
  · intro v hv
    have hbound : v < 2 ^ 64 := lt_of_le_of_lt hv (by decide)
    have hpure : Reads 32 ws (if v ≤ MAX_ARRAY_LEN then pure v else throw .arrayTooLong : Parser ℕ)
        [] v := by
      rw [if_pos hv]
      exact reads_pure v
    have h := (reads_tryReadUsizeFrom hbound (hword v)).bind
      (f := fun v => if v ≤ MAX_ARRAY_LEN then pure v else throw .arrayTooLong) hpure
    exact h
  · intro k n hk
    change (if 2 ^ 64 ≤ 32 * k + 32 * n then _ else _) = _
    rw [if_neg (by omega), length_flatMap_wordToBeBytes, if_neg (by omega), Nat.mul_add]

section Reading

variable {r : Reader} {data : List ℕ} (hr : WordReader r data)

include hr

theorem reads_readG1 (p : CurvePoint) : Reads 32 data (readG1 r) (pointWords p) p.val :=
  (hr.word p.val.x).bind ((hr.word p.val.y).map (f := fun y => (⟨p.val.x, y⟩ : G1Point)))

theorem reads_readArray {α β : Type} {p : Parser α} {encode : β → List ℕ} {decode : β → α}
    {xs : List β} (hxs : Fits xs) (h : ∀ x ∈ xs, Reads 32 data p (encode x) (decode x)) :
    Reads 32 data (readArray r p) (arrayWords encode xs) (xs.map decode) :=
  (hr.count _ hxs).bind (reads_repeatRead h)

theorem reads_points {ps : List CurvePoint} (hps : Fits ps) :
    Reads 32 data (readArray r (readG1 r)) (arrayWords pointWords ps) (ps.map (·.val)) :=
  reads_readArray hr hps fun p _ => reads_readG1 hr p

theorem reads_scalars {zs : List Scalar} (hzs : Fits zs) :
    Reads 32 data (readArray r r.readU256) (arrayWords scalarWords zs) (zs.map (·.val)) :=
  reads_readArray hr hzs fun z _ => hr.word z.val

theorem reads_skipArray {α : Type} {words : α → List ℕ} {xs : List α} (hxs : Fits xs) (size : ℕ)
    (hsize : ∀ x ∈ xs, (words x).length = size) :
    Reads 32 data (skipArray r (32 * size)) (arrayWords words xs) () := by
  have hlength : (xs.flatMap words).length = xs.length * size := by
    rw [List.length_flatMap, List.sum_eq_card_nsmul _ size]
    · simp
    · intro n hn
      obtain ⟨x, hx, rfl⟩ := List.mem_map.mp hn
      exact hsize x hx
  intro k hk
  have hle : k + (arrayWords words xs).length ≤ data.length := by
    have hprefix := hk.length_le
    rw [List.length_drop] at hprefix
    have hpos : 0 < (arrayWords words xs).length := by simp [arrayWords]
    omega
  rw [arrayWords, List.length_append, List.length_singleton, hlength] at hle
  have hcount : [xs.length] <+: data.drop k := (List.prefix_append _ _).trans hk
  rw [skipArray, StateT.run_bind, hr.count _ hxs k hcount, ok_bind, List.length_singleton,
    show xs.length * (32 * size) = 32 * (xs.length * size) by ring,
    hr.advance (k + 1) (xs.length * size) (by omega), arrayWords, List.length_append,
    List.length_singleton, hlength, Nat.add_assoc]

theorem reads_decodePodp {podp : ProofOfDotProduct} (h : podpFits podp) :
    Reads 32 data (decodePodp r) (podpWords podp) (podpProof podp) := by
  refine (reads_readG1 hr _).bind ((reads_readG1 hr _).bind ?_)
  refine (reads_scalars hr h).bind ((hr.word _).bind ?_)
  exact (hr.word podp.zBeta.val).map (f := fun z => (⟨podp.commitD.val, podp.commitDDotA.val,
    podp.zVector.map (·.val), podp.zDelta.val, z⟩ : PODPProof))

theorem reads_decodePop (pop : HyraxProofOfProduct) :
    Reads 32 data (decodePop r) (popWords pop) (proofOfProduct pop) := by
  refine (reads_readG1 hr _).bind ((reads_readG1 hr _).bind ((reads_readG1 hr _).bind ?_))
  refine (hr.word _).bind ((hr.word _).bind ((hr.word _).bind ((hr.word _).bind ?_)))
  exact (hr.word pop.z5.val).map (f := fun z => (⟨pop.alpha.val, pop.beta.val, pop.delta.val,
    pop.z1.val, pop.z2.val, pop.z3.val, pop.z4.val, z⟩ : ProofOfProduct))

theorem reads_skipAggregation {agg : Option ProofOfClaimAggregation}
    (h : ∀ a ∈ agg, AggregationFits a) :
    Reads 32 data (skipAggregation r) (aggregationWords agg) () := by
  cases agg with
  | none =>
    have hpure : Reads 32 data (pure () : Parser Unit) [] () := reads_pure ()
    exact (hr.count 0 (by decide)).bind hpure
  | some agg =>
    obtain ⟨hcoeffs, hopenings, hequalities⟩ := h agg rfl
    refine (hr.count 1 (by decide)).bind ?_
    refine (reads_skipArray hr hcoeffs 2 fun _ _ => rfl).bind ?_
    refine (reads_skipArray hr hopenings 4 fun _ _ => rfl).bind ?_
    exact reads_skipArray hr hequalities 3 fun _ _ => rfl

theorem reads_decodeCommittedLayerProof {lp : HyraxLayerProof} (h : LayerFits lp) :
    Reads 32 data (decodeCommittedLayerProof r) (layerWords lp) (committedLayerProof lp) := by
  refine (reads_readG1 hr _).bind ((reads_points hr h.messages).bind ?_)
  refine (reads_decodePodp hr h.podp).bind ((reads_points hr h.commitments).bind ?_)
  refine (reads_readArray hr h.pops fun pop _ => reads_decodePop hr pop).bind ?_
  exact (reads_skipAggregation hr h.aggregation).map (f := fun _ => committedLayerProof lp)

theorem reads_decodeDagInputLayerProof {ip : HyraxInputProof} (h : InputFits ip) :
    Reads 32 data (decodeDagInputLayerProof r) (inputWords ip) (dagInputLayerProof ip) := by
  have heval : ∀ ep ∈ ip.evaluationProofs, Reads 32 data (do
      let podp ← decodePodp r
      let comEval ← readG1 r
      pure (podp, comEval) : Parser (PODPProof × G1Point)) (evaluationWords ep)
      (podpProof ep.podpEvaluationProof, ep.commitmentToEvaluation.val) := by
    intro ep hep
    refine (reads_decodePodp hr (h.podps ep hep)).bind ?_
    exact (reads_readG1 hr _).map (f := fun comEval => (podpProof ep.podpEvaluationProof, comEval))
  have hrows := reads_points hr h.rows
  have hevals := reads_readArray hr h.evaluations heval
  have hresult : dagInputLayerProof ip = ⟨ip.inputCommitment.map (·.val),
      (ip.evaluationProofs.map fun ep => (podpProof ep.podpEvaluationProof,
        ep.commitmentToEvaluation.val)).map Prod.fst,
      (ip.evaluationProofs.map fun ep => (podpProof ep.podpEvaluationProof,
        ep.commitmentToEvaluation.val)).map Prod.snd⟩ := by
    rw [List.map_map, List.map_map]
    rfl
  rw [hresult]
  exact hrows.bind (hevals.map (f := fun evals => (⟨ip.inputCommitment.map (·.val),
    evals.map Prod.fst, evals.map Prod.snd⟩ : DAGInputLayerProof)))

theorem reads_decodePublicValueClaims {claims : List HyraxClaim} (hclaims : Fits claims)
    (hpoints : ∀ claim ∈ claims, Fits claim.point) :
    Reads 32 data (decodePublicValueClaims r) (arrayWords claimWords claims)
      (claims.map publicValueClaim) := by
  refine reads_readArray hr hclaims fun claim hclaim => ?_
  refine (hr.word _).bind ((hr.word _).bind ((reads_readG1 hr _).bind ?_))
  exact (reads_skipArray hr (hpoints claim hclaim) 1 fun _ _ => rfl).map
    (f := fun _ => publicValueClaim claim)

theorem reads_advance (ws : List ℕ) (hws : ws ≠ []) :
    Reads 32 data (r.advance (32 * ws.length)) ws () := by
  intro k hk
  have hprefix := hk.length_le
  have hpos := List.length_pos_iff.mpr hws
  rw [List.length_drop] at hprefix
  exact hr.advance k ws.length (by omega)

theorem reads_skipClaims {claims : List HyraxClaim} (hclaims : Fits claims)
    (hpoints : ∀ claim ∈ claims, Fits claim.point) :
    Reads 32 data (readArray r (skipClaim r)) (arrayWords claimWords claims)
      (claims.map fun _ => ()) := by
  refine reads_readArray hr hclaims fun claim hclaim => ?_
  refine (reads_advance hr (scalarWords claim.value) (List.cons_ne_nil _ _)).bind ?_
  refine (reads_advance hr (scalarWords claim.blinding) (List.cons_ne_nil _ _)).bind ?_
  refine (reads_advance hr (pointWords claim.commitment) (List.cons_ne_nil _ _)).bind ?_
  exact reads_skipArray hr (hpoints claim hclaim) 1 fun _ _ => rfl

theorem reads_skipPublicInputs {inputs : List (Option Mle)}
    (hvalues : ∀ input ∈ inputs, Fits (publicInputValues input)) :
    Reads 32 data (repeatRead (skipArray r 32) inputs.length)
      (inputs.flatMap fun input => arrayWords scalarWords (publicInputValues input))
      (inputs.map fun _ => ()) :=
  reads_repeatRead fun input hinput =>
    reads_skipArray hr (hvalues input hinput) 1 fun _ _ => rfl

theorem reads_extractEmbeddedPublicInputs (hash : ℕ) {inputs : List (Option Mle)}
    (hinputs : Fits inputs) (hvalues : ∀ input ∈ inputs, Fits (publicInputValues input)) :
    Reads 32 data (extractEmbeddedPublicInputs r)
      ([hash] ++ arrayWords (fun input => arrayWords scalarWords (publicInputValues input)) inputs)
      (inputs.flatMap fun input => (publicInputValues input).map (·.val)) := by
  have hread : Reads 32 data (repeatRead (readArray r r.readU256) inputs.length)
      (inputs.flatMap fun input => arrayWords scalarWords (publicInputValues input))
      (inputs.map fun input => (publicInputValues input).map (·.val)) :=
    reads_repeatRead fun input hinput => reads_scalars hr (hvalues input hinput)
  have htwice := (reads_skipPublicInputs hr hvalues).twice (hread.map (f := List.flatten))
  rw [← List.flatMap_def] at htwice
  refine (reads_advance hr [hash] (List.cons_ne_nil _ _)).bind ?_
  exact (hr.count _ hinputs).bind htwice

end Reading

/-! ## The whole proof -/

/-- `decode_proof_common` before the claims on public values. -/
private def decodeBeforeClaims (r : Reader) : Parser GKRProof := do
  r.advance 32
  let _ ← readArray r (skipArray r 32)
  let outputs ← readArray r (readG1 r)
  let layers ← readArray r (decodeCommittedLayerProof r)
  let _ ← readArray r (skipClaim r)
  pure ⟨outputs, layers⟩

private theorem decodeProofCommon_eq (r : Reader) :
    decodeProofCommon r = (do
      let gkrProof ← decodeBeforeClaims r
      let pubClaimsOffset ← get
      let _ ← readArray r (skipClaim r)
      pure (gkrProof, pubClaimsOffset)) := by
  simp only [decodeProofCommon, decodeBeforeClaims, bind_assoc, pure_bind]

section Proofs

variable {proof : HyraxProof} (h : CountsFit proof)

include h

private theorem reads_decodeBeforeClaims {r : Reader} {data : List ℕ} (hr : WordReader r data)
    (hash : ℕ) :
    Reads 32 data (decodeBeforeClaims r) ([hash] ++ commonWords proof)
      (decodedProof proof).gkrProof := by
  refine (reads_advance hr [hash] (List.cons_ne_nil _ _)).bind ?_
  refine (reads_readArray hr h.publicInputs fun input hinput =>
    reads_skipArray hr (h.evaluations input hinput) 1 fun _ _ => rfl).bind ?_
  refine (reads_points hr h.outputs).bind ?_
  refine (reads_readArray hr h.layerProofs fun lp hlp =>
    reads_decodeCommittedLayerProof hr (h.layers lp hlp)).bind ?_
  exact (reads_skipClaims hr h.fiatShamirClaims fun claim hclaim =>
    h.points claim (List.mem_append_left _ hclaim)).map
      (f := fun _ => (decodedProof proof).gkrProof)

theorem tryDecodeProofForDag_of_wordReader {r : Reader} {hash : ℕ}
    (hr : WordReader r ([hash] ++ proofWords proof)) :
    (tryDecodeProofForDag r).run 0 =
      .ok (decodedProof proof, 32 * ([hash] ++ proofWords proof).length) := by
  have hclaimsFit : ∀ claim ∈ proof.claimsOnPublicValues, Fits claim.point := fun claim hclaim =>
    h.points claim (List.mem_append_right _ hclaim)
  obtain ⟨common, hcommon⟩ : ∃ common, common = [hash] ++ commonWords proof := ⟨_, rfl⟩
  obtain ⟨claims, hclaims⟩ : ∃ claims, claims = arrayWords claimWords proof.claimsOnPublicValues :=
    ⟨_, rfl⟩
  obtain ⟨inputs, hinputs⟩ : ∃ inputs, inputs = arrayWords inputWords proof.hyraxInputProofs :=
    ⟨_, rfl⟩
  have hdata : [hash] ++ proofWords proof = common ++ (claims ++ inputs) := by
    rw [hcommon, hclaims, hinputs, proofWords, List.append_assoc]
  rw [hdata] at hr ⊢
  -- the five reads, each at the word where its section starts
  have hembedded := reads_extractEmbeddedPublicInputs hr hash h.publicInputs h.evaluations 0 (by
    rw [List.drop_zero, hcommon, commonWords, List.append_assoc, List.append_assoc,
      ← List.append_assoc]
    exact List.prefix_append _ _)
  have hbefore := reads_decodeBeforeClaims h hr hash 0 (by
    rw [List.drop_zero, ← hcommon]
    exact List.prefix_append _ _)
  have hskipped := reads_skipClaims hr h.publicClaims hclaimsFit common.length (by
    rw [List.drop_left, hclaims]
    exact List.prefix_append _ _)
  have hread := reads_decodePublicValueClaims hr h.publicClaims hclaimsFit common.length (by
    rw [List.drop_left, hclaims]
    exact List.prefix_append _ _)
  have hproofs := reads_readArray hr h.inputProofs (fun ip hip =>
    reads_decodeDagInputLayerProof hr (h.inputs ip hip)) (common.length + claims.length) (by
    rw [← List.drop_drop, List.drop_left, List.drop_left, hinputs])
  rw [Nat.mul_zero, Nat.zero_add] at hembedded hbefore
  rw [← hcommon] at hbefore
  rw [← hclaims] at hskipped hread
  have hcommonRun : (decodeProofCommon r).run 0 =
      .ok (((decodedProof proof).gkrProof, 32 * common.length),
        32 * (common.length + claims.length)) := by
    rw [decodeProofCommon_eq, StateT.run_bind, hbefore, ok_bind, StateT.run_bind, StateT.run_get,
      pure_bind, StateT.run_bind, hskipped]
    rfl
  change (do
    let (embedded, _) ← (extractEmbeddedPublicInputs r).run 0
    let ((gkrProof, pubClaimsOffset), offset) ← (decodeProofCommon r).run 0
    let (claims, _) ← (decodePublicValueClaims r).run pubClaimsOffset
    let (inputs, offset) ← (readArray r (decodeDagInputLayerProof r)).run offset
    pure ((⟨gkrProof, embedded, inputs, claims⟩ : DecodedProof), offset)) = _
  rw [hembedded, hcommonRun]
  simp only [ok_bind, hread, hproofs]
  rw [← hinputs, List.length_append, List.length_append, Nat.add_assoc]
  rfl

end Proofs

/-! ## The length of a proof -/

section Lengths

theorem length_arrayWords_le {α : Type} (words : α → List ℕ) (bound : ℕ) {xs : List α}
    (hxs : Fits xs) (h : ∀ x ∈ xs, (words x).length ≤ bound) :
    (arrayWords words xs).length ≤ 1 + MAX_ARRAY_LEN * bound := by
  have hsum : (xs.map fun x => (words x).length).sum ≤ xs.length * bound := by
    have hle := List.sum_le_card_nsmul (xs.map fun x => (words x).length) bound (by simpa using h)
    simpa using hle
  rw [arrayWords, List.length_append, List.length_singleton, List.length_flatMap]
  exact Nat.add_le_add_left (hsum.trans (Nat.mul_le_mul_right bound hxs)) 1

theorem length_podpWords_le {podp : ProofOfDotProduct} (h : podpFits podp) :
    (podpWords podp).length ≤ 100007 := by
  have hz := length_arrayWords_le scalarWords 1 h fun _ _ => le_rfl
  simp only [podpWords, pointWords, scalarWords, List.length_append, List.length_cons,
    List.length_nil, MAX_ARRAY_LEN] at hz ⊢
  omega

theorem length_layerWords_le {lp : HyraxLayerProof} (h : LayerFits lp) :
    (layerWords lp).length ≤ 2500016 := by
  have hmessages := length_arrayWords_le pointWords 2 h.messages
    fun _ _ => le_rfl
  have hcommitments := length_arrayWords_le pointWords 2 h.commitments
    fun _ _ => le_rfl
  have hpops := length_arrayWords_le popWords 11 h.pops fun _ _ => le_rfl
  have hpodp := length_podpWords_le h.podp
  have hagg : (aggregationWords lp.maybeProofOfClaimAgg).length ≤ 900004 := by
    cases hcase : lp.maybeProofOfClaimAgg with
    | none => exact Nat.le_add_left 1 900003
    | some agg =>
      obtain ⟨hcoeffs, hopenings, hequalities⟩ := h.aggregation agg hcase
      have hfirst := length_arrayWords_le pointWords 2 hcoeffs
        fun _ _ => le_rfl
      have hsecond := length_arrayWords_le openingWords 4 hopenings
        fun _ _ => le_rfl
      have hthird := length_arrayWords_le equalityWords 3 hequalities
        fun _ _ => le_rfl
      simp only [aggregationWords, List.length_append, List.length_singleton, MAX_ARRAY_LEN]
        at hfirst hsecond hthird ⊢
      omega
  simp only [layerWords, List.length_append, MAX_ARRAY_LEN] at hmessages hcommitments hpops ⊢
  have hsum : (pointWords lp.proofOfSumcheck.sum).length = 2 := rfl
  omega

theorem length_claimWords_le {claim : HyraxClaim} (h : Fits claim.point) :
    (claimWords claim).length ≤ 100005 := by
  have hpoint := length_arrayWords_le scalarWords 1 h fun _ _ => le_rfl
  simp only [claimWords, pointWords, scalarWords, List.length_append, List.length_cons,
    List.length_nil, MAX_ARRAY_LEN] at hpoint ⊢
  omega

theorem length_inputWords_le {ip : HyraxInputProof} (h : InputFits ip) :
    (inputWords ip).length ≤ 10001100002 := by
  have hrows := length_arrayWords_le pointWords 2 h.rows fun _ _ => le_rfl
  have hevals := length_arrayWords_le evaluationWords 100009 h.evaluations
    fun ep hep => by
      have hpodp := length_podpWords_le (h.podps ep hep)
      have hpoint : (pointWords ep.commitmentToEvaluation).length = 2 := rfl
      rw [evaluationWords, List.length_append]
      omega
  simp only [inputWords, List.length_append, MAX_ARRAY_LEN] at hrows hevals ⊢
  omega

theorem length_proofWords_lt {proof : HyraxProof} (h : CountsFit proof) :
    (proofWords proof).length < 2 ^ 58 := by
  have hinputs := length_arrayWords_le _ 100001 h.publicInputs fun input hinput =>
    length_arrayWords_le scalarWords 1 (h.evaluations input hinput) fun _ _ => le_rfl
  have houtputs := length_arrayWords_le pointWords 2 h.outputs
    fun _ _ => le_rfl
  have hlayers := length_arrayWords_le layerWords _ h.layerProofs fun lp hlp =>
    length_layerWords_le (h.layers lp hlp)
  have hfiat := length_arrayWords_le claimWords _ h.fiatShamirClaims fun claim hclaim =>
    length_claimWords_le (h.points claim (List.mem_append_left _ hclaim))
  have hclaims := length_arrayWords_le claimWords _ h.publicClaims fun claim hclaim =>
    length_claimWords_le (h.points claim (List.mem_append_right _ hclaim))
  have hproofs := length_arrayWords_le inputWords _ h.inputProofs fun ip hip =>
    length_inputWords_le (h.inputs ip hip)
  simp only [proofWords, commonWords, List.length_append, MAX_ARRAY_LEN]
    at hinputs houtputs hlayers hfiat hclaims hproofs ⊢
  omega

end Lengths

/-- Every proof within the decoder's caps is encoded, and the decoder reads all bytes after the
selector and gives back the circuit hash and every part of the proof. -/
theorem decode_encodeHyraxProof {sqrt : ZMod FQ_MOD → Option (ZMod FQ_MOD)} (hsqrt : IsSqrt sqrt)
    {circuitHash : List UInt8} (hhash : circuitHash.length = 32) {proof : HyraxProof}
    (h : CountsFit proof) :
    ∃ body, encodeHyraxProof sqrt proof circuitHash = .ok (SELECTOR ++ body) ∧
      body.take 32 = circuitHash ∧
      (tryDecodeProofForDag (tryReader body)).run 0 = .ok (decodedProof proof, body.length) := by
  have hlt : beValue circuitHash < 2 ^ 256 := by
    have hvalue := beValue_lt circuitHash
    rw [hhash] at hvalue
    exact hvalue.trans_eq (by norm_num)
  have hwords : ∀ w ∈ [beValue circuitHash] ++ proofWords proof, w < 2 ^ 256 := by
    intro w hw
    rcases List.mem_append.mp hw with hw | hw
    · rw [List.mem_singleton.mp hw]
      exact hlt
    · exact (writes_encodeSections hsqrt h).word_lt w hw
  have hlength : 32 * ([beValue circuitHash] ++ proofWords proof).length < 2 ^ 64 := by
    have hproof := length_proofWords_lt h
    rw [List.length_append, List.length_singleton]
    omega
  have hbody : circuitHash ++ (proofWords proof).flatMap wordToBeBytes =
      ([beValue circuitHash] ++ proofWords proof).flatMap wordToBeBytes := by
    rw [List.flatMap_append, List.flatMap_singleton, wordToBeBytes_beValue hhash]
  refine ⟨circuitHash ++ (proofWords proof).flatMap wordToBeBytes, ?_, ?_, ?_⟩
  · rw [encodeHyraxProof_eq_ok hsqrt h, List.append_assoc]
  · exact List.take_left' hhash
  · rw [hbody, tryDecodeProofForDag_of_wordReader h (tryReader_wordReader hwords hlength),
      length_flatMap_wordToBeBytes]

/-- The square root of a field of order three modulo four. -/
def powSqrt (a : ZMod FQ_MOD) : Option (ZMod FQ_MOD) :=
  let r := a ^ ((FQ_MOD + 1) / 4)
  if r * r = a then some r else none

theorem powSqrt_isSqrt : IsSqrt powSqrt where
  root a r h := by
    simp only [powSqrt, Option.ite_none_right_eq_some, Option.some.injEq] at h
    obtain ⟨hroot, rfl⟩ := h
    exact hroot
  isSome y := by
    have hexp : (FQ_MOD + 1) / 4 + (FQ_MOD + 1) / 4 + ((FQ_MOD + 1) / 4 + (FQ_MOD + 1) / 4) =
        FQ_MOD + 1 := by decide
    have hroot : (y * y) ^ ((FQ_MOD + 1) / 4) * (y * y) ^ ((FQ_MOD + 1) / 4) = y * y := by
      calc (y * y) ^ ((FQ_MOD + 1) / 4) * (y * y) ^ ((FQ_MOD + 1) / 4)
          = y ^ ((FQ_MOD + 1) / 4 + (FQ_MOD + 1) / 4 +
              ((FQ_MOD + 1) / 4 + (FQ_MOD + 1) / 4)) := by
            rw [mul_pow, ← pow_add, ← pow_add]
        _ = y * y := by rw [hexp, pow_succ, ZMod.pow_card]
    rw [powSqrt, if_pos hroot]
    rfl

/-- A proof with one element in each section, and a public input without evaluations. -/
def sampleProof : HyraxProof :=
  let g : CurvePoint := ⟨⟨1, 2⟩, by decide⟩
  let z : Scalar := ⟨5, by decide⟩
  let podp : ProofOfDotProduct := ⟨g, g, [z], z, z⟩
  let agg : ProofOfClaimAggregation := ⟨[g], [⟨z, z, g⟩], [⟨g, z⟩]⟩
  let claim : HyraxClaim := ⟨z, z, g, [z]⟩
  ⟨[none, some ⟨[z], 1, le_rfl⟩], [g], [⟨⟨g, [g], podp⟩, [g], [⟨g, g, g, z, z, z, z, z⟩], some agg⟩],
    [claim], [claim], [⟨[g], [⟨podp, g⟩]⟩]⟩

theorem sampleProof_fits : CountsFit sampleProof := by
  have hnil {α : Type} : Fits ([] : List α) := Nat.zero_le _
  have hone {α : Type} (a : α) : Fits [a] := by simp [Fits, MAX_ARRAY_LEN]
  have htwo {α : Type} (a b : α) : Fits [a, b] := by simp [Fits, MAX_ARRAY_LEN]
  refine ⟨htwo _ _, ?_, hone _, hone _, ?_, hone _, hone _, ?_, hone _, ?_⟩
  · intro input hinput
    simp only [sampleProof, List.mem_cons, List.not_mem_nil, or_false] at hinput
    rcases hinput with rfl | rfl
    · exact hnil
    · exact hone _
  · intro lp hlp
    obtain rfl := List.mem_singleton.mp hlp
    refine ⟨hone _, hone _, hone _, hone _, ?_⟩
    intro agg hagg
    obtain rfl := Option.some.inj hagg
    exact ⟨hone _, hone _, hone _⟩
  · intro claim hclaim
    simp only [sampleProof, List.cons_append, List.nil_append, List.mem_cons, List.not_mem_nil,
      or_false, or_self] at hclaim
    rw [hclaim]
    exact hone _
  · intro ip hip
    obtain rfl := List.mem_singleton.mp hip
    refine ⟨hone _, hone _, ?_⟩
    intro ep hep
    obtain rfl := List.mem_singleton.mp hep
    exact hone _

theorem decode_sampleProof :
    ∃ body, encodeHyraxProof powSqrt sampleProof (List.replicate 32 7) = .ok (SELECTOR ++ body) ∧
      body.take 32 = List.replicate 32 7 ∧
      (tryDecodeProofForDag (tryReader body)).run 0 =
        .ok (decodedProof sampleProof, body.length) :=
  decode_encodeHyraxProof powSqrt_isSqrt rfl sampleProof_fits

end WorldZk.EncodingRoundTrip
