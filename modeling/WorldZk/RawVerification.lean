import WorldZk.FlatDescription
import WorldZk.ParserRelations
import WorldZk.UnwindingCalls

/-!
# Verification of raw bytes

`verify_raw` with the two ways in which it can be left without a return: a vector that is larger
than an allocation may be, which panics, and one that the allocator refuses, which aborts. The
counts of a circuit description are not checked before vectors are made for them, and the
description is decoded outside `catch_unwind`.
-/

namespace WorldZk.RawVerification

open CheckedRuns FlatDescription OffsetParsers ParserRelations ProofDecoding ProofTypes Transcript
open UnwindingCalls VerifierBackend ZkmlVerifier

/-- How a call of the crate is left without a return. All but a refused allocation are panics. -/
inductive Escape
  | capacityOverflow
  | allocationFailed
  | unwrapNone
  | invalidHex
  | coefficientLength
deriving DecidableEq, Repr

/-- An error of the crate, or the one that is made of a caught panic. -/
inductive CallError
  | zkml (cause : ZkmlError)
  | panicked (escape : Escape)
deriving DecidableEq, Repr

/-! ## Requests for memory -/

section Requests

-- Which requests the allocator serves, by their bytes.
variable (allocates : ℕ → Bool)

/-- `Vec::with_capacity`. A capacity above `isize::MAX` bytes panics, and an empty one asks the
allocator for nothing. The model makes these calls where nothing in the code bounds the capacity,
and takes all other vectors as served. -/
def withCapacity {ε : Type} (bytes : ℕ) : Call Escape ε Unit :=
  if 2 ^ 63 ≤ bytes then .escape .capacityOverflow
  else if bytes = 0 ∨ allocates bytes = true then .returning (.ok ())
  else .escape .allocationFailed

/-- The capacity is within `isize::MAX` and is served. -/
def Granted (bytes : ℕ) : Prop := bytes < 2 ^ 63 ∧ (bytes = 0 ∨ allocates bytes = true)

/-- `catch_unwind` around a call: a panic becomes an error, an abort passes through. -/
def catchUnwind {α : Type} (x : Call Escape VerifyError α) : Call Escape CallError α :=
  match x.run with
  | .ok result => .returning ((ZkmlVerifier.catchUnwind result).mapError .zkml)
  | .error .allocationFailed => .escape .allocationFailed
  | .error panic => .returning (.error (.panicked panic))

variable {allocates}

theorem returns_withCapacity {ε : Type} {bytes : ℕ} :
    (withCapacity allocates bytes : Call Escape ε Unit).Returns ↔ Granted allocates bytes := by
  unfold withCapacity Granted
  split
  · next hover => exact ⟨fun h => absurd h (Call.not_returns_escape _), fun h => by omega⟩
  · next hfits =>
    split
    · next hserved => exact ⟨fun _ => ⟨not_le.mp hfits, hserved⟩, fun _ => Call.returns_returning _⟩
    · next hrefused =>
      exact ⟨fun h => absurd h (Call.not_returns_escape _), fun h => absurd h.2 hrefused⟩

theorem refines_withCapacity {ε : Type} (bytes : ℕ) :
    (withCapacity allocates bytes : Call Escape ε Unit).Refines (pure ()) := by
  intro result h
  unfold withCapacity at h
  split at h
  · cases h
  · split at h
    · exact (Except.ok.inj h).symm
    · cases h

theorem returns_catchUnwind {α : Type} {x : Call Escape VerifyError α} :
    (catchUnwind x).Returns ↔ x.run ≠ .error .allocationFailed := by
  unfold catchUnwind
  split
  · next hx => exact ⟨fun _ => by rw [hx]; exact nofun, fun _ => Call.returns_returning _⟩
  · next hx => exact ⟨fun h => absurd h (Call.not_returns_escape _), fun h => absurd hx h⟩
  · next hpanic hx =>
    refine ⟨fun _ => ?_, fun _ => Call.returns_returning _⟩
    rw [hx]
    exact fun h => hpanic (Except.error.inj h)

end Requests

/-! ## The description decoder -/

section Decoder

variable (allocates : ℕ → Bool) (data : List UInt8)

/-- How an element of an array is read. -/
inductive Element
  | word
  | index

def Element.parser : Element → Parser ℕ
  | word => readU256 data
  | index => tryReadUsizeFrom data

/-- The array readers `try_read_*_array`: a vector is made for the count before an element is
read. -/
def tryReadArray {α : Type} (size : ℕ) (p : Parser α) :
    ParserCall Escape DecodeError (List α) := do
  let len ← .ofParser (tryReadUsizeFrom data)
  .ofCall (withCapacity allocates (len * size))
  .ofParser (repeatRead p len)

/-- `try_decode_circuit_description`. -/
def tryDecodeCircuitDescription : ParserCall Escape DecodeError DAGCircuitDescription := do
  let usize := tryReadUsizeFrom data
  let numComputeLayers ← .ofParser usize
  let numInputLayers ← .ofParser usize
  let layerTypes ← tryReadArray allocates data 1 (do pure ((← readU256 data) % 2 ^ 64 % 256))
  let numSumcheckRounds ← tryReadArray allocates data 8 usize
  let atomOffsets ← tryReadArray allocates data 8 usize
  let atomTargetLayers ← tryReadArray allocates data 8 usize
  let atomCommitIdxs ← tryReadArray allocates data 8 usize
  let ptOffsets ← tryReadArray allocates data 8 usize
  let ptData ← tryReadArray allocates data 8 (do pure ((← readU256 data) % 2 ^ 64))
  let inputIsCommitted ← tryReadArray allocates data 1 (do pure ((← readU256 data) != 0))
  let oracleProductOffsets ← tryReadArray allocates data 8 usize
  let oracleResultIdxs ← tryReadArray allocates data 8 usize
  let oracleExprCoeffs ← tryReadArray allocates data 32 (readU256 data)
  pure ⟨numComputeLayers, numInputLayers, layerTypes, numSumcheckRounds, atomOffsets,
    atomTargetLayers, atomCommitIdxs, ptOffsets, ptData, inputIsCommitted, oracleProductOffsets,
    oracleResultIdxs, oracleExprCoeffs⟩

/-- The decoder without its requests for memory. -/
abbrev readDescription : Parser DAGCircuitDescription :=
  decodeCircuitDescription (tryReader data) (tryReadUsizeFrom data) (· % 2 ^ 64)

/-- The arrays of a description in their order: the bytes of an element in memory, and how it is
read. -/
def descriptionArrays : List (ℕ × Element) :=
  [(1, .word), (8, .index), (8, .index), (8, .index), (8, .index), (8, .index), (8, .word),
    (1, .word), (8, .index), (8, .index), (32, .word)]

/-- The bytes that the counts of the arrays ask for, up to the array at which the data ends. -/
def arrayRequests : List (ℕ × Element) → ℕ → List ℕ
  | [], _ => []
  | (size, element) :: arrays, offset =>
    match (tryReadUsizeFrom data).run offset with
    | .error _ => []
    | .ok (len, mid) =>
      len * size ::
        match (repeatRead (element.parser data) len).run mid with
        | .error _ => []
        | .ok (_, next) => arrayRequests arrays next

/-- The bytes that the counts of a description ask for. -/
def descriptionRequests : List ℕ :=
  match (do let _ ← tryReadUsizeFrom data; tryReadUsizeFrom data : Parser ℕ).run 0 with
  | .error _ => []
  | .ok (_, offset) => arrayRequests data descriptionArrays offset

variable {allocates data}

theorem refines_tryReadArray {α : Type} (size : ℕ) (p : Parser α) :
    (tryReadArray allocates data size p).Refines (readFlatArray (tryReadUsizeFrom data) p) :=
  (ParserCall.refines_ofParser _).bind fun _ =>
    ParserCall.refines_ofCall_bind (refines_withCapacity _) (ParserCall.refines_ofParser _)

theorem refines_tryDecodeCircuitDescription :
    (tryDecodeCircuitDescription allocates data).Refines (readDescription data) := by
  rw [readDescription, decodeCircuitDescription_eq]
  refine (ParserCall.refines_ofParser _).bind fun _ => ?_
  refine (ParserCall.refines_ofParser _).bind fun _ => ?_
  refine (refines_tryReadArray _ _).bind fun _ => ?_
  refine (refines_tryReadArray _ _).bind fun _ => ?_
  refine (refines_tryReadArray _ _).bind fun _ => ?_
  refine (refines_tryReadArray _ _).bind fun _ => ?_
  refine (refines_tryReadArray _ _).bind fun _ => ?_
  refine (refines_tryReadArray _ _).bind fun _ => ?_
  refine (refines_tryReadArray _ _).bind fun _ => ?_
  refine (refines_tryReadArray _ _).bind fun _ => ?_
  refine (refines_tryReadArray _ _).bind fun _ => ?_
  refine (refines_tryReadArray _ _).bind fun _ => ?_
  refine (refines_tryReadArray _ _).bind fun _ => ?_
  exact ParserCall.refines_pure _

theorem repeatRead_map {α β : Type} (p : Parser α) (f : α → β) (n : ℕ) :
    repeatRead (do pure (f (← p)) : Parser β) n = (do pure ((← repeatRead p n).map f)) := by
  induction n with
  | zero => rfl
  | succ n ih =>
    simp only [repeatRead, ih, bind_assoc, pure_bind, List.map_cons]

private theorem parser_eq_map_id (bytes : List UInt8) (element : Element) :
    element.parser bytes = (do pure (id (← element.parser bytes))) := (bind_pure _).symm

/-- An array in front of the rest of a decoder: its request comes before those of the rest. -/
theorem returns_tryReadArray_bind {α β : Type} {size : ℕ} {element : Element} {g : ℕ → α}
    {p : Parser α} (hp : p = (do pure (g (← element.parser data))))
    {f : List α → ParserCall Escape DecodeError β} {arrays : List (ℕ × Element)}
    (hf : ∀ xs mid, ((f xs).run mid).Returns ↔
      ∀ bytes ∈ arrayRequests data arrays mid, Granted allocates bytes) (offset : ℕ) :
    ((tryReadArray allocates data size p >>= f).run offset).Returns ↔
      ∀ bytes ∈ arrayRequests data ((size, element) :: arrays) offset,
        Granted allocates bytes := by
  have hassoc : tryReadArray allocates data size p >>= f =
      .ofParser (tryReadUsizeFrom data) >>= fun len =>
        .ofCall (withCapacity allocates (len * size)) >>= fun _ =>
          .ofParser (repeatRead p len) >>= f := by
    simp only [tryReadArray, bind_assoc]
  rw [hassoc, arrayRequests]
  cases hlen : (tryReadUsizeFrom data).run offset with
  | error e => exact ⟨fun _ => nofun, fun _ => ParserCall.returns_ofParser_bind_of_error hlen⟩
  | ok count =>
    obtain ⟨len, mid⟩ := count
    rw [ParserCall.returns_ofParser_bind_of_ok hlen, List.forall_mem_cons,
      ParserCall.returns_ofCall_bind (refines_withCapacity _), returns_withCapacity]
    refine and_congr_right fun _ => ?_
    have hmap : (repeatRead p len).run mid =
        (repeatRead (element.parser data) len).run mid >>= fun x =>
          pure (x.1.map g, x.2) := by
      rw [hp, repeatRead_map]
      rfl
    cases hread : (repeatRead (element.parser data) len).run mid with
    | error e =>
      rw [hread, error_bind] at hmap
      exact ⟨fun _ => nofun, fun _ => ParserCall.returns_ofParser_bind_of_error hmap⟩
    | ok words =>
      rw [hread, ok_bind] at hmap
      rw [ParserCall.returns_ofParser_bind_of_ok hmap]
      exact hf (words.1.map g) words.2

private theorem layerType_eq_map (bytes : List UInt8) :
    (do pure ((← readU256 bytes) % 2 ^ 64 % 256) : Parser ℕ) =
      (do pure ((fun v => v % 2 ^ 64 % 256) (← Element.word.parser bytes))) := rfl

private theorem ptEntry_eq_map (bytes : List UInt8) :
    (do pure ((← readU256 bytes) % 2 ^ 64) : Parser ℕ) =
      (do pure ((fun v => v % 2 ^ 64) (← Element.word.parser bytes))) := rfl

private theorem flag_eq_map (bytes : List UInt8) :
    (do pure ((← readU256 bytes) != 0) : Parser Bool) =
      (do pure ((fun v => v != 0) (← Element.word.parser bytes))) := rfl

/-- The decoder returns if and only if everything its counts ask for is granted. -/
theorem returns_tryDecodeCircuitDescription :
    ((tryDecodeCircuitDescription allocates data).run 0).Returns ↔
      ∀ bytes ∈ descriptionRequests data, Granted allocates bytes := by
  have hindex := parser_eq_map_id data .index
  have hword := parser_eq_map_id data .word
  have hcounts : (do let _ ← tryReadUsizeFrom data; tryReadUsizeFrom data : Parser ℕ).run 0 =
      (tryReadUsizeFrom data).run 0 >>= fun count => (tryReadUsizeFrom data).run count.2 := rfl
  unfold tryDecodeCircuitDescription descriptionRequests
  rw [hcounts]
  cases hcompute : (tryReadUsizeFrom data).run 0 with
  | error e => exact ⟨fun _ => nofun, fun _ => ParserCall.returns_ofParser_bind_of_error hcompute⟩
  | ok compute =>
    obtain ⟨numComputeLayers, mid⟩ := compute
    rw [ParserCall.returns_ofParser_bind_of_ok hcompute, ok_bind]
    cases hinput : (tryReadUsizeFrom data).run mid with
    | error e => exact ⟨fun _ => nofun, fun _ => ParserCall.returns_ofParser_bind_of_error hinput⟩
    | ok input =>
      obtain ⟨numInputLayers, next⟩ := input
      rw [ParserCall.returns_ofParser_bind_of_ok hinput]
      refine returns_tryReadArray_bind (layerType_eq_map data) (fun _ _ => ?_) next
      refine returns_tryReadArray_bind hindex (fun _ _ => ?_) _
      refine returns_tryReadArray_bind hindex (fun _ _ => ?_) _
      refine returns_tryReadArray_bind hindex (fun _ _ => ?_) _
      refine returns_tryReadArray_bind hindex (fun _ _ => ?_) _
      refine returns_tryReadArray_bind hindex (fun _ _ => ?_) _
      refine returns_tryReadArray_bind (ptEntry_eq_map data) (fun _ _ => ?_) _
      refine returns_tryReadArray_bind (flag_eq_map data) (fun _ _ => ?_) _
      refine returns_tryReadArray_bind hindex (fun _ _ => ?_) _
      refine returns_tryReadArray_bind hindex (fun _ _ => ?_) _
      refine returns_tryReadArray_bind hword (fun _ offset => ?_) _
      exact ⟨fun _ => nofun, fun _ => Call.returns_pure (_, offset)⟩

/-- The requests from an array that is read, and from the arrays after it. -/
theorem arrayRequests_of_read {α : Type} {size : ℕ} {element : Element} {g : ℕ → α}
    {p : Parser α} (hp : p = (do pure (g (← element.parser data))))
    {arrays : List (ℕ × Element)} {xs : List α} {offset next : ℕ}
    (h : (readFlatArray (tryReadUsizeFrom data) p).run offset = .ok (xs, next)) :
    arrayRequests data ((size, element) :: arrays) offset =
      xs.length * size :: arrayRequests data arrays next := by
  obtain ⟨len, mid, hlen, hread⟩ := run_bind_eq_ok.mp h
  rw [hp, repeatRead_map] at hread
  obtain ⟨words, next', hwords, hxs⟩ := run_bind_eq_ok.mp hread
  obtain ⟨rfl, rfl⟩ := run_pure_eq_ok.mp hxs
  have hlength := (yields_repeatRead (Yields.trivial _) len mid words next' hwords).1
  rw [arrayRequests, hlen]
  simp only [hwords, List.length_map, hlength]

/-- What a description that is read asks for. -/
theorem descriptionRequests_of_read {desc : DAGCircuitDescription} {offset : ℕ}
    (h : (readDescription data).run 0 = .ok (desc, offset)) :
    descriptionRequests data =
      [desc.layerTypes.length * 1, desc.numSumcheckRounds.length * 8, desc.atomOffsets.length * 8,
        desc.atomTargetLayers.length * 8, desc.atomCommitIdxs.length * 8,
        desc.ptOffsets.length * 8, desc.ptData.length * 8, desc.inputIsCommitted.length * 1,
        desc.oracleProductOffsets.length * 8, desc.oracleResultIdxs.length * 8,
        desc.oracleExprCoeffs.length * 32] := by
  have hindex := parser_eq_map_id data .index
  have hword := parser_eq_map_id data .word
  rw [readDescription, decodeCircuitDescription_eq] at h
  obtain ⟨numComputeLayers, o₁, hcompute, h⟩ := run_bind_eq_ok.mp h
  obtain ⟨numInputLayers, o₂, hinput, h⟩ := run_bind_eq_ok.mp h
  obtain ⟨layerTypes, o₃, htypes, h⟩ := run_bind_eq_ok.mp h
  obtain ⟨numSumcheckRounds, o₄, hrounds, h⟩ := run_bind_eq_ok.mp h
  obtain ⟨atomOffsets, o₅, hatoms, h⟩ := run_bind_eq_ok.mp h
  obtain ⟨atomTargetLayers, o₆, htargets, h⟩ := run_bind_eq_ok.mp h
  obtain ⟨atomCommitIdxs, o₇, hcommits, h⟩ := run_bind_eq_ok.mp h
  obtain ⟨ptOffsets, o₈, hoffsets, h⟩ := run_bind_eq_ok.mp h
  obtain ⟨ptData, o₉, hdata, h⟩ := run_bind_eq_ok.mp h
  obtain ⟨inputIsCommitted, o₁₀, hflags, h⟩ := run_bind_eq_ok.mp h
  obtain ⟨oracleProductOffsets, o₁₁, hproducts, h⟩ := run_bind_eq_ok.mp h
  obtain ⟨oracleResultIdxs, o₁₂, hresults, h⟩ := run_bind_eq_ok.mp h
  obtain ⟨oracleExprCoeffs, o₁₃, hcoeffs, h⟩ := run_bind_eq_ok.mp h
  obtain ⟨rfl, -⟩ := run_pure_eq_ok.mp h
  have hcounts : (do let _ ← tryReadUsizeFrom data; tryReadUsizeFrom data : Parser ℕ).run 0 =
      .ok (numInputLayers, o₂) := run_bind_eq_ok.mpr ⟨_, _, hcompute, hinput⟩
  rw [descriptionRequests, hcounts]
  dsimp only [descriptionArrays]
  rw [arrayRequests_of_read (layerType_eq_map data) htypes,
    arrayRequests_of_read hindex hrounds, arrayRequests_of_read hindex hatoms,
    arrayRequests_of_read hindex htargets, arrayRequests_of_read hindex hcommits,
    arrayRequests_of_read hindex hoffsets,
    arrayRequests_of_read (ptEntry_eq_map data) hdata,
    arrayRequests_of_read (flag_eq_map data) hflags,
    arrayRequests_of_read hindex hproducts, arrayRequests_of_read hindex hresults,
    arrayRequests_of_read hword hcoeffs, arrayRequests]

end Decoder

/-! ## The verification -/

section Verification

variable (allocates : ℕ → Bool)

/-- The verification of decoded data under `catch_unwind`. It starts with a vector of bindings for
each compute layer. -/
def verifyDecoded (circuitHash : List UInt8) (proof : DecodedProof) (gens : PedersenGens)
    (desc : DAGCircuitDescription) : Call Escape CallError ZkmlRun :=
  catchUnwind do
    withCapacity allocates (desc.numComputeLayers * 24)
    .returning (runVerifier circuitHash proof gens desc)

/-- `try_verify_dag_proof_inner`. -/
def tryVerifyDagProofInner (proofData gensData circuitDescData : List UInt8) :
    Call Escape CallError ZkmlRun := do
  .returning (require (decide (4 ≤ proofData.length))
    (.zkml (.invalidFormat "proof data too short for selector")))
  .returning (require (proofData.take 4 == SELECTOR)
    (.zkml (.invalidFormat "invalid selector (expected REM1)")))
  let proofBytes := proofData.drop 4
  .returning (require (decide (32 ≤ proofBytes.length))
    (.zkml (.invalidFormat "proof body too short for circuit hash")))
  let circuitHash := proofBytes.take 32
  let proof ← .returning ((decodeProofForDag (tryReader proofBytes)).mapError
    fun e => .zkml (.decodeError e))
  let gens ← .returning ((decodePedersenGens (tryReader gensData)).mapError
    fun e => .zkml (.decodeError e))
  let (desc, _) ← ((tryDecodeCircuitDescription allocates circuitDescData).run 0).mapError
    fun e => .zkml (.decodeError e)
  verifyDecoded allocates circuitHash proof gens desc

/-- `verify_raw`. -/
def verifyRaw (proofData generators circuitDesc : List UInt8) :
    Call Escape CallError VerificationResult := do
  .returning (require (decide (36 ≤ proofData.length))
    (.zkml (.invalidFormat "proof data too short (need at least 36 bytes)")))
  .returning (require (proofData.take 4 == SELECTOR)
    (.zkml (.invalidFormat "invalid selector (expected REM1)")))
  let circuitHash := (proofData.drop 4).take 32
  let _ ← tryVerifyDagProofInner allocates proofData generators circuitDesc
  pure ⟨circuitHash, true⟩

/-- The proof and the generators pass what comes before the description. -/
structure Decodable (proofData gensData : List UInt8) : Prop where
  length : 36 ≤ proofData.length
  selector : proofData.take 4 = SELECTOR
  proof : ∃ proof, decodeProofForDag (tryReader (proofData.drop 4)) = .ok proof
  gens : ∃ gens, decodePedersenGens (tryReader gensData) = .ok gens

/-- What the counts of the description ask for is granted. A capacity of the verification that is
too large is caught, so it is no matter. -/
structure RequestsGranted (descData : List UInt8) : Prop where
  arrays : ∀ bytes ∈ descriptionRequests descData, Granted allocates bytes
  layers : ∀ desc offset, (readDescription descData).run 0 = .ok (desc, offset) →
    desc.numComputeLayers * 24 < 2 ^ 63 → Granted allocates (desc.numComputeLayers * 24)

variable {allocates} {proofData gensData descData : List UInt8}

theorem returns_verifyDecoded {circuitHash : List UInt8} {proof : DecodedProof}
    {gens : PedersenGens} {desc : DAGCircuitDescription} :
    (verifyDecoded allocates circuitHash proof gens desc).Returns ↔
      (desc.numComputeLayers * 24 < 2 ^ 63 → Granted allocates (desc.numComputeLayers * 24)) := by
  rw [verifyDecoded, returns_catchUnwind]
  unfold withCapacity Granted
  split
  · next hover => exact ⟨fun _ hfits => absurd hover (not_le.mpr hfits), fun _ => nofun⟩
  · next hfits =>
    split
    · next hserved => exact ⟨fun _ hfits => ⟨hfits, hserved⟩, fun _ => nofun⟩
    · next hrefused =>
      constructor
      · exact fun h => absurd rfl h
      · exact fun h => absurd (h (not_le.mp hfits)).2 hrefused

theorem returns_tryVerifyDagProofInner :
    (tryVerifyDagProofInner allocates proofData gensData descData).Returns ↔
      (Decodable proofData gensData → RequestsGranted allocates descData) := by
  unfold tryVerifyDagProofInner
  constructor
  · intro h ⟨hlength, hselector, ⟨proof, hproof⟩, ⟨gens, hgens⟩⟩
    have h := Call.returns_returning_bind.mp h () (require_eq_ok.mpr (by simp; omega))
    have h := Call.returns_returning_bind.mp h () (require_eq_ok.mpr (by rw [hselector]; rfl))
    have h := Call.returns_returning_bind.mp h () (require_eq_ok.mpr (by simp; omega))
    have h := Call.returns_returning_bind.mp h proof (mapError_eq_ok.mpr hproof)
    have h := Call.returns_returning_bind.mp h gens (mapError_eq_ok.mpr hgens)
    obtain ⟨hdecode, hverify⟩ := Call.returns_bind.mp h
    rw [Call.returns_mapError] at hdecode
    refine ⟨returns_tryDecodeCircuitDescription.mp hdecode, ?_⟩
    intro desc offset hdesc
    have hrun := (refines_tryDecodeCircuitDescription 0).run_eq_ok hdecode hdesc
    exact returns_verifyDecoded.mp (hverify (desc, offset) (Call.run_mapError_eq_ok.mpr hrun))
  · intro h
    refine Call.returns_returning_bind.mpr fun _ _ => ?_
    refine Call.returns_returning_bind.mpr fun _ hselector => ?_
    refine Call.returns_returning_bind.mpr fun _ hlength => ?_
    refine Call.returns_returning_bind.mpr fun proof hproof => ?_
    refine Call.returns_returning_bind.mpr fun gens hgens => ?_
    have hdecodable : Decodable proofData gensData := by
      refine ⟨?_, beq_iff_eq.mp (require_eq_ok.mp hselector), ⟨proof, mapError_eq_ok.mp hproof⟩,
        ⟨gens, mapError_eq_ok.mp hgens⟩⟩
      have hbody := of_decide_eq_true (require_eq_ok.mp hlength)
      rw [List.length_drop] at hbody
      omega
    obtain ⟨harrays, hlayers⟩ := h hdecodable
    have hdecode : ((tryDecodeCircuitDescription allocates descData).run 0).Returns :=
      returns_tryDecodeCircuitDescription.mpr harrays
    refine Call.returns_bind.mpr ⟨Call.returns_mapError.mpr hdecode, ?_⟩
    rintro ⟨desc, offset⟩ hrun
    have hdesc : Except.ok (desc, offset) = (readDescription descData).run 0 :=
      refines_tryDecodeCircuitDescription 0 _ (Call.run_mapError_eq_ok.mp hrun)
    exact returns_verifyDecoded.mpr (hlayers desc offset hdesc.symm)

/-- A proof whose sections are empty. -/
def emptyProofData : List UInt8 := SELECTOR ++ [9, 0, 0, 0, 0, 0, 0].flatMap wordToBeBytes

/-- A description that announces `count` layer types. -/
def announcedTypes (count : ℕ) : List UInt8 := [0, 0, count].flatMap wordToBeBytes

end Verification

end WorldZk.RawVerification
