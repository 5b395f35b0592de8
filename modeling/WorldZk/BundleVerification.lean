import WorldZk.HexText
import WorldZk.JsonValues
import WorldZk.RawVerification

/-!
# Verification of proof bundles

A bundle holds its proof and generators as hex text and its circuit description as a JSON value.
`verify` writes the description as bytes before it verifies them, and the writer panics at a member
that is missing or of another type. What it writes, the description decoder reads back.
-/

namespace WorldZk.BundleVerification

open CheckedRuns FlatDescription HexText JsonValues OffsetParsers ProofDecoding ProofTypes
open RawVerification StylusVerifier Transcript UnwindingCalls ZkmlVerifier

variable {K : Type}

/-! ## Writing a description -/

/-- `as_bool`. -/
def asBool : Json K → Option Bool
  | .bool b => some b
  | _ => none

/-- `as_array`. -/
def asArray : Json K → Option (List (Json K))
  | .arr items => some items
  | _ => none

/-- Indexing a value by a key, which gives `null` where there is nothing. -/
def index (key : String) (json : Json K) : Json K := (json.get key).getD .null

def unwrap {α : Type} (x : Option α) : Except Escape α := okOr .unwrapNone x

/-- `push_usize`. -/
def pushUsize (n : ℕ) : List UInt8 := wordToBeBytes n

/-- A hex text with an optional `0x`. -/
def decodeHex (text : List Char) : Option (List UInt8) := hexDecode (stripHexPrefix text)

/-- `push_hex`. -/
def pushHex (text : List Char) : Except Escape (List UInt8) := do
  let decoded ← okOr .invalidHex (decodeHex text)
  require (decide (decoded.length = 32)) .coefficientLength
  pure decoded

/-- What the items of an array are. -/
inductive ItemKind
  | u64
  | flag
  | coefficient

/-- One item in the bytes of a description. -/
def ItemKind.push : ItemKind → Json K → Except Escape (List UInt8)
  | u64, v => do pure (pushUsize (← unwrap v.asUsize))
  | flag, v => do pure (pushUsize (if ← unwrap (asBool v) then 1 else 0))
  | coefficient, v => do pushHex (← unwrap v.asString).toList

/-- An array of a description: its key, what its items are, and the bytes of a decoded item in
memory. -/
structure ArrayField where
  key : String
  kind : ItemKind
  size : ℕ

/-- The arrays in the order in which they are written. -/
def arrayFields : List ArrayField :=
  [⟨"layerTypes", .u64, 1⟩, ⟨"numSumcheckRounds", .u64, 8⟩, ⟨"atomOffsets", .u64, 8⟩,
    ⟨"atomTargetLayers", .u64, 8⟩, ⟨"atomCommitIdxs", .u64, 8⟩, ⟨"ptOffsets", .u64, 8⟩,
    ⟨"ptData", .u64, 8⟩, ⟨"inputIsCommitted", .flag, 1⟩, ⟨"oracleProductOffsets", .u64, 8⟩,
    ⟨"oracleResultIdxs", .u64, 8⟩, ⟨"oracleExprCoeffs", .coefficient, 32⟩]

def pushArray (desc : Json K) (field : ArrayField) : Except Escape (List UInt8) := do
  let arr ← unwrap (asArray (index field.key desc))
  let items ← arr.mapM field.kind.push
  pure (pushUsize arr.length ++ items.flatten)

/-- `encode_circuit_desc_from_json`. -/
def encodeCircuitDescFromJson (desc : Json K) : Except Escape (List UInt8) := do
  let numComputeLayers ← unwrap (index "numComputeLayers" desc).asUsize
  let numInputLayers ← unwrap (index "numInputLayers" desc).asUsize
  let arrays ← arrayFields.mapM (pushArray desc)
  pure (pushUsize numComputeLayers ++ pushUsize numInputLayers ++ arrays.flatten)

/-! ## Descriptions of a circuit -/

/-- The item is written as the word `w`. -/
def ItemKind.Denotes : ItemKind → Json K → ℕ → Prop
  | u64, v, w => v = .int w ∧ w < 2 ^ 64
  | flag, v, w => ∃ b, v = .bool b ∧ w = if b then 1 else 0
  | coefficient, v, w => ∃ s bytes, v = .str s ∧ decodeHex s.toList = some bytes ∧
      bytes.length = 32 ∧ w = beValue bytes

/-- The member is an unsigned integer of 64 bits. -/
def IsCount (desc : Json K) (key : String) (n : ℕ) : Prop :=
  desc.get key = some (.int n) ∧ n < 2 ^ 64

/-- The member is an array whose items are written as the words `ws`. -/
def IsArray (desc : Json K) (field : ArrayField) (ws : List ℕ) : Prop :=
  ∃ items, desc.get field.key = some (.arr items) ∧ List.Forall₂ field.kind.Denotes items ws

/-- The value has every member of a description, with the type that it must have. -/
structure DescribesCircuit (desc : Json K) : Prop where
  numComputeLayers : ∃ n, IsCount desc "numComputeLayers" n
  numInputLayers : ∃ n, IsCount desc "numInputLayers" n
  arrays : ∀ field ∈ arrayFields, ∃ ws, IsArray desc field ws

/-- The words of a description. -/
def jsonWords (numComputeLayers numInputLayers : ℕ) (arrays : List (List ℕ)) : List ℕ :=
  [numComputeLayers, numInputLayers] ++ arrays.flatMap encodeFlatArray

section Writing

variable {desc : Json K} {key : String}

theorem asUsize_eq_some {json : Json K} {n : ℕ} :
    json.asUsize = some n ↔ json = .int n ∧ n < 2 ^ 64 := by
  cases json with
  | int z =>
    rw [Json.asUsize, Json.asInt, Json.int.injEq]
    split
    · rw [Option.map_some, Option.some.injEq]
      omega
    · rw [Option.map_none]
      exact ⟨nofun, fun h => by omega⟩
  | _ => exact ⟨nofun, nofun⟩

theorem asBool_eq_some {json : Json K} {b : Bool} : asBool json = some b ↔ json = .bool b := by
  cases json with
  | bool b' => rw [asBool, Option.some.injEq, Json.bool.injEq]
  | _ => exact ⟨nofun, nofun⟩

theorem asArray_eq_some {json : Json K} {items : List (Json K)} :
    asArray json = some items ↔ json = .arr items := by
  cases json with
  | arr items' => rw [asArray, Option.some.injEq, Json.arr.injEq]
  | _ => exact ⟨nofun, nofun⟩

theorem asString_eq_some {json : Json K} {s : String} :
    json.asString = some s ↔ json = .str s := by
  cases json with
  | str s' => rw [Json.asString, Option.some.injEq, Json.str.injEq]
  | _ => exact ⟨nofun, nofun⟩

theorem index_eq {value : Json K} (hvalue : value ≠ .null) :
    index key desc = value ↔ desc.get key = some value := by
  rw [index]
  cases desc.get key with
  | none => exact ⟨fun h => absurd h.symm hvalue, nofun⟩
  | some found => rw [Option.getD_some, Option.some.injEq]

theorem unwrap_eq_ok {α : Type} {x : Option α} {a : α} : unwrap x = .ok a ↔ x = some a := okOr_eq_ok

theorem unwrap_count_eq_ok {n : ℕ} :
    unwrap (index key desc).asUsize = .ok n ↔ IsCount desc key n := by
  rw [unwrap_eq_ok, asUsize_eq_some, index_eq (by exact nofun), IsCount]

theorem pushHex_eq_ok {text : List Char} {bytes : List UInt8} :
    pushHex text = .ok bytes ↔ decodeHex text = some bytes ∧ bytes.length = 32 := by
  simp only [pushHex, bind_eq_ok, okOr_eq_ok, require_eq_ok, decide_eq_true_eq, pure_eq_ok]
  constructor
  · rintro ⟨decoded, hdecoded, _, hlength, rfl⟩
    exact ⟨hdecoded, hlength⟩
  · rintro ⟨hdecoded, hlength⟩
    exact ⟨bytes, hdecoded, (), hlength, rfl⟩

theorem push_eq_ok {kind : ItemKind} {v : Json K} {bytes : List UInt8} :
    kind.push v = .ok bytes ↔ ∃ w, kind.Denotes v w ∧ wordToBeBytes w = bytes := by
  cases kind with
  | u64 =>
    simp only [ItemKind.push, bind_eq_ok, unwrap_eq_ok, asUsize_eq_some, pure_eq_ok]
    rfl
  | flag =>
    simp only [ItemKind.push, ItemKind.Denotes, bind_eq_ok, unwrap_eq_ok, asBool_eq_some,
      pure_eq_ok]
    constructor
    · rintro ⟨b, hb, rfl⟩
      exact ⟨_, ⟨b, hb, rfl⟩, rfl⟩
    · rintro ⟨_, ⟨b, hb, rfl⟩, rfl⟩
      exact ⟨b, hb, rfl⟩
  | coefficient =>
    simp only [ItemKind.push, ItemKind.Denotes, bind_eq_ok, unwrap_eq_ok, asString_eq_some,
      pushHex_eq_ok]
    constructor
    · rintro ⟨s, hs, hdecoded, hlength⟩
      exact ⟨_, ⟨s, bytes, hs, hdecoded, hlength, rfl⟩, wordToBeBytes_beValue hlength⟩
    · rintro ⟨_, ⟨s, decoded, hs, hdecoded, hlength, rfl⟩, rfl⟩
      rw [wordToBeBytes_beValue hlength]
      exact ⟨s, hs, hdecoded, hlength⟩

/-- A map whose steps succeed on what is related to some value, with the image of that value. -/
theorem mapM_eq_ok_of_related {α β γ : Type} {f : α → Except Escape β} {R : α → γ → Prop}
    {g : γ → β} (hf : ∀ x y, f x = .ok y ↔ ∃ w, R x w ∧ g w = y) {xs : List α} {ys : List β} :
    xs.mapM f = .ok ys ↔ ∃ ws, List.Forall₂ R xs ws ∧ ws.map g = ys := by
  rw [mapM_eq_ok]
  induction xs generalizing ys with
  | nil =>
    rw [List.forall₂_nil_left_iff]
    constructor
    · rintro rfl
      exact ⟨[], .nil, rfl⟩
    · rintro ⟨ws, hws, rfl⟩
      rw [List.forall₂_nil_left_iff.mp hws, List.map_nil]
  | cons x xs ih =>
    constructor
    · intro h
      obtain ⟨y, rest, hy, hrest, rfl⟩ := List.forall₂_cons_left_iff.mp h
      obtain ⟨w, hw, rfl⟩ := (hf x y).mp hy
      obtain ⟨ws, hws, rfl⟩ := ih.mp hrest
      exact ⟨w :: ws, .cons hw hws, rfl⟩
    · rintro ⟨_, hall, rfl⟩
      obtain ⟨w, ws, hw, hws, rfl⟩ := List.forall₂_cons_left_iff.mp hall
      exact .cons ((hf _ _).mpr ⟨w, hw, rfl⟩) (ih.mpr ⟨ws, hws, rfl⟩)

theorem pushArray_eq_ok {field : ArrayField} {bytes : List UInt8} :
    pushArray desc field = .ok bytes ↔
      ∃ ws, IsArray desc field ws ∧ (encodeFlatArray ws).flatMap wordToBeBytes = bytes := by
  simp only [pushArray, IsArray, bind_eq_ok, unwrap_eq_ok, asArray_eq_some,
    mapM_eq_ok_of_related fun v _ => push_eq_ok (v := v), pure_eq_ok]
  constructor
  · rintro ⟨items, hitems, _, ⟨ws, hws, rfl⟩, rfl⟩
    refine ⟨ws, ⟨items, (index_eq (by exact nofun)).mp hitems, hws⟩, ?_⟩
    rw [encodeFlatArray, List.flatMap_cons, hws.length_eq, List.flatMap_def]
    rfl
  · rintro ⟨ws, ⟨items, hitems, hws⟩, rfl⟩
    refine ⟨items, (index_eq (by exact nofun)).mpr hitems, _, ⟨ws, hws, rfl⟩, ?_⟩
    rw [encodeFlatArray, List.flatMap_cons, hws.length_eq, List.flatMap_def]
    rfl

theorem flatMap_jsonWords (numComputeLayers numInputLayers : ℕ) (arrays : List (List ℕ)) :
    (jsonWords numComputeLayers numInputLayers arrays).flatMap wordToBeBytes =
      pushUsize numComputeLayers ++ pushUsize numInputLayers ++
        (arrays.map fun ws => (encodeFlatArray ws).flatMap wordToBeBytes).flatten := by
  rw [jsonWords, List.flatMap_append, List.flatMap_assoc, ← List.flatMap_def, List.flatMap_cons,
    List.flatMap_singleton]
  rfl

/-- What is written, and when. -/
theorem encodeCircuitDescFromJson_eq_ok {data : List UInt8} :
    encodeCircuitDescFromJson desc = .ok data ↔
      ∃ numComputeLayers numInputLayers arrays,
        IsCount desc "numComputeLayers" numComputeLayers ∧
        IsCount desc "numInputLayers" numInputLayers ∧
        List.Forall₂ (IsArray desc) arrayFields arrays ∧
        (jsonWords numComputeLayers numInputLayers arrays).flatMap wordToBeBytes = data := by
  have harrays : ∀ pushed, arrayFields.mapM (pushArray desc) = .ok pushed ↔ ∃ arrays,
      List.Forall₂ (IsArray desc) arrayFields arrays ∧
        arrays.map (fun ws => (encodeFlatArray ws).flatMap wordToBeBytes) = pushed := fun _ =>
    mapM_eq_ok_of_related fun _ _ => pushArray_eq_ok
  simp only [encodeCircuitDescFromJson, bind_eq_ok, unwrap_count_eq_ok, harrays, pure_eq_ok]
  constructor
  · rintro ⟨numComputeLayers, hcompute, numInputLayers, hinput, _, ⟨arrays, hall, rfl⟩, rfl⟩
    refine ⟨numComputeLayers, numInputLayers, arrays, hcompute, hinput, hall, ?_⟩
    exact flatMap_jsonWords numComputeLayers numInputLayers arrays
  · rintro ⟨numComputeLayers, numInputLayers, arrays, hcompute, hinput, hall, rfl⟩
    refine ⟨numComputeLayers, hcompute, numInputLayers, hinput, _, ⟨arrays, hall, rfl⟩, ?_⟩
    exact (flatMap_jsonWords numComputeLayers numInputLayers arrays).symm

theorem describesCircuit_iff :
    DescribesCircuit desc ↔ ∃ data, encodeCircuitDescFromJson desc = .ok data := by
  constructor
  · rintro ⟨⟨numComputeLayers, hcompute⟩, ⟨numInputLayers, hinput⟩, harrays⟩
    choose! words hwords using harrays
    have hall : List.Forall₂ (IsArray desc) arrayFields (arrayFields.map words) :=
      List.forall₂_map_right_iff.mpr (List.forall₂_same.mpr hwords)
    exact ⟨_, encodeCircuitDescFromJson_eq_ok.mpr
      ⟨numComputeLayers, numInputLayers, _, hcompute, hinput, hall, rfl⟩⟩
  · rintro ⟨data, h⟩
    obtain ⟨numComputeLayers, numInputLayers, arrays, hcompute, hinput, hall, -⟩ :=
      encodeCircuitDescFromJson_eq_ok.mp h
    refine ⟨⟨numComputeLayers, hcompute⟩, ⟨numInputLayers, hinput⟩, ?_⟩
    intro field hfield
    obtain ⟨i, hi⟩ := List.mem_iff_getElem?.mp hfield
    obtain ⟨ws, -, hws⟩ := forall₂_getElem? hall hi
    exact ⟨ws, hws⟩

end Writing

/-! ## Reading it back -/

section Reading

variable {data : List ℕ}

theorem reads_readFlatArray_map {α : Type} {usize : Parser ℕ} {p : Parser α} {g : ℕ → α}
    {ws : List ℕ} (hlen : Reads 32 data usize [ws.length] ws.length)
    (h : ∀ w ∈ ws, Reads 32 data p [w] (g w)) :
    Reads 32 data (readFlatArray usize p) (encodeFlatArray ws) (ws.map g) := by
  have hall := @reads_repeatRead α data p ℕ (fun w => [w]) g ws h
  rw [List.flatMap_singleton'] at hall
  exact hlen.bind hall

/-- The words of an array are read back as what they are. -/
structure ArrayFits (field : ArrayField) (ws : List ℕ) : Prop where
  length : ws.length < 2 ^ 64
  words : ∀ w ∈ ws, w < 2 ^ 256
  indices : field.kind = .u64 → ∀ w ∈ ws, w < 2 ^ 64

theorem jsonWords_lt {numComputeLayers numInputLayers : ℕ} {arrays : List (List ℕ)}
    (hcompute : numComputeLayers < 2 ^ 64) (hinput : numInputLayers < 2 ^ 64)
    (harrays : List.Forall₂ ArrayFits arrayFields arrays) :
    ∀ w ∈ jsonWords numComputeLayers numInputLayers arrays, w < 2 ^ 256 := by
  intro w hw
  rcases List.mem_append.mp hw with hcount | harray
  · simp only [List.mem_cons, List.not_mem_nil, or_false] at hcount
    omega
  · obtain ⟨ws, hws, hmem⟩ := List.mem_flatMap.mp harray
    obtain ⟨i, hi⟩ := List.mem_iff_getElem?.mp hws
    obtain ⟨field, -, hfits⟩ := forall₂_getElem? harrays.flip hi
    rcases List.mem_cons.mp hmem with rfl | hword
    · exact lt_trans hfits.length (by decide)
    · exact hfits.words w hword

/-- What is made of the words of a description, and what its counts ask for. -/
theorem readDescription_jsonWords {numComputeLayers numInputLayers : ℕ} {arrays : List (List ℕ)}
    (hcompute : numComputeLayers < 2 ^ 64) (hinput : numInputLayers < 2 ^ 64)
    (harrays : List.Forall₂ ArrayFits arrayFields arrays) {bytes : List UInt8}
    (hbytes : (jsonWords numComputeLayers numInputLayers arrays).flatMap wordToBeBytes = bytes) :
    ∃ desc offset, (readDescription bytes).run 0 = .ok (desc, offset) ∧
      desc.numComputeLayers = numComputeLayers ∧
      descriptionRequests bytes =
        List.zipWith (fun field ws => ws.length * field.size) arrayFields arrays := by
  have hread : readU256 bytes = readWord (jsonWords numComputeLayers numInputLayers arrays) := by
    rw [← hbytes, readU256_flatMap_wordToBeBytes (jsonWords_lt hcompute hinput harrays)]
  have hword : ∀ v, Reads 32 (jsonWords numComputeLayers numInputLayers arrays)
      (readU256 bytes) [v] v := by
    intro v
    rw [hread]
    exact reads_readWord _ v
  have husize : ∀ v < 2 ^ 64, Reads 32 (jsonWords numComputeLayers numInputLayers arrays)
      (tryReadUsizeFrom bytes) [v] v := fun v hv => reads_tryReadUsizeFrom hv (hword v)
  have hindices : ∀ {key : String} {size : ℕ} {ws : List ℕ}, ArrayFits ⟨key, .u64, size⟩ ws →
      Reads 32 (jsonWords numComputeLayers numInputLayers arrays)
        (readFlatArray (tryReadUsizeFrom bytes) (tryReadUsizeFrom bytes))
        (encodeFlatArray ws) (ws.map id) := fun hfits =>
    reads_readFlatArray_map (husize _ hfits.length) fun w hw => husize w (hfits.indices rfl w hw)
  have hmapped : ∀ {α : Type} {field : ArrayField} {ws : List ℕ} (g : ℕ → α),
      ArrayFits field ws → Reads 32 (jsonWords numComputeLayers numInputLayers arrays)
        (readFlatArray (tryReadUsizeFrom bytes) (do pure (g (← readU256 bytes))))
        (encodeFlatArray ws) (ws.map g) := fun g hfits =>
    reads_readFlatArray_map (husize _ hfits.length) fun w _ => (hword w).map (f := g)
  -- One list of words for each of the eleven arrays.
  obtain ⟨layerTypes, _, htypes, hrest₁, rfl⟩ := List.forall₂_cons_left_iff.mp harrays
  obtain ⟨numSumcheckRounds, _, hrounds, hrest₂, rfl⟩ := List.forall₂_cons_left_iff.mp hrest₁
  obtain ⟨atomOffsets, _, hatoms, hrest₃, rfl⟩ := List.forall₂_cons_left_iff.mp hrest₂
  obtain ⟨atomTargetLayers, _, htargets, hrest₄, rfl⟩ := List.forall₂_cons_left_iff.mp hrest₃
  obtain ⟨atomCommitIdxs, _, hcommits, hrest₅, rfl⟩ := List.forall₂_cons_left_iff.mp hrest₄
  obtain ⟨ptOffsets, _, hoffsets, hrest₆, rfl⟩ := List.forall₂_cons_left_iff.mp hrest₅
  obtain ⟨ptData, _, hdata, hrest₇, rfl⟩ := List.forall₂_cons_left_iff.mp hrest₆
  obtain ⟨inputIsCommitted, _, hflags, hrest₈, rfl⟩ := List.forall₂_cons_left_iff.mp hrest₇
  obtain ⟨oracleProductOffsets, _, hproducts, hrest₉, rfl⟩ :=
    List.forall₂_cons_left_iff.mp hrest₈
  obtain ⟨oracleResultIdxs, _, hresults, hrest₁₀, rfl⟩ := List.forall₂_cons_left_iff.mp hrest₉
  obtain ⟨oracleExprCoeffs, _, hcoeffs, hrest₁₁, rfl⟩ := List.forall₂_cons_left_iff.mp hrest₁₀
  obtain rfl := List.forall₂_nil_left_iff.mp hrest₁₁
  have hreads : Reads 32 (jsonWords numComputeLayers numInputLayers
      [layerTypes, numSumcheckRounds, atomOffsets, atomTargetLayers, atomCommitIdxs, ptOffsets,
        ptData, inputIsCommitted, oracleProductOffsets, oracleResultIdxs, oracleExprCoeffs])
      (readDescription bytes)
      ([numComputeLayers] ++ ([numInputLayers] ++ (encodeFlatArray layerTypes ++
        (encodeFlatArray numSumcheckRounds ++ (encodeFlatArray atomOffsets ++
        (encodeFlatArray atomTargetLayers ++ (encodeFlatArray atomCommitIdxs ++
        (encodeFlatArray ptOffsets ++ (encodeFlatArray ptData ++
        (encodeFlatArray inputIsCommitted ++ (encodeFlatArray oracleProductOffsets ++
        (encodeFlatArray oracleResultIdxs ++ (encodeFlatArray oracleExprCoeffs ++ [])))))))))))))
      ⟨numComputeLayers, numInputLayers, layerTypes.map fun v => v % 2 ^ 64 % 256,
        numSumcheckRounds.map id, atomOffsets.map id, atomTargetLayers.map id,
        atomCommitIdxs.map id, ptOffsets.map id, ptData.map fun v => v % 2 ^ 64,
        inputIsCommitted.map fun v => v != 0, oracleProductOffsets.map id,
        oracleResultIdxs.map id, oracleExprCoeffs.map id⟩ := by
    rw [readDescription, decodeCircuitDescription_eq]
    refine (husize _ hcompute).bind ((husize _ hinput).bind ?_)
    refine (hmapped (fun v => v % 2 ^ 64 % 256) htypes).bind ((hindices hrounds).bind ?_)
    refine (hindices hatoms).bind ((hindices htargets).bind ((hindices hcommits).bind ?_))
    refine (hindices hoffsets).bind ((hmapped (fun v => v % 2 ^ 64) hdata).bind ?_)
    refine (hmapped (fun v => v != 0) hflags).bind ((hindices hproducts).bind ?_)
    refine (hindices hresults).bind (Reads.bind ?_ (reads_pure _))
    exact reads_readFlatArray_map (husize _ hcoeffs.length) fun w _ => hword w
  have hrun := hreads 0 (List.prefix_refl _)
  refine ⟨_, _, hrun, rfl, ?_⟩
  rw [descriptionRequests_of_read hrun]
  simp only [List.length_map]
  rfl

end Reading

/-! ## Bundles -/

/-- A `ProofBundle`, whose arrays are vectors in memory: one of 32-byte values holds no more than
`isize::MAX` bytes. -/
structure ProofBundle (K : Type) where
  proofHex : List Char
  publicInputsHex : List Char
  gensHex : List Char
  dagCircuitDescription : Json K
  arrays_fit : ∀ key items, dagCircuitDescription.get key = some (.arr items) →
    items.length * 32 < 2 ^ 63

/-- The errors of `verify`. A bundle that is not hex text is reported with the name of its field. -/
inductive BundleError
  | bundleParse (field : String)
  | invalidProof (message : String)
  | verifier (cause : CallError)
deriving DecidableEq, Repr

namespace ProofBundle

variable (bundle : ProofBundle K)

def proofData : Except BundleError (List UInt8) :=
  okOr (.bundleParse "proof_hex") (decodeHex bundle.proofHex)

def publicInputsData : Except BundleError (List UInt8) :=
  if bundle.publicInputsHex = [] then .ok []
  else okOr (.bundleParse "public_inputs_hex") (decodeHex bundle.publicInputsHex)

def gensData : Except BundleError (List UInt8) :=
  okOr (.bundleParse "gens_hex") (decodeHex bundle.gensHex)

/-- The texts of the bundle are hex, and the proof has the selector and a circuit hash. -/
structure HexParts (proofData gensData : List UInt8) : Prop where
  proof : decodeHex bundle.proofHex = some proofData
  length : 36 ≤ proofData.length
  selector : proofData.take 4 = SELECTOR
  publicInputs : bundle.publicInputsHex = [] ∨
    ∃ bytes, decodeHex bundle.publicInputsHex = some bytes
  gens : decodeHex bundle.gensHex = some gensData

end ProofBundle

section Verification

variable (allocates : ℕ → Bool)

/-- `verify`. -/
def verify (bundle : ProofBundle K) : Call Escape BundleError VerificationResult := do
  let proofData ← .returning bundle.proofData
  .returning (require (decide (36 ≤ proofData.length)) (.invalidProof "proof too short"))
  .returning (require (proofData.take 4 == SELECTOR)
    (.invalidProof "invalid selector (expected REM1)"))
  let circuitHash := (proofData.drop 4).take 32
  let _ ← .returning bundle.publicInputsData
  let gensData ← .returning bundle.gensData
  let circuitDescData ← .orEscape (encodeCircuitDescFromJson bundle.dagCircuitDescription)
  let _ ← (tryVerifyDagProofInner allocates proofData gensData circuitDescData).mapError .verifier
  pure ⟨circuitHash, true⟩

/-- What the lengths of the arrays and the count of compute layers ask for is granted. -/
structure MembersGranted (desc : Json K) : Prop where
  arrays : ∀ field ∈ arrayFields, ∀ items, desc.get field.key = some (.arr items) →
    Granted allocates (items.length * field.size)
  layers : ∀ n, IsCount desc "numComputeLayers" n → n * 24 < 2 ^ 63 → Granted allocates (n * 24)

variable {allocates}

theorem publicInputsData_eq_ok {bundle : ProofBundle K} :
    (∃ bytes, bundle.publicInputsData = .ok bytes) ↔ bundle.publicInputsHex = [] ∨
      ∃ bytes, decodeHex bundle.publicInputsHex = some bytes := by
  unfold ProofBundle.publicInputsData
  split
  · next hempty => exact ⟨fun _ => .inl hempty, fun _ => ⟨[], rfl⟩⟩
  · next hfull =>
    simp only [okOr_eq_ok]
    exact ⟨.inr, fun h => h.resolve_left hfull⟩

theorem denotes_lt {kind : ItemKind} {v : Json K} {w : ℕ} (h : kind.Denotes v w) :
    w < 2 ^ 256 ∧ (kind = .u64 → w < 2 ^ 64) := by
  cases kind with
  | u64 => exact ⟨lt_trans h.2 (by decide), fun _ => h.2⟩
  | flag =>
    obtain ⟨b, -, rfl⟩ := h
    exact ⟨by cases b <;> decide, nofun⟩
  | coefficient =>
    obtain ⟨_, bytes, -, -, hlength, rfl⟩ := h
    have hlt := beValue_lt bytes
    rw [hlength] at hlt
    exact ⟨lt_of_lt_of_eq hlt (by norm_num), nofun⟩

theorem arrayFits_of_isArray {bundle : ProofBundle K} {field : ArrayField} {ws : List ℕ}
    (h : IsArray bundle.dagCircuitDescription field ws) : ArrayFits field ws := by
  obtain ⟨items, hitems, hws⟩ := h
  have hlength := bundle.arrays_fit field.key items hitems
  have hdenotes : ∀ w ∈ ws, w < 2 ^ 256 ∧ (field.kind = .u64 → w < 2 ^ 64) := by
    intro w hw
    obtain ⟨i, hi⟩ := List.mem_iff_getElem?.mp hw
    obtain ⟨v, -, hv⟩ := forall₂_getElem? hws.flip hi
    exact denotes_lt hv
  rw [hws.length_eq] at hlength
  exact ⟨by omega, fun w hw => (hdenotes w hw).1, fun hkind w hw => (hdenotes w hw).2 hkind⟩

/-- The requests by their arrays. -/
theorem forall_requests_iff {P : ℕ → Prop} {desc : Json K} {fields : List ArrayField}
    {arrays : List (List ℕ)} (harrays : List.Forall₂ (IsArray desc) fields arrays) :
    (∀ bytes ∈ List.zipWith (fun field ws => ws.length * field.size) fields arrays, P bytes) ↔
      ∀ field ∈ fields, ∀ items, desc.get field.key = some (.arr items) →
        P (items.length * field.size) := by
  induction harrays with
  | nil => exact ⟨fun _ => nofun, fun _ => nofun⟩
  | @cons field ws fields arrays hws _ ih =>
    obtain ⟨found, hfound, hdenotes⟩ := hws
    rw [List.zipWith_cons_cons, List.forall_mem_cons, List.forall_mem_cons, ih,
      ← hdenotes.length_eq]
    refine and_congr_left fun _ => ?_
    constructor
    · intro h items hitems
      obtain rfl : found = items := Json.arr.inj (Option.some.inj (hfound.symm.trans hitems))
      exact h
    · exact fun h => h found hfound

theorem requestsGranted_iff {bundle : ProofBundle K} {data : List UInt8}
    (h : encodeCircuitDescFromJson bundle.dagCircuitDescription = .ok data) :
    RequestsGranted allocates data ↔ MembersGranted allocates bundle.dagCircuitDescription := by
  obtain ⟨numComputeLayers, numInputLayers, arrays, hcompute, hinput, harrays, hdata⟩ :=
    encodeCircuitDescFromJson_eq_ok.mp h
  have hfits : List.Forall₂ ArrayFits arrayFields arrays :=
    harrays.imp fun _ _ => arrayFits_of_isArray
  obtain ⟨desc, offset, hread, hlayers, hrequests⟩ :=
    readDescription_jsonWords hcompute.2 hinput.2 hfits hdata
  have harraysGranted : (∀ bytes ∈ descriptionRequests data, Granted allocates bytes) ↔
      ∀ field ∈ arrayFields, ∀ items,
        bundle.dagCircuitDescription.get field.key = some (.arr items) →
          Granted allocates (items.length * field.size) := by
    rw [hrequests]
    exact forall_requests_iff harrays
  constructor
  · rintro ⟨hgranted, hbindings⟩
    refine ⟨harraysGranted.mp hgranted, ?_⟩
    intro n hn
    have hcount : (numComputeLayers : ℤ) = n :=
      Json.int.inj (Option.some.inj (hcompute.1.symm.trans hn.1))
    obtain rfl : numComputeLayers = n := Int.ofNat_inj.mp hcount
    rw [← hlayers]
    exact hbindings desc offset hread
  · rintro ⟨hgranted, hbindings⟩
    refine ⟨harraysGranted.mpr hgranted, ?_⟩
    intro desc' offset' hread'
    obtain ⟨rfl, -⟩ := Prod.mk.inj (Except.ok.inj (hread.symm.trans hread'))
    rw [hlayers]
    exact hbindings numComputeLayers hcompute

/-- A bundle with an empty proof and a description without arrays. -/
def bundleOf (desc : List (String × Json ℚ))
    (h : ∀ field ∈ desc, ∀ items, field.2 ≠ .arr items) : ProofBundle ℚ where
  proofHex := hexEncode emptyProofData
  publicInputsHex := []
  gensHex := []
  dagCircuitDescription := .obj desc
  arrays_fit := by
    intro key items hitems
    have hmem := List.mem_of_getLast? hitems
    obtain ⟨field, hfield, hvalue⟩ := List.mem_map.mp hmem
    exact absurd hvalue (h field (List.mem_of_mem_filter hfield) items)

end Verification

end WorldZk.BundleVerification
