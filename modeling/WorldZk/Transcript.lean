import WorldZk.Sha256
import WorldZk.VerifierBackend

/-!
# Transcript set-up

`transcript.rs` and `RemainderVerifier._setupTranscript`: the sponge absorbs the circuit hash,
the public inputs and the commitment rows of the input proofs, and after each of the two lists a
thousandfold SHA-256 chain of it.
-/

namespace WorldZk.Transcript

open PoseidonSponge ProofTypes Sha256

/-- The value of big-endian bytes. -/
def beValue (bytes : List UInt8) : ℕ := bytes.foldl (fun acc x => acc * 256 + x.toNat) 0

/-- The value of little-endian bytes, as `le_bytes_to_u256` reads at most sixteen of them. -/
def leValue (bytes : List UInt8) : ℕ := bytes.foldr (fun x acc => acc * 256 + x.toNat) 0

/-- `u256_to_le_bytes`. -/
def wordToLeBytes (w : ℕ) : List UInt8 :=
  (List.range 32).map fun i => UInt8.ofNat (w / 256 ^ i)

/-- The 32 big-endian bytes of a word. -/
def wordToBeBytes (w : ℕ) : List UInt8 := (wordToLeBytes w).reverse

@[simp] theorem length_wordToBeBytes (w : ℕ) : (wordToBeBytes w).length = 32 := by
  rw [wordToBeBytes, List.length_reverse, wordToLeBytes, List.length_map, List.length_range]

theorem length_flatMap_wordToBeBytes (ws : List ℕ) :
    (ws.flatMap wordToBeBytes).length = 32 * ws.length := by
  induction ws with
  | nil => rfl
  | cons w ws ih =>
    rw [List.flatMap_cons, List.length_append, ih, length_wordToBeBytes, List.length_cons]
    omega

theorem leValue_digits (n w : ℕ) :
    leValue ((List.range n).map fun i => UInt8.ofNat (w / 256 ^ i)) = w % 256 ^ n := by
  induction n generalizing w with
  | zero => simp [leValue, Nat.mod_one]
  | succ n ih =>
    have hshift : (List.range n).map ((fun i => UInt8.ofNat (w / 256 ^ i)) ∘ Nat.succ) =
        (List.range n).map fun i => UInt8.ofNat (w / 256 / 256 ^ i) := by
      refine List.map_congr_left fun i _ => ?_
      rw [Function.comp_apply, Nat.pow_succ', Nat.div_div_eq_div_mul]
    have hrest := ih (w / 256)
    unfold leValue at hrest ⊢
    rw [List.range_succ_eq_map, List.map_cons, List.map_map, hshift, List.foldr_cons, hrest, pow_zero,
      Nat.div_one, UInt8.toNat_ofNat']
    have hsplit : w % 256 ^ (n + 1) = w % 256 + 256 * (w / 256 % 256 ^ n) := by
      rw [Nat.pow_succ', Nat.mod_mul]
    rw [hsplit]
    omega

theorem digits_leValue (bytes : List UInt8) :
    (List.range bytes.length).map (fun i => UInt8.ofNat (leValue bytes / 256 ^ i)) = bytes := by
  induction bytes with
  | nil => rfl
  | cons x bytes ih =>
    have hx : x.toNat < 256 := x.toNat_lt
    have hvalue : leValue (x :: bytes) = leValue bytes * 256 + x.toNat := rfl
    have hhead : UInt8.ofNat (leValue (x :: bytes) / 256 ^ 0) = x := by
      rw [pow_zero, Nat.div_one, hvalue, UInt8.ofNat_add, UInt8.ofNat_mul, UInt8.ofNat_toNat]
      simp
    have htail : ∀ i, leValue (x :: bytes) / 256 ^ (i + 1) = leValue bytes / 256 ^ i := by
      intro i
      rw [Nat.pow_succ', ← Nat.div_div_eq_div_mul, hvalue]
      congr 1
      omega
    rw [List.length_cons, List.range_succ_eq_map, List.map_cons, List.map_map, hhead]
    simp only [Function.comp_def, Nat.succ_eq_add_one, htail, ih]

theorem beValue_lt (bytes : List UInt8) : beValue bytes < 256 ^ bytes.length := by
  have hfold : ∀ (bytes : List UInt8) (acc : ℕ),
      bytes.foldl (fun acc x => acc * 256 + x.toNat) acc < (acc + 1) * 256 ^ bytes.length := by
    intro bytes
    induction bytes with
    | nil => simp
    | cons x bytes ih =>
      intro acc
      have hx : x.toNat < 256 := x.toNat_lt
      have hstep : (acc * 256 + x.toNat + 1) * 256 ^ bytes.length ≤
          (acc + 1) * 256 * 256 ^ bytes.length := Nat.mul_le_mul_right _ (by omega)
      rw [List.foldl_cons, List.length_cons, Nat.pow_succ', ← Nat.mul_assoc]
      exact (ih _).trans_le hstep
  simpa [beValue] using hfold bytes 0

theorem beValue_wordToBeBytes {w : ℕ} (hw : w < 2 ^ 256) : beValue (wordToBeBytes w) = w := by
  have hvalue : beValue (wordToBeBytes w) = leValue (wordToLeBytes w) := by
    rw [beValue, wordToBeBytes, List.foldl_reverse, leValue]
  rw [hvalue, wordToLeBytes, leValue_digits]
  exact Nat.mod_eq_of_lt hw

theorem wordToBeBytes_beValue {bytes : List UInt8} (hlen : bytes.length = 32) :
    wordToBeBytes (beValue bytes) = bytes := by
  have hvalue : beValue bytes = leValue bytes.reverse := by
    rw [beValue, leValue, List.foldr_reverse]
  have hdigits := digits_leValue bytes.reverse
  rw [List.length_reverse, hlen] at hdigits
  rw [wordToBeBytes, wordToLeBytes, hvalue, hdigits, List.reverse_reverse]

/-- `hash_to_fq_pair`: the two halves of a 32-byte hash, each read in little-endian order. -/
def hashToFqPair (hash : List UInt8) : ℕ × ℕ :=
  (leValue (hash.take 16), leValue ((hash.drop 16).take 16))

/-- `sha256_hash_chain`: one hash of the concatenated elements and a thousand more of it. -/
def sha256HashChain (elements : List ℕ) : ℕ × ℕ :=
  hashToFqPair (sha256^[1000] (sha256 (elements.flatMap wordToLeBytes)))

/-- The chain of no elements, as in a proof without public inputs or without committed inputs. -/
theorem sha256HashChain_nil :
    sha256HashChain [] =
      (188204206504338470520367062608161851661, 267094038184426792272841829870956865123) := by
  rw [sha256HashChain, List.flatMap_nil, iterate_sha256, chainOfNil.computed]
  decide

theorem sha256HashChain_infinity :
    sha256HashChain [0, 0] =
      (327735926253430462967892914093609895116, 82633132052163136999413286494970153004) := by
  have hbytes : [0, 0].flatMap wordToLeBytes = List.replicate 64 0 := by decide
  rw [sha256HashChain, hbytes, iterate_sha256, chainOfZeros.computed]
  decide

def absorbPair (ops : WordOps) (s : Sponge) (p : ℕ × ℕ) : Sponge :=
  absorb ops (absorb ops s p.1) p.2

/-- The coordinates of all commitment rows, in proof order. -/
def inputCommitCoords (dagInputProofs : List DAGInputLayerProof) : List ℕ :=
  dagInputProofs.flatMap fun p => p.commitmentRows.flatMap fun row => [row.x, row.y]

/-- `setup_transcript`. -/
def setupTranscript (ops : WordOps) (circuitHash : List UInt8) (pubInputs : List ℕ)
    (inputCommitCoords : List ℕ) : Sponge :=
  let s := absorbPair ops init (hashToFqPair circuitHash)
  let s := pubInputs.foldl (absorb ops) s
  let s := absorbPair ops s (sha256HashChain pubInputs)
  let s := inputCommitCoords.foldl (absorb ops) s
  absorbPair ops s (sha256HashChain inputCommitCoords)

/-- The set-up of a proof without public inputs and committed inputs. -/
theorem setupTranscript_nil (ops : WordOps) (circuitHash : List UInt8) :
    setupTranscript ops circuitHash [] [] = absorbPair ops (absorbPair ops (absorbPair ops init
      (hashToFqPair circuitHash)) (sha256HashChain [])) (sha256HashChain []) := by
  simp only [setupTranscript, List.foldl_nil]

theorem setupTranscript_infinity (ops : WordOps) (circuitHash : List UInt8) :
    setupTranscript ops circuitHash [] [0, 0] = absorbPair ops (absorb ops (absorb ops (absorbPair ops
      (absorbPair ops init (hashToFqPair circuitHash)) (sha256HashChain [])) 0) 0)
        (sha256HashChain [0, 0]) := by
  simp only [setupTranscript, List.foldl_nil, List.foldl_cons]

end WorldZk.Transcript
