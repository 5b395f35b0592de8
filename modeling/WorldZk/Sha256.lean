import Mathlib.Data.Nat.Notation
import Mathlib.Data.List.Basic
import Mathlib.Tactic.Ring

/-!
# SHA-256

The hash behind the transcript's hash chains: the `sha2` crate in Rust, `sha256_native` in the
Stylus crate, precompile `0x02` in Solidity. Words are numbers below `2^32`. The message
schedule is kept as a rolling window of sixteen words, and the word operations are spelled with
the `Nat` functions, so that the kernel can run a hash chain.
-/

namespace WorldZk.Sha256

/-- The round constants. -/
def K : List ℕ :=
  [0x428a2f98, 0x71374491, 0xb5c0fbcf, 0xe9b5dba5, 0x3956c25b, 0x59f111f1, 0x923f82a4, 0xab1c5ed5,
   0xd807aa98, 0x12835b01, 0x243185be, 0x550c7dc3, 0x72be5d74, 0x80deb1fe, 0x9bdc06a7, 0xc19bf174,
   0xe49b69c1, 0xefbe4786, 0x0fc19dc6, 0x240ca1cc, 0x2de92c6f, 0x4a7484aa, 0x5cb0a9dc, 0x76f988da,
   0x983e5152, 0xa831c66d, 0xb00327c8, 0xbf597fc7, 0xc6e00bf3, 0xd5a79147, 0x06ca6351, 0x14292967,
   0x27b70a85, 0x2e1b2138, 0x4d2c6dfc, 0x53380d13, 0x650a7354, 0x766a0abb, 0x81c2c92e, 0x92722c85,
   0xa2bfe8a1, 0xa81a664b, 0xc24b8b70, 0xc76c51a3, 0xd192e819, 0xd6990624, 0xf40e3585, 0x106aa070,
   0x19a4c116, 0x1e376c08, 0x2748774c, 0x34b0bcb5, 0x391c0cb3, 0x4ed8aa4a, 0x5b9cca4f, 0x682e6ff3,
   0x748f82ee, 0x78a5636f, 0x84c87814, 0x8cc70208, 0x90befffa, 0xa4506ceb, 0xbef9a3f7, 0xc67178f2]

def wrap (x : ℕ) : ℕ := Nat.mod x 0x100000000

/-- `rotate_right` of a 32-bit word: a shift of the word written twice. -/
def rotr (x n : ℕ) : ℕ := wrap (Nat.shiftRight (Nat.mul x 0x100000001) n)

def bigSigma0 (a : ℕ) : ℕ := Nat.xor (Nat.xor (rotr a 2) (rotr a 13)) (rotr a 22)

def bigSigma1 (e : ℕ) : ℕ := Nat.xor (Nat.xor (rotr e 6) (rotr e 11)) (rotr e 25)

def smallSigma0 (w : ℕ) : ℕ := Nat.xor (Nat.xor (rotr w 7) (rotr w 18)) (Nat.shiftRight w 3)

def smallSigma1 (w : ℕ) : ℕ := Nat.xor (Nat.xor (rotr w 17) (rotr w 19)) (Nat.shiftRight w 10)

def ch (e f g : ℕ) : ℕ := Nat.xor (Nat.land e f) (Nat.land (Nat.xor e 0xffffffff) g)

def maj (a b c : ℕ) : ℕ := Nat.xor (Nat.xor (Nat.land a b) (Nat.land a c)) (Nat.land b c)

/-- The eight working words. -/
structure Digest where
  a : ℕ
  b : ℕ
  c : ℕ
  d : ℕ
  e : ℕ
  f : ℕ
  g : ℕ
  h : ℕ
deriving DecidableEq

def initial : Digest :=
  ⟨0x6a09e667, 0xbb67ae85, 0x3c6ef372, 0xa54ff53a, 0x510e527f, 0x9b05688c, 0x1f83d9ab, 0x5be0cd19⟩

/-- The rounds over the constants that are left; `w0` to `w15` are the current and the next
fifteen schedule words. -/
def rounds : List ℕ → (w0 w1 w2 w3 w4 w5 w6 w7 w8 w9 w10 w11 w12 w13 w14 w15 : ℕ) →
    (a b c d e f g h : ℕ) → Digest
  | [], _, _, _, _, _, _, _, _, _, _, _, _, _, _, _, _, a, b, c, d, e, f, g, h =>
    ⟨a, b, c, d, e, f, g, h⟩
  | k :: ks, w0, w1, w2, w3, w4, w5, w6, w7, w8, w9, w10, w11, w12, w13, w14, w15,
      a, b, c, d, e, f, g, h =>
    let t1 := wrap (Nat.add (Nat.add (Nat.add (Nat.add h (bigSigma1 e)) (ch e f g)) k) w0)
    let t2 := wrap (Nat.add (bigSigma0 a) (maj a b c))
    let w16 := wrap (Nat.add (Nat.add (Nat.add w0 (smallSigma0 w1)) w9) (smallSigma1 w14))
    rounds ks w1 w2 w3 w4 w5 w6 w7 w8 w9 w10 w11 w12 w13 w14 w15 w16
      (wrap (Nat.add t1 t2)) a b c (wrap (Nat.add d t1)) e f g

def Digest.addWrapped (h k : Digest) : Digest :=
  ⟨wrap (Nat.add h.a k.a), wrap (Nat.add h.b k.b), wrap (Nat.add h.c k.c),
   wrap (Nat.add h.d k.d), wrap (Nat.add h.e k.e), wrap (Nat.add h.f k.f),
   wrap (Nat.add h.g k.g), wrap (Nat.add h.h k.h)⟩

/-- One block of sixteen words. -/
def compressBlock (w : List ℕ) (h : Digest) : Digest :=
  h.addWrapped (rounds K (w.getD 0 0) (w.getD 1 0) (w.getD 2 0) (w.getD 3 0) (w.getD 4 0)
    (w.getD 5 0) (w.getD 6 0) (w.getD 7 0) (w.getD 8 0) (w.getD 9 0) (w.getD 10 0) (w.getD 11 0)
    (w.getD 12 0) (w.getD 13 0) (w.getD 14 0) (w.getD 15 0) h.a h.b h.c h.d h.e h.f h.g h.h)

/-- The given number of blocks of a padded message, as words. -/
def compress : List ℕ → Digest → ℕ → Digest
  | _, h, 0 => h
  | ws, h, n + 1 => compress (ws.drop 16) (compressBlock ws h) n

/-- A big-endian 32-bit word for every four bytes. -/
def wordsOfBytes : List UInt8 → List ℕ
  | b0 :: b1 :: b2 :: b3 :: rest =>
    (b0.toNat * 0x1000000 + b1.toNat * 0x10000 + b2.toNat * 0x100 + b3.toNat) :: wordsOfBytes rest
  | _ => []

def bytesOfWord (w : ℕ) : List UInt8 :=
  [UInt8.ofNat (w / 0x1000000), UInt8.ofNat (w / 0x10000), UInt8.ofNat (w / 0x100), UInt8.ofNat w]

def Digest.words (h : Digest) : List ℕ := [h.a, h.b, h.c, h.d, h.e, h.f, h.g, h.h]

def Digest.toBytes (h : Digest) : List UInt8 := h.words.flatMap bytesOfWord

/-- The message, the bit 1, zeros up to 56 modulo 64, and the bit length in eight bytes. -/
def pad (data : List UInt8) : List UInt8 :=
  data ++ 0x80 :: List.replicate ((119 - data.length % 64) % 64) 0 ++
    (bytesOfWord (data.length * 8 / 0x100000000) ++ bytesOfWord (data.length * 8))

@[irreducible]
def sha256 (data : List UInt8) : List UInt8 :=
  let padded := pad data
  (compress (wordsOfBytes padded) initial (padded.length / 64)).toBytes

theorem wrap_lt (x : ℕ) : wrap x < 0x100000000 := Nat.mod_lt _ (by norm_num)

theorem wordsOfBytes_bytesOfWord {w : ℕ} (hw : w < 0x100000000) (rest : List UInt8) :
    wordsOfBytes (bytesOfWord w ++ rest) = w :: wordsOfBytes rest := by
  simp only [bytesOfWord, List.cons_append, List.nil_append, wordsOfBytes, List.cons.injEq,
    and_true, UInt8.toNat_ofNat']
  omega

/-- The padded form of a 32-byte digest, in words. -/
def paddedWords (h : Digest) : List ℕ := h.words ++ [0x80000000, 0, 0, 0, 0, 0, 0, 256]

/-- One link of a hash chain, computed on words. -/
def rehash (h : Digest) : Digest := compressBlock (paddedWords h) initial

/-- Every word of the digest fits in 32 bits. -/
def Digest.Bounded (h : Digest) : Prop := ∀ w ∈ h.words, w < 0x100000000

private theorem wordsOfBytes_flatMap {ws : List ℕ} (hws : ∀ w ∈ ws, w < 0x100000000)
    (rest : List UInt8) :
    wordsOfBytes (ws.flatMap bytesOfWord ++ rest) = ws ++ wordsOfBytes rest := by
  induction ws with
  | nil => rfl
  | cons w ws ih =>
    rw [List.flatMap_cons, List.append_assoc, wordsOfBytes_bytesOfWord (hws w (by simp)),
      ih (fun v hv => hws v (by simp [hv])), List.cons_append]

theorem addWrapped_bounded (h k : Digest) : (h.addWrapped k).Bounded := by
  simp [Digest.Bounded, Digest.words, Digest.addWrapped, wrap_lt]

theorem rehash_bounded (h : Digest) : (rehash h).Bounded := addWrapped_bounded _ _

theorem length_toBytes (h : Digest) : h.toBytes.length = 32 := by
  simp [Digest.toBytes, Digest.words, bytesOfWord]

theorem length_sha256 (data : List UInt8) : (sha256 data).length = 32 := by
  rw [sha256]
  exact length_toBytes _

theorem sha256_toBytes {h : Digest} (hh : h.Bounded) :
    sha256 h.toBytes = (rehash h).toBytes := by
  have hlen := length_toBytes h
  have hpad : pad h.toBytes = h.words.flatMap bytesOfWord ++
      (0x80 :: List.replicate 23 0 ++ [0, 0, 0, 0, 0, 0, 1, 0]) := by
    rw [pad, hlen]
    simp only [Digest.toBytes, List.append_assoc]
    rfl
  have hwords : wordsOfBytes (pad h.toBytes) = paddedWords h := by
    rw [hpad, wordsOfBytes_flatMap hh, paddedWords]
    rfl
  have hblocks : (pad h.toBytes).length / 64 = 1 := by
    rw [hpad, ← Digest.toBytes, List.length_append, hlen]
    rfl
  simp only [sha256, hwords, hblocks, compress, rehash]

theorem compress_bounded {h : Digest} (hh : h.Bounded) (ws : List ℕ) (n : ℕ) :
    (compress ws h n).Bounded := by
  induction n generalizing ws h with
  | zero => exact hh
  | succ n ih => exact ih (addWrapped_bounded _ _) _

/-- `n` further links of the chain. -/
def rehashes : Digest → ℕ → Digest
  | h, 0 => h
  | h, n + 1 => rehashes (rehash h) n

theorem iterate_sha256_toBytes (n : ℕ) {h : Digest} (hh : h.Bounded) :
    sha256^[n] h.toBytes = (rehashes h n).toBytes := by
  induction n generalizing h with
  | zero => rfl
  | succ n ih =>
    rw [Function.iterate_succ_apply, sha256_toBytes hh, ih (rehash_bounded h), rehashes]

/-- The hash of a message and `n` further hashes of it, on words. -/
def chainDigest (data : List UInt8) (n : ℕ) : Digest :=
  let padded := pad data
  rehashes (compress (wordsOfBytes padded) initial (padded.length / 64)) n

theorem iterate_sha256 (data : List UInt8) (n : ℕ) :
    sha256^[n] (sha256 data) = (chainDigest data n).toBytes := by
  have hinitial : initial.Bounded := by
    unfold Digest.Bounded
    decide
  rw [chainDigest, ← iterate_sha256_toBytes n (compress_bounded hinitial _ _), sha256]

/-- The value of a chain of a thousand further hashes, with the computation that gives it. -/
structure ChainValue (data : List UInt8) where
  digest : Digest
  computed : chainDigest data 1000 = digest

theorem rehashes_add (h : Digest) (m n : ℕ) : rehashes h (m + n) = rehashes (rehashes h m) n := by
  induction m generalizing h with
  | zero => rw [Nat.zero_add, rehashes]
  | succ m ih => rw [Nat.succ_add, rehashes, rehashes, ih]

/-- A quarter of a chain, with the computation that gives its last digest. -/
structure Stretch (h : Digest) where
  digest : Digest
  computed : rehashes h 250 = digest

theorem Stretch.chained {h : Digest} (first : Stretch h) (second : Stretch first.digest)
    (third : Stretch second.digest) (last : Stretch third.digest) :
    rehashes h 1000 = last.digest := by
  rw [show 1000 = 250 + (250 + (250 + 250)) from rfl, rehashes_add, rehashes_add, rehashes_add,
    first.computed, second.computed, third.computed, last.computed]

private def stretchOfNilFirst : Stretch (chainDigest [] 0) where
  digest := ⟨2833299871, 3691830795, 786289947, 250828103, 508545004, 3595674128, 293798910,
    392179084⟩
  computed := by decide +kernel

private def stretchOfNilSecond : Stretch stretchOfNilFirst.digest where
  digest := ⟨844872102, 1962716990, 1683095505, 3167884906, 3559897091, 3667383416, 4292089487,
    1954093497⟩
  computed := by decide +kernel

private def stretchOfNilThird : Stretch stretchOfNilSecond.digest where
  digest := ⟨1691535777, 2784113240, 1205004982, 3294315908, 1649673008, 1853029180, 1352511691,
    649516878⟩
  computed := by decide +kernel

private def stretchOfNilLast : Stretch stretchOfNilThird.digest where
  digest := ⟨231321824, 2416905447, 523682649, 3419379341, 1667691126, 794204578, 4125777884,
    3413176520⟩
  computed := by decide +kernel

/-- The chain of the empty list. -/
def chainOfNil : ChainValue [] where
  digest := ⟨231321824, 2416905447, 523682649, 3419379341, 1667691126, 794204578, 4125777884,
    3413176520⟩
  computed := Stretch.chained stretchOfNilFirst stretchOfNilSecond stretchOfNilThird
    stretchOfNilLast

private def stretchOfZerosFirst : Stretch (chainDigest (List.replicate 64 0) 0) where
  digest := ⟨2055016080, 1120310079, 843198821, 2585428120, 3159519459, 1719412209, 2024103519,
    1287948531⟩
  computed := by decide +kernel

private def stretchOfZerosSecond : Stretch stretchOfZerosFirst.digest where
  digest := ⟨1661130136, 714849953, 2635636536, 2100987327, 1644464787, 1896687507, 3642448020,
    2028432346⟩
  computed := by decide +kernel

private def stretchOfZerosThird : Stretch stretchOfZerosSecond.digest where
  digest := ⟨2463841890, 3829959102, 3344645287, 139305563, 1752725211, 2792329524, 3932739728,
    2821323849⟩
  computed := by decide +kernel

private def stretchOfZerosLast : Stretch stretchOfZerosThird.digest where
  digest := ⟨3435399786, 655903236, 3313752658, 3081015286, 747136450, 1624599812, 1250390945,
    4119800382⟩
  computed := by decide +kernel

/-- The chain of a single point at infinity. -/
def chainOfZeros : ChainValue (List.replicate 64 0) where
  digest := ⟨3435399786, 655903236, 3313752658, 3081015286, 747136450, 1624599812, 1250390945,
    4119800382⟩
  computed := Stretch.chained stretchOfZerosFirst stretchOfZerosSecond stretchOfZerosThird
    stretchOfZerosLast

end WorldZk.Sha256
