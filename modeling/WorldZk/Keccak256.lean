import WorldZk.Transcript

/-!
# Keccak-256

The EVM's `keccak256`, over the same byte lists as the proofs. A lane is the 64-bit number it
holds, and the lane in column `x` and row `y` stands at index `5 * y + x`.
-/

namespace WorldZk.Keccak256

open Transcript

def ROUND_CONSTANTS : List ℕ :=
  [0x0000000000000001, 0x0000000000008082, 0x800000000000808A, 0x8000000080008000,
   0x000000000000808B, 0x0000000080000001, 0x8000000080008081, 0x8000000000008009,
   0x000000000000008A, 0x0000000000000088, 0x0000000080008009, 0x000000008000000A,
   0x000000008000808B, 0x800000000000008B, 0x8000000000008089, 0x8000000000008003,
   0x8000000000008002, 0x8000000000000080, 0x000000000000800A, 0x800000008000000A,
   0x8000000080008081, 0x8000000000008080, 0x0000000080000001, 0x8000000080008008]

/-- The rotation of each lane, in index order. -/
def ROTATIONS : List ℕ :=
  [0, 1, 62, 28, 27, 36, 44, 6, 55, 20, 3, 10, 43, 25, 39, 41, 45, 15, 21, 8, 18, 2, 61, 56, 14]

def rotl (x n : ℕ) : ℕ := Nat.mod (Nat.mul x (Nat.pow 2 n)) (2 ^ 64) + Nat.div x (Nat.pow 2 (64 - n))

def lane (state : List ℕ) (x y : ℕ) : ℕ := state.getD (5 * (y % 5) + x % 5) 0

/-- A state from its lanes. -/
def ofLanes (f : ℕ → ℕ → ℕ) : List ℕ := (List.range 25).map fun i => f (i % 5) (i / 5)

def theta (state : List ℕ) : List ℕ :=
  let column x := (List.range 5).foldl (fun acc y => Nat.xor acc (lane state x y)) 0
  let columns := (List.range 5).map column
  let mask x := Nat.xor (columns.getD ((x + 4) % 5) 0) (rotl (columns.getD ((x + 1) % 5) 0) 1)
  let masks := (List.range 5).map mask
  ofLanes fun x y => Nat.xor (lane state x y) (masks.getD x 0)

/-- The lane that moves to column `x` and row `y`, rotated by its own amount. -/
def rhoPi (state : List ℕ) : List ℕ :=
  ofLanes fun x y =>
    let source := (x + 3 * y) % 5
    rotl (lane state source x) (ROTATIONS.getD (5 * x + source) 0)

def chi (state : List ℕ) : List ℕ :=
  ofLanes fun x y =>
    Nat.xor (lane state x y)
      (Nat.land (Nat.xor (lane state (x + 1) y) (2 ^ 64 - 1)) (lane state (x + 2) y))

def round (state : List ℕ) (rc : ℕ) : List ℕ :=
  match chi (rhoPi (theta state)) with
  | [] => []
  | first :: rest => Nat.xor first rc :: rest

def permutation (state : List ℕ) : List ℕ := ROUND_CONSTANTS.foldl round state

/-- The number of bytes absorbed before each permutation. -/
def RATE : ℕ := 136

/-- The message, then `0x01`, zeros, and `0x80` in the last byte of the block. -/
def pad (data : List UInt8) : List UInt8 :=
  let fill := RATE - data.length % RATE
  if fill = 1 then data ++ [0x81] else data ++ 0x01 :: List.replicate (fill - 2) 0 ++ [0x80]

/-- The `n` lanes at the head of the bytes. -/
def lanesOfBytes (bytes : List UInt8) : ℕ → List ℕ
  | 0 => []
  | n + 1 => leValue (bytes.take 8) :: lanesOfBytes (bytes.drop 8) n

def absorbBlock (state : List ℕ) (block : List UInt8) : List ℕ :=
  let lanes := lanesOfBytes block (RATE / 8)
  permutation ((List.range 25).map fun i => Nat.xor (state.getD i 0) (lanes.getD i 0))

def absorbBlocks (state : List ℕ) (bytes : List UInt8) : ℕ → List ℕ
  | 0 => state
  | n + 1 => absorbBlocks (absorbBlock state (bytes.take RATE)) (bytes.drop RATE) n

/-- The hash as a `bytes32` word. -/
@[irreducible]
def keccak256 (data : List UInt8) : ℕ :=
  let padded := pad data
  let state := absorbBlocks (List.replicate 25 0) padded (padded.length / RATE)
  beValue ((state.take 4).flatMap fun w => (wordToLeBytes w).take 8)

theorem keccak256_lt (data : List UInt8) : keccak256 data < 2 ^ 256 := by
  have hlen : ∀ lanes : List ℕ,
      ((lanes.take 4).flatMap fun w => (wordToLeBytes w).take 8).length ≤ 32 := by
    intro lanes
    have hlane : ∀ w, ((wordToLeBytes w).take 8).length = 8 := fun w => by simp [wordToLeBytes]
    have htake : (lanes.take 4).length ≤ 4 := List.length_take_le 4 lanes
    rw [List.length_flatMap]
    simp only [hlane, List.map_const', List.sum_replicate, smul_eq_mul]
    omega
  have hlt : ∀ bytes : List UInt8, bytes.length ≤ 32 → beValue bytes < 2 ^ 256 := by
    intro bytes hbytes
    have hpow : 256 ^ bytes.length ≤ 256 ^ 32 := Nat.pow_le_pow_right (by decide) hbytes
    exact (beValue_lt bytes).trans_le (hpow.trans (by decide))
  unfold keccak256
  exact hlt _ (hlen _)

/-! ## The hash on lanes

The same rounds with one argument for each lane, which the kernel can run on a message. -/

def column (a b c d e : ℕ) : ℕ := Nat.xor (Nat.xor (Nat.xor (Nat.xor (Nat.xor 0 a) b) c) d) e

def chiLane (a b c : ℕ) : ℕ := Nat.xor a (Nat.land (Nat.xor b (2 ^ 64 - 1)) c)

/-- The rounds over the constants that are left. The `b` are the lanes after `rhoPi`. -/
def laneRounds : List ℕ → (a0 a1 a2 a3 a4 a5 a6 a7 a8 a9 a10 a11 a12 a13 a14 a15 a16 a17 a18 a19 a20
    a21 a22 a23 a24 : ℕ) → List ℕ
  | [], a0, a1, a2, a3, a4, a5, a6, a7, a8, a9, a10, a11, a12, a13, a14, a15, a16, a17, a18, a19,
    a20, a21, a22, a23, a24 =>
    [a0, a1, a2, a3, a4, a5, a6, a7, a8, a9, a10, a11, a12, a13, a14, a15, a16, a17, a18, a19, a20,
     a21, a22, a23, a24]
  | rc :: rcs, a0, a1, a2, a3, a4, a5, a6, a7, a8, a9, a10, a11, a12, a13, a14, a15, a16, a17, a18,
    a19, a20, a21, a22, a23, a24 =>
    let c0 := column a0 a5 a10 a15 a20
    let c1 := column a1 a6 a11 a16 a21
    let c2 := column a2 a7 a12 a17 a22
    let c3 := column a3 a8 a13 a18 a23
    let c4 := column a4 a9 a14 a19 a24
    let d0 := Nat.xor c4 (rotl c1 1)
    let d1 := Nat.xor c0 (rotl c2 1)
    let d2 := Nat.xor c1 (rotl c3 1)
    let d3 := Nat.xor c2 (rotl c4 1)
    let d4 := Nat.xor c3 (rotl c0 1)
    let b0 := rotl (Nat.xor a0 d0) 0
    let b1 := rotl (Nat.xor a6 d1) 44
    let b2 := rotl (Nat.xor a12 d2) 43
    let b3 := rotl (Nat.xor a18 d3) 21
    let b4 := rotl (Nat.xor a24 d4) 14
    let b5 := rotl (Nat.xor a3 d3) 28
    let b6 := rotl (Nat.xor a9 d4) 20
    let b7 := rotl (Nat.xor a10 d0) 3
    let b8 := rotl (Nat.xor a16 d1) 45
    let b9 := rotl (Nat.xor a22 d2) 61
    let b10 := rotl (Nat.xor a1 d1) 1
    let b11 := rotl (Nat.xor a7 d2) 6
    let b12 := rotl (Nat.xor a13 d3) 25
    let b13 := rotl (Nat.xor a19 d4) 8
    let b14 := rotl (Nat.xor a20 d0) 18
    let b15 := rotl (Nat.xor a4 d4) 27
    let b16 := rotl (Nat.xor a5 d0) 36
    let b17 := rotl (Nat.xor a11 d1) 10
    let b18 := rotl (Nat.xor a17 d2) 15
    let b19 := rotl (Nat.xor a23 d3) 56
    let b20 := rotl (Nat.xor a2 d2) 62
    let b21 := rotl (Nat.xor a8 d3) 55
    let b22 := rotl (Nat.xor a14 d4) 39
    let b23 := rotl (Nat.xor a15 d0) 41
    let b24 := rotl (Nat.xor a21 d1) 2
    laneRounds rcs (Nat.xor (chiLane b0 b1 b2) rc) (chiLane b1 b2 b3) (chiLane b2 b3 b4)
      (chiLane b3 b4 b0) (chiLane b4 b0 b1) (chiLane b5 b6 b7) (chiLane b6 b7 b8)
      (chiLane b7 b8 b9) (chiLane b8 b9 b5) (chiLane b9 b5 b6) (chiLane b10 b11 b12)
      (chiLane b11 b12 b13) (chiLane b12 b13 b14) (chiLane b13 b14 b10) (chiLane b14 b10 b11)
      (chiLane b15 b16 b17) (chiLane b16 b17 b18) (chiLane b17 b18 b19) (chiLane b18 b19 b15)
      (chiLane b19 b15 b16) (chiLane b20 b21 b22) (chiLane b21 b22 b23) (chiLane b22 b23 b24)
      (chiLane b23 b24 b20) (chiLane b24 b20 b21)

theorem foldl_round (rcs : List ℕ) (a0 a1 a2 a3 a4 a5 a6 a7 a8 a9 a10 a11 a12 a13 a14 a15 a16 a17 a18
    a19 a20 a21 a22 a23 a24 : ℕ) :
    rcs.foldl round [a0, a1, a2, a3, a4, a5, a6, a7, a8, a9, a10, a11, a12, a13, a14, a15, a16, a17,
      a18, a19, a20, a21, a22, a23, a24] =
      laneRounds rcs a0 a1 a2 a3 a4 a5 a6 a7 a8 a9 a10 a11 a12 a13 a14 a15 a16 a17 a18 a19 a20
        a21 a22 a23 a24 := by
  induction rcs generalizing a0 a1 a2 a3 a4 a5 a6 a7 a8 a9 a10 a11 a12 a13 a14 a15 a16 a17 a18 a19
    a20 a21 a22 a23 a24 with
  | nil => rfl
  | cons rc rcs ih =>
    rw [List.foldl_cons]
    exact ih _ _ _ _ _ _ _ _ _ _ _ _ _ _ _ _ _ _ _ _ _ _ _ _ _

def permuteLanes (s : List ℕ) : List ℕ :=
  laneRounds ROUND_CONSTANTS (s.getD 0 0) (s.getD 1 0) (s.getD 2 0) (s.getD 3 0) (s.getD 4 0)
    (s.getD 5 0) (s.getD 6 0) (s.getD 7 0) (s.getD 8 0) (s.getD 9 0) (s.getD 10 0) (s.getD 11 0)
    (s.getD 12 0) (s.getD 13 0) (s.getD 14 0) (s.getD 15 0) (s.getD 16 0) (s.getD 17 0)
    (s.getD 18 0) (s.getD 19 0) (s.getD 20 0) (s.getD 21 0) (s.getD 22 0) (s.getD 23 0)
    (s.getD 24 0)

theorem permutation_map_range (f : ℕ → ℕ) :
    permutation ((List.range 25).map f) = permuteLanes ((List.range 25).map f) :=
  foldl_round ROUND_CONSTANTS _ _ _ _ _ _ _ _ _ _ _ _ _ _ _ _ _ _ _ _ _ _ _ _ _

/-- `absorbBlocks`, with the permutation on lanes. -/
def absorbLanes (state : List ℕ) (bytes : List UInt8) : ℕ → List ℕ
  | 0 => state
  | n + 1 =>
    let lanes := lanesOfBytes (bytes.take RATE) (RATE / 8)
    absorbLanes (permuteLanes ((List.range 25).map fun i =>
      Nat.xor (state.getD i 0) (lanes.getD i 0))) (bytes.drop RATE) n

theorem absorbBlocks_eq_absorbLanes (state : List ℕ) (bytes : List UInt8) (n : ℕ) :
    absorbBlocks state bytes n = absorbLanes state bytes n := by
  induction n generalizing state bytes with
  | zero => rfl
  | succ n ih => rw [absorbBlocks, absorbBlock, permutation_map_range, ih, absorbLanes]

/-- `keccak256`, with the permutation on lanes. -/
def keccakLanes (data : List UInt8) : ℕ :=
  let padded := pad data
  let state := absorbLanes (List.replicate 25 0) padded (padded.length / RATE)
  beValue ((state.take 4).flatMap fun w => (wordToLeBytes w).take 8)

theorem keccak256_eq_keccakLanes (data : List UInt8) : keccak256 data = keccakLanes data := by
  rw [keccak256, keccakLanes, absorbBlocks_eq_absorbLanes]

example : keccak256 [] = 0xc5d2460186f7233c927e7db2dcc703c0e500b653ca82273b7bfad8045d85a470 := by
  rw [keccak256_eq_keccakLanes]
  decide +kernel

end WorldZk.Keccak256
