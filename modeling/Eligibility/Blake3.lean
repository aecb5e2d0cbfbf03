/-!
# Blake3 — the BLAKE3 hash

Text of at most 1024 bytes is a chunk; longer text is a binary tree of chunks whose left side has
as many chunks as the greatest power of two below their number.  A chunk is hashed block by block,
a parent is one block that holds the chaining values of its children, and the root carries a flag
of its own.

* `Blake3.compress` — the compression function;
* `Blake3.Output` — the last compression of a subtree, before it is known whether it is the root;
* `Blake3.hash` — the digest of 32 bytes.
-/

namespace Eligibility
namespace Blake3

/-! ## Words -/

/-- The first `count` bytes of a number, the least significant one first. -/
def littleEndian : Nat → Nat → List UInt8
  | 0, _ => []
  | count + 1, n => n.toUInt8 :: littleEndian count (n / 256)

/-- The number of some bytes, the least significant one first. -/
def ofLittleEndian (bytes : List UInt8) : Nat :=
  bytes.foldr (fun b n => b.toNat + 256 * n) 0

theorem length_littleEndian (count n : Nat) : (littleEndian count n).length = count := by
  induction count generalizing n with
  | zero => rfl
  | succ count ih => simp [littleEndian, ih]

abbrev Chaining :=
  Vector UInt32 8

abbrev Words :=
  Vector UInt32 16

/-- The words of a block of up to 64 bytes, filled up with zeros. -/
def wordsOf (bytes : List UInt8) : Words :=
  Vector.ofFn fun i : Fin 16 => (ofLittleEndian ((bytes.drop (4 * i)).take 4)).toUInt32

/-! ## Compression -/

def initialChaining : Chaining :=
  #v[0x6A09E667, 0xBB67AE85, 0x3C6EF372, 0xA54FF53A,
     0x510E527F, 0x9B05688C, 0x1F83D9AB, 0x5BE0CD19]

def chunkStart : UInt32 := 1

def chunkEnd : UInt32 := 2

def parent : UInt32 := 4

def root : UInt32 := 8

def rotateRight (w count : UInt32) : UInt32 :=
  (w >>> count) ||| (w <<< (32 - count))

/-- Mixes two message words into four words of the state. -/
def mix (a b c d : Fin 16) (x y : UInt32) (v : Words) : Words :=
  let v := v.set a (v[a] + v[b] + x)
  let v := v.set d (rotateRight (v[d] ^^^ v[a]) 16)
  let v := v.set c (v[c] + v[d])
  let v := v.set b (rotateRight (v[b] ^^^ v[c]) 12)
  let v := v.set a (v[a] + v[b] + y)
  let v := v.set d (rotateRight (v[d] ^^^ v[a]) 8)
  let v := v.set c (v[c] + v[d])
  v.set b (rotateRight (v[b] ^^^ v[c]) 7)

/-- One round: the columns of the state, then its diagonals. -/
def round (m v : Words) : Words :=
  let v := mix 0 4 8 12 m[0] m[1] v
  let v := mix 1 5 9 13 m[2] m[3] v
  let v := mix 2 6 10 14 m[4] m[5] v
  let v := mix 3 7 11 15 m[6] m[7] v
  let v := mix 0 5 10 15 m[8] m[9] v
  let v := mix 1 6 11 12 m[10] m[11] v
  let v := mix 2 7 8 13 m[12] m[13] v
  mix 3 4 9 14 m[14] m[15] v

/-- The order of the message words in the next round. -/
def permutation : Vector (Fin 16) 16 :=
  #v[2, 6, 3, 10, 7, 0, 4, 13, 1, 11, 12, 5, 9, 14, 15, 8]

/-- Some rounds, with the message words permuted in between. -/
def rounds : Nat → Words → Words → Words
  | 0, _, v => v
  | n + 1, m, v => rounds n (permutation.map fun i => m[i]) (round m v)

/-- The chaining value after one block. -/
def compress (chaining : Chaining) (block : Words) (counter : Nat) (length flags : UInt32) :
    Chaining :=
  let high := (counter / 4294967296).toUInt32
  let start : Words :=
    #v[chaining[0], chaining[1], chaining[2], chaining[3],
       chaining[4], chaining[5], chaining[6], chaining[7],
       initialChaining[0], initialChaining[1], initialChaining[2], initialChaining[3],
       counter.toUInt32, high, length, flags]
  let v := rounds 7 block start
  Vector.ofFn fun i : Fin 8 => v.get ⟨i.val, by omega⟩ ^^^ v.get ⟨i.val + 8, by omega⟩

/-! ## Chunks and the tree -/

/-- The last compression of a subtree. -/
structure Output where
  chaining : Chaining
  block : Words
  counter : Nat
  length : UInt32
  flags : UInt32

namespace Output

/-- The chaining value of a subtree below the root. -/
def value (o : Output) : Chaining :=
  compress o.chaining o.block o.counter o.length o.flags

/-- The chaining value of the root. -/
def rootValue (o : Output) : Chaining :=
  compress o.chaining o.block 0 o.length (o.flags ||| root)

end Output

def blockLength : Nat :=
  64

def chunkLength : Nat :=
  1024

/-- The last compression of a chunk, from a block on. -/
def chunkFrom (counter : Nat) (chaining : Chaining) (start : UInt32) (bytes : List UInt8) :
    Output :=
  if bytes.length ≤ blockLength then
    ⟨chaining, wordsOf bytes, counter, bytes.length.toUInt32, start ||| chunkEnd⟩
  else
    let next := compress chaining (wordsOf (bytes.take blockLength)) counter
      blockLength.toUInt32 start
    chunkFrom counter next 0 (bytes.drop blockLength)
termination_by bytes.length
decreasing_by simp only [List.length_drop, blockLength] at *; omega

/-- The number of bytes on the left side of a tree of more than one chunk. -/
def leftLength (length : Nat) : Nat :=
  chunkLength * Nat.pow 2 (Nat.log2 ((length - 1) / chunkLength))

theorem leftLength_lt {length : Nat} (h : chunkLength < length) : leftLength length < length := by
  have hne : (length - 1) / chunkLength ≠ 0 := by
    simp only [chunkLength] at h ⊢
    omega
  have hle : Nat.pow 2 _ ≤ _ := Nat.log2_self_le hne
  have hmul := Nat.mul_le_mul_left chunkLength hle
  have hdiv := Nat.mul_div_le (length - 1) chunkLength
  unfold leftLength
  simp only [chunkLength] at *
  omega

theorem leftLength_pos (length : Nat) : 0 < leftLength length :=
  Nat.mul_pos (by decide) (Nat.pow_pos (by decide))

/-- The last compression of the tree of some bytes, whose first chunk has the given number. -/
def outputOf (counter : Nat) (bytes : List UInt8) : Output :=
  if _small : bytes.length ≤ chunkLength then chunkFrom counter initialChaining chunkStart bytes
  else
    let left := leftLength bytes.length
    let leftValue := (outputOf counter (bytes.take left)).value
    let rightValue := (outputOf (counter + left / chunkLength) (bytes.drop left)).value
    ⟨initialChaining, leftValue ++ rightValue, 0, blockLength.toUInt32, parent⟩
termination_by bytes.length
decreasing_by
  all_goals
    have hlt := leftLength_lt (Nat.lt_of_not_le _small)
    have hpos := leftLength_pos bytes.length
    simp only [List.length_take, List.length_drop]
    omega

/-- The digest of some bytes. -/
def hash (bytes : List UInt8) : List UInt8 :=
  (outputOf 0 bytes).rootValue.toList.flatMap fun w => littleEndian 4 w.toNat

end Blake3
end Eligibility
