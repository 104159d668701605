/-!
# The BLAKE3 hash of a text

A text is cut into chunks, a chunk into blocks, and a block into words.  Each chunk is folded into
a node by the compression function, and the nodes are joined as the leaves of a binary tree.

## Main definitions

* `compress` — the compression function.
* `Node` — a compression that has not been made yet, so that the root can still be marked.
* `blake3` — the hash of a list of bytes, as eight words.
* `digest` — the hash of a text in hexadecimal digits.
-/

namespace FlowAnalysis.Hash

/-- The words that one compression hands to the next. -/
abbrev Chain := Vector UInt32 8

/-- The words of a block. -/
abbrev Block := Vector UInt32 16

/-- The first chain of every chunk. -/
def startChain : Chain :=
  #v[0x6A09E667, 0xBB67AE85, 0x3C6EF372, 0xA54FF53A, 0x510E527F, 0x9B05688C, 0x1F83D9AB, 0x5BE0CD19]

/-- The order in which a round takes the words that the round before it took in order. -/
def wordOrder : Vector (Fin 16) 16 :=
  #v[2, 6, 3, 10, 7, 0, 4, 13, 1, 11, 12, 5, 9, 14, 15, 8]

/-- The place in the tree at which a block stands. -/
structure Marks where
  chunkStart : Bool := false
  chunkEnd : Bool := false
  parent : Bool := false
  root : Bool := false
  deriving DecidableEq, Repr

/-- The marks as a word. -/
def Marks.toWord (m : Marks) : UInt32 :=
  (if m.chunkStart then 1 else 0) + (if m.chunkEnd then 2 else 0) + (if m.parent then 4 else 0) +
    (if m.root then 8 else 0)

/-- A word rotated to the right. -/
def rotate (w : UInt32) (n : UInt32) : UInt32 := (w >>> n) ||| (w <<< (32 - n))

/-- Mixes two words of a block into four words of the state. -/
def mix (v : Block) (a b c d : Fin 16) (x y : UInt32) : Block :=
  let va := v[a] + v[b] + x
  let vd := rotate (v[d] ^^^ va) 16
  let vc := v[c] + vd
  let vb := rotate (v[b] ^^^ vc) 12
  let va := va + vb + y
  let vd := rotate (vd ^^^ va) 8
  let vc := vc + vd
  let vb := rotate (vb ^^^ vc) 7
  (((v.set a va).set b vb).set c vc).set d vd

/-- Mixes a whole block into the state: the columns first, then the diagonals. -/
def round (v m : Block) : Block :=
  let v := mix v 0 4 8 12 m[0] m[1]
  let v := mix v 1 5 9 13 m[2] m[3]
  let v := mix v 2 6 10 14 m[4] m[5]
  let v := mix v 3 7 11 15 m[6] m[7]
  let v := mix v 0 5 10 15 m[8] m[9]
  let v := mix v 1 6 11 12 m[10] m[11]
  let v := mix v 2 7 8 13 m[12] m[13]
  mix v 3 4 9 14 m[14] m[15]

/-- Makes `n` rounds, each with the words of the block in a new order. -/
def rounds : Nat → Block → Block → Block
  | 0, v, _ => v
  | n + 1, v, m => rounds n (round v m) (Vector.ofFn fun i => m[wordOrder[i]])

/-- A block with all that its compression depends on. -/
structure Node where
  chain : Chain
  block : Block
  counter : UInt64
  /-- How many bytes of the block come from the text. -/
  length : Nat
  marks : Marks

/-- The compression function. -/
def compress (n : Node) : Chain :=
  let s := startChain
  let tail : Vector UInt32 8 :=
    #v[s[0], s[1], s[2], s[3], n.counter.toUInt32, (n.counter >>> 32).toUInt32,
      UInt32.ofNat n.length, n.marks.toWord]
  let v : Block := rounds 7 (n.chain ++ tail) n.block
  Vector.ofFn fun i : Fin 8 => v[i] ^^^ v[i.val + 8]

/-- A list cut into pieces of `n` elements, of which the last may be shorter. -/
def pieces {α : Type} (n : Nat) (xs : List α) : List (List α) :=
  if _ : n = 0 ∨ xs.length ≤ n then [xs] else xs.take n :: pieces n (xs.drop n)
termination_by xs.length
decreasing_by
  simp only [List.length_drop]
  omega

/-- A word from its bytes, the lowest first. -/
def wordOfBytes (bs : List UInt8) : UInt32 :=
  bs.foldr (fun b w => w * 256 + b.toUInt32) 0

/-- A block from at most 64 bytes; missing bytes are zero. -/
def blockOfBytes (bs : List UInt8) : Block :=
  Vector.ofFn fun i => wordOfBytes ((bs.drop (4 * i.val)).take 4)

/-- The node of the blocks of a chunk, from the chain of the blocks before them. -/
def chunkNode (counter : Nat) (isFirst : Bool) (chain : Chain) : List (List UInt8) → Node
  | [] => ⟨chain, blockOfBytes [], UInt64.ofNat counter, 0, { chunkStart := isFirst, chunkEnd := true }⟩
  | [b] =>
    ⟨chain, blockOfBytes b, UInt64.ofNat counter, b.length,
      { chunkStart := isFirst, chunkEnd := true }⟩
  | b :: rest =>
    let n : Node :=
      ⟨chain, blockOfBytes b, UInt64.ofNat counter, b.length, { chunkStart := isFirst }⟩
    chunkNode counter false (compress n) rest

/-- The node of a chunk. -/
def ofChunk (bytes : List UInt8) (counter : Nat) : Node :=
  chunkNode counter true startChain (pieces 64 bytes)

/-- The node over two nodes. -/
def parentOf (left right : Node) : Node :=
  ⟨startChain, compress left ++ compress right, 0, 64, { parent := true }⟩

/-- The greatest power of two below a number that is greater than one. -/
def leftCount (n : Nat) : Nat := Nat.pow 2 (n - 1).log2

theorem leftCount_pos (n : Nat) : 0 < leftCount n := Nat.two_pow_pos _

theorem leftCount_lt {n : Nat} (h : 2 ≤ n) : leftCount n < n := by
  have hle : leftCount n ≤ n - 1 := Nat.log2_self_le (by omega)
  omega

/-- The root of the tree over some leaves: the left side is the greatest full tree that leaves
something for the right side. -/
def join (leaves : List Node) : Node :=
  match leaves with
  | [] => ofChunk [] 0
  | [leaf] => leaf
  | a :: b :: rest =>
    let k := leftCount (a :: b :: rest).length
    parentOf (join ((a :: b :: rest).take k)) (join ((a :: b :: rest).drop k))
termination_by leaves.length
decreasing_by
  · have := leftCount_lt (n := (a :: b :: rest).length) (by simp)
    simp only [List.length_take]
    omega
  · have := leftCount_pos (a :: b :: rest).length
    simp only [List.length_drop, List.length_cons]
    simp only [List.length_cons] at this
    omega

/-- The hash of a list of bytes. -/
def blake3 (bytes : List UInt8) : Chain :=
  let root := join ((pieces 1024 bytes).mapIdx fun i b => ofChunk b i)
  compress { root with marks := { root.marks with root := true } }

/-- A hexadecimal digit. -/
def hexDigit (n : Nat) : Char :=
  if n < 10 then Char.ofNat (48 + n) else Char.ofNat (87 + n)

/-- A byte in two hexadecimal digits. -/
def hexByte (b : UInt8) : List Char := [hexDigit (b.toNat / 16), hexDigit (b.toNat % 16)]

/-- The bytes of a word, the lowest first. -/
def bytesOfWord (w : UInt32) : List UInt8 :=
  [w.toUInt8, (w >>> 8).toUInt8, (w >>> 16).toUInt8, (w >>> 24).toUInt8]

/-- The hash of a text in hexadecimal digits. -/
def digest (text : String) : String :=
  String.ofList ((blake3 text.toUTF8.toList).toList.flatMap fun w =>
    (bytesOfWord w).flatMap hexByte)

end FlowAnalysis.Hash
