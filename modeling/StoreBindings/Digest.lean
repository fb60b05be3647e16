/-!
# BLAKE3 digests

The BLAKE3 hash of a byte sequence, 256 bits long, as lower-case hexadecimal text. Files are
compared by this text and never by their contents.

The input is cut into chunks of 1024 bytes and these into blocks of 64. A chunk is hashed block by
block; the chunks are the leaves of a binary tree in which every left branch is full. What is
hashed last, the root, is marked as such, so a `Node` keeps everything that its hash is made of
until it is known whether it is the root.
-/

namespace StoreBindings.Digest

/-- Four words that are worked on at the same time. -/
structure Row where
  a : UInt32
  b : UInt32
  c : UInt32
  d : UInt32
deriving DecidableEq, Repr

namespace Row

def map (f : UInt32 → UInt32) (x : Row) : Row := ⟨f x.a, f x.b, f x.c, f x.d⟩

def zip (f : UInt32 → UInt32 → UInt32) (x y : Row) : Row :=
  ⟨f x.a y.a, f x.b y.b, f x.c y.c, f x.d y.d⟩

/-- The row with its first word behind the others. -/
def turn (x : Row) : Row := ⟨x.b, x.c, x.d, x.a⟩

/-- The first and third words of two rows. -/
def evens (x y : Row) : Row := ⟨x.a, x.c, y.a, y.c⟩

/-- The second and fourth words of two rows. -/
def odds (x y : Row) : Row := ⟨x.b, x.d, y.b, y.d⟩

def toList (x : Row) : List UInt32 := [x.a, x.b, x.c, x.d]

end Row

/-- Eight words that stand for all that was hashed before. -/
structure Chain where
  low : Row
  high : Row
deriving DecidableEq, Repr

/-- The words of one block, or those of a state. -/
structure Block where
  first : Row
  second : Row
  third : Row
  fourth : Row
deriving DecidableEq, Repr

/-- The chain that every chunk starts from. -/
def initial : Chain where
  low := ⟨0x6A09E667, 0xBB67AE85, 0x3C6EF372, 0xA54FF53A⟩
  high := ⟨0x510E527F, 0x9B05688C, 0x1F83D9AB, 0x5BE0CD19⟩

/-- What a node is: flags that enter its hash. -/
def chunkStart : UInt32 := 1
def chunkEnd : UInt32 := 2
def parentNode : UInt32 := 4
def rootNode : UInt32 := 8

/-- The block with its words where the next round wants them. -/
def permute (m : Block) : Block where
  first := ⟨m.first.c, m.second.c, m.first.d, m.third.c⟩
  second := ⟨m.second.d, m.first.a, m.second.a, m.fourth.b⟩
  third := ⟨m.first.b, m.third.d, m.fourth.a, m.second.b⟩
  fourth := ⟨m.third.b, m.fourth.c, m.fourth.d, m.third.a⟩

def rotateRight (n x : UInt32) : UInt32 := (x >>> n) ||| (x <<< (32 - n))

/-- Mix two rows of a block into the four columns of a state. -/
def mix (s : Block) (x y : Row) : Block :=
  let a := (s.first.zip (· + ·) s.second).zip (· + ·) x
  let d := (s.fourth.zip (· ^^^ ·) a).map (rotateRight 16)
  let c := s.third.zip (· + ·) d
  let b := (s.second.zip (· ^^^ ·) c).map (rotateRight 12)
  let a := (a.zip (· + ·) b).zip (· + ·) y
  let d := (d.zip (· ^^^ ·) a).map (rotateRight 8)
  let c := c.zip (· + ·) d
  ⟨a, (b.zip (· ^^^ ·) c).map (rotateRight 7), c, d⟩

/-- The state with its diagonals as columns. -/
def diagonals (s : Block) : Block :=
  ⟨s.first, s.second.turn, s.third.turn.turn, s.fourth.turn.turn.turn⟩

/-- The state with its columns as diagonals. -/
def columns (s : Block) : Block :=
  ⟨s.first, s.second.turn.turn.turn, s.third.turn.turn, s.fourth.turn⟩

/-- One round: the columns of the state, then its diagonals. -/
def round (s m : Block) : Block :=
  let s := mix s (m.first.evens m.second) (m.first.odds m.second)
  columns (mix (diagonals s) (m.third.evens m.fourth) (m.third.odds m.fourth))

/-- A number of rounds, the block permuted between each two. -/
def rounds : Nat → Block → Block → Block
  | 0, s, _ => s
  | n + 1, s, m => rounds n (round s m) (permute m)

/-- All that one application of the hash function depends on. -/
structure Node where
  chain : Chain
  block : Block
  length : UInt32
  counter : UInt64
  flags : UInt32

namespace Node

/-- The chain after a node, with further flags. -/
def compress (n : Node) (flags : UInt32) : Chain :=
  let start : Block := ⟨n.chain.low, n.chain.high, initial.low,
    ⟨n.counter.toUInt32, (n.counter >>> 32).toUInt32, n.length, n.flags ||| flags⟩⟩
  let s := rounds 7 start n.block
  ⟨s.first.zip (· ^^^ ·) s.third, s.second.zip (· ^^^ ·) s.fourth⟩

/-- The node above two others. -/
def parent (left right : Node) : Node :=
  let l := left.compress 0
  let r := right.compress 0
  { chain := initial
    block := ⟨l.low, l.high, r.low, r.high⟩
    length := 64
    counter := 0
    flags := parentNode }

end Node

/-- A word as four bytes, the lowest first; bytes that are not there count as zero. -/
def wordOf (bytes : List UInt8) : UInt32 :=
  bytes.foldr (fun b w => (w <<< 8) ||| b.toUInt32) 0

/-- The words of at most 16 bytes. -/
def rowOf (bytes : List UInt8) : Row :=
  ⟨wordOf (bytes.take 4), wordOf ((bytes.drop 4).take 4), wordOf ((bytes.drop 8).take 4),
    wordOf ((bytes.drop 12).take 4)⟩

/-- The words of at most 64 bytes. -/
def blockOf (bytes : List UInt8) : Block :=
  ⟨rowOf bytes, rowOf (bytes.drop 16), rowOf (bytes.drop 32), rowOf (bytes.drop 48)⟩

/-- A list cut into parts of `n`, the last one perhaps shorter, and at most `fuel` of them. -/
def splitEvery (n : Nat) : Nat → List α → List (List α)
  | 0, _ | _, [] => []
  | fuel + 1, xs => xs.take n :: splitEvery n fuel (xs.drop n)

/-- The node of a chunk from its block `first` on, after what `chain` stands for. -/
def chunkFrom (counter : UInt64) (start : UInt32) (chain : Chain) : List UInt8 →
    List (List UInt8) → Node
  | bytes, [] =>
    ⟨chain, blockOf bytes, bytes.length.toUInt32, counter, start ||| chunkEnd⟩
  | bytes, next :: more =>
    let node : Node := ⟨chain, blockOf bytes, 64, counter, start⟩
    chunkFrom counter 0 (node.compress 0) next more

/-- The node of the chunk with a given number. -/
def chunk (number : Nat) (bytes : List UInt8) : Node :=
  match splitEvery 64 16 bytes with
  | [] => chunkFrom number.toUInt64 chunkStart initial [] []
  | first :: more => chunkFrom number.toUInt64 chunkStart initial first more

/-- The tree over chunks, at most `2 ^ height` of them: the left branch takes as many as the
largest power of two below their number. -/
def tree (first : Node) : Nat → List Node → Node
  | 0, ns => ns.headD first
  | height + 1, ns =>
    if ns.length ≤ 2 ^ height then tree first height ns
    else (tree first height (ns.take (2 ^ height))).parent (tree first height (ns.drop (2 ^ height)))

/-- The root of the tree over a byte sequence. -/
def root (bytes : List UInt8) : Node :=
  let chunks := (splitEvery 1024 (bytes.length + 1) bytes).mapIdx chunk
  tree (chunk 0 []) (Nat.log2 chunks.length + 1) chunks

/-- The digit for a number below sixteen. -/
def hexDigit (n : UInt8) : Char := "0123456789abcdef".toList.getD n.toNat '0'

/-- A word as eight digits, byte by byte from the lowest. -/
def hexWord (w : UInt32) : List Char :=
  [(0 : UInt32), 8, 16, 24].flatMap fun shift =>
    let b := (w >>> shift).toUInt8
    [hexDigit (b >>> 4), hexDigit (b &&& 15)]

/-- The digest of a byte sequence. -/
def ofBytes (bytes : List UInt8) : String :=
  let chain := (root bytes).compress rootNode
  String.ofList ((chain.low.toList ++ chain.high.toList).flatMap hexWord)

/-- The digest of a text, taken over its UTF-8 form. -/
def ofText (s : String) : String := ofBytes s.toUTF8.toList

end StoreBindings.Digest
