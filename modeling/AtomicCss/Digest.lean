/-!
# Content digests

The MD5 digest of a text's UTF-8 bytes, of which generated names keep the first seven
hexadecimal digits.
-/

namespace AtomicCss.Digest

/-- The four words of the digest's state. -/
structure State where
  a : UInt32
  b : UInt32
  c : UInt32
  d : UInt32
  deriving DecidableEq, Repr

def State.initial : State := ⟨0x67452301, 0xefcdab89, 0x98badcfe, 0x10325476⟩

/-- The integer parts of `2 ^ 32 * |sin (i + 1)|`. -/
def sines : List UInt32 :=
  [0xd76aa478, 0xe8c7b756, 0x242070db, 0xc1bdceee, 0xf57c0faf, 0x4787c62a, 0xa8304613, 0xfd469501,
   0x698098d8, 0x8b44f7af, 0xffff5bb1, 0x895cd7be, 0x6b901122, 0xfd987193, 0xa679438e, 0x49b40821,
   0xf61e2562, 0xc040b340, 0x265e5a51, 0xe9b6c7aa, 0xd62f105d, 0x02441453, 0xd8a1e681, 0xe7d3fbc8,
   0x21e1cde6, 0xc33707d6, 0xf4d50d87, 0x455a14ed, 0xa9e3e905, 0xfcefa3f8, 0x676f02d9, 0x8d2a4c8a,
   0xfffa3942, 0x8771f681, 0x6d9d6122, 0xfde5380c, 0xa4beea44, 0x4bdecfa9, 0xf6bb4b60, 0xbebfbc70,
   0x289b7ec6, 0xeaa127fa, 0xd4ef3085, 0x04881d05, 0xd9d4d039, 0xe6db99e5, 0x1fa27cf8, 0xc4ac5665,
   0xf4292244, 0x432aff97, 0xab9423a7, 0xfc93a039, 0x655b59c3, 0x8f0ccc92, 0xffeff47d, 0x85845dd1,
   0x6fa87e4f, 0xfe2ce6e0, 0xa3014314, 0x4e0811a1, 0xf7537e82, 0xbd3af235, 0x2ad7d2bb, 0xeb86d391]

/-- How far step `i` rotates. -/
def rotation (i : Nat) : UInt32 :=
  let amounts : List UInt32 :=
    if i < 16 then [7, 12, 17, 22] else if i < 32 then [5, 9, 14, 20]
    else if i < 48 then [4, 11, 16, 23] else [6, 10, 15, 21]
  amounts.getD (i % 4) 0

def rotateLeft (x n : UInt32) : UInt32 :=
  (x <<< n) ||| (x >>> (32 - n))

def step (block : Array UInt32) (s : State) (i : Nat) (sine : UInt32) : State :=
  let (mix, word) :=
    if i < 16 then ((s.b &&& s.c) ||| (~~~s.b &&& s.d), i)
    else if i < 32 then ((s.d &&& s.b) ||| (~~~s.d &&& s.c), (5 * i + 1) % 16)
    else if i < 48 then (s.b ^^^ s.c ^^^ s.d, (3 * i + 5) % 16)
    else (s.c ^^^ (s.b ||| ~~~s.d), 7 * i % 16)
  let sum := s.a + mix + sine + block.getD word 0
  ⟨s.d, s.b + rotateLeft sum (rotation i), s.b, s.c⟩

def addBlock (s : State) (block : Array UInt32) : State :=
  let t := sines.zipIdx.foldl (fun t (sine, i) => step block t i sine) s
  ⟨s.a + t.a, s.b + t.b, s.c + t.c, s.d + t.d⟩

/-- The message, a one bit, zeros up to eight bytes short of a block, and the bit length. -/
def padded (bytes : List UInt8) : List UInt8 :=
  let zeros := (119 - bytes.length % 64) % 64
  let bits := 8 * bytes.length
  bytes ++ 0x80 :: (List.replicate zeros (0 : UInt8)
    ++ (List.range 8).map fun i => UInt8.ofNat (bits / Nat.pow 256 i % 256))

/-- Four bytes make a word, the least significant first. -/
def words : List UInt8 → List UInt32
  | a :: b :: c :: d :: rest =>
    (a.toUInt32 ||| (b.toUInt32 <<< 8) ||| (c.toUInt32 <<< 16) ||| (d.toUInt32 <<< 24))
      :: words rest
  | _ => []

def addWords (s : State) (ws : List UInt32) : State :=
  if ws.length < 16 then s
  else addWords (addBlock s (ws.take 16).toArray) (ws.drop 16)
  termination_by ws.length
  decreasing_by simp only [List.length_drop]; omega

def wordBytes (w : UInt32) : List UInt8 :=
  [w.toUInt8, (w >>> 8).toUInt8, (w >>> 16).toUInt8, (w >>> 24).toUInt8]

def md5 (bytes : List UInt8) : List UInt8 :=
  let s := addWords .initial (words (padded bytes))
  wordBytes s.a ++ wordBytes s.b ++ wordBytes s.c ++ wordBytes s.d

def hexByte (b : UInt8) : List Char :=
  [Nat.digitChar (b.toNat / 16), Nat.digitChar (b.toNat % 16)]

def hex (s : String) : List Char :=
  (md5 s.toUTF8.toList).flatMap hexByte

/-- The number of hexadecimal digits that a generated name keeps. -/
def shortLength : Nat := 7

/-- The short digest of a text. -/
def short (s : String) : String :=
  String.ofList ((hex s).take shortLength)

end AtomicCss.Digest
