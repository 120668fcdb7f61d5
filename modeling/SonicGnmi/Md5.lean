import Mathlib.Data.List.Basic

/-!
# The MD5 digest of `crypto/md5`

`md5Sum b` is `md5.Sum(b)`: the message is padded with `0x80`, zeros and its length in
bits, and absorbed byte by byte into 64-byte blocks, each of which runs the 64 rounds
of the compression function on the four-word state. Only the closed statements of the
development evaluate at it; every theorem about the handlers holds for any digest
function, so none of them depends on how the rounds mix the bits.
-/

namespace SonicGnmi.Md5

/-- The four-word state `(a, b, c, d)`. -/
abbrev Words := UInt32 × UInt32 × UInt32 × UInt32

/-- The initial state. -/
def init : Words := (0x67452301, 0xefcdab89, 0x98badcfe, 0x10325476)

/-- The left rotation of each round. -/
def shifts : List UInt32 :=
  [7, 12, 17, 22, 7, 12, 17, 22, 7, 12, 17, 22, 7, 12, 17, 22,
    5, 9, 14, 20, 5, 9, 14, 20, 5, 9, 14, 20, 5, 9, 14, 20,
    4, 11, 16, 23, 4, 11, 16, 23, 4, 11, 16, 23, 4, 11, 16, 23,
    6, 10, 15, 21, 6, 10, 15, 21, 6, 10, 15, 21, 6, 10, 15, 21]

/-- The additive constant of each round, the integer part of `2^32 * |sin (i + 1)|`. -/
def sines : List UInt32 :=
  [0xd76aa478, 0xe8c7b756, 0x242070db, 0xc1bdceee, 0xf57c0faf, 0x4787c62a, 0xa8304613,
    0xfd469501, 0x698098d8, 0x8b44f7af, 0xffff5bb1, 0x895cd7be, 0x6b901122, 0xfd987193,
    0xa679438e, 0x49b40821, 0xf61e2562, 0xc040b340, 0x265e5a51, 0xe9b6c7aa, 0xd62f105d,
    0x02441453, 0xd8a1e681, 0xe7d3fbc8, 0x21e1cde6, 0xc33707d6, 0xf4d50d87, 0x455a14ed,
    0xa9e3e905, 0xfcefa3f8, 0x676f02d9, 0x8d2a4c8a, 0xfffa3942, 0x8771f681, 0x6d9d6122,
    0xfde5380c, 0xa4beea44, 0x4bdecfa9, 0xf6bb4b60, 0xbebfbc70, 0x289b7ec6, 0xeaa127fa,
    0xd4ef3085, 0x04881d05, 0xd9d4d039, 0xe6db99e5, 0x1fa27cf8, 0xc4ac5665, 0xf4292244,
    0x432aff97, 0xab9423a7, 0xfc93a039, 0x655b59c3, 0x8f0ccc92, 0xffeff47d, 0x85845dd1,
    0x6fa87e4f, 0xfe2ce6e0, 0xa3014314, 0x4e0811a1, 0xf7537e82, 0xbd3af235, 0x2ad7d2bb,
    0xeb86d391]

/-- The `g`-th little-endian word of a block. -/
def word (blk : List UInt8) (g : Nat) : UInt32 :=
  (blk.getD (4 * g) 0).toUInt32 ||| (blk.getD (4 * g + 1) 0).toUInt32 <<< 8 |||
    (blk.getD (4 * g + 2) 0).toUInt32 <<< 16 ||| (blk.getD (4 * g + 3) 0).toUInt32 <<< 24

/-- Round `i` of the compression function on block `blk`. -/
def round (blk : List UInt8) (st : Words) (i : Nat) : Words :=
  let (a, b, c, d) := st
  let (f, g) :=
    if i < 16 then ((b &&& c) ||| (~~~b &&& d), i)
    else if i < 32 then ((d &&& b) ||| (~~~d &&& c), (5 * i + 1) % 16)
    else if i < 48 then (b ^^^ c ^^^ d, (3 * i + 5) % 16)
    else (c ^^^ (b ||| ~~~d), (7 * i) % 16)
  let x := f + a + sines.getD i 0 + word blk g
  let s := shifts.getD i 0
  (d, b + ((x <<< s) ||| (x >>> (32 - s))), b, c)

/-- The compression function: the 64 rounds, added to the state. -/
def block (st : Words) (blk : List UInt8) : Words :=
  let (a, b, c, d) := (List.range 64).foldl (round blk) st
  (st.1 + a, st.2.1 + b, st.2.2.1 + c, st.2.2.2 + d)

/-- Absorb one byte: buffer it, and compress once 64 are buffered. -/
def absorb (acc : Words × List UInt8) (byte : UInt8) : Words × List UInt8 :=
  let buf := acc.2 ++ [byte]
  if buf.length = 64 then (block acc.1 buf, []) else (acc.1, buf)

/-- The padding of an `n`-byte message: `0x80`, zeros up to 56 bytes mod 64, and the
length in bits as eight little-endian bytes. -/
def padding (n : Nat) : List UInt8 :=
  (0x80 : UInt8) :: List.replicate ((119 - n % 64) % 64) (0 : UInt8) ++
    (List.range 8).map fun i => ((n * 8) >>> (8 * i)).toUInt8

/-- A word as four little-endian bytes. -/
def bytesOf (w : UInt32) : List UInt8 :=
  [w.toUInt8, (w >>> 8).toUInt8, (w >>> 16).toUInt8, (w >>> 24).toUInt8]

/-- `md5.Sum(data)`. -/
def md5Sum (data : List UInt8) : List UInt8 :=
  let (a, b, c, d) := ((data ++ padding data.length).foldl absorb (init, [])).1
  bytesOf a ++ bytesOf b ++ bytesOf c ++ bytesOf d

end SonicGnmi.Md5
