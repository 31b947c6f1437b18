import Mathlib
import Huicpp.Cxx.BlockHash

/-!
# Crypto.BlockHashes

MD5 and SHA-256, as the OpenSSL that comes with the repository computes them.
-/

namespace Huicpp
namespace Crypto

open Cxx

/-- `HOST_c2l`, for the four bytes at a time of a block. -/
def words (c2l : List Byte → Nat) : Nat → List Byte → List (BitVec 32)
  | 0, _ => []
  | k + 1, data => BitVec.ofNat 32 (c2l (data.take 4)) :: words c2l k (data.drop 4)

/-- `HOST_l2c` on a little-endian host. -/
def l2c (l : BitVec 32) : List Byte := leBytes 4 l.toNat

theorem l2c_length (l : BitVec 32) : (l2c l).length = 4 := leBytes_length 4 l.toNat

/-! ## MD5 -/

namespace Md5

structure State where
  a : BitVec 32
  b : BitVec 32
  c : BitVec 32
  d : BitVec 32

def initData : State := ⟨0x67452301, 0xefcdab89, 0x98badcfe, 0x10325476⟩

def f (b c d : BitVec 32) : BitVec 32 := ((c ^^^ d) &&& b) ^^^ d
def g (b c d : BitVec 32) : BitVec 32 := ((b ^^^ c) &&& d) ^^^ c
def h (b c d : BitVec 32) : BitVec 32 := b ^^^ c ^^^ d
def i (b c d : BitVec 32) : BitVec 32 := (~~~d ||| b) ^^^ c

/-- `R0` to `R3`, with the variables in the order of the call after it. -/
def round (fn : BitVec 32 → BitVec 32 → BitVec 32 → BitVec 32) (x : List (BitVec 32)) (s : State)
    (kst : Nat × Nat × BitVec 32) : State :=
  let a := s.a + (x.getD kst.1 0 + kst.2.2 + fn s.b s.c s.d)
  ⟨s.d, a.rotateLeft kst.2.1 + s.b, s.b, s.c⟩

def round0 : List (Nat × Nat × BitVec 32) :=
  [(0, 7, 0xd76aa478), (1, 12, 0xe8c7b756), (2, 17, 0x242070db), (3, 22, 0xc1bdceee),
   (4, 7, 0xf57c0faf), (5, 12, 0x4787c62a), (6, 17, 0xa8304613), (7, 22, 0xfd469501),
   (8, 7, 0x698098d8), (9, 12, 0x8b44f7af), (10, 17, 0xffff5bb1), (11, 22, 0x895cd7be),
   (12, 7, 0x6b901122), (13, 12, 0xfd987193), (14, 17, 0xa679438e), (15, 22, 0x49b40821)]

def round1 : List (Nat × Nat × BitVec 32) :=
  [(1, 5, 0xf61e2562), (6, 9, 0xc040b340), (11, 14, 0x265e5a51), (0, 20, 0xe9b6c7aa),
   (5, 5, 0xd62f105d), (10, 9, 0x02441453), (15, 14, 0xd8a1e681), (4, 20, 0xe7d3fbc8),
   (9, 5, 0x21e1cde6), (14, 9, 0xc33707d6), (3, 14, 0xf4d50d87), (8, 20, 0x455a14ed),
   (13, 5, 0xa9e3e905), (2, 9, 0xfcefa3f8), (7, 14, 0x676f02d9), (12, 20, 0x8d2a4c8a)]

def round2 : List (Nat × Nat × BitVec 32) :=
  [(5, 4, 0xfffa3942), (8, 11, 0x8771f681), (11, 16, 0x6d9d6122), (14, 23, 0xfde5380c),
   (1, 4, 0xa4beea44), (4, 11, 0x4bdecfa9), (7, 16, 0xf6bb4b60), (10, 23, 0xbebfbc70),
   (13, 4, 0x289b7ec6), (0, 11, 0xeaa127fa), (3, 16, 0xd4ef3085), (6, 23, 0x04881d05),
   (9, 4, 0xd9d4d039), (12, 11, 0xe6db99e5), (15, 16, 0x1fa27cf8), (2, 23, 0xc4ac5665)]

def round3 : List (Nat × Nat × BitVec 32) :=
  [(0, 6, 0xf4292244), (7, 10, 0x432aff97), (14, 15, 0xab9423a7), (5, 21, 0xfc93a039),
   (12, 6, 0x655b59c3), (3, 10, 0x8f0ccc92), (10, 15, 0xffeff47d), (1, 21, 0x85845dd1),
   (8, 6, 0x6fa87e4f), (15, 10, 0xfe2ce6e0), (6, 15, 0xa3014314), (13, 21, 0x4e0811a1),
   (4, 6, 0xf7537e82), (11, 10, 0xbd3af235), (2, 15, 0x2ad7d2bb), (9, 21, 0xeb86d391)]

/-- `md5_block_data_order`, for one block. -/
def block (c : State) (data : List Byte) : State :=
  let x := words leNat 16 data
  let r := round0.foldl (round f x) c
  let r := round1.foldl (round g x) r
  let r := round2.foldl (round h x) r
  let r := round3.foldl (round i x) r
  ⟨c.a + r.a, c.b + r.b, c.c + r.c, c.d + r.d⟩

def makeString (c : State) : List Byte := l2c c.a ++ l2c c.b ++ l2c c.c ++ l2c c.d

def hash : BlockHash 16 where
  State := State
  init := initData
  block := block
  lenBytes := leBytes 8
  makeString := makeString
  makeString_length c := by simp only [makeString, List.length_append, l2c_length]

end Md5

/-! ## SHA-256 -/

namespace Sha256

structure State where
  a : BitVec 32
  b : BitVec 32
  c : BitVec 32
  d : BitVec 32
  e : BitVec 32
  f : BitVec 32
  g : BitVec 32
  h : BitVec 32

def init : State :=
  ⟨0x6a09e667, 0xbb67ae85, 0x3c6ef372, 0xa54ff53a,
   0x510e527f, 0x9b05688c, 0x1f83d9ab, 0x5be0cd19⟩

def k256 : List (BitVec 32) :=
  [0x428a2f98, 0x71374491, 0xb5c0fbcf, 0xe9b5dba5, 0x3956c25b, 0x59f111f1, 0x923f82a4, 0xab1c5ed5,
   0xd807aa98, 0x12835b01, 0x243185be, 0x550c7dc3, 0x72be5d74, 0x80deb1fe, 0x9bdc06a7, 0xc19bf174,
   0xe49b69c1, 0xefbe4786, 0x0fc19dc6, 0x240ca1cc, 0x2de92c6f, 0x4a7484aa, 0x5cb0a9dc, 0x76f988da,
   0x983e5152, 0xa831c66d, 0xb00327c8, 0xbf597fc7, 0xc6e00bf3, 0xd5a79147, 0x06ca6351, 0x14292967,
   0x27b70a85, 0x2e1b2138, 0x4d2c6dfc, 0x53380d13, 0x650a7354, 0x766a0abb, 0x81c2c92e, 0x92722c85,
   0xa2bfe8a1, 0xa81a664b, 0xc24b8b70, 0xc76c51a3, 0xd192e819, 0xd6990624, 0xf40e3585, 0x106aa070,
   0x19a4c116, 0x1e376c08, 0x2748774c, 0x34b0bcb5, 0x391c0cb3, 0x4ed8aa4a, 0x5b9cca4f, 0x682e6ff3,
   0x748f82ee, 0x78a5636f, 0x84c87814, 0x8cc70208, 0x90befffa, 0xa4506ceb, 0xbef9a3f7, 0xc67178f2]

def bigSigma0 (x : BitVec 32) : BitVec 32 := x.rotateLeft 30 ^^^ x.rotateLeft 19 ^^^ x.rotateLeft 10
def bigSigma1 (x : BitVec 32) : BitVec 32 := x.rotateLeft 26 ^^^ x.rotateLeft 21 ^^^ x.rotateLeft 7
def sigma0 (x : BitVec 32) : BitVec 32 := x.rotateLeft 25 ^^^ x.rotateLeft 14 ^^^ (x >>> 3)
def sigma1 (x : BitVec 32) : BitVec 32 := x.rotateLeft 15 ^^^ x.rotateLeft 13 ^^^ (x >>> 10)
def ch (x y z : BitVec 32) : BitVec 32 := (x &&& y) ^^^ (~~~x &&& z)
def maj (x y z : BitVec 32) : BitVec 32 := (x &&& y) ^^^ (x &&& z) ^^^ (y &&& z)

/-- One turn, with `X[i]` and `K256[i]`. -/
def round (s : State) (x k : BitVec 32) : State :=
  let t1 := x + (s.h + bigSigma1 s.e + ch s.e s.f s.g + k)
  let t2 := bigSigma0 s.a + maj s.a s.b s.c
  ⟨t1 + t2, s.a, s.b, s.c, s.d + t1, s.e, s.f, s.g⟩

/-- The turns, of which `x` are the 16 words that come next. -/
def rounds : List (BitVec 32) → List (BitVec 32) → State → State
  | k :: ks, x, s =>
    let next := x.getD 0 0 + (sigma0 (x.getD 1 0) + sigma1 (x.getD 14 0) + x.getD 9 0)
    rounds ks (x.drop 1 ++ [next]) (round s (x.getD 0 0) k)
  | [], _, s => s

/-- `sha256_block_data_order`, for one block. -/
def block (c : State) (data : List Byte) : State :=
  let r := rounds k256 (words (fun bs => leNat bs.reverse) 16 data) c
  ⟨c.a + r.a, c.b + r.b, c.c + r.c, c.d + r.d, c.e + r.e, c.f + r.f, c.g + r.g, c.h + r.h⟩

def makeString (c : State) : List Byte :=
  [c.a, c.b, c.c, c.d, c.e, c.f, c.g, c.h].flatMap fun l => (l2c l).reverse

def hash : BlockHash 32 where
  State := State
  init := init
  block := block
  lenBytes bits := (leBytes 8 bits).reverse
  makeString := makeString
  makeString_length c := by simp [makeString, l2c_length]

end Sha256

end Crypto
end Huicpp
