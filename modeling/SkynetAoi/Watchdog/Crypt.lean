import SkynetAoi.Lib.Bytes

/-!
This module contains the functions of `lua-crypt.c` that go into the token of a login.
-/

namespace Crypt

def encoding : List Char :=
  ['A', 'B', 'C', 'D', 'E', 'F', 'G', 'H', 'I', 'J', 'K', 'L', 'M', 'N', 'O', 'P', 'Q', 'R', 'S',
    'T', 'U', 'V', 'W', 'X', 'Y', 'Z', 'a', 'b', 'c', 'd', 'e', 'f', 'g', 'h', 'i', 'j', 'k', 'l',
    'm', 'n', 'o', 'p', 'q', 'r', 's', 't', 'u', 'v', 'w', 'x', 'y', 'z', '0', '1', '2', '3', '4',
    '5', '6', '7', '8', '9', '+', '/']

def encode (v : UInt32) : UInt8 :=
  (encoding.getD v.toNat 'A').toUInt8

def base64encode (text : Bytes) : Bytes :=
  match text with
  | x :: y :: z :: text =>
    let v := x.toUInt32 <<< 16 ||| y.toUInt32 <<< 8 ||| z.toUInt32
    encode (v >>> 18) :: encode (v >>> 12 &&& 0x3f) :: encode (v >>> 6 &&& 0x3f)
      :: encode (v &&& 0x3f) :: base64encode text
  | [x, y] =>
    let v := x.toUInt32 <<< 8 ||| y.toUInt32
    [encode (v >>> 10), encode (v >>> 4 &&& 0x3f), encode ((v &&& 0xf) <<< 2), '='.toUInt8]
  | [x] =>
    let v := x.toUInt32
    [encode (v >>> 2), encode ((v &&& 3) <<< 4), '='.toUInt8, '='.toUInt8]
  | [] => []

def hash (str : Bytes) : UInt32 × UInt32 :=
  str.foldl (fun (djb, js) c =>
    (djb + ((djb <<< 5) + c.toUInt32), js ^^^ ((js <<< 5) + c.toUInt32 + (js >>> 2))))
    (5381, 1315423911)

def pushqword (x : UInt32 × UInt32) : Bytes :=
  [x.1.toUInt8, (x.1 >>> 8).toUInt8, (x.1 >>> 16).toUInt8, (x.1 >>> 24).toUInt8,
    x.2.toUInt8, (x.2 >>> 8).toUInt8, (x.2 >>> 16).toUInt8, (x.2 >>> 24).toUInt8]

def hashkey (key : Bytes) : Bytes :=
  pushqword (hash key)

def k : List UInt32 :=
  [0xd76aa478, 0xe8c7b756, 0x242070db, 0xc1bdceee, 0xf57c0faf, 0x4787c62a, 0xa8304613, 0xfd469501,
    0x698098d8, 0x8b44f7af, 0xffff5bb1, 0x895cd7be, 0x6b901122, 0xfd987193, 0xa679438e, 0x49b40821,
    0xf61e2562, 0xc040b340, 0x265e5a51, 0xe9b6c7aa, 0xd62f105d, 0x02441453, 0xd8a1e681, 0xe7d3fbc8,
    0x21e1cde6, 0xc33707d6, 0xf4d50d87, 0x455a14ed, 0xa9e3e905, 0xfcefa3f8, 0x676f02d9, 0x8d2a4c8a,
    0xfffa3942, 0x8771f681, 0x6d9d6122, 0xfde5380c, 0xa4beea44, 0x4bdecfa9, 0xf6bb4b60, 0xbebfbc70,
    0x289b7ec6, 0xeaa127fa, 0xd4ef3085, 0x04881d05, 0xd9d4d039, 0xe6db99e5, 0x1fa27cf8, 0xc4ac5665,
    0xf4292244, 0x432aff97, 0xab9423a7, 0xfc93a039, 0x655b59c3, 0x8f0ccc92, 0xffeff47d, 0x85845dd1,
    0x6fa87e4f, 0xfe2ce6e0, 0xa3014314, 0x4e0811a1, 0xf7537e82, 0xbd3af235, 0x2ad7d2bb, 0xeb86d391]

def r : List UInt32 :=
  [7, 12, 17, 22, 7, 12, 17, 22, 7, 12, 17, 22, 7, 12, 17, 22,
    5, 9, 14, 20, 5, 9, 14, 20, 5, 9, 14, 20, 5, 9, 14, 20,
    4, 11, 16, 23, 4, 11, 16, 23, 4, 11, 16, 23, 4, 11, 16, 23,
    6, 10, 15, 21, 6, 10, 15, 21, 6, 10, 15, 21, 6, 10, 15, 21]

def leftrotate (x c : UInt32) : UInt32 :=
  x <<< c ||| x >>> (32 - c)

structure Digest where
  a : UInt32
  b : UInt32
  c : UInt32
  d : UInt32

namespace Digest

def init : Digest where
  a := 0x67452301
  b := 0xefcdab89
  c := 0x98badcfe
  d := 0x10325476

def mix (s : Digest) (i : Nat) : UInt32 :=
  if i < 16 then
    (s.b &&& s.c) ||| (~~~s.b &&& s.d)
  else if i < 32 then
    (s.d &&& s.b) ||| (~~~s.d &&& s.c)
  else if i < 48 then
    s.b ^^^ s.c ^^^ s.d
  else
    s.c ^^^ (s.b ||| ~~~s.d)

def pick (i : Nat) : Nat :=
  if i < 16 then
    i
  else if i < 32 then
    (5 * i + 1) % 16
  else if i < 48 then
    (3 * i + 5) % 16
  else
    (7 * i) % 16

def round (w : List UInt32) (s : Digest) (i : Nat) : Digest where
  a := s.d
  b := s.b + leftrotate (s.a + s.mix i + k.getD i 0 + w.getD (pick i) 0) (r.getD i 0)
  c := s.b
  d := s.c

end Digest

def digestMd5 (w : List UInt32) : Digest :=
  (List.range 64).foldl (Digest.round w) .init

def hmac (x y : UInt32 × UInt32) : UInt32 × UInt32 :=
  let w := (List.replicate 4 [x.2, x.1, y.2, y.1]).flatten
  let result := digestMd5 w
  (result.c ^^^ result.d, result.a ^^^ result.b)

def word (x0 x1 x2 x3 : UInt8) : UInt32 :=
  x0.toUInt32 ||| x1.toUInt32 <<< 8 ||| x2.toUInt32 <<< 16 ||| x3.toUInt32 <<< 24

-- Anything but 8 bytes raises.
def read64 (x : Bytes) : Option (UInt32 × UInt32) :=
  match x with
  | [x0, x1, x2, x3, x4, x5, x6, x7] => some (word x0 x1 x2 x3, word x4 x5 x6 x7)
  | _ => none

def hmac64 (x y : Bytes) : Option Bytes :=
  match read64 x, read64 y with
  | some x, some y => some (pushqword (hmac x y))
  | _, _ => none

theorem read64_isSome (x : Bytes) : (read64 x).isSome = (x.length == 8) := by
  fun_cases read64 x with
  | case1 => rfl
  | case2 x hx =>
    rw [Option.isSome_none, eq_comm, beq_eq_false_iff_ne]
    intro hlen
    match x, hlen with
    | [x0, x1, x2, x3, x4, x5, x6, x7], _ => exact hx x0 x1 x2 x3 x4 x5 x6 x7 rfl

theorem hmac64_hashkey_isSome (key secret : Bytes)
    : (hmac64 (hashkey key) secret).isSome = (secret.length == 8) := by
  rw [← read64_isSome, hmac64]
  cases read64 secret <;> rfl

end Crypt
