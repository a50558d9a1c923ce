import SkynetAoi.Lib.Bytes
import SkynetAoi.Lib.Feistel

/-!
This module contains DES as `lua-crypt.c` has it. A block is two words, and so is what the key schedule
makes for a round.
-/

namespace Crypt

def sb1 : List UInt32 :=
  [0x01010400, 0x00000000, 0x00010000, 0x01010404, 0x01010004, 0x00010404, 0x00000004, 0x00010000,
    0x00000400, 0x01010400, 0x01010404, 0x00000400, 0x01000404, 0x01010004, 0x01000000, 0x00000004,
    0x00000404, 0x01000400, 0x01000400, 0x00010400, 0x00010400, 0x01010000, 0x01010000, 0x01000404,
    0x00010004, 0x01000004, 0x01000004, 0x00010004, 0x00000000, 0x00000404, 0x00010404, 0x01000000,
    0x00010000, 0x01010404, 0x00000004, 0x01010000, 0x01010400, 0x01000000, 0x01000000, 0x00000400,
    0x01010004, 0x00010000, 0x00010400, 0x01000004, 0x00000400, 0x00000004, 0x01000404, 0x00010404,
    0x01010404, 0x00010004, 0x01010000, 0x01000404, 0x01000004, 0x00000404, 0x00010404, 0x01010400,
    0x00000404, 0x01000400, 0x01000400, 0x00000000, 0x00010004, 0x00010400, 0x00000000, 0x01010004]

def sb2 : List UInt32 :=
  [0x80108020, 0x80008000, 0x00008000, 0x00108020, 0x00100000, 0x00000020, 0x80100020, 0x80008020,
    0x80000020, 0x80108020, 0x80108000, 0x80000000, 0x80008000, 0x00100000, 0x00000020, 0x80100020,
    0x00108000, 0x00100020, 0x80008020, 0x00000000, 0x80000000, 0x00008000, 0x00108020, 0x80100000,
    0x00100020, 0x80000020, 0x00000000, 0x00108000, 0x00008020, 0x80108000, 0x80100000, 0x00008020,
    0x00000000, 0x00108020, 0x80100020, 0x00100000, 0x80008020, 0x80100000, 0x80108000, 0x00008000,
    0x80100000, 0x80008000, 0x00000020, 0x80108020, 0x00108020, 0x00000020, 0x00008000, 0x80000000,
    0x00008020, 0x80108000, 0x00100000, 0x80000020, 0x00100020, 0x80008020, 0x80000020, 0x00100020,
    0x00108000, 0x00000000, 0x80008000, 0x00008020, 0x80000000, 0x80100020, 0x80108020, 0x00108000]

def sb3 : List UInt32 :=
  [0x00000208, 0x08020200, 0x00000000, 0x08020008, 0x08000200, 0x00000000, 0x00020208, 0x08000200,
    0x00020008, 0x08000008, 0x08000008, 0x00020000, 0x08020208, 0x00020008, 0x08020000, 0x00000208,
    0x08000000, 0x00000008, 0x08020200, 0x00000200, 0x00020200, 0x08020000, 0x08020008, 0x00020208,
    0x08000208, 0x00020200, 0x00020000, 0x08000208, 0x00000008, 0x08020208, 0x00000200, 0x08000000,
    0x08020200, 0x08000000, 0x00020008, 0x00000208, 0x00020000, 0x08020200, 0x08000200, 0x00000000,
    0x00000200, 0x00020008, 0x08020208, 0x08000200, 0x08000008, 0x00000200, 0x00000000, 0x08020008,
    0x08000208, 0x00020000, 0x08000000, 0x08020208, 0x00000008, 0x00020208, 0x00020200, 0x08000008,
    0x08020000, 0x08000208, 0x00000208, 0x08020000, 0x00020208, 0x00000008, 0x08020008, 0x00020200]

def sb4 : List UInt32 :=
  [0x00802001, 0x00002081, 0x00002081, 0x00000080, 0x00802080, 0x00800081, 0x00800001, 0x00002001,
    0x00000000, 0x00802000, 0x00802000, 0x00802081, 0x00000081, 0x00000000, 0x00800080, 0x00800001,
    0x00000001, 0x00002000, 0x00800000, 0x00802001, 0x00000080, 0x00800000, 0x00002001, 0x00002080,
    0x00800081, 0x00000001, 0x00002080, 0x00800080, 0x00002000, 0x00802080, 0x00802081, 0x00000081,
    0x00800080, 0x00800001, 0x00802000, 0x00802081, 0x00000081, 0x00000000, 0x00000000, 0x00802000,
    0x00002080, 0x00800080, 0x00800081, 0x00000001, 0x00802001, 0x00002081, 0x00002081, 0x00000080,
    0x00802081, 0x00000081, 0x00000001, 0x00002000, 0x00800001, 0x00002001, 0x00802080, 0x00800081,
    0x00002001, 0x00002080, 0x00800000, 0x00802001, 0x00000080, 0x00800000, 0x00002000, 0x00802080]

def sb5 : List UInt32 :=
  [0x00000100, 0x02080100, 0x02080000, 0x42000100, 0x00080000, 0x00000100, 0x40000000, 0x02080000,
    0x40080100, 0x00080000, 0x02000100, 0x40080100, 0x42000100, 0x42080000, 0x00080100, 0x40000000,
    0x02000000, 0x40080000, 0x40080000, 0x00000000, 0x40000100, 0x42080100, 0x42080100, 0x02000100,
    0x42080000, 0x40000100, 0x00000000, 0x42000000, 0x02080100, 0x02000000, 0x42000000, 0x00080100,
    0x00080000, 0x42000100, 0x00000100, 0x02000000, 0x40000000, 0x02080000, 0x42000100, 0x40080100,
    0x02000100, 0x40000000, 0x42080000, 0x02080100, 0x40080100, 0x00000100, 0x02000000, 0x42080000,
    0x42080100, 0x00080100, 0x42000000, 0x42080100, 0x02080000, 0x00000000, 0x40080000, 0x42000000,
    0x00080100, 0x02000100, 0x40000100, 0x00080000, 0x00000000, 0x40080000, 0x02080100, 0x40000100]

def sb6 : List UInt32 :=
  [0x20000010, 0x20400000, 0x00004000, 0x20404010, 0x20400000, 0x00000010, 0x20404010, 0x00400000,
    0x20004000, 0x00404010, 0x00400000, 0x20000010, 0x00400010, 0x20004000, 0x20000000, 0x00004010,
    0x00000000, 0x00400010, 0x20004010, 0x00004000, 0x00404000, 0x20004010, 0x00000010, 0x20400010,
    0x20400010, 0x00000000, 0x00404010, 0x20404000, 0x00004010, 0x00404000, 0x20404000, 0x20000000,
    0x20004000, 0x00000010, 0x20400010, 0x00404000, 0x20404010, 0x00400000, 0x00004010, 0x20000010,
    0x00400000, 0x20004000, 0x20000000, 0x00004010, 0x20000010, 0x20404010, 0x00404000, 0x20400000,
    0x00404010, 0x20404000, 0x00000000, 0x20400010, 0x00000010, 0x00004000, 0x20400000, 0x00404010,
    0x00004000, 0x00400010, 0x20004010, 0x00000000, 0x20404000, 0x20000000, 0x00400010, 0x20004010]

def sb7 : List UInt32 :=
  [0x00200000, 0x04200002, 0x04000802, 0x00000000, 0x00000800, 0x04000802, 0x00200802, 0x04200800,
    0x04200802, 0x00200000, 0x00000000, 0x04000002, 0x00000002, 0x04000000, 0x04200002, 0x00000802,
    0x04000800, 0x00200802, 0x00200002, 0x04000800, 0x04000002, 0x04200000, 0x04200800, 0x00200002,
    0x04200000, 0x00000800, 0x00000802, 0x04200802, 0x00200800, 0x00000002, 0x04000000, 0x00200800,
    0x04000000, 0x00200800, 0x00200000, 0x04000802, 0x04000802, 0x04200002, 0x04200002, 0x00000002,
    0x00200002, 0x04000000, 0x04000800, 0x00200000, 0x04200800, 0x00000802, 0x00200802, 0x04200800,
    0x00000802, 0x04000002, 0x04200802, 0x04200000, 0x00200800, 0x00000000, 0x00000002, 0x04200802,
    0x00000000, 0x00200802, 0x04200000, 0x00000800, 0x04000002, 0x04000800, 0x00000800, 0x00200002]

def sb8 : List UInt32 :=
  [0x10001040, 0x00001000, 0x00040000, 0x10041040, 0x10000000, 0x10001040, 0x00000040, 0x10000000,
    0x00040040, 0x10040000, 0x10041040, 0x00041000, 0x10041000, 0x00041040, 0x00001000, 0x00000040,
    0x10040000, 0x10000040, 0x10001000, 0x00001040, 0x00041000, 0x00040040, 0x10040040, 0x10041000,
    0x00001040, 0x00000000, 0x00000000, 0x10040040, 0x10000040, 0x10001000, 0x00041040, 0x00040000,
    0x00041040, 0x00040000, 0x10041000, 0x00001000, 0x00000040, 0x10040040, 0x00001000, 0x00041040,
    0x10001000, 0x00000040, 0x10000040, 0x10040000, 0x10040040, 0x10000000, 0x00040000, 0x10001040,
    0x00000000, 0x10041040, 0x00040040, 0x10000040, 0x10040000, 0x10001000, 0x10001040, 0x00000000,
    0x10041040, 0x00041000, 0x00041000, 0x00001040, 0x00001040, 0x00040040, 0x10000000, 0x10041000]

def lhs : List UInt32 :=
  [0x00000000, 0x00000001, 0x00000100, 0x00000101, 0x00010000, 0x00010001, 0x00010100, 0x00010101,
    0x01000000, 0x01000001, 0x01000100, 0x01000101, 0x01010000, 0x01010001, 0x01010100, 0x01010101]

def rhs : List UInt32 :=
  [0x00000000, 0x01000000, 0x00010000, 0x01010000, 0x00000100, 0x01000100, 0x00010100, 0x01010100,
    0x00000001, 0x01000001, 0x00010001, 0x01010001, 0x00000101, 0x01000101, 0x00010101, 0x01010101]

def lookup (table : List UInt32) (t : UInt32) : UInt32 := table.getD t.toNat 0

def getUint32 (b0 b1 b2 b3 : UInt8) : UInt32 :=
  b0.toUInt32 <<< 24 ||| b1.toUInt32 <<< 16 ||| b2.toUInt32 <<< 8 ||| b3.toUInt32

def putUint32 (n : UInt32) : Bytes :=
  [(n >>> 24).toUInt8, (n >>> 16).toUInt8, (n >>> 8).toUInt8, n.toUInt8]

abbrev Block := UInt32 × UInt32

def swapBits (s mask : UInt32) (b : Block) : Block :=
  let t := (b.1 >>> s ^^^ b.2) &&& mask
  (b.1 ^^^ t <<< s, b.2 ^^^ t)

def rotl1 (x : UInt32) : UInt32 := x <<< 1 ||| x >>> 31

def rotr1 (x : UInt32) : UInt32 := x <<< 31 ||| x >>> 1

def desIp (b : Block) : Block :=
  let b := swapBits 4 0x0F0F0F0F b
  let b := swapBits 16 0x0000FFFF b
  let b := (swapBits 2 0x33333333 b.swap).swap
  let b := (swapBits 8 0x00FF00FF b.swap).swap
  let b := (b.1, rotl1 b.2)
  let b := swapBits 0 0xAAAAAAAA b
  (rotl1 b.1, b.2)

def desFp (b : Block) : Block :=
  let b := (rotr1 b.1, b.2)
  let b := swapBits 0 0xAAAAAAAA b
  let b := (b.1, rotr1 b.2)
  let b := (swapBits 8 0x00FF00FF b.swap).swap
  let b := (swapBits 2 0x33333333 b.swap).swap
  let b := swapBits 16 0x0000FFFF b
  swapBits 4 0x0F0F0F0F b

-- What `DES_ROUND(X,Y)` puts into `Y`.
def desRound (sk : UInt32 × UInt32) (x : UInt32) : UInt32 :=
  let t := sk.1 ^^^ x
  let y := lookup sb8 (t &&& 0x3F) ^^^ lookup sb6 (t >>> 8 &&& 0x3F)
    ^^^ lookup sb4 (t >>> 16 &&& 0x3F) ^^^ lookup sb2 (t >>> 24 &&& 0x3F)
  let t := sk.2 ^^^ (x <<< 28 ||| x >>> 4)
  y ^^^ (lookup sb7 (t &&& 0x3F) ^^^ lookup sb5 (t >>> 8 &&& 0x3F)
    ^^^ lookup sb3 (t >>> 16 &&& 0x3F) ^^^ lookup sb1 (t >>> 24 &&& 0x3F))

def pc1 (b : Block) : Block :=
  let (x, y) := b
  let t := (y >>> 4 ^^^ x) &&& 0x0F0F0F0F
  let (x, y) := (x ^^^ t, y ^^^ t <<< 4)
  let t := (y ^^^ x) &&& 0x10101010
  let (x, y) := (x ^^^ t, y ^^^ t)
  let x :=
    lookup lhs (x &&& 0xF) <<< 3 ||| lookup lhs (x >>> 8 &&& 0xF) <<< 2
      ||| lookup lhs (x >>> 16 &&& 0xF) <<< 1 ||| lookup lhs (x >>> 24 &&& 0xF)
      ||| lookup lhs (x >>> 5 &&& 0xF) <<< 7 ||| lookup lhs (x >>> 13 &&& 0xF) <<< 6
      ||| lookup lhs (x >>> 21 &&& 0xF) <<< 5 ||| lookup lhs (x >>> 29 &&& 0xF) <<< 4
  let y :=
    lookup rhs (y >>> 1 &&& 0xF) <<< 3 ||| lookup rhs (y >>> 9 &&& 0xF) <<< 2
      ||| lookup rhs (y >>> 17 &&& 0xF) <<< 1 ||| lookup rhs (y >>> 25 &&& 0xF)
      ||| lookup rhs (y >>> 4 &&& 0xF) <<< 7 ||| lookup rhs (y >>> 12 &&& 0xF) <<< 6
      ||| lookup rhs (y >>> 20 &&& 0xF) <<< 5 ||| lookup rhs (y >>> 28 &&& 0xF) <<< 4
  (x &&& 0x0FFFFFFF, y &&& 0x0FFFFFFF)

def rotateKey (i : Nat) (x : UInt32) : UInt32 :=
  if i < 2 ∨ i = 8 ∨ i = 15 then
    (x <<< 1 ||| x >>> 27) &&& 0x0FFFFFFF
  else
    (x <<< 2 ||| x >>> 26) &&& 0x0FFFFFFF

def shl (x n mask : UInt32) : UInt32 := x <<< n &&& mask

def shr (x n mask : UInt32) : UInt32 := x >>> n &&& mask

def subkey (x y : UInt32) : UInt32 × UInt32 :=
  let xl := shl x
  let xr := shr x
  let yl := shl y
  let yr := shr y
  let first :=
    xl 4 0x24000000 ||| xl 28 0x10000000 ||| xl 14 0x08000000 ||| xl 18 0x02080000
      ||| xl 6 0x01000000 ||| xl 9 0x00200000 ||| xr 1 0x00100000 ||| xl 10 0x00040000
      ||| xl 2 0x00020000 ||| xr 10 0x00010000 ||| yr 13 0x00002000 ||| yr 4 0x00001000
      ||| yl 6 0x00000800 ||| yr 1 0x00000400 ||| yr 14 0x00000200 ||| yr 0 0x00000100
      ||| yr 5 0x00000020 ||| yr 10 0x00000010 ||| yr 3 0x00000008 ||| yr 18 0x00000004
      ||| yr 26 0x00000002 ||| yr 24 0x00000001
  let second :=
    xl 15 0x20000000 ||| xl 17 0x10000000 ||| xl 10 0x08000000 ||| xl 22 0x04000000
      ||| xr 2 0x02000000 ||| xl 1 0x01000000 ||| xl 16 0x00200000 ||| xl 11 0x00100000
      ||| xl 3 0x00080000 ||| xr 6 0x00040000 ||| xl 15 0x00020000 ||| xr 4 0x00010000
      ||| yr 2 0x00002000 ||| yl 8 0x00001000 ||| yr 14 0x00000808 ||| yr 9 0x00000400
      ||| yr 0 0x00000200 ||| yl 7 0x00000100 ||| yr 7 0x00000020 ||| yr 3 0x00000011
      ||| yl 2 0x00000004 ||| yr 21 0x00000002
  (first, second)

def subkeys (rounds i : Nat) (b : Block) : List (UInt32 × UInt32) :=
  match rounds with
  | 0 => []
  | rounds + 1 =>
    let b := (rotateKey i b.1, rotateKey i b.2)
    subkey b.1 b.2 :: subkeys rounds (i + 1) b

def desMainKs (key : Block) : List (UInt32 × UInt32) :=
  subkeys 16 0 (pc1 key)

-- `des_crypt`, with the rounds `DES_ROUND(Y,X)` and `DES_ROUND(X,Y)` in turns.
def desBlock (sk : List (UInt32 × UInt32)) (input : Block) : Block :=
  desFp (Feistel.rounds (· ^^^ ·) desRound sk (desIp input)).swap

def desCrypt (sk : List (UInt32 × UInt32)) (b0 b1 b2 b3 b4 b5 b6 b7 : UInt8) : Bytes :=
  let b := desBlock sk (getUint32 b0 b1 b2 b3, getUint32 b4 b5 b6 b7)
  putUint32 b.1 ++ putUint32 b.2

inductive DesError where
  | keySize (n : Nat)
  | paddingMode (mode : Int32)
  | padding
  | textLength (n : Nat)
  | text
  deriving DecidableEq

def DesError.message (e : DesError) : String :=
  match e with
  | .keySize n => "Invalid key size " ++ toString n ++ ", need 8 bytes"
  | .paddingMode mode => "Invalid padding mode " ++ toString mode
  | .padding => "Invalid padding"
  | .textLength n => "Invalid des crypt text length " ++ toString n
  | .text => "Invalid des crypt text"

def desKey (key : Bytes) : Except DesError (List (UInt32 × UInt32)) :=
  match key with
  | [b0, b1, b2, b3, b4, b5, b6, b7] =>
    .ok (desMainKs (getUint32 b0 b1 b2 b3, getUint32 b4 b5 b6 b7))
  | key => .error (.keySize key.length)

def paddingModeIso78164 : Int32 := 0
def paddingModePkcs7 : Int32 := 1
def paddingModeCount : Int32 := 2

def paddingAddIso78164 (src : Bytes) : Bytes :=
  src ++ 0x80 :: List.replicate (7 - src.length) 0

def paddingAddPkcs7 (src : Bytes) : Bytes :=
  src ++ List.replicate (8 - src.length) (UInt8.ofNat (8 - src.length))

def addPadding (src : Bytes) (mode : Int32) : Except DesError Bytes :=
  if mode < 0 ∨ mode ≥ paddingModeCount then
    .error (.paddingMode mode)
  else if src.length ≥ 8 then
    .error .padding
  else if mode = paddingModeIso78164 then
    .ok (paddingAddIso78164 src)
  else
    .ok (paddingAddPkcs7 src)

-- The loop goes from the last byte on towards the first one. `none` is a byte in front of the buffer.
def paddingRemoveIso78164 (rounds padding : Nat) (last : Bytes) : Option Nat :=
  match rounds with
  | 0 => some 0
  | rounds + 1 =>
    match last with
    | [] => none
    | x :: last =>
      if x = 0 then
        paddingRemoveIso78164 rounds (padding + 1) last
      else if x = 0x80 then
        some padding
      else
        some 0

def removeSame (rounds : Nat) (padding : UInt8) (last : Bytes) : Option Nat :=
  match rounds with
  | 0 => some padding.toNat
  | rounds + 1 =>
    match last with
    | [] => none
    | x :: last => if x = padding then removeSame rounds padding last else some 0

def paddingRemovePkcs7 (last : Bytes) : Option Nat :=
  match last with
  | [] => none
  | padding :: last => removeSame (padding.toNat - 1) padding last

def removePadding (last : Bytes) (mode : Int32) : Except DesError (Option Nat) :=
  if mode < 0 ∨ mode ≥ paddingModeCount then
    .error (.paddingMode mode)
  else if mode = paddingModeIso78164 then
    .ok (paddingRemoveIso78164 8 1 last)
  else
    .ok (paddingRemovePkcs7 last)

def desBlocks (sk : List (UInt32 × UInt32)) (text : Bytes) : Bytes × Bytes :=
  match text with
  | b0 :: b1 :: b2 :: b3 :: b4 :: b5 :: b6 :: b7 :: text =>
    let (buffer, tail) := desBlocks sk text
    (desCrypt sk b0 b1 b2 b3 b4 b5 b6 b7 ++ buffer, tail)
  | tail => ([], tail)

-- The mode is an integer of Lua, it becomes an `int` before anything looks at it.
def desencode (key text : Bytes) (mode : Int64) : Except DesError Bytes :=
  match desKey key with
  | .error e => .error e
  | .ok sk =>
    let (buffer, tail) := desBlocks sk text
    match addPadding tail mode.toInt32 with
    | .error e => .error e
    | .ok tail => .ok (buffer ++ (desBlocks sk tail).1)

-- `none` where it reads in front of its buffer.
def desdecode (key text : Bytes) (mode : Int64) : Option (Except DesError Bytes) :=
  match desKey key with
  | .error e => some (.error e)
  | .ok esk =>
    if text.length % 8 ≠ 0 ∨ text.length = 0 then
      some (.error (.textLength text.length))
    else
      let buffer := (desBlocks esk.reverse text).1
      match removePadding buffer.reverse mode.toInt32 with
      | .error e => some (.error e)
      | .ok none => none
      | .ok (some padding) =>
        if padding = 0 ∨ padding > 8 then
          some (.error .text)
        else
          some (.ok (buffer.take (text.length - padding)))

end Crypt
