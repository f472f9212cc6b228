import Mathlib.Data.List.Basic
import Mathlib.Logic.Function.Iterate
import OpcConfig.Library.Strtod
import OpcConfig.Json

/-! # Printing a double: `to_chars` of `json.hpp`

Grisu2 scales a number and its two boundaries by a power of ten from a table and
generates digits of the upper boundary until what is left is within the
boundaries. The arithmetic is on 64-bit words.
-/

namespace OpcConfig.Dtoa

set_option autoImplicit false

open CString

def wrap (n : Nat) : Nat := n % 2 ^ 64

/-- `f * 2 ^ e`. -/
structure Diyfp where
  f : Nat
  e : Int
  deriving DecidableEq

namespace Diyfp

def sub (x y : Diyfp) : Diyfp := ⟨x.f - y.f, x.e⟩

def mul (x y : Diyfp) : Diyfp :=
  let uLo := x.f % 2 ^ 32
  let uHi := x.f / 2 ^ 32
  let vLo := y.f % 2 ^ 32
  let vHi := y.f / 2 ^ 32
  let p0 := uLo * vLo
  let p1 := uLo * vHi
  let p2 := uHi * vLo
  let p3 := uHi * vHi
  let q := p0 / 2 ^ 32 + p1 % 2 ^ 32 + p2 % 2 ^ 32 + 2 ^ 31
  ⟨wrap (p3 + p2 / 2 ^ 32 + p1 / 2 ^ 32 + q / 2 ^ 32), x.e + y.e + 64⟩

def shiftOnce (x : Diyfp) : Diyfp := if x.f / 2 ^ 63 = 0 then ⟨wrap (x.f * 2), x.e - 1⟩ else x

/-- The loop stops after 63 turns at most, since `f` is not zero. -/
def normalize (x : Diyfp) : Diyfp := shiftOnce^[63] x

def normalizeTo (x : Diyfp) (targetExponent : Int) : Diyfp :=
  ⟨wrap (x.f * 2 ^ (x.e - targetExponent).toNat), targetExponent⟩

end Diyfp

structure Boundaries where
  w : Diyfp
  minus : Diyfp
  plus : Diyfp

/-- The number `v` and the points half-way to its neighbours, not yet normalized. -/
def significand (bits : Nat) : Diyfp :=
  if bits / 2 ^ 52 = 0 then ⟨bits % 2 ^ 52, -1074⟩
  else ⟨bits % 2 ^ 52 + 2 ^ 52, (bits / 2 ^ 52 : Nat) - 1075⟩

def mPlus (bits : Nat) : Diyfp := ⟨2 * (significand bits).f + 1, (significand bits).e - 1⟩

def mMinus (bits : Nat) : Diyfp :=
  if bits % 2 ^ 52 = 0 ∧ bits / 2 ^ 52 > 1 then
    ⟨4 * (significand bits).f - 1, (significand bits).e - 2⟩
  else ⟨2 * (significand bits).f - 1, (significand bits).e - 1⟩

def computeBoundaries (bits : Nat) : Boundaries :=
  let wPlus := (mPlus bits).normalize
  ⟨(significand bits).normalize, (mMinus bits).normalizeTo wPlus.e, wPlus⟩

structure CachedPower where
  f : Nat
  e : Int
  k : Int

def kCachedPowers : List (Nat × Int × Int) :=
  [(0xAB70FE17C79AC6CA, -1060, -300), (0xFF77B1FCBEBCDC4F, -1034, -292),
    (0xBE5691EF416BD60C, -1007, -284),
    (0x8DD01FAD907FFC3C, -980, -276), (0xD3515C2831559A83, -954, -268), (0x9D71AC8FADA6C9B5, -927, -260),
    (0xEA9C227723EE8BCB, -901, -252), (0xAECC49914078536D, -874, -244), (0x823C12795DB6CE57, -847, -236),
    (0xC21094364DFB5637, -821, -228), (0x9096EA6F3848984F, -794, -220), (0xD77485CB25823AC7, -768, -212),
    (0xA086CFCD97BF97F4, -741, -204), (0xEF340A98172AACE5, -715, -196), (0xB23867FB2A35B28E, -688, -188),
    (0x84C8D4DFD2C63F3B, -661, -180), (0xC5DD44271AD3CDBA, -635, -172), (0x936B9FCEBB25C996, -608, -164),
    (0xDBAC6C247D62A584, -582, -156), (0xA3AB66580D5FDAF6, -555, -148), (0xF3E2F893DEC3F126, -529, -140),
    (0xB5B5ADA8AAFF80B8, -502, -132), (0x87625F056C7C4A8B, -475, -124), (0xC9BCFF6034C13053, -449, -116),
    (0x964E858C91BA2655, -422, -108), (0xDFF9772470297EBD, -396, -100), (0xA6DFBD9FB8E5B88F, -369, -92),
    (0xF8A95FCF88747D94, -343, -84), (0xB94470938FA89BCF, -316, -76), (0x8A08F0F8BF0F156B, -289, -68),
    (0xCDB02555653131B6, -263, -60), (0x993FE2C6D07B7FAC, -236, -52), (0xE45C10C42A2B3B06, -210, -44),
    (0xAA242499697392D3, -183, -36), (0xFD87B5F28300CA0E, -157, -28), (0xBCE5086492111AEB, -130, -20),
    (0x8CBCCC096F5088CC, -103, -12), (0xD1B71758E219652C, -77, -4), (0x9C40000000000000, -50, 4),
    (0xE8D4A51000000000, -24, 12), (0xAD78EBC5AC620000, 3, 20), (0x813F3978F8940984, 30, 28),
    (0xC097CE7BC90715B3, 56, 36), (0x8F7E32CE7BEA5C70, 83, 44), (0xD5D238A4ABE98068, 109, 52),
    (0x9F4F2726179A2245, 136, 60), (0xED63A231D4C4FB27, 162, 68), (0xB0DE65388CC8ADA8, 189, 76),
    (0x83C7088E1AAB65DB, 216, 84), (0xC45D1DF942711D9A, 242, 92), (0x924D692CA61BE758, 269, 100),
    (0xDA01EE641A708DEA, 295, 108), (0xA26DA3999AEF774A, 322, 116), (0xF209787BB47D6B85, 348, 124),
    (0xB454E4A179DD1877, 375, 132), (0x865B86925B9BC5C2, 402, 140), (0xC83553C5C8965D3D, 428, 148),
    (0x952AB45CFA97A0B3, 455, 156), (0xDE469FBD99A05FE3, 481, 164), (0xA59BC234DB398C25, 508, 172),
    (0xF6C69A72A3989F5C, 534, 180), (0xB7DCBF5354E9BECE, 561, 188), (0x88FCF317F22241E2, 588, 196),
    (0xCC20CE9BD35C78A5, 614, 204), (0x98165AF37B2153DF, 641, 212), (0xE2A0B5DC971F303A, 667, 220),
    (0xA8D9D1535CE3B396, 694, 228), (0xFB9B7CD9A4A7443C, 720, 236), (0xBB764C4CA7A44410, 747, 244),
    (0x8BAB8EEFB6409C1A, 774, 252), (0xD01FEF10A657842C, 800, 260), (0x9B10A4E5E9913129, 827, 268),
    (0xE7109BFBA19C0C9D, 853, 276), (0xAC2820D9623BF429, 880, 284), (0x80444B5E7AA7CF85, 907, 292),
    (0xBF21E44003ACDD2D, 933, 300), (0x8E679C2F5E44FF8F, 960, 308), (0xD433179D9C8CB841, 986, 316),
    (0x9E19DB92B4E31BA9, 1013, 324)]

def cachedIndex (e : Int) : Int :=
  let f := -60 - e - 1
  let k := (f * 78913).tdiv (2 ^ 18) + if f > 0 then 1 else 0
  (300 + k + 7).tdiv 8

def getCachedPowerForBinaryExponent (e : Int) : CachedPower :=
  let row := kCachedPowers.getD (cachedIndex e).toNat (0, 0, 0)
  ⟨row.1, row.2.1, row.2.2⟩

def findLargestPow10 (n : Nat) : Nat × Nat :=
  if n ≥ 1000000000 then (10, 1000000000)
  else if n ≥ 100000000 then (9, 100000000)
  else if n ≥ 10000000 then (8, 10000000)
  else if n ≥ 1000000 then (7, 1000000)
  else if n ≥ 100000 then (6, 100000)
  else if n ≥ 10000 then (5, 10000)
  else if n ≥ 1000 then (4, 1000)
  else if n ≥ 100 then (3, 100)
  else if n ≥ 10 then (2, 10)
  else (1, 1)

def grisu2Round (buf : Bytes) (dist delta rest tenK : Nat) : Bytes :=
  if rest < dist ∧ 0 < tenK ∧ tenK ≤ delta - rest ∧
      (rest + tenK < dist ∨ rest + tenK - dist < dist - rest) then
    grisu2Round (buf.modifyLast (· - 1)) dist delta (rest + tenK) tenK
  else buf
termination_by dist - rest

def digit (d : Nat) : UInt8 := UInt8.ofNat (48 + d)

/-- The digits of the integral part, and how many of it were left out: none, where
the fractional part has to follow. -/
def integralDigits (dist delta p2 shift : Nat) : Nat → Nat → Nat → Bytes → Bytes × Option Nat
  | 0, _, _, buffer => (buffer, none)
  | n + 1, p1, pow10, buffer =>
    let buffer := buffer ++ [digit (p1 / pow10)]
    let rest := wrap (p1 % pow10 * 2 ^ shift + p2)
    if rest ≤ delta then
      (grisu2Round buffer dist delta rest (wrap (pow10 * 2 ^ shift)), some n)
    else integralDigits dist delta p2 shift n (p1 % pow10) (pow10 / 10) buffer

/-- `none` means that the fuel does not suffice. -/
def fractionalDigits (shift : Nat) : Nat → Nat → Nat → Nat → Nat → Bytes → Option (Bytes × Nat)
  | 0, _, _, _, _, _ => none
  | fuel + 1, dist, delta, p2, m, buffer =>
    let p2 := wrap (p2 * 10)
    let buffer := buffer ++ [digit (p2 / 2 ^ shift)]
    let r := p2 % 2 ^ shift
    let delta := wrap (delta * 10)
    let dist := wrap (dist * 10)
    if r ≤ delta then some (grisu2Round buffer dist delta r (2 ^ shift), m + 1)
    else fractionalDigits shift fuel dist delta r (m + 1) buffer

def grisu2DigitGen (decimalExponent : Int) (minus w plus : Diyfp) : Option (Bytes × Int) :=
  let delta := (plus.sub minus).f
  let dist := (plus.sub w).f
  let shift := (-plus.e).toNat
  let p1 := plus.f / 2 ^ shift
  let p2 := plus.f % 2 ^ shift
  let largest := findLargestPow10 p1
  match integralDigits dist delta p2 shift largest.1 p1 largest.2 [] with
  | (buffer, some n) => some (buffer, decimalExponent + n)
  | (buffer, none) =>
    (fractionalDigits shift 17 dist delta p2 0 buffer).map fun result =>
      (result.1, decimalExponent - result.2)

/-- The digits and the power of ten of a positive finite double. -/
def grisu2 (bits : Nat) : Option (Bytes × Int) :=
  let boundaries := computeBoundaries bits
  let cached := getCachedPowerForBinaryExponent boundaries.plus.e
  let cMinusK : Diyfp := ⟨cached.f, cached.e⟩
  let w := boundaries.w.mul cMinusK
  let wMinus := boundaries.minus.mul cMinusK
  let wPlus := boundaries.plus.mul cMinusK
  grisu2DigitGen (-cached.k) ⟨wrap (wMinus.f + 1), wMinus.e⟩ w ⟨wPlus.f - 1, wPlus.e⟩

def exponentDigits (k : Nat) : Bytes :=
  if k < 10 then [digit 0, digit k]
  else if k < 100 then [digit (k / 10), digit (k % 10)]
  else [digit (k / 100), digit (k % 100 / 10), digit (k % 100 % 10)]

def appendExponent (e : Int) : Bytes := (if e < 0 then 45 else 43) :: exponentDigits e.natAbs

def formatBuffer (buf : Bytes) (decimalExponent minExp maxExp : Int) : Bytes :=
  let k : Int := buf.length
  let n := k + decimalExponent
  if k ≤ n ∧ n ≤ maxExp then buf ++ List.replicate (n - k).toNat 48 ++ ascii ".0"
  else if 0 < n ∧ n ≤ maxExp then buf.take n.toNat ++ ascii "." ++ buf.drop n.toNat
  else if minExp < n ∧ n ≤ 0 then ascii "0." ++ List.replicate (-n).toNat 48 ++ buf
  else if k = 1 then buf ++ ascii "e" ++ appendExponent (n - 1)
  else buf.take 1 ++ ascii "." ++ buf.drop 1 ++ ascii "e" ++ appendExponent (n - 1)

/-- The text of a finite double. -/
def toChars (value : Binary64) : Option Bytes :=
  let sign := if value.negative then ascii "-" else []
  if value.magnitude = 0 then some (sign ++ ascii "0.0")
  else (grisu2 value.magnitude).map fun result => sign ++ formatBuffer result.1 result.2 (-4) 15

example : toChars ⟨0xC0091EB851EB851F⟩ = some (ascii "-3.14") := by decide +kernel

end OpcConfig.Dtoa
