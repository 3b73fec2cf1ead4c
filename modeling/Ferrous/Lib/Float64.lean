/-
# `Lib.Float64` — binary64 numbers as 64-bit patterns

A double is its bit pattern.  Comparison, rounding of a rational, addition and
the decimal reader and printer are written over exact integers, so that a
concrete value is evaluated by the kernel; rounding is to nearest, ties to
even.  The payload of a NaN produced by an operation is not specified by the
languages that use this format; here it is the default quiet NaN.
-/
import Ferrous.Lib.Text

namespace Lib

/-- A binary64 value (`f64`), as its bit pattern. -/
structure Float64 where
  bits : UInt64
  deriving DecidableEq, Repr, Inhabited

namespace Float64

/-- Sign bit. -/
def sign (x : Float64) : Bool := 2 ^ 63 ≤ x.bits.toNat

/-- Pattern without the sign bit. -/
def magnitude (x : Float64) : Nat := x.bits.toNat % 2 ^ 63

/-- The pattern of `±∞` without its sign. -/
def infPattern : Nat := 0x7FF0000000000000

def isNaN (x : Float64) : Bool := infPattern < x.magnitude

def isInf (x : Float64) : Bool := x.magnitude == infPattern

/-- Position of a number that is not a NaN on the line: magnitudes are ordered
like their patterns, and both zeros sit at `0`. -/
def rank (x : Float64) : Int := if x.sign then -(x.magnitude : Int) else x.magnitude

/-- `PartialOrd::partial_cmp`. -/
def partialCmp (x y : Float64) : Option Ordering :=
  if x.isNaN || y.isNaN then none else some (compare x.rank y.rank)

/-- `x < y`. -/
def lt (x y : Float64) : Bool := !x.isNaN && !y.isNaN && decide (x.rank < y.rank)

/-- `x <= y`. -/
def le (x y : Float64) : Bool := !x.isNaN && !y.isNaN && decide (x.rank ≤ y.rank)

/-- `x == y`: false when either is a NaN, and the two zeros are equal. -/
def numEq (x y : Float64) : Bool := !x.isNaN && !y.isNaN && decide (x.rank = y.rank)

/-! ## Rounding and addition -/

/-- Assemble a sign and a magnitude pattern. -/
def ofMagnitude (neg : Bool) (m : Nat) : Float64 :=
  ⟨UInt64.ofNat (if neg then m + 2 ^ 63 else m)⟩

def infinity (neg : Bool) : Float64 := ofMagnitude neg infPattern

def nan : Float64 := ofMagnitude false 0x7FF8000000000000

/-- Quotient rounded to nearest, ties to even. -/
def roundDiv (num den : Nat) : Nat :=
  let q := num / den
  let r := num % den
  if 2 * r < den then q
  else if den < 2 * r then q + 1
  else if q % 2 = 0 then q else q + 1

/-- The double nearest to `± num / den`.  The unit in the last place is `2^e`
with `e ≥ -1074`; `(e + 1074) * 2^52 + q` is the pattern both below and above
the normal range, and a carry out of the significand lands in the exponent. -/
def ofRatio (neg : Bool) (num den : Nat) : Float64 :=
  if num = 0 then ofMagnitude neg 0
  else
    let guess : Int := (Nat.log2 num : Int) - Nat.log2 den - 52
    -- `Nat.log2` places the quotient within a factor of two
    let below : Bool :=
      if 0 ≤ guess then decide (num < den * 2 ^ guess.toNat * 2 ^ 52)
      else decide (num * 2 ^ (-guess).toNat < den * 2 ^ 52)
    let e : Int := max (if below then guess - 1 else guess) (-1074)
    let q := if 0 ≤ e then roundDiv num (den * 2 ^ e.toNat)
      else roundDiv (num * 2 ^ (-e).toNat) den
    let pattern := (e + 1074).toNat * 2 ^ 52 + q
    if infPattern ≤ pattern then infinity neg else ofMagnitude neg pattern

/-- Significand and exponent of a finite number: its absolute value is `m * 2^e`. -/
def decode (x : Float64) : Nat × Int :=
  let ex : Nat := x.magnitude / 2 ^ 52
  let frac : Nat := x.magnitude % 2 ^ 52
  if ex = 0 then (frac, -1074) else (frac + 2 ^ 52, (ex : Int) - 1075)

/-- Signed numerator of a finite number over the denominator `2^1074`. -/
def scaled (x : Float64) : Int :=
  let (m, e) := x.decode
  let n : Int := (m * 2 ^ (e + 1074).toNat : Nat)
  if x.sign then -n else n

/-- `x + y`. -/
def add (x y : Float64) : Float64 :=
  if x.isNaN || y.isNaN then nan
  else if x.isInf then (if y.isInf && x.sign != y.sign then nan else x)
  else if y.isInf then y
  else
    let s := x.scaled + y.scaled
    if s = 0 then ofMagnitude (x.sign && y.sign) 0
    else ofRatio (decide (s < 0)) s.natAbs (2 ^ 1074)

/-! ## Decimal text -/

/-- `± m * 10^e`, with the exponents that leave the range cut off first. -/
def ofDecimal (neg : Bool) (m : Nat) (e : Int) : Float64 :=
  if m = 0 then ofMagnitude neg 0
  else
    let digits : Int := (Nat.toDigits 10 m).length
    if 400 < digits + e then infinity neg
    else if digits + e < -400 then ofMagnitude neg 0
    else if 0 ≤ e then ofRatio neg (m * 10 ^ e.toNat) 1
    else ofRatio neg m (10 ^ (-e).toNat)

/-- The exponent part of a decimal numeral; empty text is exponent `0`. -/
def readExponent : List Char → Option Int
  | [] => some 0
  | c :: cs =>
      if c = 'e' ∨ c = 'E' then
        match cs with
        | '-' :: ds => (readDigits ds).map fun n => -(n : Int)
        | '+' :: ds => (readDigits ds).map Int.ofNat
        | ds => (readDigits ds).map Int.ofNat
      else none

/-- An unsigned decimal numeral: digits, an optional fraction, an optional
exponent, with at least one digit before the exponent. -/
def readDecimal (neg : Bool) (cs : List Char) : Option Float64 :=
  let whole := cs.takeWhile Char.isDigit
  let rest := cs.dropWhile Char.isDigit
  let (frac, tail) := match rest with
    | '.' :: ds => (ds.takeWhile Char.isDigit, ds.dropWhile Char.isDigit)
    | ds => ([], ds)
  if whole.isEmpty && frac.isEmpty then none
  else do
    let m ← digitsValue 0 (whole ++ frac)
    let e ← readExponent tail
    some (ofDecimal neg m (e - frac.length))

/-- `str::parse::<f64>`. -/
def parse (s : String) : Option Float64 :=
  let (neg, cs) := match s.toList with
    | '-' :: cs => (true, cs)
    | '+' :: cs => (false, cs)
    | cs => (false, cs)
  let word := cs.map Char.toLower
  if word = "inf".toList ∨ word = "infinity".toList then some (infinity neg)
  else if word = "nan".toList then
    some (if neg then ofMagnitude true 0x7FF8000000000000 else nan)
  else readDecimal neg cs

/-- Write the digits of `d`, scaled by `10^k`, without an exponent. -/
def positional (d : Nat) (k : Int) : String :=
  let ds := Nat.toDigits 10 d
  if 0 ≤ k then String.ofList (ds ++ List.replicate k.toNat '0')
  else
    let n := (-k).toNat
    if n < ds.length then
      String.ofList (ds.take (ds.length - n) ++ '.' :: ds.drop (ds.length - n))
    else String.ofList ('0' :: '.' :: (List.replicate (n - ds.length) '0' ++ ds))

/-- The decimal of `n` significant digits nearest to `num / den` that reads
back as `x`, if there is one; `p` is the decimal exponent just above `x`. -/
def tryDigits (x : Float64) (num den : Nat) (p : Int) (n : Nat) : Option (Nat × Int) :=
  let k := p - n
  let (a, b) := if 0 ≤ k then (num, den * 10 ^ k.toNat) else (num * 10 ^ (-k).toNat, den)
  let near := roundDiv a b
  let far := if near = a / b then near + 1 else near - 1
  let back (d : Nat) : Bool := (ofDecimal false d k).magnitude == x.magnitude
  if back near then some (near, k) else if back far then some (far, k) else none

/-- Shortest decimal that reads back as `x`, trying one digit more each time. -/
def shortest (x : Float64) (num den : Nat) (p : Int) : Nat → Nat → Nat × Int
  | 0, n => (tryDigits x num den p n).getD (0, 0)
  | fuel + 1, n => (tryDigits x num den p n).getD (shortest x num den p fuel (n + 1))

/-- Drop trailing zeros of a decimal with a negative exponent. -/
def stripZeros : Nat → Nat → Int → Nat × Int
  | 0, d, k => (d, k)
  | fuel + 1, d, k => if k < 0 ∧ d % 10 = 0 then stripZeros fuel (d / 10) (k + 1) else (d, k)

/-- `f64::to_string`: the shortest decimal that reads back, never in
scientific notation. -/
def toText (x : Float64) : String :=
  if x.isNaN then "NaN"
  else
    let body :=
      if x.isInf then "inf"
      else if x.magnitude = 0 then "0"
      else
        let n := x.scaled.natAbs
        let den := 2 ^ 1074
        let whole := n / den
        -- the decimal exponent just above `x`
        let p : Int :=
          if 0 < whole then (Nat.toDigits 10 whole).length
          else 1 - ((Nat.toDigits 10 (den / n)).length : Int)
        let (d, k) := shortest x n den p 17 1
        let (d, k) := stripZeros 20 d k
        positional d k
    if x.sign then "-" ++ body else body

end Float64

end Lib
