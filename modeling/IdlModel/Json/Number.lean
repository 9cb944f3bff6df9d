import IdlModel.Decimal.Shortest

/-!
# Numbers of JSON texts

A number is whole, if it fits a 64-bit word with or without sign, and a floating-point number
otherwise. `Numeral` is a number as it is written; `Numeral.value?` is what it denotes, which is
nothing if it lies outside the range of floating-point numbers.
-/

namespace IdlModel.Json

/-- The value of a number. -/
inductive Number where
  | integer (value : Int)
  | float (value : Float)

/-- A number as it is written, by its digits. -/
structure Numeral where
  negative : Bool
  whole : List Char
  fraction : Option (List Char)
  exponent : Option (Bool × List Char)
  deriving DecidableEq, Repr, Inhabited

namespace Numeral

/-- The number that a run of digits denotes. -/
def digitsValue (ds : List Char) : Nat :=
  ds.foldl (fun n d => 10 * n + (d.toNat - 48)) 0

/-- As many leading digits as fit behind `n` into a 64-bit word, and how many are left over. -/
def absorb (n : Nat) : List Char → Nat × Nat
  | [] => (n, 0)
  | d :: ds =>
    let next := 10 * n + (d.toNat - 48)
    if next < Nat.pow 2 64 then absorb next ds else (n, ds.length + 1)

/-- The number divided by a power of ten, in steps that are powers of ten themselves. -/
def shrink : Nat → Float → Nat → Float
  | 0, f, _ => f
  | steps + 1, f, e =>
    if e ≤ 308 then f / Float.ofScientific 1 false e
    else if f == 0 then f
    else shrink steps (f / Float.ofScientific 1 false 308) (e - 308)

/-- `n · 10 ^ e`, rounded first in `n` and then in the product; none beyond the range. -/
def scale? (n : Nat) (e : Int) : Option Float :=
  let f := n.toUInt64.toFloat
  if e < 0 then some (shrink e.natAbs f e.natAbs)
  else if 308 < e then if n = 0 then some f else none
  else
    let r := f * Float.ofScientific 1 false e.toNat
    if r.isInf then none else some r

/-- The floating-point number that is written: as many digits as fit a 64-bit word count, and the
position of the point is made up for in the exponent. -/
def floatValue? (x : Numeral) : Option Float :=
  let (whole, dropped) := absorb 0 x.whole
  let (significand, shift) := match x.fraction with
    | none => (whole, (dropped : Int))
    | some ds =>
      let (n, rest) := absorb whole ds
      (n, (dropped : Int) - (ds.length - rest : Nat))
  let magnitude? := match x.exponent with
    | none => scale? significand shift
    | some (negative, ds) =>
      let e := digitsValue ds
      if e < Nat.pow 2 31 then scale? significand (if negative then shift - e else shift + e)
      else if significand = 0 ∨ negative then some 0
      else none
  magnitude?.map fun f => if x.negative then -f else f

/-- What is written denotes: a whole number in 64 bits, signed if negative, or else a
floating-point number. The negative zero is of the second kind. -/
def value? (x : Numeral) : Option Number :=
  let n := digitsValue x.whole
  if x.fraction.isNone ∧ x.exponent.isNone ∧ !x.negative ∧ n < Nat.pow 2 64 then some (.integer n)
  else if x.fraction.isNone ∧ x.exponent.isNone ∧ x.negative ∧ 0 < n ∧ n ≤ Nat.pow 2 63 then
    some (.integer (-n))
  else x.floatValue?.map .float

end Numeral

namespace Number

/-- Digits with a point, or with an exponent where the point would be far away from them: up to
sixteen digits before the point, and up to four zeros behind it. -/
def layOut (d : Decimal.Digits) : String :=
  let digits := toString d.digits
  let point : Int := digits.length + d.exponent
  if 0 ≤ d.exponent ∧ point ≤ 16 then
    digits ++ "".pushn '0' d.exponent.toNat ++ ".0"
  else if 0 < point ∧ point ≤ 16 then
    (digits.take point.toNat).toString ++ "." ++ (digits.drop point.toNat).toString
  else if -5 < point ∧ point ≤ 0 then
    "0." ++ "".pushn '0' point.natAbs ++ digits
  else
    let e := point - 1
    let fraction := (digits.drop 1).toString
    (digits.take 1).toString ++ (if fraction.isEmpty then "" else "." ++ fraction) ++
      (if e < 0 then "e-" else "e+") ++ toString e.natAbs

/-- A number as it is shown. -/
def text : Number → String
  | .integer n => toString n
  | .float f =>
    let bits := f.toBits
    (if bits < 0x8000000000000000 then "" else "-") ++ layOut (Decimal.Binary.ofBits bits).shortest

end Number

end IdlModel.Json
