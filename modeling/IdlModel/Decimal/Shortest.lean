/-!
# Shortest decimals

A binary floating-point number stands for every real number that rounds to it. Its shortest
decimal is the multiple of the largest power of ten that has a multiple among these reals; if it
has two, the nearer one, and of two that are equally near the even one. The numbers here are
`m · 2 ^ q` with `m` and `q` exact, and all comparisons are made between natural numbers.
-/

namespace IdlModel.Decimal

/-- A positive binary floating-point number `m · 2 ^ q`. -/
structure Binary where
  m : Nat
  q : Int
  /-- Is the next number below only half as far away as the next one above? -/
  narrowBelow : Bool

/-- A decimal `digits · 10 ^ exponent`. -/
structure Digits where
  digits : Nat
  exponent : Int
  deriving DecidableEq, Repr

/-- The magnitude of a finite number from its bits: eleven bits of exponent and 52 of fraction. -/
def Binary.ofBits (bits : UInt64) : Binary :=
  let fraction : Nat := bits.toNat % Nat.pow 2 52
  let exponent : Nat := bits.toNat / Nat.pow 2 52 % Nat.pow 2 11
  if exponent = 0 then ⟨fraction, -1074, false⟩
  else ⟨Nat.pow 2 52 + fraction, (exponent : Int) - 1075, fraction = 0 ∧ 1 < exponent⟩

/-- `a · 2 ^ q` against `b · 10 ^ e`, both brought to whole numbers. -/
def scaled (a : Nat) (q : Int) (b : Nat) (e : Int) : Nat × Nat :=
  (a * Nat.pow 2 q.toNat * Nat.pow 10 (-e).toNat,
    b * Nat.pow 10 e.toNat * Nat.pow 2 (-q).toNat)

/-- Does `d · 10 ^ e` round to `x`? Four times `m` leaves room for the halves between neighbours;
the ends of the interval belong to it when `m` is even. -/
def Binary.hasAsRounding (x : Binary) (d : Nat) (e : Int) : Bool :=
  let low := scaled (4 * x.m - if x.narrowBelow then 1 else 2) (x.q - 2) d e
  let high := scaled (4 * x.m + 2) (x.q - 2) d e
  if x.m % 2 = 0 then low.1 ≤ low.2 && high.2 ≤ high.1 else low.1 < low.2 && high.2 < high.1

/-- The multiple of `10 ^ e` that rounds to `x` and is nearest to it; a tie goes to the even
multiple. -/
def Binary.onGrid? (x : Binary) (e : Int) : Option Nat :=
  let (value, unit) := scaled x.m x.q 1 e
  let below := value / unit
  let twice := 2 * (value % unit)
  let down := twice < unit ∨ (twice = unit ∧ below % 2 = 0)
  let nearer := if down then [below, below + 1] else [below + 1, below]
  nearer.find? fun d => 0 < d && x.hasAsRounding d e

/-- The shortest decimal of `x` among the powers of ten from `top` downwards. -/
def Binary.shortestBelow (x : Binary) (top : Int) : Nat → Digits
  | 0 => ⟨0, 0⟩
  | steps + 1 =>
    match x.onGrid? top with
    | some d => ⟨d, top⟩
    | none => x.shortestBelow (top - 1) steps

/-- The shortest decimal of a number. Between the largest and the smallest finite numbers lie 634
powers of ten. -/
def Binary.shortest (x : Binary) : Digits :=
  if x.m = 0 then ⟨0, 0⟩ else x.shortestBelow 309 634

end IdlModel.Decimal
