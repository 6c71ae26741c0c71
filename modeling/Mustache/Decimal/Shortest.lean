/-!
# Shortest decimals

A finite binary number is written with the fewest decimal digits that still read back to it.

Every number `m · 2^e` stands for an interval of reals: those that lie nearer to it than to its
neighbours, with the two ends where `m` is even. A grid is the set of multiples of a power of ten.
The coarsest grid with a point in the interval has the fewest digits, and on a grid the candidates
are the two neighbours of the number itself (`near?`). Of two candidates the nearer one is taken,
and of two equally near ones the even one.

`near?_mem` says that what is chosen lies in the interval.
-/

namespace Mustache.Decimal

/-- A positive finite binary number `significand · 2^exponent`. -/
structure Binary where
  significand : Nat
  exponent : Int
  /-- The neighbour below is only half as far away as the neighbour above. -/
  atPowerOfTwo : Bool
  deriving DecidableEq, Repr

/-- The number `digits · 10^exponent`. -/
structure Scientific where
  digits : Nat
  exponent : Int
  deriving DecidableEq, Repr

/-- An interval of the reals, its middle and its ends given as multiples of one common unit. -/
structure Interval where
  low : Nat
  value : Nat
  high : Nat
  closed : Bool
  deriving DecidableEq, Repr

/-- Whether the interval has the multiple `n`. -/
def Interval.has (i : Interval) (n : Nat) : Bool :=
  if i.closed then i.low ≤ n && n ≤ i.high else i.low < n && n < i.high

/-- The reals that round to `b`. The common unit is a quarter of the last binary place of `b`,
divided by `scale`. -/
def Binary.interval (b : Binary) (scale : Nat) : Interval where
  low := (4 * b.significand - if b.atPowerOfTwo then 1 else 2) * scale
  value := 4 * b.significand * scale
  high := (4 * b.significand + 2) * scale
  closed := b.significand % 2 == 0

/-- The point of the grid of multiples of `unit` that is nearest to the interval's value, among the
two next to it that lie in the interval. -/
def Interval.near? (i : Interval) (unit : Nat) : Option Nat :=
  let below := i.value / unit
  let above := below + 1
  match i.has (below * unit), i.has (above * unit) with
  | false, false => none
  | true, false => some below
  | false, true => some above
  | true, true =>
    let toBelow := i.value - below * unit
    let toAbove := above * unit - i.value
    if toBelow < toAbove then some below
    else if toAbove < toBelow then some above
    else if below % 2 = 0 then some below else some above

theorem Interval.near?_mem {i : Interval} {unit n : Nat} (h : i.near? unit = some n) :
    i.has (n * unit) = true := by
  unfold near? at h
  dsimp only at h
  split at h
  · cases h
  · cases h; assumption
  · cases h; assumption
  · split at h
    · cases h; assumption
    · split at h
      · cases h; assumption
      · split at h <;> cases h <;> assumption

/-- The point chosen on the grid of multiples of `10^exponent`. -/
def Binary.onGrid? (b : Binary) (exponent : Int) : Option Scientific :=
  let scale := Nat.pow 2 (b.exponent - 2).toNat * Nat.pow 10 (-exponent).toNat
  let unit := Nat.pow 2 (2 - b.exponent).toNat * Nat.pow 10 exponent.toNat
  ((b.interval scale).near? unit).map (⟨·, exponent⟩)

/-- A grid too coarse to have a point below the number: a power of ten above it. -/
def Binary.coarsest (b : Binary) : Int :=
  ((Nat.log2 b.significand + 1 : Int) + b.exponent) * 30103 / 100000 + 2

/-- The fewest digits that read back to the number: those on the coarsest grid that has some. The
grid whose unit is below the last binary place is at most 20 steps away. -/
def Binary.shortest (b : Binary) : Scientific :=
  ((List.range 25).findSome? fun (k : Nat) => b.onGrid? (b.coarsest - k)).getD ⟨0, 0⟩

/-- What a double stands for. -/
inductive Real
  | zero (negative : Bool)
  | finite (negative : Bool) (magnitude : Binary)
  | infinite (negative : Bool)
  | notANumber
  deriving DecidableEq, Repr

/-- Reads the 64 bits of a double: a sign, eleven bits of exponent, and 52 of the significand, whose
leading one is left out unless the exponent is at its least. -/
def Real.ofBits (bits : Nat) : Real :=
  let negative := bits / Nat.pow 2 63 % 2 == 1
  let field : Nat := bits / Nat.pow 2 52 % Nat.pow 2 11
  let fraction : Nat := bits % Nat.pow 2 52
  if field = 2047 then if fraction = 0 then infinite negative else notANumber
  else if field = 0 then
    if fraction = 0 then zero negative else finite negative ⟨fraction, -1074, false⟩
  else finite negative ⟨Nat.pow 2 52 + fraction, (field : Int) - 1075, fraction == 0 && field != 1⟩

/-- What a double stands for. -/
def Real.ofFloat (x : Float) : Real := ofBits x.toBits.toNat

end Mustache.Decimal
