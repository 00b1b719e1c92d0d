/-!
# Decimals with the fewest places

A positive rational lies between two decimals of `p` places, its neighbours on the grid of that
many places. Given an interval around the rational, `Decimal.fewestPlaces` finds the smallest
number of places at which a neighbour lies in the interval, and takes that neighbour, the nearer
one if both do and the upper one if both are equally near. If any decimal of `p` places lies in
the interval then so does one of the two neighbours, so no decimal in the interval has fewer
places than the one found.
-/
namespace ShaderLoom

/-- A decimal `digits / 10 ^ places`. -/
structure Decimal where
  /-- All digits, read as one number. -/
  digits : Nat
  /-- How many of the digits stand after the point. -/
  places : Nat
deriving DecidableEq, Repr

/-- A fraction `num / den` inside an interval from `low / den` to `high / den`. -/
structure Bracket where
  /-- Numerator of the value. -/
  num : Nat
  /-- Numerator of the lower end. -/
  low : Nat
  /-- Numerator of the upper end. -/
  high : Nat
  /-- Common denominator. -/
  den : Nat
  /-- Whether the ends belong to the interval. -/
  closed : Bool
deriving DecidableEq, Repr

namespace Bracket

/-- Whether `digits / 10 ^ places` lies in the interval. -/
def holds (b : Bracket) (decimal : Decimal) : Bool :=
  let here := decimal.digits * b.den
  let low := b.low * Nat.pow 10 decimal.places
  let high := b.high * Nat.pow 10 decimal.places
  if b.closed then low ≤ here && here ≤ high else low < here && here < high

/-- The neighbour of the value on the grid of `places` places that lies in the interval: the
nearer one if both do, the upper one if they are equally near. -/
def neighbour? (b : Bracket) (places : Nat) : Option Decimal :=
  let scaled := b.num * Nat.pow 10 places
  let below : Decimal := ⟨scaled / b.den, places⟩
  let above : Decimal := ⟨scaled / b.den + 1, places⟩
  if b.holds below then
    if b.holds above && b.den ≤ 2 * (scaled % b.den) then some above else some below
  else if b.holds above then some above
  else none

/-- The decimal of fewest places in the interval, looked for up to `bound` places; the value cut
off there if there is none. -/
def fewestPlaces (b : Bracket) (bound : Nat) : Decimal :=
  ((List.range (bound + 1)).findSome? b.neighbour?).getD ⟨b.num * Nat.pow 10 bound / b.den, bound⟩

end Bracket

/-- Positional digits, padded with zeros on the left to at least `width`. -/
def padded (width n : Nat) : String :=
  let digits := toString n
  String.ofList (List.replicate (width - digits.length) '0') ++ digits

/-- A decimal written out: digits, a point and its places. -/
def Decimal.text (d : Decimal) : String :=
  toString (d.digits / Nat.pow 10 d.places) ++ "." ++
    padded d.places (d.digits % Nat.pow 10 d.places)

end ShaderLoom
