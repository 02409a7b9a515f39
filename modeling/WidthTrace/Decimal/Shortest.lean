/-!
# Shortest decimals

A finite float lies in an interval of reals that all round to it. Its shortest
decimal is the point of the coarsest decimal grid that has one in the interval;
of two such points the nearer is taken, and on a tie the one with the even last
digit. All comparisons are made on exact integers.
-/

namespace WidthTrace.Decimal

/-- The value `mantissa * 2 ^ exponent`, with a sign. -/
structure Binary where
  negative : Bool
  mantissa : Nat
  exponent : Int
deriving DecidableEq, Repr

namespace Binary

/-- The parts of a finite float. -/
def ofFloat (value : Float) : Binary :=
  let bits := value.toBits.toNat
  let negative := bits / Nat.pow 2 63 == 1
  let biased : Nat := bits / Nat.pow 2 52 % Nat.pow 2 11
  let fraction := bits % Nat.pow 2 52
  if biased = 0 then ⟨negative, fraction, -1074⟩
  else ⟨negative, Nat.pow 2 52 + fraction, biased - 1075⟩

/-- The float below is only half as far away as the one above. -/
def isBoundary (value : Binary) : Bool :=
  value.mantissa == Nat.pow 2 52 && -1074 < value.exponent

end Binary

/-- The decimal `digits * 10 ^ exponent`. -/
structure Scaled where
  digits : Nat
  exponent : Int
deriving DecidableEq, Repr

/-- A float and the ends of its interval as integers on the scale of a decimal grid, of which `step`
is one unit. The ends belong to the interval if `closed` holds. -/
structure Window where
  low : Nat
  value : Nat
  high : Nat
  step : Nat
  closed : Bool

namespace Window

/-- The window of a float on the grid of the multiples of `10 ^ exponent`. -/
def ofBinary (value : Binary) (exponent : Int) : Window :=
  let scale := Nat.pow 2 (value.exponent - 2).toNat * Nat.pow 10 (-exponent).toNat
  { low := (4 * value.mantissa - if value.isBoundary then 1 else 2) * scale
    value := 4 * value.mantissa * scale
    high := (4 * value.mantissa + 2) * scale
    step := Nat.pow 2 (2 - value.exponent).toNat * Nat.pow 10 exponent.toNat
    closed := value.mantissa % 2 == 0 }

/-- The grid point `n` lies in the interval. -/
def contains (window : Window) (n : Nat) : Bool :=
  let point := n * window.step
  if window.closed then window.low ≤ point && point ≤ window.high
  else window.low < point && point < window.high

/-- The grid point in the interval that is nearest to the float. -/
def nearest? (window : Window) : Option Nat :=
  let below := window.value / window.step
  let above := below + 1
  match window.contains below, window.contains above with
  | false, false => none
  | true, false => some below
  | false, true => some above
  | true, true =>
      let toBelow := window.value - below * window.step
      let toAbove := above * window.step - window.value
      if toBelow < toAbove then some below
      else if toAbove < toBelow then some above
      else if below % 2 = 0 then some below
      else some above

end Window

/-- The exponents of the grids that a finite float can need, coarsest first. -/
def gridExponents : List Int :=
  (List.range 634).map fun (n : Nat) => 309 - (n : Int)

/-- The shortest decimal of a float without its sign; zero has none. -/
def shortest? (value : Binary) : Option Scaled :=
  if value.mantissa = 0 then none
  else
    gridExponents.findSome? fun exponent =>
      (Window.ofBinary value exponent).nearest?.map (⟨·, exponent⟩)

end WidthTrace.Decimal
