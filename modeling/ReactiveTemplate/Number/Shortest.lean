import ReactiveTemplate.Number.Binary

/-!
# Shortest decimal digits

The decimal that stands for a double is the one with the fewest digits among
those that read back as that double, and of these the nearest to it. Where two are
equally near, the format that is written decides between them.

The reals that round to `m * 2 ^ q` form an interval, ends included exactly when
`m` is even. The search goes through the grids of multiples of `10 ^ k`, from
coarse to fine, and tests the two neighbours of the number on each grid; the
first grid with a neighbour inside the interval gives the digits.

* `shortest`: the digits and the power of ten of a positive `m * 2 ^ q`.
-/

namespace ReactiveTemplate.Number

/-- Which of two equally near decimals is written. -/
inductive Tie where
  /-- The greater one. -/
  | up
  /-- The one whose last digit is even. -/
  | even
  deriving DecidableEq, Repr

/-- Whether the point above `floor` is written for a number in the middle of the two. -/
def Tie.goesUp (tie : Tie) (floor : Nat) : Bool :=
  match tie with
  | .up => true
  | .even => floor % 2 = 1

/-- A number and the reals that round to it, in units of one grid: the number is
    `centre / unit`, the interval reaches from `low / unit` to `high / unit`. -/
structure Window where
  low : Nat
  centre : Nat
  high : Nat
  unit : Nat
  closed : Bool

/-- The window of `m * 2 ^ q` on the grid of multiples of `10 ^ k`. The lower
    gap is half as wide where `m` is the least mantissa of its exponent. -/
def Window.onGrid (m : Nat) (q k : Int) : Window :=
  let scale := Nat.pow 2 (q - 2).toNat * Nat.pow 10 (-k).toNat
  let below := if m = Nat.pow 2 52 ∧ leastExponent < q then 1 else 2
  { low := (4 * m - below) * scale
    centre := 4 * m * scale
    high := (4 * m + 2) * scale
    unit := Nat.pow 2 (2 - q).toNat * Nat.pow 10 k.toNat
    closed := m % 2 = 0 }

/-- Whether the grid point `c` rounds to the number of the window. -/
def Window.contains (w : Window) (c : Nat) : Bool :=
  let point := c * w.unit
  if w.closed then w.low ≤ point && point ≤ w.high
  else w.low < point && point < w.high

/-- The neighbour of the number on the grid that rounds to it, the nearer one if
    both do, the one that `tie` prefers if they are equally near. -/
def Window.hit? (tie : Tie) (w : Window) : Option Nat :=
  let floor := w.centre / w.unit
  let rest := w.centre % w.unit
  match w.contains floor, w.contains (floor + 1) with
  | true, true =>
    let upper := if 2 * rest = w.unit then tie.goesUp floor else w.unit < 2 * rest
    some (if upper then floor + 1 else floor)
  | true, false => some floor
  | false, true => some (floor + 1)
  | false, false => none

/-- The first hit on the grids `10 ^ k`, `10 ^ (k - 1)`, … -/
def searchGrids (tie : Tie) (m : Nat) (q : Int) : Nat → Int → Nat × Int
  | 0, k => (0, k)
  | fuel + 1, k =>
    match (Window.onGrid m q k).hit? tie with
    | some c => (c, k)
    | none => searchGrids tie m q fuel (k - 1)

/-- A power of ten that is at least `m * 2 ^ q`. -/
def coarsestGrid (m : Nat) (q : Int) : Int :=
  (Int.ofNat m.log2 + 1 + q) * 30103 / 100000 + 1

/-- The digits of `c` without the zeros at its end, which go into the power of
    ten. -/
def stripZeros : Nat → Nat → Int → Nat × Int
  | 0, c, k => (c, k)
  | fuel + 1, c, k => if c ≠ 0 ∧ c % 10 = 0 then stripZeros fuel (c / 10) (k + 1) else (c, k)

/-- The shortest decimal `c * 10 ^ k` that reads back as the positive double
    `m * 2 ^ q`. Seventeen digits always suffice, so the grids within reach of
    the search contain one. -/
def shortest (tie : Tie) (m : Nat) (q : Int) : Nat × Int :=
  let (c, k) := searchGrids tie m q 24 (coarsestGrid m q)
  stripZeros 20 c k

end ReactiveTemplate.Number
