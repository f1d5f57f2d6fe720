import ReactiveTemplate.Text.Blank

/-!
# Grammar rules

A rule reads the front of a list of located items. What it reads and what it
reports are kept apart: `read` says what is recognised and what is left, and
`trace` collects the places where reading failed and what would have been accepted
there. Only `read` decides whether a text is a sentence; `trace` is consulted after
a failure, to point at the furthest place that was reached.

* `Rule`: a rule, with the operations of a monad, ordered choice and repetition.
* `Stop.record`: a failure further on replaces the failures before it, one at the
  same place joins them.
* `Rule.parse`: reads all items, or reports the furthest stop.
-/

namespace ReactiveTemplate

/-- An item with the place it takes in its text, in bytes. -/
structure Located (σ : Type) where
  item : σ
  start : Nat
  stop : Nat
  deriving Repr

/-- What a rule would have accepted at some place. -/
inductive Expectation where
  | spelled (text : String)
  | digit
  | character
  | somethingElse
  | endOfInput
  deriving DecidableEq, Repr

/-- The wording of an expectation. -/
def Expectation.describe : Expectation → String
  | .spelled text => "'" ++ text ++ "'"
  | .digit => "digit"
  | .character => "any"
  | .somethingElse => "something else"
  | .endOfInput => "end of input"

/-- A place where reading failed: the items left there, and what would have been
    accepted, in the order in which it was tried. -/
structure Stop (σ : Type) where
  rest : List (Located σ)
  expected : List Expectation

/-- The furthest stop of a reading, if anything failed. -/
abbrev Furthest (σ : Type) := Option (Stop σ)

namespace Stop

variable {σ : Type}

/-- The expectations of two lists, those of the second after those of the first. -/
def union (first second : List Expectation) : List Expectation :=
  first ++ second.filter fun e => !first.contains e

/-- Adds a failure to the furthest stop so far: one further on replaces it, one at the
    same place joins it, an earlier one is forgotten. -/
def record (rest : List (Located σ)) (expectation : Expectation) (furthest : Furthest σ) :
    Furthest σ :=
  match furthest with
  | none => some ⟨rest, [expectation]⟩
  | some stop =>
    if rest.length < stop.rest.length then some ⟨rest, [expectation]⟩
    else if rest.length = stop.rest.length then
      some ⟨stop.rest, union stop.expected [expectation]⟩
    else some stop

/-- Joins the furthest stops of two readings. At the same place the longer list of
    expectations comes first, the older one if both are as long. -/
def merge (older newer : Furthest σ) : Furthest σ :=
  match older, newer with
  | none, stop => stop
  | stop, none => stop
  | some a, some b =>
    if b.rest.length < a.rest.length then some b
    else if a.rest.length < b.rest.length then some a
    else if a.expected.length < b.expected.length then
      some ⟨a.rest, union b.expected a.expected⟩
    else some ⟨a.rest, union a.expected b.expected⟩

end Stop

/-- A rule of a grammar: what it reads from the front of a list of items, and the
    failures it meets on the way. -/
structure Rule (σ α : Type) where
  read : List (Located σ) → Option (α × List (Located σ))
  trace : List (Located σ) → Furthest σ → Furthest σ

namespace Rule

variable {σ α β : Type}

/-- The rule that reads nothing. -/
def done (a : α) : Rule σ α where
  read items := some (a, items)
  trace _ furthest := furthest

/-- A rule and, after what it read, the rule that follows from its result. -/
def andThen (p : Rule σ α) (q : α → Rule σ β) : Rule σ β where
  read items :=
    match p.read items with
    | none => none
    | some (a, rest) => (q a).read rest
  trace items furthest :=
    match p.read items with
    | none => p.trace items furthest
    | some (a, rest) => (q a).trace rest (p.trace items furthest)

instance : Monad (Rule σ) where
  pure := done
  bind := andThen

/-- One item of a class: what the item means, if it is in the class. -/
def satisfy (expectation atEnd : Expectation) (meaning : σ → Option α) : Rule σ α where
  read
    | [] => none
    | i :: rest => (meaning i.item).map (·, rest)
  trace items furthest :=
    match items with
    | [] => Stop.record [] atEnd furthest
    | i :: _ =>
      match meaning i.item with
      | some _ => furthest
      | none => Stop.record items expectation furthest

/-- The first of two rules that reads something. -/
def orElse (p q : Rule σ α) : Rule σ α where
  read items :=
    match p.read items with
    | some result => some result
    | none => q.read items
  trace items furthest :=
    match p.read items with
    | some _ => p.trace items furthest
    | none => q.trace items (p.trace items furthest)

/-- The first of a list of rules that reads something, `last` if the others fail. -/
def choice (rules : List (Rule σ α)) (last : Rule σ α) : Rule σ α :=
  rules.foldr orElse last

/-- A rule, or nothing where it fails. -/
def optional (p : Rule σ α) : Rule σ (Option α) where
  read items :=
    match p.read items with
    | some (a, rest) => some (some a, rest)
    | none => some (none, items)
  trace := p.trace

/-- What a rule reads up to `fuel` times in a row. -/
def readUpTo (p : Rule σ α) : Nat → List (Located σ) → List α × List (Located σ)
  | 0, items => ([], items)
  | fuel + 1, items =>
    match p.read items with
    | none => ([], items)
    | some (a, rest) =>
      let (as, rest) := readUpTo p fuel rest
      (a :: as, rest)

/-- The failures met on reading a rule up to `fuel` times in a row. -/
def traceUpTo (p : Rule σ α) : Nat → List (Located σ) → Furthest σ → Furthest σ
  | 0, _, furthest => furthest
  | fuel + 1, items, furthest =>
    match p.read items with
    | none => p.trace items furthest
    | some (_, rest) => traceUpTo p fuel rest (p.trace items furthest)

/-- A rule as often as it reads something. It takes an item each time, so the number
    of items bounds the repetitions, and one more attempt fails. -/
def repeated (p : Rule σ α) : Rule σ (List α) where
  read items := some (readUpTo p (items.length + 1) items)
  trace items furthest := traceUpTo p (items.length + 1) items furthest

/-- A rule whose result must pass a check. The failures inside it count only where
    the check is passed or not reached. -/
def checked (p : Rule σ α) (check : α → Bool) : Rule σ α where
  read items :=
    match p.read items with
    | some (a, rest) => if check a then some (a, rest) else none
    | none => none
  trace items furthest :=
    match p.read items with
    | some (a, _) => if check a then Stop.merge furthest (p.trace items none) else furthest
    | none => Stop.merge furthest (p.trace items none)

/-- A rule with the place that its items take. -/
def located (p : Rule σ α) : Rule σ (Located α) where
  read items :=
    match p.read items with
    | some (a, rest) =>
      let taken := items.take (items.length - rest.length)
      let start := taken.head?.elim 0 Located.start
      some (⟨a, start, taken.getLast?.elim start Located.stop⟩, rest)
    | none => none
  trace := p.trace

/-- Skips items of a class. -/
def skip (class? : σ → Bool) : Rule σ Unit where
  read items := some ((), items.dropWhile fun i => class? i.item)
  trace _ furthest := furthest

/-- Reads all items by a rule, or reports the furthest stop. -/
def parse (p : Rule σ α) (items : List (Located σ)) : Except (Furthest σ) α :=
  match p.read items with
  | some (a, []) => .ok a
  | some (_, rest) => .error (Stop.record rest .endOfInput (p.trace items none))
  | none => .error (p.trace items none)

theorem parse_eq_ok_iff {p : Rule σ α} {items : List (Located σ)} {a : α} :
    p.parse items = .ok a ↔ p.read items = some (a, []) := by
  unfold parse
  split <;> simp_all

end Rule

end ReactiveTemplate
