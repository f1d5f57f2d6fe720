import ReactiveTemplate.Diagnostics
import ReactiveTemplate.Evaluation.Compiled

/-!
# Expression cache

Expressions are static texts of a template, so each is compiled once and kept. The
same text inside and outside a repeated element counts as two.

* `ExpressionCache.compile`: the compiled expression of a text, and its number.
-/

namespace ReactiveTemplate

/-- Where an expression is evaluated: in the state, or for an item of a list. -/
inductive ContextMarker where
  | state
  | loop
  deriving DecidableEq, Repr

/-- The name of a context in the log. -/
def ContextMarker.name : ContextMarker → String
  | .state => "State"
  | .loop => "Loop"

/-- The key of a compiled expression: its text without the white space around it, and
    where it is evaluated. -/
structure CacheKey where
  text : String
  marker : ContextMarker
  deriving DecidableEq, Repr

/-- The compiled expressions in the order of their first use, and how often one was
    found and missed. The place of an entry is its identity. -/
structure ExpressionCache where
  entries : List (CacheKey × CompiledExpression)
  hits : Nat
  misses : Nat

namespace ExpressionCache

/-- A cache without entries. -/
def empty : ExpressionCache := ⟨[], 0, 0⟩

instance : Inhabited ExpressionCache := ⟨empty⟩

/-- The place and the expression of the first entry with a key. -/
def find? (key : CacheKey) : Nat → List (CacheKey × CompiledExpression) →
    Option (Nat × CompiledExpression)
  | _, [] => none
  | place, (other, compiled) :: rest =>
    if other = key then some (place, compiled) else find? key (place + 1) rest

/-- What compiling a text leaves behind. -/
structure Result where
  place : Nat
  compiled : CompiledExpression
  cache : ExpressionCache
  journal : Journal

/-- The compiled expression of a text. It is compiled on first use, and reported then
    if it is rejected. -/
def compile (cache : ExpressionCache) (journal : Journal) (text : String)
    (marker : ContextMarker) : Result :=
  let key : CacheKey := ⟨Text.trim text, marker⟩
  match find? key 0 cache.entries with
  | some (place, compiled) => ⟨place, compiled, { cache with hits := cache.hits + 1 }, journal⟩
  | none =>
    let compiled := CompiledExpression.compile key.text
    let journal := match compiled.error? with
      | some e => journal.record (.ofSyntaxError .rejectedExpression compiled.source e)
      | none => journal
    let journal := journal.log .trace ("compiled '" ++ key.text ++ "' for " ++ marker.name)
    let entries := cache.entries ++ [(key, compiled)]
    ⟨cache.entries.length, compiled, { cache with entries, misses := cache.misses + 1 }, journal⟩

end ExpressionCache

end ReactiveTemplate
