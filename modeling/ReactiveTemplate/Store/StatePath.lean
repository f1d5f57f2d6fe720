import ReactiveTemplate.Text.Pieces

/-!
# State paths

A change is reported by the dotted path of what was written. A path is its list of
segments; a change at one path can affect a read of another exactly when one list
begins with the other. The empty path is the root and concerns everything.

* `childPath`: the path of what lies at a name below a path.
* `pathsOverlap`: whether a change at one path can affect a read of another.
-/

namespace ReactiveTemplate

/-- The path of what lies at a name below a path. -/
def childPath (parent name : String) : String :=
  if parent = "" then name else parent ++ "." ++ name

/-- The segments of a path. -/
def pathSegments (path : String) : List String :=
  let (first, others) := Text.pieces '.' path.toList
  (first :: others).map String.ofList

/-- Whether one of two lists of segments begins with the other. -/
def segmentsOverlap : List String → List String → Bool
  | x :: xs, y :: ys => x == y && segmentsOverlap xs ys
  | _, _ => true

/-- Whether a change at one path can affect a read of another. -/
def pathsOverlap (left right : String) : Bool :=
  left == "" || right == "" || segmentsOverlap (pathSegments left) (pathSegments right)

end ReactiveTemplate
