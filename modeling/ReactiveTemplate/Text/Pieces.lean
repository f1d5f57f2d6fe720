/-!
# Texts in pieces

Cutting a text at a separator and counting it in other units.

* `pieces_of_not_mem`: a text without separators is one piece.
-/

namespace ReactiveTemplate.Text

/-- The pieces of a text between separators: the first one, and the others. -/
def pieces (separator : Char) : List Char → List Char × List (List Char)
  | [] => ([], [])
  | c :: cs =>
    let (first, others) := pieces separator cs
    if c = separator then ([], first :: others) else (c :: first, others)

theorem pieces_of_not_mem {separator : Char} {cs : List Char} (h : separator ∉ cs) :
    pieces separator cs = (cs, []) := by
  induction cs with
  | nil => rfl
  | cons c cs ih =>
    simp only [List.mem_cons, not_or] at h
    simp [pieces, ih h.2, Ne.symm h.1]

/-- What stands before and after the first separator. -/
def cutAtFirst? (separator : Char) : List Char → Option (List Char × List Char)
  | [] => none
  | c :: cs =>
    if c = separator then some ([], cs)
    else (cutAtFirst? separator cs).map fun (before, after) => (c :: before, after)

/-- What stands before and after the last separator. -/
def cutAtLast? (separator : Char) : List Char → Option (List Char × List Char)
  | [] => none
  | c :: cs =>
    match cutAtLast? separator cs with
    | some (before, after) => some (c :: before, after)
    | none => if c = separator then some ([], cs) else none

/-- The number of 16-bit units of a character: two beyond the basic plane. -/
def charUnits16 (c : Char) : Nat := if 0x10000 ≤ c.toNat then 2 else 1

/-- The number of 16-bit units of a text. -/
def units16 (text : String) : Nat := text.toList.foldl (fun n c => n + charUnits16 c) 0

end ReactiveTemplate.Text
