import ReactiveTemplate.Grammar.Lexer
import ReactiveTemplate.Grammar.Expression
import ReactiveTemplate.Store.StatePath

/-!
# Paths of places

The dotted path of a place, and when it overlaps the path of an expression. A name of the
state may hold dots or be empty, a segment of an expression may not, so the segments of a
dotted path tell the segments of an expression apart.

* `Lexer.IsIdentifier`, `Path.Grammatical`: the names that expressions can spell.
* `pathOf`: the dotted path of a list of names.
* `pathsOverlap_below`, `pathsOverlap_above`: a place above or
  below what an expression reads has an overlapping path.
-/

namespace ReactiveTemplate

/-- A name that the lexer takes for an identifier. -/
def Lexer.IsIdentifier (name : String) : Prop :=
  ∃ c cs, name.toList = c :: cs ∧ startsIdentifier c = true ∧ cs.all continuesIdentifier = true

/-- A path that expressions can spell. -/
def Path.Grammatical (p : Path) : Prop := ∀ name ∈ p.segments, Lexer.IsIdentifier name

/-- The dotted path of a list of names, as it is built up from view to view. -/
def pathOf (names : List String) : String := names.foldl childPath ""

/-! ## Identifiers -/

/-- No identifier begins with a digit. -/
theorem Lexer.isDigit_of_startsIdentifier {c : Char} (h : startsIdentifier c = true) :
    c.isDigit = false := by
  rw [Bool.eq_false_iff]
  intro hdigit
  -- The characters as ranges of their codes.
  have hcode : (decide (c.val ≥ 48) && decide (c.val ≤ 57)) = true := hdigit
  have hcodes : (decide (c.val ≥ 65 ∧ c.val ≤ 90) ||
      (decide (c.val ≥ 97) && decide (c.val ≤ 122)) || c == '_' || c == '$') = true := h
  simp only [Bool.or_eq_true, Bool.and_eq_true, decide_eq_true_eq, beq_iff_eq,
    UInt32.le_iff_toNat_le, ge_iff_le] at hcode hcodes
  rcases hcodes with (hletter | rfl) | rfl
  · change (65 ≤ c.val.toNat ∧ c.val.toNat ≤ 90) ∨ (97 ≤ c.val.toNat ∧ c.val.toNat ≤ 122) at hletter
    change 48 ≤ c.val.toNat ∧ c.val.toNat ≤ 57 at hcode
    omega
  · exact absurd hdigit (by decide)
  · exact absurd hdigit (by decide)

theorem Lexer.IsIdentifier.ne_empty {name : String} (h : IsIdentifier name) : name ≠ "" := by
  rintro rfl
  obtain ⟨c, cs, hcs, -⟩ := h
  simp at hcs

theorem Lexer.IsIdentifier.dot_not_mem {name : String} (h : IsIdentifier name) :
    '.' ∉ name.toList := by
  obtain ⟨c, cs, hcs, hc, hrest⟩ := h
  rw [hcs, List.mem_cons, not_or]
  constructor
  · rintro rfl
    exact absurd hc (by decide)
  · intro hmem
    exact absurd (List.all_eq_true.1 hrest _ hmem) (by decide)

/-! ## Segments -/

theorem Text.pieces_append_separator (separator : Char) (cs ds : List Char) :
    pieces separator (cs ++ separator :: ds) =
      ((pieces separator cs).1, (pieces separator cs).2 ++ (pieces separator ds).1 ::
        (pieces separator ds).2) := by
  induction cs with
  | nil => simp [pieces]
  | cons c cs ih =>
    rw [List.cons_append, pieces, ih, pieces]
    by_cases hc : c = separator <;> simp [hc]

theorem pathSegments_append_dot (left right : String) :
    pathSegments (left ++ "." ++ right) = pathSegments left ++ pathSegments right := by
  have hlist : (left ++ "." ++ right).toList = left.toList ++ '.' :: right.toList := by simp
  simp [pathSegments, hlist, Text.pieces_append_separator]

theorem pathSegments_of_dot_not_mem {name : String} (h : '.' ∉ name.toList) :
    pathSegments name = [name] := by
  simp [pathSegments, Text.pieces_of_not_mem h]

theorem pathSegments_of_isIdentifier {name : String} (h : Lexer.IsIdentifier name) :
    pathSegments name = [name] := pathSegments_of_dot_not_mem h.dot_not_mem

theorem pathSegments_childPath {parent : String} (hparent : parent ≠ "") (name : String) :
    pathSegments (childPath parent name) = pathSegments parent ++ pathSegments name := by
  rw [childPath, if_neg hparent, pathSegments_append_dot]

theorem childPath_ne_empty {parent : String} (hparent : parent ≠ "") (name : String) :
    childPath parent name ≠ "" := by
  rw [childPath, if_neg hparent]
  simp

theorem pathSegments_foldl (names : List String) :
    ∀ {parent : String}, parent ≠ "" →
      pathSegments (names.foldl childPath parent) =
        pathSegments parent ++ names.flatMap pathSegments := by
  induction names with
  | nil => simp
  | cons name names ih =>
    intro parent hparent
    rw [List.foldl_cons, ih (childPath_ne_empty hparent name), pathSegments_childPath hparent,
      List.flatMap_cons, List.append_assoc]

theorem pathSegments_pathOf_cons {name : String} (hname : name ≠ "") (names : List String) :
    pathSegments (pathOf (name :: names)) = (name :: names).flatMap pathSegments := by
  rw [pathOf, List.foldl_cons, childPath, if_pos rfl, pathSegments_foldl names hname,
    List.flatMap_cons]

theorem flatMap_pathSegments {names : List String} (h : ∀ name ∈ names, Lexer.IsIdentifier name) :
    names.flatMap pathSegments = names := by
  induction names with
  | nil => rfl
  | cons name names ih =>
    rw [List.flatMap_cons, pathSegments_of_isIdentifier (h name (by simp)),
      ih fun n hn => h n (by simp [hn])]
    rfl

theorem pathOf_append_singleton (names : List String) (name : String) :
    pathOf (names ++ [name]) = childPath (pathOf names) name := by
  simp [pathOf]

theorem intercalate_cons (names : List String) :
    ∀ {parent : String}, parent ≠ "" →
      ".".intercalate (parent :: names) = names.foldl childPath parent := by
  induction names with
  | nil => simp
  | cons name names ih =>
    intro parent hparent
    rw [List.foldl_cons, ← ih (childPath_ne_empty hparent name), childPath, if_neg hparent,
      String.intercalate_cons_cons, String.intercalate_cons_append]

/-- The path of an expression is spelled as the path of a place. -/
theorem Path.dotted_eq_pathOf {p : Path} (h : p.Grammatical) : p.dotted = pathOf p.segments := by
  have hroot : p.root ≠ "" := (h p.root (by simp [segments])).ne_empty
  rw [dotted, segments, intercalate_cons p.below hroot, pathOf, List.foldl_cons, childPath,
    if_pos rfl]

theorem Path.pathSegments_dotted {p : Path} (h : p.Grammatical) :
    pathSegments p.dotted = p.segments := by
  have hroot : p.root ≠ "" := (h p.root (by simp [segments])).ne_empty
  rw [dotted_eq_pathOf h, segments, pathSegments_pathOf_cons hroot]
  exact flatMap_pathSegments h

/-! ## Overlap -/

theorem segmentsOverlap_comm (xs ys : List String) :
    segmentsOverlap xs ys = segmentsOverlap ys xs := by
  induction xs generalizing ys with
  | nil => cases ys <;> rfl
  | cons x xs ih =>
    cases ys with
    | nil => rfl
    | cons y ys => simp [segmentsOverlap, ih ys, Bool.beq_comm]

theorem segmentsOverlap_of_begins {xs ys : List String} (h : xs <+: ys) :
    segmentsOverlap xs ys = true := by
  obtain ⟨zs, rfl⟩ := h
  induction xs with
  | nil => cases zs <;> rfl
  | cons x xs ih => simpa [segmentsOverlap] using ih

/-- A place at or below what an expression reads. -/
theorem pathsOverlap_below {p : Path} (hp : p.Grammatical) {names : List String}
    (h : p.segments <+: names) : pathsOverlap p.dotted (pathOf names) = true := by
  have hroot : p.root ≠ "" := (hp p.root (by simp [Path.segments])).ne_empty
  obtain ⟨others, rfl⟩ := h
  rw [pathsOverlap, Path.pathSegments_dotted hp, Path.segments, List.cons_append,
    pathSegments_pathOf_cons hroot, ← List.cons_append, List.flatMap_append]
  have hsegments : (p.root :: p.below).flatMap pathSegments = p.root :: p.below :=
    flatMap_pathSegments hp
  rw [hsegments, segmentsOverlap_of_begins (List.prefix_append _ _)]
  simp

/-- A place above what an expression reads. -/
theorem pathsOverlap_above {p : Path} (hp : p.Grammatical) {names : List String}
    (h : names <+: p.segments) : pathsOverlap p.dotted (pathOf names) = true := by
  have hnames : ∀ name ∈ names, Lexer.IsIdentifier name := fun name hname => hp name (h.subset hname)
  cases names with
  | nil => simp [pathsOverlap, pathOf]
  | cons name names =>
    rw [pathsOverlap, Path.pathSegments_dotted hp,
      pathSegments_pathOf_cons (hnames name (by simp)).ne_empty, flatMap_pathSegments hnames,
      segmentsOverlap_comm, segmentsOverlap_of_begins h]
    simp

end ReactiveTemplate
