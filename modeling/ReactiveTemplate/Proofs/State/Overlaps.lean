import ReactiveTemplate.Proofs.State.Paths

/-!
# Overlapping paths

Paths are compared segment by segment, so a path overlaps the paths above it and below it and no
others. In particular what lies at one name of a container never overlaps what lies at another
one, even where one name begins with the other.

* `segmentsOverlap_iff`, `pathsOverlap_iff`: one list of segments begins with the other.
* `pathSegments_eq_splitOn`: segments are what stands between dots.
* `IsKey`, `AtOrBelow`: names that are one segment, and the paths at a place and below it.
* `AtOrBelow.exists_pathSegments`: the segments of a path at or below a child.
* `pathsOverlap_segmentwise`: what overlaps and what does not.
-/

namespace ReactiveTemplate

/-! ## Segments -/

theorem segmentsOverlap_iff {xs ys : List String} :
    segmentsOverlap xs ys = true ↔ xs <+: ys ∨ ys <+: xs := by
  constructor
  · intro h
    induction xs generalizing ys with
    | nil => exact .inl List.nil_prefix
    | cons x xs ih =>
      cases ys with
      | nil => exact .inr List.nil_prefix
      | cons y ys =>
        rw [segmentsOverlap, Bool.and_eq_true, beq_iff_eq] at h
        obtain ⟨rfl, hrest⟩ := h
        simp only [List.prefix_cons_inj]
        exact ih hrest
  · rintro (h | h)
    · exact segmentsOverlap_of_begins h
    · rw [segmentsOverlap_comm]
      exact segmentsOverlap_of_begins h

theorem Text.pieces_eq_splitOn (separator : Char) (cs : List Char) :
    (pieces separator cs).1 :: (pieces separator cs).2 = cs.splitOn separator := by
  induction cs with
  | nil => rfl
  | cons c cs ih =>
    rw [List.splitOn_cons_eq_if_modifyHead, ← ih, pieces]
    by_cases hc : c = separator <;> simp [hc]

/-- The segments of a path are what stands between its dots. -/
theorem pathSegments_eq_splitOn (path : String) :
    pathSegments path = (path.toList.splitOn '.').map String.ofList := by
  rw [← Text.pieces_eq_splitOn, pathSegments]

theorem pathSegments_prefix_iff {left right : String} :
    pathSegments left <+: pathSegments right ↔
      left.toList.splitOn '.' <+: right.toList.splitOn '.' := by
  rw [pathSegments_eq_splitOn, pathSegments_eq_splitOn,
    List.prefix_map_iff_of_injective fun _ _ => String.ofList_injective]

/-! ## Paths -/

theorem pathsOverlap_iff {left right : String} :
    pathsOverlap left right = true ↔
      left = "" ∨ right = "" ∨ pathSegments left <+: pathSegments right ∨
        pathSegments right <+: pathSegments left := by
  rw [pathsOverlap, Bool.or_eq_true, Bool.or_eq_true, beq_iff_eq, beq_iff_eq, segmentsOverlap_iff,
    or_assoc]

theorem pathsOverlap_comm (left right : String) :
    pathsOverlap left right = pathsOverlap right left := by
  rw [pathsOverlap, pathsOverlap, segmentsOverlap_comm, Bool.or_comm (left == "")]

/-- A path is that of a place, or continues it after a dot. -/
def AtOrBelow (place path : String) : Prop := path = place ∨ ∃ more, path = place ++ "." ++ more

theorem AtOrBelow.ne_empty {place path : String} (h : AtOrBelow place path) (hplace : place ≠ "") :
    path ≠ "" := by
  rcases h with rfl | ⟨more, rfl⟩
  · exact hplace
  · simp

theorem AtOrBelow.segments_prefix {place path : String} (h : AtOrBelow place path) :
    pathSegments place <+: pathSegments path := by
  rcases h with rfl | ⟨more, rfl⟩
  · exact List.prefix_refl _
  · rw [pathSegments_append_dot]
    exact List.prefix_append _ _

/-! ## Children -/

/-- A name that is exactly one segment of a path. -/
structure IsKey (name : String) : Prop where
  ne_empty : name ≠ ""
  dot_not_mem : '.' ∉ name.toList

/-- The segments of a path, none for the root. -/
def segmentsBelowRoot (path : String) : List String := if path = "" then [] else pathSegments path

variable {parent key key' left right path : String}

theorem IsKey.segments_childPath (h : IsKey key) (parent : String) :
    pathSegments (childPath parent key) = segmentsBelowRoot parent ++ [key] := by
  have hkey : pathSegments key = [key] := pathSegments_of_dot_not_mem h.dot_not_mem
  by_cases hparent : parent = ""
  · rw [segmentsBelowRoot, if_pos hparent, childPath, if_pos hparent, hkey, List.nil_append]
  · rw [segmentsBelowRoot, if_neg hparent, pathSegments_childPath hparent, hkey]

theorem IsKey.child_ne_empty (h : IsKey key) (parent : String) : childPath parent key ≠ "" := by
  by_cases hparent : parent = ""
  · rw [childPath, if_pos hparent]
    exact h.ne_empty
  · exact childPath_ne_empty hparent key

/-- A path at or below a child has the name of the child after the segments of the parent. -/
theorem AtOrBelow.exists_pathSegments (hkey : IsKey key)
    (h : AtOrBelow (childPath parent key) path) :
    ∃ more, pathSegments path = segmentsBelowRoot parent ++ key :: more := by
  obtain ⟨more, hmore⟩ := h.segments_prefix
  rw [hkey.segments_childPath, List.append_assoc] at hmore
  exact ⟨more, hmore.symm⟩

theorem IsKey.child_overlaps_parent (h : IsKey key) (parent : String) :
    pathsOverlap (childPath parent key) parent = true := by
  rw [pathsOverlap_iff, h.segments_childPath, segmentsBelowRoot]
  by_cases hparent : parent = ""
  · exact .inr (.inl hparent)
  · rw [if_neg hparent]
    exact .inr (.inr (.inr (List.prefix_append _ _)))

theorem pathsOverlap_of_keys_ne (hkey : IsKey key) (hkey' : IsKey key') (hne : key ≠ key')
    (hleft : AtOrBelow (childPath parent key) left)
    (hright : AtOrBelow (childPath parent key') right) : pathsOverlap left right = false := by
  obtain ⟨more, hmore⟩ := hleft.exists_pathSegments hkey
  obtain ⟨more', hmore'⟩ := hright.exists_pathSegments hkey'
  rw [Bool.eq_false_iff, ne_eq, pathsOverlap_iff, hmore, hmore']
  rintro (hroot | hroot | h | h)
  · exact hleft.ne_empty (hkey.child_ne_empty parent) hroot
  · exact hright.ne_empty (hkey'.child_ne_empty parent) hroot
  -- Behind the segments of the parent the two paths go on with different names.
  · rw [List.prefix_append_right_inj, List.cons_prefix_cons] at h
    exact hne h.1
  · rw [List.prefix_append_right_inj, List.cons_prefix_cons] at h
    exact hne h.1.symm

/-- Overlapping is segment-wise: one path is the root, or the segments of one begin with those of
    the other. It is symmetric, a child overlaps its parent, and nothing at or below one child
    overlaps anything at or below another one. -/
theorem pathsOverlap_segmentwise :
    (∀ left right, pathsOverlap left right = true ↔
      left = "" ∨ right = "" ∨ left.toList.splitOn '.' <+: right.toList.splitOn '.' ∨
        right.toList.splitOn '.' <+: left.toList.splitOn '.') ∧
    (∀ left right, pathsOverlap left right = pathsOverlap right left) ∧
    (∀ parent key, IsKey key → pathsOverlap (childPath parent key) parent = true) ∧
    ∀ parent key key', IsKey key → IsKey key' → key ≠ key' →
      ∀ left right, AtOrBelow (childPath parent key) left →
        AtOrBelow (childPath parent key') right → pathsOverlap left right = false := by
  refine ⟨fun left right => ?_, pathsOverlap_comm,
    fun parent key h => h.child_overlaps_parent parent,
    fun parent key key' hkey hkey' hne left right => pathsOverlap_of_keys_ne hkey hkey' hne⟩
  rw [pathsOverlap_iff, pathSegments_prefix_iff, pathSegments_prefix_iff]

/-- A path below the name of a user, and one at a name that begins with it. -/
theorem user_and_username_apart :
    IsKey "user" ∧ IsKey "username" ∧ AtOrBelow (childPath "form" "user") "form.user.name" ∧
      AtOrBelow (childPath "form" "username") "form.username" ∧
      pathsOverlap (childPath "form" "user") "form" = true ∧
      pathsOverlap "form.user.name" "form.username" = false := by
  have huser : IsKey "user" := ⟨by decide, by decide⟩
  have husername : IsKey "username" := ⟨by decide, by decide⟩
  have hbelow : AtOrBelow (childPath "form" "user") "form.user.name" := .inr ⟨"name", by decide⟩
  have hat : AtOrBelow (childPath "form" "username") "form.username" := .inl (by decide)
  obtain ⟨-, -, hparent, hapart⟩ := pathsOverlap_segmentwise
  exact ⟨huser, husername, hbelow, hat, hparent "form" "user" huser,
    hapart "form" "user" "username" huser husername (by decide) _ _ hbelow hat⟩

end ReactiveTemplate
