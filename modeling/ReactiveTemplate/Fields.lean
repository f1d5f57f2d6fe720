/-!
# Ordered fields

A finite map from names to values that keeps the order in which the names were
first written. State objects, attributes, styles and the children of a view are
such maps.

* `get?_insert`: a written name reads back, all others are as before.
* `get?_erase`: an erased name is gone, all others are as before.
* `keys_insert`: a new name comes last, a known one keeps its place.
-/

namespace ReactiveTemplate

/-- The entry list with the value at a name replaced, or added at the end. -/
def putEntry {α : Type} (name : String) (value : α) : List (String × α) → List (String × α)
  | [] => [(name, value)]
  | (other, old) :: rest =>
    if other = name then (name, value) :: rest else (other, old) :: putEntry name value rest

theorem map_fst_putEntry {α : Type} (name : String) (value : α) (entries : List (String × α)) :
    (putEntry name value entries).map Prod.fst =
      if name ∈ entries.map Prod.fst then entries.map Prod.fst
      else entries.map Prod.fst ++ [name] := by
  induction entries with
  | nil => rfl
  | cons e rest ih =>
    obtain ⟨other, old⟩ := e
    by_cases h : other = name
    · subst h
      simp [putEntry]
    · simp only [putEntry, h, if_false, List.map_cons, ih, List.mem_cons, Ne.symm h, false_or]
      split <;> rfl

/-- The value of the first entry with a name. -/
def findEntry {α : Type} (name : String) : List (String × α) → Option α
  | [] => none
  | (other, value) :: rest => if other = name then some value else findEntry name rest

theorem findEntry_putEntry {α : Type} (name other : String) (value : α)
    (entries : List (String × α)) :
    findEntry other (putEntry name value entries) =
      if other = name then some value else findEntry other entries := by
  induction entries with
  | nil => simp [putEntry, findEntry, eq_comm]
  | cons e rest ih =>
    obtain ⟨key, old⟩ := e
    by_cases h : key = name
    · subst h
      simp only [putEntry, if_true, findEntry, eq_comm (a := key) (b := other)]
      split <;> rfl
    · by_cases h' : key = other
      · subst h'
        simp [putEntry, findEntry, h]
      · simp [putEntry, findEntry, h, h', ih]

theorem findEntry_filter {α : Type} (name other : String) (entries : List (String × α)) :
    findEntry other (entries.filter fun e => e.1 != name) =
      if other = name then none else findEntry other entries := by
  induction entries with
  | nil => simp [findEntry]
  | cons e rest ih =>
    obtain ⟨key, old⟩ := e
    by_cases h : key = name
    · subst h
      rw [List.filter_cons_of_neg (by simp), ih]
      simp only [findEntry, eq_comm (a := key) (b := other)]
      split <;> rfl
    · rw [List.filter_cons_of_pos (by simpa using h), findEntry, findEntry, ih]
      by_cases h' : key = other
      · subst h'
        simp [h]
      · simp [h']

/-- A map from names to values in the order of first writing. No name occurs
    twice. -/
structure Fields (α : Type) where
  entries : List (String × α)
  nodup : (entries.map Prod.fst).Nodup
  deriving DecidableEq

namespace Fields

variable {α : Type}

/-- No fields. -/
def empty : Fields α := ⟨[], List.nodup_nil⟩

instance : Inhabited (Fields α) := ⟨empty⟩

/-- The names in order. -/
def keys (f : Fields α) : List String := f.entries.map Prod.fst

/-- The value at a name. -/
def get? (f : Fields α) (name : String) : Option α := findEntry name f.entries

/-- Whether a name has a value. -/
def contains (f : Fields α) (name : String) : Bool := (f.get? name).isSome

/-- Writes a value at a name, at the end if the name is new. -/
def insert (f : Fields α) (name : String) (value : α) : Fields α where
  entries := putEntry name value f.entries
  nodup := by
    rw [map_fst_putEntry]
    split
    · exact f.nodup
    · next h =>
      refine List.nodup_append.2 ⟨f.nodup, by simp, ?_⟩
      intro a ha b hb hab
      simp only [List.mem_singleton] at hb
      subst hab hb
      exact h ha

/-- Takes a name out; the others keep their order. -/
def erase (f : Fields α) (name : String) : Fields α where
  entries := f.entries.filter fun e => e.1 != name
  nodup := f.nodup.sublist ((List.filter_sublist (p := fun e => e.1 != name)).map Prod.fst)

/-- The fields of a list of entries, written one after the other. -/
def ofList (entries : List (String × α)) : Fields α :=
  entries.foldl (fun f e => f.insert e.1 e.2) empty

theorem get?_insert (f : Fields α) (name other : String) (value : α) :
    (f.insert name value).get? other = if other = name then some value else f.get? other :=
  findEntry_putEntry name other value f.entries

theorem keys_insert (f : Fields α) (name : String) (value : α) :
    (f.insert name value).keys = if name ∈ f.keys then f.keys else f.keys ++ [name] :=
  map_fst_putEntry name value f.entries

theorem get?_erase (f : Fields α) (name other : String) :
    (f.erase name).get? other = if other = name then none else f.get? other :=
  findEntry_filter name other f.entries

end Fields

end ReactiveTemplate
