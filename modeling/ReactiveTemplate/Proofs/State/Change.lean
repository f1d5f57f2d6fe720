import Mathlib.Data.List.Induction
import ReactiveTemplate.Evaluation.Evaluate
import ReactiveTemplate.Proofs.State.Paths
import ReactiveTemplate.Proofs.State.Places

/-!
# What a change leaves alone

Two heaps that differ in one container, which lies at one place only. A path reads the same
in both, and all below what it reads is the same, unless the place lies at or below what is
read, or the path goes through the place and reads something that differs there.

* `resolvePath_object`: reading a path is a descent from the root object.
* `Heap.AgreeOff`, `Heap.SameProperty`: the heaps differ in one container, and not in one
  property of it.
* `Heap.OnlyAt.descend`, `Heap.OnlyAt.resolvePath`: what the change leaves alone.
-/

namespace ReactiveTemplate

/-- The steps along the fields of the given names. -/
def fieldKeys (names : List String) : List Key := names.map .field

theorem map_name_fieldKeys (names : List String) : (fieldKeys names).map Key.name = names := by
  simp [fieldKeys, Function.comp_def, Key.name]

theorem descend_undefined (h : Heap) (walked names : List String) :
    descend h walked .undefined names = .ok .undefined := by
  cases names <;> rfl

/-- Reading a path below an object is a descent from the object. -/
theorem resolvePath_object (h : Heap) (id : ObjectId) (p : Path) :
    resolvePath h (.object id) p = (descend h [] (.object id) p.segments).map Value.orEmpty := by
  rw [resolvePath, Path.segments, descend, Scope.lookup, property]
  by_cases hlocked : (h.object id).locked
  · simp only [hlocked, if_true]
    rfl
  · simp only [hlocked, if_false, Bool.false_eq_true]
    cases hget : (h.fields id).get? p.root with
    | none => rfl
    | some value =>
      cases value with
      | undefined =>
        change (do return (← descend h [p.root] .undefined p.below).orEmpty) = _
        rw [descend_undefined]
        rfl
      | _ =>
        simp only [Option.getD_some, List.nil_append]
        change (descend h [p.root] _ p.below >>= fun a => pure a.orEmpty) =
          (descend h [p.root] _ p.below).map Value.orEmpty
        cases descend h [p.root] _ p.below <;> rfl

theorem Container.value_of_container? {value : Value} {c : Container}
    (hc : value.container? = some c) : c.value = value := by
  cases value <;> simp [Value.container?] at hc <;> subst hc <;> rfl

namespace Heap

variable {h h' : Heap} {value root : Value} {c : Container}

/-! ## Reading where nothing differs -/

theorem AgreeBelow.property (hb : h.AgreeBelow h' value) (walked : List String) (name : String) :
    property h walked value name = property h' walked value name := by
  cases value with
  | object id =>
    have ha : h.object id = h'.object id := hb.self rfl
    simp only [ReactiveTemplate.property, fields, ha]
  | array id =>
    have ha : h.array id = h'.array id := hb.self rfl
    simp only [ReactiveTemplate.property, items, ha]
  | _ => rfl

/-- A property is a field, or there is nothing below it. -/
theorem property_eq_ok {walked : List String} {name : String} {next : Value}
    (hp : property h walked value name = .ok next) :
    (∃ c, value.container? = some c ∧ h.child? c (.field name) = some next) ∨
      next.container? = none := by
  cases value with
  | object id =>
    rw [ReactiveTemplate.property] at hp
    split at hp
    · cases hp
    · rw [Except.ok.injEq] at hp
      cases hget : (h.fields id).get? name with
      | none =>
        rw [hget] at hp
        exact .inr (hp ▸ rfl)
      | some found =>
        rw [hget] at hp
        exact .inl ⟨.object id, rfl, hget.trans (congrArg some hp)⟩
  | array id =>
    refine .inr ?_
    rw [ReactiveTemplate.property] at hp
    split at hp
    · split at hp
      · cases hp
      · rw [← Except.ok.inj hp]
        rfl
    · rw [← Except.ok.inj hp]
      rfl
  | text t =>
    refine .inr ?_
    rw [ReactiveTemplate.property] at hp
    split at hp <;> rw [← Except.ok.inj hp] <;> rfl
  | _ =>
    rw [← Except.ok.inj hp]
    exact .inr rfl

theorem AgreeBelow.of_property {walked : List String} {name : String} {next : Value}
    (hb : h.AgreeBelow h' value) (hp : ReactiveTemplate.property h walked value name = .ok next) :
    h.AgreeBelow h' next := by
  rcases property_eq_ok hp with ⟨c, hc, hget⟩ | hnone
  · exact hb.child hc hget
  · exact agreeBelow_of_container?_eq_none h h' hnone

/-- One step of a descent: an error, the end at `undefined`, or the descent from what is
    found. -/
theorem descend_cons (h : Heap) (walked : List String) (value : Value) (name : String)
    (names : List String) :
    descend h walked value (name :: names) =
      (ReactiveTemplate.property h walked value name).bind fun next =>
        descend h (walked ++ [name]) next names := by
  rw [descend]
  cases ReactiveTemplate.property h walked value name with
  | error e => rfl
  | ok next =>
    cases next with
    | undefined => cases names <;> rfl
    | _ => rfl

theorem descend_append (h : Heap) (names names' : List String) :
    ∀ (walked : List String) (value : Value), descend h walked value (names ++ names') =
      (descend h walked value names).bind fun found => descend h (walked ++ names) found names' := by
  induction names with
  | nil =>
    intro walked value
    rw [List.nil_append, List.append_nil]
    rfl
  | cons name names ih =>
    intro walked value
    rw [List.cons_append, descend_cons, descend_cons]
    cases ReactiveTemplate.property h walked value name with
    | error e => rfl
    | ok next =>
      simp only [Except.bind, ih, List.append_assoc, List.singleton_append]

/-- Where nothing is being modified, a descent finds what lies along the fields. -/
theorem descend_of_at? (hunlocked : ∀ c, h.isLocked c = false) (names : List String) :
    ∀ (walked : List String) {value found : Value}, h.at? value (fieldKeys names) = some found →
      descend h walked value names = .ok found := by
  induction names with
  | nil =>
    intro walked value found hfound
    rw [fieldKeys, List.map_nil, at?_nil] at hfound
    rw [Option.some.inj hfound]
    rfl
  | cons name names ih =>
    intro walked value found hfound
    rw [fieldKeys, List.map_cons, at?_cons, Option.bind_eq_some_iff] at hfound
    obtain ⟨c, hc, hfound⟩ := hfound
    obtain ⟨next, hnext, -⟩ := Option.bind_eq_some_iff.1 hfound
    obtain rfl := Container.value_of_container? hc
    cases c with
    | array id => cases hnext
    | object id =>
      have hlocked : (h.object id).locked = false := hunlocked (.object id)
      have hget : (h.fields id).get? name = some next := hnext
      rw [hnext, Option.bind_some] at hfound
      rw [descend_cons, Container.value, ReactiveTemplate.property, hlocked, hget]
      exact ih _ hfound

theorem AgreeBelow.descend (hb : h.AgreeBelow h' value) (names walked : List String) :
    descend h walked value names = descend h' walked value names ∧
      ∀ found, descend h walked value names = .ok found → h.AgreeBelow h' found := by
  induction names generalizing value walked with
  | nil =>
    refine ⟨rfl, fun found hfound => ?_⟩
    exact Except.ok.inj hfound ▸ hb
  | cons name names ih =>
    simp only [descend_cons, ← hb.property]
    cases hp : ReactiveTemplate.property h walked value name with
    | error e => exact ⟨rfl, fun found hfound => by cases hfound⟩
    | ok next => exact ih (hb.of_property hp) _

/-! ## Reading past one changed container -/

/-- Two heaps hold the same in all containers but one. -/
def AgreeOff (h h' : Heap) (c : Container) : Prop := ∀ d, d ≠ c → h.Agree h' d

/-- A property of a container is the same in two heaps. -/
def SameProperty (h h' : Heap) (c : Container) (name : String) : Prop :=
  ∀ walked, property h walked c.value name = property h' walked c.value name

/-- The one place of a container below a root. -/
structure OnlyAt (h : Heap) (root : Value) (place : List Key) (c : Container) : Prop where
  found : h.containerAlong? root place = some c
  only : ∀ keys, h.containerAlong? root keys = some c → keys = place

theorem Unshared.onlyAt {place : List Key} (hu : h.Unshared root)
    (hc : h.containerAlong? root place = some c) : h.OnlyAt root place c :=
  ⟨hc, fun keys hkeys => hu keys place c hkeys hc⟩

/-- A value that the changed place does not lie below. -/
theorem OnlyAt.agreeBelow {place keys : List Key} (hat : h.OnlyAt root place c)
    (hoff : h.AgreeOff h' c) (hvalue : h.at? root keys = some value) (hkeys : ¬ keys <+: place) :
    h.AgreeBelow h' value := by
  intro below d hd
  refine hoff d ?_
  rintro rfl
  have hplace := hat.only (keys ++ below) (by rw [containerAlong?_of_at? hvalue, hd])
  exact hkeys ⟨below, hplace⟩

/-- The way to the changed place is the same. -/
theorem OnlyAt.at? {place : List Key} (hat : h.OnlyAt root place c) (hoff : h.AgreeOff h' c)
    {keys : List Key} (hkeys : keys <+: place) : h.at? root keys = h'.at? root keys := by
  induction keys using List.reverseRecOn with
  | nil => simp
  | append_singleton keys key ih =>
    have hfront : keys <+: place := (List.prefix_append _ _).trans hkeys
    have hne : keys ≠ place := by
      rintro rfl
      have hlength := hkeys.length_le
      rw [List.length_append, List.length_singleton] at hlength
      omega
    rw [at?_append, at?_append, ← ih hfront]
    cases hvalue : h.at? root keys with
    | none => rfl
    | some value =>
      rw [Option.bind_some, Option.bind_some, at?_singleton, at?_singleton]
      cases hd : value.container? with
      | none => rfl
      | some d =>
        have hdc : d ≠ c := by
          rintro rfl
          exact hne (hat.only keys (by rw [containerAlong?, hvalue, Option.bind_some, hd]))
        rw [Option.bind_some, Option.bind_some, (hoff d hdc).child?]

/-- A property that is read at another place, or does not differ. -/
theorem OnlyAt.property {place keys : List Key} (hat : h.OnlyAt root place c)
    (hoff : h.AgreeOff h' c) (hvalue : h.at? root keys = some value) {name : String}
    (hname : keys = place → h.SameProperty h' c name) (walked : List String) :
    property h walked value name = ReactiveTemplate.property h' walked value name := by
  cases hc : value.container? with
  | none => cases value <;> simp [Value.container?] at hc <;> rfl
  | some d =>
    obtain rfl := Container.value_of_container? hc
    by_cases hd : d = c
    · subst hd
      have hplace := hat.only keys (by rw [containerAlong?, hvalue, Option.bind_some, hc])
      exact hname hplace walked
    · cases d with
      | object id =>
        have ha : h.object id = h'.object id := hoff _ hd
        simp only [Container.value, ReactiveTemplate.property, fields, ha]
      | array id =>
        have ha : h.array id = h'.array id := hoff _ hd
        simp only [Container.value, ReactiveTemplate.property, items, ha]

/-- Below a property of an array there is nothing, whatever its length. -/
theorem descend_array {id : ArrayId} (hlock : h.isLocked (.array id) = h'.isLocked (.array id))
    (walked : List String) (name next : String) (names : List String) :
    descend h walked (.array id) (name :: next :: names) =
        ReactiveTemplate.descend h' walked (.array id) (name :: next :: names) ∧
      ∀ found, ReactiveTemplate.descend h walked (.array id) (name :: next :: names) = .ok found →
        found.container? = none := by
  have hlocked : (h.array id).locked = (h'.array id).locked := hlock
  have hcount : ∀ (g : Heap) (n : Nat) (walked : List String),
      ReactiveTemplate.descend g walked (.count n) (next :: names) = .ok .undefined := by
    intro g n walked
    rw [descend_cons]
    exact descend_undefined g _ names
  rw [descend_cons, descend_cons, ReactiveTemplate.property, ReactiveTemplate.property, ← hlocked]
  by_cases hname : name = "length"
  · simp only [hname, if_true]
    cases (h.array id).locked with
    | true => exact ⟨rfl, nofun⟩
    | false =>
      simp only [Bool.false_eq_true, if_false, Except.bind, hcount]
      refine ⟨trivial, ?_⟩
      rintro found ⟨⟩
      rfl
  · simp only [hname, if_false, Except.bind, descend_undefined]
    refine ⟨trivial, ?_⟩
    rintro found ⟨⟩
    rfl

/-- What may be read at the changed place: a property that does not differ, or something
    below a property of an array. -/
def Unnoticed (h h' : Heap) (c : Container) (name : String) (after : List String) : Prop :=
  h.SameProperty h' c name ∨ (∃ id, c = .array id) ∧ after ≠ []

/-- A descent whose end lies neither above nor at the changed place, and which notices
    nothing there. -/
theorem OnlyAt.descend {place : List Key} (hat : h.OnlyAt root place c) (hoff : h.AgreeOff h' c)
    (hlock : h.isLocked c = h'.isLocked c) (names : List String) :
    ∀ {value : Value} {keys : List Key} (walked : List String), h.at? root keys = some value →
      ¬ keys ++ fieldKeys names <+: place →
      (∀ before name after, names = before ++ name :: after → keys ++ fieldKeys before = place →
        h.Unnoticed h' c name after) →
      descend h walked value names = ReactiveTemplate.descend h' walked value names ∧
        ∀ found, ReactiveTemplate.descend h walked value names = .ok found →
          h.AgreeBelow h' found := by
  induction names with
  | nil =>
    intro value keys walked hvalue hend _
    rw [fieldKeys, List.map_nil, List.append_nil] at hend
    refine ⟨rfl, fun found hfound => ?_⟩
    exact Except.ok.inj hfound ▸ hat.agreeBelow hoff hvalue hend
  | cons name names ih =>
    intro value keys walked hvalue hend hsame
    have hfirst : keys = place → h.Unnoticed h' c name names := fun hkeys =>
      hsame [] name names rfl (by simpa [fieldKeys] using hkeys)
    by_cases hprop : keys = place → h.SameProperty h' c name
    · simp only [descend_cons, ← hat.property hoff hvalue hprop]
      cases hp : ReactiveTemplate.property h walked value name with
      | error e => exact ⟨rfl, nofun⟩
      | ok next =>
        rcases property_eq_ok hp with ⟨d, hd, hget⟩ | hnone
        · have hnext : h.at? root (keys ++ [.field name]) = some next := by
            rw [at?_append, hvalue, Option.bind_some, at?_singleton, hd, Option.bind_some, hget]
          refine ih _ hnext ?_ ?_
          · rw [List.append_assoc]
            exact hend
          · intro before other after hnames hplace
            rw [List.append_assoc] at hplace
            refine hsame (name :: before) other after ?_ hplace
            rw [hnames, List.cons_append]
        · -- Below a number, a text or `undefined` nothing can differ.
          exact (agreeBelow_of_container?_eq_none h h' hnone).descend names _
    · -- The changed array itself: its length differs, and the descent goes on below it.
      obtain ⟨hplace, hdiffers⟩ := Classical.not_imp.1 hprop
      rcases hfirst hplace with hsame' | ⟨⟨id, rfl⟩, hne⟩
      · exact absurd hsame' hdiffers
      · obtain rfl : value = .array id := by
          have hc := hat.found
          rw [← hplace, containerAlong?, hvalue, Option.bind_some] at hc
          exact (Container.value_of_container? hc).symm
        obtain ⟨next, names, rfl⟩ := List.exists_cons_of_ne_nil hne
        obtain ⟨heq, hnone⟩ := descend_array hlock walked name next names
        exact ⟨heq, fun found hfound => agreeBelow_of_container?_eq_none h h' (hnone found hfound)⟩

/-- A path that ends neither above nor at the changed place, and notices nothing there. -/
theorem OnlyAt.resolvePath {id : ObjectId} {place : List Key} {p : Path}
    (hat : h.OnlyAt (.object id) place c) (hoff : h.AgreeOff h' c)
    (hlock : h.isLocked c = h'.isLocked c) (hend : ¬ fieldKeys p.segments <+: place)
    (hsame : ∀ before name after, p.segments = before ++ name :: after →
      fieldKeys before = place → h.Unnoticed h' c name after) :
    resolvePath h (.object id) p = ReactiveTemplate.resolvePath h' (.object id) p ∧
      ∀ found, ReactiveTemplate.resolvePath h (.object id) p = .ok found →
        h.AgreeBelow h' found := by
  obtain ⟨heq, hbelow⟩ := hat.descend hoff hlock p.segments [] (at?_nil h (.object id)) hend hsame
  rw [resolvePath_object, resolvePath_object, ← heq]
  refine ⟨rfl, fun found hfound => ?_⟩
  cases hd : ReactiveTemplate.descend h [] (.object id) p.segments with
  | error e =>
    rw [hd] at hfound
    cases hfound
  | ok next =>
    rw [hd] at hfound
    obtain rfl := Except.ok.inj hfound
    have hnext := hbelow next hd
    cases next with
    | undefined => exact agreeBelow_of_container?_eq_none h h' rfl
    | _ => exact hnext

end Heap

end ReactiveTemplate
