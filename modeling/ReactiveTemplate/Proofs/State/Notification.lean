import ReactiveTemplate.Proofs.State.Fresh
import ReactiveTemplate.Proofs.State.Writes

/-!
# Changed reads are notified

A single write through a view reports a path that overlaps the path of every expression
that reads differently after it. The one exception is a write past the end of an array: it
changes the length of the array, and reports only the item.

* `Store.Reachable`: the stores that reads and writes through views can lead to.
* `ViewWrite.resolvePath_of_not_overlap`: what a write does not report, it leaves alone.
* `changed_read_overlaps_or_is_overrun_length`: the exact exception.
-/

namespace ReactiveTemplate

/-! ## Reachable stores -/

/-- The stores that reads and writes through views lead to, from the view of any state. -/
inductive Store.Reachable : Store → Prop
  | wrap {heap : Heap} {id : ObjectId} : heap.AtRest → heap.Known (.object id) →
    Reachable (.wrap heap id)
  | place {s : Store} {d : Datum} : Reachable s → d.Known s.heap →
    Reachable { s with heap := (s.heap.place d).2 }
  | read {s : Store} {id : ViewId} (key : Key) : Reachable s → id.index < s.views.size →
    Reachable (s.readKey id key).2
  | write {s : Store} {id : ViewId} {write : ViewWrite} {w : Written Unit} : Reachable s →
    id.index < s.views.size → (∀ value ∈ write.values, value.Known s.heap) →
    write.apply s id = some w → Reachable w.store

/-- The invariant of reachable stores. -/
structure Store.Invariant (s : Store) : Prop where
  sound : s.Sound
  atRest : s.heap.AtRest
  rootKnown : s.heap.Known (.object s.rootObject)

theorem ViewWrite.Effect.rootObject {s : Store} {id : ViewId} {write : ViewWrite}
    {w : Written Unit} (hs : s.Sound) (he : write.Effect s id w) :
    w.store.rootObject = s.rootObject := by
  have hroot := Store.Extends.rootObject (hs.withHeap w.store.heap) he.views
  exact hroot

theorem Store.Reachable.invariant {s : Store} (hs : s.Reachable) : s.Invariant := by
  induction hs with
  | wrap hr hk => exact ⟨sound_wrap _ _, hr, hk⟩
  | place _ hd ih =>
    have hp := Heap.place_spec ih.atRest hd
    exact ⟨ih.sound.withHeap _, hp.atRest, hp.grows.known _ ih.rootKnown⟩
  | @read s id key _ hid ih =>
    have hspec := readKey_spec ih.sound hid key
    refine ⟨hspec.sound, hspec.extends'.heap ▸ ih.atRest, ?_⟩
    rw [hspec.extends'.rootObject ih.sound, hspec.extends'.heap]
    exact ih.rootKnown
  | write _ hid hvalues hw ih =>
    rcases ViewWrite.apply_cases ih.sound hid hw with ⟨hstore, -⟩ | he
    · rw [hstore]
      exact ih
    · refine ⟨he.sound, he.atRest ih.atRest hvalues, ?_⟩
      rw [he.rootObject ih.sound]
      exact (he.known _).2 ih.rootKnown

/-! ## What a write leaves alone -/

theorem Heap.resolvePath_length {h : Heap} (hunlocked : ∀ c, h.isLocked c = false)
    {root : ObjectId} {names : List String} {array : ArrayId}
    (hplace : h.containerAlong? (.object root) (fieldKeys names) = some (.array array)) {q : Path}
    (hsegments : q.segments = names ++ ["length"]) :
    resolvePath h (.object root) q = .ok (.count (h.items array).length) := by
  obtain ⟨value, hvalue, hc⟩ := Option.bind_eq_some_iff.1 hplace
  obtain rfl := Container.value_of_container? hc
  have hlocked : (h.array array).locked = false := hunlocked (.array array)
  rw [resolvePath_object, hsegments, descend_append, descend_of_at? hunlocked names [] hvalue]
  simp only [Except.bind, descend_cons, Container.value, property, hlocked]
  rfl

/-- The name of an item is a single segment that no expression can spell. -/
theorem pathSegments_repr (index : Nat) : pathSegments (Nat.repr index) = [Nat.repr index] := by
  have hdot : '.' ∉ (Nat.repr index).toList := by
    rw [Nat.toList_repr]
    intro hmem
    exact absurd (Nat.isDigit_of_mem_toDigits (by decide) (by decide) hmem) (by decide)
  exact pathSegments_of_dot_not_mem hdot

theorem length_ne_repr (index : Nat) : "length" ≠ Nat.repr index := by
  intro h
  have hmem : 'l' ∈ (Nat.repr index).toList := by
    rw [← h]
    decide
  rw [Nat.toList_repr] at hmem
  exact absurd (Nat.isDigit_of_mem_toDigits (by decide) (by decide) hmem) (by decide)

theorem segmentsOverlap_append_left (xs ys zs : List String) :
    segmentsOverlap (xs ++ ys) (xs ++ zs) = segmentsOverlap ys zs := by
  induction xs with
  | nil => rfl
  | cons x xs ih => simpa [segmentsOverlap] using ih

/-- The path of an item does not overlap a read of the length of its array. -/
theorem pathsOverlap_length_item {q : Path} (hq : q.Grammatical) {names : List String}
    (hsegments : q.segments = names ++ ["length"]) (index : Nat) :
    pathsOverlap q.dotted (pathOf (names ++ [Nat.repr index])) = false := by
  have hnames : ∀ name ∈ names, Lexer.IsIdentifier name := by
    intro name hname
    exact hq name (by rw [hsegments]; exact List.mem_append_left _ hname)
  have hitem : pathSegments (pathOf (names ++ [Nat.repr index])) = names ++ [Nat.repr index] := by
    cases names with
    | nil => simp [pathOf, childPath, pathSegments_repr]
    | cons name names =>
      rw [List.cons_append, pathSegments_pathOf_cons (hnames name (by simp)).ne_empty,
        ← List.cons_append, List.flatMap_append, flatMap_pathSegments hnames]
      simp [pathSegments_repr]
  have hleft : q.dotted ≠ "" := by
    intro hempty
    have h := Path.pathSegments_dotted hq
    rw [hempty, hsegments] at h
    cases names with
    | nil => exact absurd h (by decide)
    | cons name names => exact absurd (congrArg List.length h) (by simp [pathSegments, Text.pieces])
  have hright : pathOf (names ++ [Nat.repr index]) ≠ "" := by
    intro hempty
    rw [hempty] at hitem
    cases names with
    | nil => exact absurd hitem (by simp [pathSegments, Text.pieces, Nat.repr_ne_empty.symm])
    | cons name names =>
      exact absurd (congrArg List.length hitem) (by simp [pathSegments, Text.pieces])
  rw [pathsOverlap, Path.pathSegments_dotted hq, hsegments, hitem, segmentsOverlap_append_left]
  simp [hleft, hright, segmentsOverlap, length_ne_repr]

namespace ViewWrite

/-- A write past the end of an array whose length a path reads. The names are those on the
    way to the array. -/
def Overruns (s : Store) (id : ViewId) (write : ViewWrite) (names : List String) (q : Path) :
    Prop :=
  ∃ index value array, write = .setItem index value ∧ s.container id = .array array ∧
    (s.heap.items array).length ≤ index ∧ q.segments = names ++ ["length"]

/-- A write through a view of an unshared place leaves alone what a path reads, and all
    below it, unless it reports an overlapping path or overruns an array whose length is
    read. -/
theorem resolvePath_of_not_overlap {s : Store} (hs : s.Sound) {id : ViewId}
    (hid : id.index < s.views.size) {keys : List Key}
    (hat : s.heap.OnlyAt (.object s.rootObject) keys (s.container id))
    (hpath : s.path id = pathOf (keys.map Key.name)) {write : ViewWrite} {w : Written Unit}
    (hw : write.apply s id = some w) {q : Path} (hq : q.Grammatical)
    (hno : ∀ n, w.changed = some n → pathsOverlap q.dotted n ≠ true)
    (hover : ∀ names, keys = fieldKeys names → ¬ write.Overruns s id names q) :
    resolvePath s.heap (.object s.rootObject) q =
        resolvePath w.store.heap (.object s.rootObject) q ∧
      ∀ found, resolvePath s.heap (.object s.rootObject) q = .ok found →
        s.heap.AgreeBelow w.store.heap found := by
  rcases apply_cases hs hid hw with ⟨hstore, -⟩ | he
  · rw [hstore]
    exact ⟨rfl, fun found _ => Heap.AgreeBelow.refl _ _⟩
  · have hreported : w.changed = some (pathOf (keys.map Key.name ++ write.step.map Key.name)) := by
      rw [he.reported, hpath, pathOf, pathOf, List.foldl_append]
    -- The reported names neither begin with the path that is read nor begin it.
    have hbelow : ¬ q.segments <+: keys.map Key.name ++ write.step.map Key.name := fun h =>
      hno _ hreported (pathsOverlap_below hq h)
    have habove : ¬ keys.map Key.name ++ write.step.map Key.name <+: q.segments := fun h =>
      hno _ hreported (pathsOverlap_above hq h)
    refine hat.resolvePath he.agreeOff (he.locks _).symm ?_ ?_
    · intro hfront
      have hnames := hfront.map Key.name
      rw [map_name_fieldKeys] at hnames
      exact hbelow (hnames.trans (List.prefix_append _ _))
    · intro before name after hsegments hplace
      have hnames : keys.map Key.name = before := by rw [← hplace, map_name_fieldKeys]
      rw [hnames, hsegments] at habove
      cases write with
      | setField other value =>
        refine .inl (he.spared name ?_)
        rintro rfl
        refine habove ⟨after, ?_⟩
        rw [step, List.map_singleton, List.append_assoc]
        rfl
      | setItem index value =>
        cases hc : s.container id with
        | object object =>
          rw [← hc]
          refine .inl (he.spared name fun array harray => ?_)
          rw [hc] at harray
          cases harray
        | array array =>
          by_cases hafter : after = []
          · rw [← hc]
            refine .inl (he.spared name fun other hother hlength => ?_)
            by_contra hle
            rw [not_lt] at hle
            refine hover before hplace.symm ⟨index, value, other, rfl, hother, hle, ?_⟩
            rw [hsegments, hafter, hlength]
          · exact .inr ⟨⟨array, rfl⟩, hafter⟩
      | edit operation =>
        exact absurd ⟨name :: after, by rw [step, List.map_nil, List.append_nil]⟩ habove

/-- An array that was overrun reaches up to the item that was written. -/
theorem length_overrun {s : Store} {id : ViewId} {array : ArrayId} {index : Nat} {value : Value}
    {w : Written Unit} (hc : s.container id = .array array) (hknown : s.heap.Known (.array array))
    (hle : (s.heap.items array).length ≤ index)
    (hw : (setItem index value).apply s id = some w) (hchanged : w.changed ≠ none) :
    (w.store.heap.items array).length = index + 1 := by
  have hheap : w.store.heap =
      s.heap.setItems array (Store.putItem (s.heap.items array) index value) := by
    simp only [apply, hc, Store.setItem] at hw
    split at hw
    · obtain rfl := Option.some.inj hw
      exact absurd rfl hchanged
    · obtain rfl := Option.some.inj hw
      rfl
  rw [hheap, Heap.items_setItems, if_pos hknown, length_putItem]
  omega

/-- What overrunning an array does: its length grows, and only the item is reported. -/
theorem Overruns.lengthens {s : Store} (hs : s.Sound) (hr : s.heap.AtRest) {id : ViewId}
    (hid : id.index < s.views.size) {names : List String}
    (hat : s.heap.OnlyAt (.object s.rootObject) (fieldKeys names) (s.container id))
    (hknown : s.heap.Known (s.container id)) (hpath : s.path id = pathOf names)
    {write : ViewWrite} {w : Written Unit} (hw : write.apply s id = some w) {q : Path}
    (hq : q.Grammatical) (hover : write.Overruns s id names q)
    (hchanged : w.changed ≠ none) :
    (∃ n, w.changed = some n ∧ pathsOverlap q.dotted n = false) ∧
      ∃ before after, before < after ∧
        resolvePath s.heap (.object s.rootObject) q = .ok (.count before) ∧
        resolvePath w.store.heap (.object s.rootObject) q = .ok (.count after) := by
  obtain ⟨index, value, array, rfl, hc, hle, hsegments⟩ := hover
  rcases apply_cases hs hid hw with ⟨-, hnone⟩ | he
  · exact absurd hnone hchanged
  rw [hc] at hat hknown
  have hagree : s.heap.AgreeOff w.store.heap (.array array) := hc ▸ he.agreeOff
  constructor
  · refine ⟨pathOf (names ++ [Nat.repr index]), ?_, ?_⟩
    · rw [he.reported, hpath, pathOf_append_singleton]
      rfl
    · exact pathsOverlap_length_item hq hsegments index
  · have hafter := length_overrun hc hknown hle hw hchanged
    refine ⟨(s.heap.items array).length, index + 1, by omega, ?_, ?_⟩
    · exact Heap.resolvePath_length hr.unlocked hat.found hsegments
    · have hplace : w.store.heap.containerAlong? (.object s.rootObject) (fieldKeys names) =
          some (.array array) := by
        rw [Heap.containerAlong?, ← hat.at? hagree (List.prefix_refl _)]
        exact hat.found
      rw [← hafter]
      exact Heap.resolvePath_length (fun c => (he.locks c).trans (hr.unlocked c)) hplace hsegments

end ViewWrite

/-! ## Changed reads -/

/-- A path reads differently in two stores: another value, or the same container with
    something else to be read below it. -/
def Store.ReadsDifferently (s s' : Store) (q : Path) : Prop :=
  resolvePath s.heap (.object s.rootObject) q ≠ resolvePath s'.heap (.object s'.rootObject) q ∨
    ∃ found, resolvePath s.heap (.object s.rootObject) q = .ok found ∧
      s.heap.snapshot found ≠ s'.heap.snapshot found

/-- A view that was just read from the root stands at its place, under its path. -/
theorem Store.Invariant.onlyAt {s s₁ : Store} (hs : s.Invariant)
    (hunshared : s.heap.Unshared (.object s.rootObject)) {keys : List Key} {id : ViewId}
    (hleads : s.Leads s₁ Store.root id keys) :
    s₁.Invariant ∧ id.index < s₁.views.size ∧ s₁.path id = pathOf (keys.map Key.name) ∧
      s₁.heap.OnlyAt (.object s₁.rootObject) keys (s₁.container id) := by
  have hheap := hleads.extends'.heap
  have hroot := hleads.extends'.rootObject hs.sound
  refine ⟨⟨hleads.sound, hheap ▸ hs.atRest, hroot ▸ hheap ▸ hs.rootKnown⟩, hleads.known, ?_, ?_⟩
  · rw [hleads.path, hs.sound.rootPath]
    rfl
  · rw [hroot, hheap]
    refine hunshared.onlyAt ?_
    have hplace := hleads.place
    rw [hs.sound.rootContainer] at hplace
    have hc : (s₁.container id).value.container? = some (s₁.container id) :=
      Container.container?_value _
    rw [Heap.containerAlong?, ← hc]
    exact congrArg (Option.bind · Value.container?) hplace

/-- A write through a view just read from the root reports a path that overlaps the path of
    every expression that reads differently after it, except that a write past the end of an
    array does so for the length of the array: then the length has grown, and only the item
    is reported. -/
theorem changed_read_overlaps_or_is_overrun_length {s s₁ : Store} {keys : List Key} {id : ViewId}
    {write : ViewWrite} {w : Written Unit} {q : Path} (hs : s.Reachable)
    (hunshared : s.heap.Unshared (.object s.rootObject))
    (hread : s.readAlong (.view Store.root) keys = (.view id, s₁))
    (hw : write.apply s₁ id = some w) (hq : q.Grammatical) :
    (s₁.ReadsDifferently w.store q →
      ∃ n, w.changed = some n ∧ (pathsOverlap q.dotted n = true ∨
        ∃ names, keys = fieldKeys names ∧ write.Overruns s₁ id names q)) ∧
    ∀ n names, w.changed = some n → keys = fieldKeys names → write.Overruns s₁ id names q →
      pathsOverlap q.dotted n = false ∧ ∃ before after, before < after ∧
        resolvePath s₁.heap (.object s₁.rootObject) q = .ok (.count before) ∧
        resolvePath w.store.heap (.object w.store.rootObject) q = .ok (.count after) := by
  have hinv := hs.invariant
  have hleads := Store.readAlong_view hinv.sound hinv.sound.rootKnown hread
  obtain ⟨hinv₁, hid, hpath, hat⟩ := hinv.onlyAt hunshared hleads
  have hroot : w.store.rootObject = s₁.rootObject := by
    rcases ViewWrite.apply_cases hinv₁.sound hid hw with ⟨hstore, -⟩ | he
    · rw [hstore]
    · exact he.rootObject hinv₁.sound
  constructor
  · intro hdiffers
    by_contra hnone
    obtain ⟨hsame, hbelow⟩ := ViewWrite.resolvePath_of_not_overlap hinv₁.sound hid hat hpath hw hq
      (fun n hn hoverlap => hnone ⟨n, hn, .inl hoverlap⟩) (fun names hnames hover => by
        rcases ViewWrite.apply_cases hinv₁.sound hid hw with ⟨hstore, hchanged⟩ | he
        · -- A write that changes nothing cannot be seen at all.
          rcases hdiffers with hvalue | ⟨found, -, hsnapshot⟩
          · exact hvalue (by rw [hstore])
          · exact hsnapshot (by rw [hstore])
        · exact hnone ⟨_, he.reported, .inr ⟨names, hnames, hover⟩⟩)
    rcases hdiffers with hvalue | ⟨found, hfound, hsnapshot⟩
    · rw [hroot] at hvalue
      exact hvalue hsame
    · exact hsnapshot (hbelow found hfound).snapshot
  · rintro n names hn rfl hover
    have hknown : s₁.heap.Known (s₁.container id) :=
      hinv₁.atRest.known_of_containerAlong? (fun c hc => by
        obtain rfl := Option.some.inj hc
        exact hinv₁.rootKnown) hat.found
    rw [map_name_fieldKeys] at hpath
    obtain ⟨⟨m, hm, hoverlap⟩, hlength⟩ := hover.lengthens hinv₁.sound hinv₁.atRest hid hat hknown
      hpath hw hq (by rw [hn]; nofun)
    rw [hn] at hm
    obtain rfl := Option.some.inj hm
    rw [hroot]
    exact ⟨hoverlap, hlength⟩

/-- A state with a list of one item. -/
def Store.sample : Store :=
  .wrap (Heap.empty.place (.object [("items", .array [.text "first"])])).2 ⟨0⟩

/-- The list of the sample, overrun by an item at the index 3: its length grows from 1 to 4,
    and what is reported does not overlap it. -/
theorem overrun_sample_length_is_not_notified :
    let s₁ := (Store.sample.readAlong (.view Store.root) [.field "items"]).2
    ∃ w, (ViewWrite.setItem 3 (.text "last")).apply s₁ ⟨1⟩ = some w ∧
      w.changed = some "items.3" ∧ pathsOverlap "items.length" "items.3" = false ∧
      ∃ before after, before < after ∧
        resolvePath s₁.heap (.object s₁.rootObject) ⟨"items", ["length"]⟩ = .ok (.count before) ∧
        resolvePath w.store.heap (.object w.store.rootObject) ⟨"items", ["length"]⟩ =
          .ok (.count after) := by
  intro s₁
  have hd : (Datum.object [("items", .array [.text "first"])]).Known .empty :=
    ⟨⟨trivial, trivial⟩, trivial⟩
  have hs : Store.sample.Reachable :=
    .wrap (Heap.place_spec Heap.empty_atRest hd).atRest (by decide)
  have hunshared : Store.sample.heap.Unshared (.object Store.sample.rootObject) :=
    (Heap.place_fresh Heap.empty_atRest hd).unshared
  have hq : Path.Grammatical ⟨"items", ["length"]⟩ := by
    intro name hname
    rcases List.mem_pair.1 hname with rfl | rfl
    · exact ⟨_, _, rfl, rfl, rfl⟩
    · exact ⟨_, _, rfl, rfl, rfl⟩
  have hover : (ViewWrite.setItem 3 (.text "last")).Overruns s₁ ⟨1⟩ ["items"]
      ⟨"items", ["length"]⟩ := ⟨3, .text "last", ⟨0⟩, rfl, rfl, by decide, rfl⟩
  obtain ⟨w, hw, hchanged⟩ : ∃ w, (ViewWrite.setItem 3 (.text "last")).apply s₁ ⟨1⟩ = some w ∧
      w.changed = some "items.3" := ⟨_, rfl, by decide⟩
  obtain ⟨hoverlap, hlength⟩ := (changed_read_overlaps_or_is_overrun_length hs hunshared rfl hw
    hq).2 "items.3" ["items"] hchanged rfl hover
  exact ⟨w, hw, hchanged, hoverlap, hlength⟩

end ReactiveTemplate
