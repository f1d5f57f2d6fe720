import ReactiveTemplate.Proofs.State.Writes

/-!
# Following a path in the heap

What the segments of a path lead to, said about containers only. A view is not needed to say where
a path leads, which segment of it is the first that cannot be followed, and at which key of which
container a value is written.

* `Fault`, `Heap.step`, `Heap.follow`: following segments, and what stops them.
* `Value.slot`: the key at which a segment is written.
* `Heap.containerAlong?_of_follow`: where the container lies that is found.
* `Store.walk_follow`: a walk from view to view finds what the segments lead to.
* `Store.splitLast_spec`: the last segment of a path, and what comes before it.
-/

namespace ReactiveTemplate

/-- Why a segment cannot be followed or written: it is below no container, or below an array and
    no index. -/
inductive Fault where
  | notAContainer
  | invalidIndex (segment : String)
  deriving DecidableEq, Repr

/-- The fault that an error is about. -/
def StoreError.fault? : StoreError → Option Fault
  | .emptyPath => none
  | .notAContainer _ => some .notAContainer
  | .invalidIndex _ segment => some (.invalidIndex segment)

/-! ## Segments -/

/-- What lies at a segment below a value. An array has its items and its length below it. -/
def Heap.step (h : Heap) (value : Value) (segment : String) : Except Fault Value :=
  match value with
  | .object id => .ok (((h.fields id).get? segment).getD .undefined)
  | .array id =>
    if segment = "length" then .ok (.count (h.items id).length)
    else
      match arrayIndex? segment with
      | some index => .ok ((h.items id)[index]?.getD .undefined)
      | none => .error (.invalidIndex segment)
  | _ => .error .notAContainer

/-- What segments lead to below a value, or why the first of them that cannot be followed
    cannot. -/
def Heap.follow (h : Heap) : Value → List String → Except Fault Value
  | value, [] => .ok value
  | value, segment :: rest => do h.follow (← h.step value segment) rest

/-- The container and the key at which a segment below a value is written. The length of an array
    is not. -/
def Value.slot (value : Value) (segment : String) : Except Fault (Container × Key) :=
  match value with
  | .object id => .ok (.object id, .field segment)
  | .array id =>
    match arrayIndex? segment with
    | some index => .ok (.array id, .item index)
    | none => .error (.invalidIndex segment)
  | _ => .error .notAContainer

/-- Where a value is written below a value by segments and a last one, or what is wrong with the
    first segment that cannot be followed or, at the end, written. -/
def Heap.target (h : Heap) (value : Value) (front : List String) (last : String) :
    Except Fault (Container × Key) := do
  (← h.follow value front).slot last

namespace Heap

variable {h h' : Heap} {value found : Value} {c : Container} {key : Key}

theorem follow_cons (h : Heap) (value : Value) (segment : String) (rest : List String) :
    h.follow value (segment :: rest) = h.step value segment >>= fun next => h.follow next rest := by
  cases value <;> rfl

theorem follow_nil (h : Heap) (value : Value) : h.follow value [] = .ok value := by
  cases value <;> rfl

theorem follow_append (h : Heap) (value : Value) (front back : List String) :
    h.follow value (front ++ back) = h.follow value front >>= fun next => h.follow next back := by
  induction front generalizing value with
  | nil =>
    rw [List.nil_append, follow_nil]
    rfl
  | cons segment rest ih =>
    rw [List.cons_append, follow_cons, follow_cons]
    cases h.step value segment with
    | error fault => rfl
    | ok next => exact ih next

/-- Nothing is followed below a plain value. -/
theorem follow_plain (hvalue : value.container? = none) {segments : List String}
    (hfollow : h.follow value segments = .ok found) : found.container? = none := by
  cases segments with
  | nil =>
    rw [follow_nil] at hfollow
    exact Except.ok.inj hfollow ▸ hvalue
  | cons segment rest =>
    rw [follow_cons] at hfollow
    cases value <;> cases hvalue <;> cases hfollow

/-- A container is found at the key of its segment. -/
theorem child?_of_step {segment : String} (hstep : h.step value segment = .ok found)
    (hfound : found.container? ≠ none) :
    ∃ c, value = c.value ∧ h.child? c (.ofSegment segment c) = some found := by
  cases value with
  | object id =>
    refine ⟨.object id, rfl, ?_⟩
    have hvalue : ((h.fields id).get? segment).getD .undefined = found := Except.ok.inj hstep
    rw [Key.ofSegment, child?]
    cases hget : (h.fields id).get? segment with
    | none =>
      rw [hget] at hvalue
      exact absurd (hvalue ▸ rfl) hfound
    | some other => rw [← hvalue, hget, Option.getD_some]
  | array id =>
    refine ⟨.array id, rfl, ?_⟩
    rw [step] at hstep
    split at hstep
    · exact absurd (Except.ok.inj hstep ▸ rfl) hfound
    · split at hstep
      · next index hindex =>
        have hvalue : (h.items id)[index]?.getD .undefined = found := Except.ok.inj hstep
        rw [Key.ofSegment, hindex, Option.getD_some, child?]
        cases hget : (h.items id)[index]? with
        | none =>
          rw [hget] at hvalue
          exact absurd (hvalue ▸ rfl) hfound
        | some other => rw [← hvalue, hget, Option.getD_some]
      · cases hstep
  | undefined | null | bool | number | text | function => cases hstep

theorem follow_cons_eq_ok {segment : String} {rest : List String}
    (hfollow : h.follow value (segment :: rest) = .ok found) :
    ∃ next, h.step value segment = .ok next ∧ h.follow next rest = .ok found := by
  rw [follow_cons] at hfollow
  cases hstep : h.step value segment with
  | error fault =>
    rw [hstep] at hfollow
    cases hfollow
  | ok next =>
    rw [hstep] at hfollow
    exact ⟨next, rfl, hfollow⟩

/-- What leads to a container is one. -/
theorem container?_of_follow_ne_none {segments : List String}
    (hfollow : h.follow value segments = .ok c.value) : value.container? ≠ none := by
  intro hplain
  have hc := follow_plain hplain hfollow
  rw [Store.Container.container?_value] at hc
  cases hc

theorem step_of_agree (ha : h.Agree h' c) (segment : String) :
    h.step c.value segment = h'.step c.value segment := by
  cases c with
  | object id =>
    have hfields : h.fields id = h'.fields id := congrArg Cell.content ha
    simp only [Container.value, step, hfields]
  | array id =>
    have hitems : h.items id = h'.items id := congrArg Cell.content ha
    simp only [Container.value, step, hitems]

/-- The container that segments lead to lies at their keys. -/
theorem containerAlong?_of_follow {segments : List String} :
    ∀ {value : Value}, h.follow value segments = .ok c.value →
      h.containerAlong? value (h.keysAlong value segments) = some c := by
  induction segments with
  | nil =>
    intro value hfollow
    rw [follow_nil] at hfollow
    rw [keysAlong, containerAlong?_nil, Except.ok.inj hfollow, Store.Container.container?_value]
  | cons segment rest ih =>
    intro value hfollow
    obtain ⟨next, hstep, hrest⟩ := follow_cons_eq_ok hfollow
    obtain ⟨d, rfl, hchild⟩ := child?_of_step hstep (container?_of_follow_ne_none hrest)
    rw [keysAlong_cons, hchild, Option.getD_some, containerAlong?, at?_cons,
      Store.Container.container?_value, Option.bind_some, hchild, Option.bind_some]
    exact ih hrest

/-- The keys of segments that lead to a container, and of one more. -/
theorem keysAlong_append {segments : List String} (last : String) :
    ∀ {value : Value}, h.follow value segments = .ok c.value →
      h.keysAlong value (segments ++ [last]) =
        h.keysAlong value segments ++ [.ofSegment last c] := by
  induction segments with
  | nil =>
    intro value hfollow
    rw [follow_nil] at hfollow
    rw [Except.ok.inj hfollow, List.nil_append, keysAlong_cons]
    rfl
  | cons segment rest ih =>
    intro value hfollow
    obtain ⟨next, hstep, hrest⟩ := follow_cons_eq_ok hfollow
    obtain ⟨d, rfl, hchild⟩ := child?_of_step hstep (container?_of_follow_ne_none hrest)
    rw [List.cons_append, keysAlong_cons, keysAlong_cons, hchild, Option.getD_some, ih hrest]
    rfl

/-- Segments that lead to a container in one heap lead to it in another one that differs in that
    container only, which does not lie below itself. -/
theorem follow_of_agreeOff (ha : h.AgreeOff h' c)
    (hloop : ∀ below, h.containerAlong? c.value below = some c → below = [])
    {segments : List String} : ∀ {value : Value}, h.follow value segments = .ok c.value →
      h'.follow value segments = .ok c.value := by
  induction segments with
  | nil =>
    intro value hfollow
    rwa [follow_nil] at hfollow ⊢
  | cons segment rest ih =>
    intro value hfollow
    obtain ⟨next, hstep, hrest⟩ := follow_cons_eq_ok hfollow
    obtain ⟨d, rfl, -⟩ := child?_of_step hstep (container?_of_follow_ne_none hrest)
    have hd : d ≠ c := by
      rintro rfl
      have hnil := hloop _ (containerAlong?_of_follow hfollow)
      rw [keysAlong_cons] at hnil
      cases hnil
    rw [follow_cons, ← step_of_agree (ha d hd), hstep]
    exact ih hrest

/-! ## Slots -/

/-- The length of an array is no index. -/
theorem arrayIndex?_length : arrayIndex? "length" = none := by decide +kernel

/-- What is found at a segment is what lies at its slot. -/
theorem step_of_slot {segment : String} (hslot : value.slot segment = .ok (c, key)) :
    h.step value segment = .ok ((h.child? c key).getD .undefined) := by
  cases value with
  | object id =>
    obtain ⟨rfl, rfl⟩ := Prod.mk.inj (Except.ok.inj hslot)
    rfl
  | array id =>
    rw [Value.slot] at hslot
    split at hslot
    · next index hindex =>
      obtain ⟨rfl, rfl⟩ := Prod.mk.inj (Except.ok.inj hslot)
      have hlength : segment ≠ "length" := by
        rintro rfl
        rw [arrayIndex?_length] at hindex
        cases hindex
      rw [step, if_neg hlength, hindex, child?]
    · cases hslot
  | undefined | null | bool | number | text | function => cases hslot

end Heap

/-- The slot of a segment is its key in the container that the value refers to. -/
theorem Value.slot_eq_ok {value : Value} {segment : String} {c : Container} {key : Key}
    (hslot : value.slot segment = .ok (c, key)) :
    value = c.value ∧ key = .ofSegment segment c := by
  cases value with
  | object id =>
    obtain ⟨rfl, rfl⟩ := Prod.mk.inj (Except.ok.inj hslot)
    exact ⟨rfl, rfl⟩
  | array id =>
    rw [slot] at hslot
    split at hslot
    · next index hindex =>
      obtain ⟨rfl, rfl⟩ := Prod.mk.inj (Except.ok.inj hslot)
      rw [Key.ofSegment, hindex]
      exact ⟨rfl, rfl⟩
    · cases hslot
  | undefined | null | bool | number | text | function => cases hslot

/-! ## Walks -/

/-- A read that a store can go on from. -/
def Read.Stands (s : Store) : Read → Prop
  | .value v => v.container? = none
  | .view id => id.index < s.views.size

namespace Store

/-- The outcome of a walk is what the segments lead to. The store gets no more than further
    views. -/
structure Finds (s s' : Store) (expected : Except Fault Value) (outcome : Except StoreError Read) :
    Prop where
  extends' : s.Extends s'
  sound : s'.Sound
  error : ∀ fault, expected = .error fault → ∃ e, outcome = .error e ∧ e.fault? = some fault
  ok : ∀ value, expected = .ok value →
    ∃ read, outcome = .ok read ∧ s'.readValue read = value ∧ read.Stands s'

theorem ReadSpec.stands {s s' : Store} {path : String} {value : Value} {read : Read}
    (h : ReadSpec s s' path value read) : read.Stands s' := by
  cases read with
  | value v => exact h.plain v rfl
  | view id => exact (h.view id rfl).1

theorem ReadSpec.finds {s s' : Store} {path : String} {value : Value} {read : Read}
    (h : ReadSpec s s' path value read) : Finds s s' (.ok value) (.ok read) := by
  refine ⟨h.extends', h.sound, nofun, ?_⟩
  rintro _ ⟨⟩
  exact ⟨read, rfl, h.value, h.stands⟩

theorem Finds.failed {s : Store} (hs : s.Sound) {fault : Fault} {e : StoreError}
    (he : e.fault? = some fault) : Finds s s (.error fault) (.error e) := by
  refine ⟨Extends.refl s, hs, ?_, nofun⟩
  rintro _ ⟨⟩
  exact ⟨e, rfl, he⟩

theorem getSegment_finds {s : Store} (hs : s.Sound) {current : Read} (hcurrent : current.Stands s)
    (walked segment : String) :
    Finds s (s.getSegment walked current segment).2 (s.heap.step (s.readValue current) segment)
      (s.getSegment walked current segment).1 := by
  cases current with
  | value value =>
    have hstep : s.heap.step (s.readValue (.value value)) segment = .error .notAContainer := by
      rw [readValue]
      cases value <;> first | rfl | cases hcurrent
    rw [hstep]
    exact .failed hs rfl
  | view id =>
    have hid : id.index < s.views.size := hcurrent
    rw [getSegment, readValue]
    cases hc : s.container id with
    | object object => exact (readChild_spec hs hid segment _).finds
    | array array =>
      dsimp only [Container.value]
      rw [Heap.step]
      split
      · have hcount : ReadSpec s s "" (.count (s.heap.items array).length)
            (.value (.count (s.heap.items array).length)) := by
          refine ⟨Extends.refl s, hs, rfl, ?_, fun _ hview => by cases hview⟩
          rintro _ ⟨⟩
          rfl
        exact hcount.finds
      · rw [indexInto]
        cases hindex : arrayIndex? segment with
        | none => exact .failed hs rfl
        | some index => exact (readChild_spec hs hid (Nat.repr index) _).finds

theorem walk_follow (segments : List String) :
    ∀ {s : Store} {current : Read} (walked : String), s.Sound → current.Stands s →
      Finds s (s.walk walked current segments).2 (s.heap.follow (s.readValue current) segments)
        (s.walk walked current segments).1 := by
  induction segments with
  | nil =>
    intro s current walked hs hcurrent
    rw [Heap.follow_nil]
    refine ⟨Extends.refl s, hs, nofun, ?_⟩
    rintro _ ⟨⟩
    exact ⟨current, rfl, rfl, hcurrent⟩
  | cons segment rest ih =>
    intro s current walked hs hcurrent
    have hsegment := getSegment_finds hs hcurrent walked segment
    rw [walk_cons, Heap.follow_cons]
    cases hget : s.getSegment walked current segment with
    | mk outcome s₁ =>
      rw [hget] at hsegment
      cases hstep : s.heap.step (s.readValue current) segment with
      | error fault =>
        obtain ⟨e, rfl, he⟩ := hsegment.error fault hstep
        refine ⟨hsegment.extends', hsegment.sound, ?_, nofun⟩
        rintro _ ⟨⟩
        exact ⟨e, rfl, he⟩
      | ok next =>
        obtain ⟨read, rfl, hvalue, hstands⟩ := hsegment.ok next hstep
        have hrest := ih (childPath walked segment) hsegment.sound hstands
        rw [hvalue, hsegment.extends'.heap] at hrest
        exact ⟨hsegment.extends'.trans hrest.extends', hrest.sound, hrest.error, hrest.ok⟩

theorem getPath_follow {s : Store} (hs : s.Sound) (path : String) :
    Finds s (s.getPath root path).2 (s.heap.follow (.object s.rootObject) (steps path))
      (s.getPath root path).1 := by
  have hroot : s.readValue (.view root) = .object s.rootObject := by
    rw [readValue, hs.rootContainer]
    rfl
  have hstands : (Read.view root).Stands s := hs.rootKnown
  exact hroot ▸ walk_follow (steps path) (s.path root) hs hstands

/-! ## The last segment -/

theorem cutAtLast?_cases (separator : Char) (cs : List Char) :
    (separator ∉ cs ∧ Text.cutAtLast? separator cs = none) ∨
      ∃ before after, separator ∉ after ∧ cs = before ++ separator :: after ∧
        Text.cutAtLast? separator cs = some (before, after) := by
  induction cs with
  | nil => exact .inl ⟨List.not_mem_nil, rfl⟩
  | cons c cs ih =>
    rcases ih with ⟨hnot, -⟩ | ⟨before, after, hafter, rfl, -⟩
    · by_cases hc : c = separator
      · subst hc
        exact .inr ⟨[], cs, hnot, rfl, Text.cutAtLast?_append [] hnot⟩
      · have hmem : separator ∉ c :: cs := by
          rw [List.mem_cons, not_or]
          exact ⟨Ne.symm hc, hnot⟩
        exact .inl ⟨hmem, Text.cutAtLast?_of_not_mem hmem⟩
    · exact .inr ⟨c :: before, after, hafter, rfl, Text.cutAtLast?_append (c :: before) hafter⟩

/-- A path is cut before its last segment. -/
theorem splitLast_spec {path last : String} {front : List String}
    (hpath : pathSegments path = front ++ [last]) :
    (splitLast path).2 = last ∧ steps (splitLast path).1 = front.filter (· != "") := by
  rw [splitLast]
  rcases cutAtLast?_cases '.' path.toList with ⟨hdot, hcut⟩ | ⟨before, after, hdot, hlist, hcut⟩
  · have hsegments : pathSegments path = [] ++ [path] := pathSegments_of_dot_not_mem hdot
    obtain ⟨rfl, hlast⟩ := List.append_inj' (hpath.symm.trans hsegments) rfl
    have hempty : steps "" = [] := by decide +kernel
    rw [hcut]
    exact ⟨(List.cons.inj hlast).1.symm, hempty⟩
  · have hsegments : pathSegments path =
        pathSegments (String.ofList before) ++ [String.ofList after] := by
      simp [pathSegments, hlist, Text.pieces_append_separator, Text.pieces_of_not_mem hdot]
    obtain ⟨rfl, hlast⟩ := List.append_inj' (hpath.symm.trans hsegments) rfl
    rw [hcut]
    exact ⟨(List.cons.inj hlast).1.symm, rfl⟩

theorem steps_eq {path last : String} {front : List String}
    (hpath : pathSegments path = front ++ [last]) (hlast : last ≠ "") :
    steps path = front.filter (· != "") ++ [last] := by
  rw [steps, hpath, List.filter_append, List.filter_cons_of_pos (by simpa using hlast)]
  rfl

/-- The segments of a path of the grammar are its names. -/
theorem steps_pathOf {names : List String} (hnames : ∀ name ∈ names, Lexer.IsIdentifier name) :
    steps (pathOf names) = names := by
  cases names with
  | nil => decide +kernel
  | cons name names =>
    rw [steps, pathSegments_pathOf_cons (hnames name (by simp)).ne_empty,
      flatMap_pathSegments hnames, List.filter_eq_self]
    intro segment hsegment
    simpa using (hnames segment hsegment).ne_empty

end Store

end ReactiveTemplate
