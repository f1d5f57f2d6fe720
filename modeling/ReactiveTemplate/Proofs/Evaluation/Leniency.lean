import ReactiveTemplate.Proofs.State.Following

/-!
# Strict and lenient reading

A path is read in two ways. A store follows it strictly: what cannot be followed is an error. An
expression reads it leniently: below what has no such property there is `undefined`, and a text has
a length. Where the store reads a value, the expression reads the same one.

* `Heap.property_of_step`, `Heap.property_of_fault`: one segment, followed strictly and leniently.
* `Heap.descend_of_follow`, `Heap.descend_of_fault`: a whole path.
* `Store.resolvePath_of_getPath`: a path that a store reads, and one that it fails at.
-/

namespace ReactiveTemplate

namespace Heap

variable {h : Heap} {value found : Value} {name : String}

/-- No container below a value is being modified. -/
def UnlockedBelow (h : Heap) (value : Value) : Prop :=
  ∀ keys c, h.containerAlong? value keys = some c → h.isLocked c = false

/-! ## One segment -/

/-- What is followed strictly is unlocked where what it is followed from is. -/
theorem UnlockedBelow.step (hu : h.UnlockedBelow value) (hstep : h.step value name = .ok found) :
    h.UnlockedBelow found := by
  intro keys c hc
  have hfound : found.container? ≠ none := by
    intro hplain
    rw [containerAlong?_of_container?_eq_none hplain] at hc
    cases hc
  obtain ⟨d, rfl, hchild⟩ := child?_of_step hstep hfound
  refine hu (.ofSegment name d :: keys) c ?_
  rw [containerAlong?, at?_cons, Store.Container.container?_value, Option.bind_some, hchild,
    Option.bind_some]
  exact hc

/-- What an identifier is followed to strictly is the property of that name. -/
theorem property_of_step (hu : h.UnlockedBelow value) (hname : Lexer.IsIdentifier name)
    (walked : List String) (hstep : h.step value name = .ok found) :
    property h walked value name = .ok found := by
  cases value with
  | object id =>
    have hlocked : (h.object id).locked = false := hu [] (.object id) rfl
    rw [property, hlocked, if_neg Bool.false_ne_true]
    exact congrArg Except.ok (Except.ok.inj hstep)
  | array id =>
    have hlocked : (h.array id).locked = false := hu [] (.array id) rfl
    rw [step, hname.arrayIndex?_eq_none] at hstep
    rw [property, hlocked]
    split at hstep
    · next hlength =>
      rw [if_pos hlength, if_neg Bool.false_ne_true]
      exact congrArg Except.ok (Except.ok.inj hstep)
    · cases hstep
  | undefined | null | bool | number | text | function => cases hstep

/-- Where a segment cannot be followed strictly, there is no property of that name, or it is the
    length of a text. -/
theorem property_of_fault {fault : Fault} (walked : List String)
    (hstep : h.step value name = .error fault) :
    (∃ text, value = .text text ∧ name = "length" ∧
        property h walked value name = .ok (.count (Text.units16 text))) ∨
      ((∀ text, value = .text text → name ≠ "length") ∧
        property h walked value name = .ok .undefined) := by
  cases value with
  | object id => cases hstep
  | array id =>
    rw [step] at hstep
    split at hstep
    · cases hstep
    · next hlength =>
      refine .inr ⟨fun text htext => ?_, if_neg hlength⟩
      cases htext
  | text text =>
    by_cases hlength : name = "length"
    · exact .inl ⟨text, rfl, hlength, if_pos hlength⟩
    · exact .inr ⟨fun _ _ => hlength, if_neg hlength⟩
  | undefined | null | bool | number | function =>
    refine .inr ⟨fun text htext => ?_, rfl⟩
    cases htext

/-! ## Whole paths -/

/-- What a path is followed to strictly is what a descent finds. -/
theorem descend_of_follow {names : List String} (hnames : ∀ name ∈ names, Lexer.IsIdentifier name) :
    ∀ {value : Value} (walked : List String), h.UnlockedBelow value →
      h.follow value names = .ok found → descend h walked value names = .ok found := by
  induction names with
  | nil =>
    intro value walked _ hfollow
    rw [follow_nil] at hfollow
    exact congrArg Except.ok (Except.ok.inj hfollow)
  | cons name rest ih =>
    intro value walked hu hfollow
    obtain ⟨next, hstep, hrest⟩ := follow_cons_eq_ok hfollow
    have hproperty := property_of_step hu (hnames name (by simp)) walked hstep
    rw [descend_cons, hproperty]
    exact ih (fun n hn => hnames n (by simp [hn])) _ (hu.step hstep) hrest

/-- The last segment asks for the length of a text that the others are followed to. -/
def AsksLength (h : Heap) (value : Value) (names : List String) (text : String) : Prop :=
  ∃ front, names = front ++ ["length"] ∧ h.follow value front = .ok (.text text)

theorem asksLength_singleton {text : String} :
    h.AsksLength value [name] text ↔ value = .text text ∧ name = "length" := by
  constructor
  · rintro ⟨front, hnames, hfront⟩
    obtain ⟨rfl, hlast⟩ := List.append_inj' (show [] ++ [name] = front ++ ["length"] from hnames) rfl
    rw [follow_nil] at hfront
    exact ⟨Except.ok.inj hfront, (List.cons.inj hlast).1⟩
  · rintro ⟨rfl, rfl⟩
    exact ⟨[], rfl, follow_nil h _⟩

theorem asksLength_cons {text next : String} {rest : List String} :
    h.AsksLength value (name :: next :: rest) text ↔
      ∃ below, h.step value name = .ok below ∧ h.AsksLength below (next :: rest) text := by
  constructor
  · rintro ⟨front, hnames, hfront⟩
    cases front with
    | nil => cases hnames
    | cons first front =>
      obtain ⟨rfl, hrest⟩ := List.cons.inj hnames
      obtain ⟨below, hstep, hfront⟩ := follow_cons_eq_ok hfront
      exact ⟨below, hstep, front, hrest, hfront⟩
  · rintro ⟨below, hstep, front, hnames, hfront⟩
    refine ⟨name :: front, congrArg (name :: ·) hnames, ?_⟩
    rw [follow_cons, hstep]
    exact hfront

theorem not_asksLength_of_fault {fault : Fault} (hstep : h.step value name = .error fault)
    {text next : String} {rest : List String} :
    ¬ h.AsksLength value (name :: next :: rest) text := by
  rw [asksLength_cons, hstep]
  rintro ⟨below, hbelow, -⟩
  cases hbelow

/-- Where a path cannot be followed strictly, a descent ends at `undefined`, or at the length of a
    text if that is what the last segment asks for. -/
theorem descend_of_fault {fault : Fault} {names : List String}
    (hnames : ∀ name ∈ names, Lexer.IsIdentifier name) :
    ∀ {value : Value} (walked : List String), h.UnlockedBelow value →
      h.follow value names = .error fault →
      (∃ text, h.AsksLength value names text ∧
          descend h walked value names = .ok (.count (Text.units16 text))) ∨
        ((∀ text, ¬ h.AsksLength value names text) ∧
          descend h walked value names = .ok .undefined) := by
  induction names with
  | nil =>
    intro value walked _ hfollow
    rw [follow_nil] at hfollow
    cases hfollow
  | cons name rest ih =>
    intro value walked hu hfollow
    rw [follow_cons] at hfollow
    rw [descend_cons]
    cases hstep : h.step value name with
    | ok below =>
      rw [hstep] at hfollow
      rw [property_of_step hu (hnames name (by simp)) walked hstep]
      cases rest with
      | nil =>
        change h.follow below [] = _ at hfollow
        rw [follow_nil] at hfollow
        cases hfollow
      | cons next rest =>
        have hasks : ∀ text, h.AsksLength value (name :: next :: rest) text ↔
            h.AsksLength below (next :: rest) text := by
          intro text
          rw [asksLength_cons]
          simp only [hstep, Except.ok.injEq, exists_eq_left']
        simp only [hasks]
        exact ih (fun n hn => hnames n (by simp [hn])) _ (hu.step hstep) hfollow
    | error stuck =>
      rcases property_of_fault walked hstep with ⟨text, hvalue, hlength, hproperty⟩ | ⟨hnone, hproperty⟩
      · rw [hproperty]
        cases rest with
        | nil => exact .inl ⟨text, asksLength_singleton.2 ⟨hvalue, hlength⟩, rfl⟩
        | cons next rest =>
          -- The length of a text is a number, and has nothing below it.
          refine .inr ⟨fun _ => not_asksLength_of_fault hstep, ?_⟩
          change descend h _ (.count _) (next :: rest) = _
          rw [descend_cons]
          exact descend_undefined h _ rest
      · rw [hproperty]
        refine .inr ⟨fun text hasks => ?_, descend_undefined h _ rest⟩
        cases rest with
        | nil =>
          obtain ⟨hvalue, hlength⟩ := asksLength_singleton.1 hasks
          exact hnone text hvalue hlength
        | cons next rest => exact not_asksLength_of_fault hstep hasks

end Heap

/-! ## Paths of the grammar -/

namespace Store

variable {s : Store}

/-- A path leads to a plain value exactly if it is read. -/
theorem getPath_eq_text (hs : s.Sound) (path text : String) :
    (s.getPath root path).1 = .ok (.value (.text text)) ↔
      s.heap.follow (.object s.rootObject) (steps path) = .ok (.text text) := by
  have hread := getPath_follow hs path
  constructor
  · intro hget
    cases hfollow : s.heap.follow (.object s.rootObject) (steps path) with
    | error fault =>
      obtain ⟨e, he, -⟩ := hread.error fault hfollow
      rw [hget] at he
      cases he
    | ok found =>
      obtain ⟨read, hok, hvalue, -⟩ := hread.ok found hfollow
      obtain rfl := Except.ok.inj (hget.symm.trans hok)
      exact congrArg Except.ok hvalue.symm
  · intro hfollow
    obtain ⟨read, hok, hvalue, -⟩ := hread.ok _ hfollow
    cases read with
    | value v =>
      obtain rfl : v = .text text := hvalue
      exact hok
    | view id =>
      rw [readValue] at hvalue
      cases hc : (s.getPath root path).2.container id <;> rw [hc] at hvalue <;> cases hvalue

/-- The last segment of a path is `length`, and the others are read as a text. -/
def ReadsLength (s : Store) (p : Path) (text : String) : Prop :=
  ∃ front, p.segments = front ++ ["length"] ∧
    (s.getPath root (pathOf front)).1 = .ok (.value (.text text))

theorem readsLength_iff (hs : s.Sound) {p : Path} (hp : p.Grammatical) (text : String) :
    s.ReadsLength p text ↔ s.heap.AsksLength (.object s.rootObject) p.segments text := by
  refine exists_congr fun front => and_congr_right fun hsegments => ?_
  have hfront : ∀ name ∈ front, Lexer.IsIdentifier name := fun name hname =>
    hp name (by simp [hsegments, hname])
  rw [getPath_eq_text hs, steps_pathOf hfront]

/-- The two ways of reading a path of the grammar below a state in which nothing is being modified.
    What the store reads is what an expression reads, which has the empty text for `undefined`.
    Where the store fails, an expression reads the empty text, or the length of a text if that is
    what the last segment asks for. -/
theorem resolvePath_of_getPath (hs : s.Sound) (hu : s.heap.UnlockedBelow (.object s.rootObject))
    {p : Path} (hp : p.Grammatical) :
    let resolved := resolvePath s.heap (.object s.rootObject) p
    (∀ read s', s.getPath root p.dotted = (.ok read, s') →
        resolved = .ok (s'.readValue read).orEmpty) ∧
      ∀ e s', s.getPath root p.dotted = (.error e, s') →
        (∃ text, s.ReadsLength p text ∧ resolved = .ok (.count (Text.units16 text))) ∨
          ((∀ text, ¬ s.ReadsLength p text) ∧ resolved = .ok (.text "")) := by
  have hread := getPath_follow hs p.dotted
  rw [Path.dotted_eq_pathOf hp, steps_pathOf hp] at hread
  dsimp only
  rw [resolvePath_object, Path.dotted_eq_pathOf hp]
  simp only [readsLength_iff hs hp]
  cases hfollow : s.heap.follow (.object s.rootObject) p.segments with
  | ok found =>
    obtain ⟨read, hok, hvalue, -⟩ := hread.ok found hfollow
    rw [Heap.descend_of_follow hp [] hu hfollow]
    refine ⟨fun read' s' hget => ?_, fun e s' hget => ?_⟩
    · rw [hget] at hok hvalue
      obtain rfl := Except.ok.inj hok
      exact congrArg (fun value => Except.ok value.orEmpty) hvalue.symm
    · rw [hget] at hok
      cases hok
  | error fault =>
    obtain ⟨e, herror, -⟩ := hread.error fault hfollow
    refine ⟨fun read' s' hget => ?_, fun e' s' hget => ?_⟩
    · rw [hget] at herror
      cases herror
    · rcases Heap.descend_of_fault hp [] hu hfollow with ⟨text, hasks, hfound⟩ | ⟨hnone, hfound⟩
      · exact .inl ⟨text, hasks, by rw [hfound]; rfl⟩
      · exact .inr ⟨hnone, by rw [hfound]; rfl⟩

/-- A state with a text as its only field. -/
def greeting : Store := wrap (Heap.empty.place (.object [("name", .text "Zoë")])).2 ⟨0⟩

/-- The length of the text is what an expression reads where the store fails. -/
theorem greeting_length_of_getPath :
    greeting.Sound ∧ greeting.heap.UnlockedBelow (.object greeting.rootObject) ∧
      (Path.mk "name" ["length"]).Grammatical ∧
      (greeting.getPath root "name.length").1 = .error (.notAContainer "name") ∧
      resolvePath greeting.heap (.object greeting.rootObject) ⟨"name", ["length"]⟩ =
        .ok (.count 3) := by
  have hs : greeting.Sound := sound_wrap _ _
  have hd : (Datum.object [("name", .text "Zoë")]).Known .empty := ⟨trivial, trivial⟩
  have hu : greeting.heap.UnlockedBelow (.object greeting.rootObject) := fun _ c _ =>
    (Heap.place_spec Heap.empty_atRest hd).atRest.unlocked c
  have hp : (Path.mk "name" ["length"]).Grammatical := by
    intro name hname
    simp only [Path.segments, List.mem_cons, List.not_mem_nil, or_false] at hname
    rcases hname with rfl | rfl
    · exact ⟨'n', ['a', 'm', 'e'], rfl, by decide, by decide⟩
    · exact ⟨'l', ['e', 'n', 'g', 't', 'h'], rfl, by decide, by decide⟩
  have herror : (greeting.getPath root "name.length").1 = .error (.notAContainer "name") := rfl
  have hname : (greeting.getPath root "name").1 = .ok (.value (.text "Zoë")) := rfl
  refine ⟨hs, hu, hp, herror, ?_⟩
  rcases (resolvePath_of_getPath hs hu hp).2 _ _ (Prod.ext herror rfl) with
    ⟨text, ⟨front, hsegments, htext⟩, hresolved⟩ | ⟨hnone, -⟩
  · obtain ⟨rfl, -⟩ := List.append_inj'
      (show ["name"] ++ ["length"] = front ++ ["length"] from hsegments) rfl
    cases hname.symm.trans htext
    exact hresolved
  · exact absurd ⟨["name"], rfl, hname⟩ (hnone "Zoë")

end Store

end ReactiveTemplate
