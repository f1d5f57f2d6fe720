import ReactiveTemplate.Proofs.State.Places
import ReactiveTemplate.Value.Conversion

/-!
# Texts that have an end

The text of an array is made of the texts of its items. It has an end unless an array is come to
that contains itself, be it at once or by way of others; an array that is being modified is not
looked into.

* `Heap.Reaches`, `Heap.InsideItself`, `Heap.Endless`: the arrays that a conversion comes to.
* `Heap.Ends`: the conversion comes to an end, by the recursion that it is.
* `Value.display?_eq_none_iff`: the values without a text are those whose text would be endless.
* `Value.display?_array`: the text of an array from those of its items.
-/

namespace ReactiveTemplate

variable {h : Heap} {value : Value} {id : ArrayId}

/-! ## What a conversion comes to -/

namespace Heap

/-- An array that the conversion of a value to a text looks into. -/
inductive Reaches (h : Heap) : Value → ArrayId → Prop
  | here {id : ArrayId} (hunlocked : (h.array id).locked = false) : h.Reaches (.array id) id
  | item {id below : ArrayId} {item : Value} (hunlocked : (h.array id).locked = false)
      (hitem : item ∈ h.items id) (hreaches : h.Reaches item below) : h.Reaches (.array id) below

/-- An array that one comes to again from one of its items. -/
def InsideItself (h : Heap) (id : ArrayId) : Prop := ∃ item ∈ h.items id, h.Reaches item id

/-- A value whose text would have to contain itself. -/
def Endless (h : Heap) (value : Value) : Prop := ∃ id, h.Reaches value id ∧ h.InsideItself id

/-- The conversion of a value to a text comes to an end: it looks into no array, or all that it
    finds in one comes to an end. -/
inductive Ends (h : Heap) : Value → Prop
  | plain {value : Value} (hvalue : ∀ id, value ≠ .array id) : h.Ends value
  | locked {id : ArrayId} (hlocked : (h.array id).locked = true) : h.Ends (.array id)
  | array {id : ArrayId} (hunlocked : (h.array id).locked = false)
      (hitems : ∀ item ∈ h.items id, h.Ends item) : h.Ends (.array id)

theorem Reaches.unlocked (hreaches : h.Reaches value id) : (h.array id).locked = false := by
  induction hreaches with
  | here hunlocked => exact hunlocked
  | item _ _ _ ih => exact ih

theorem Endless.of_item (hunlocked : (h.array id).locked = false) {item : Value}
    (hitem : item ∈ h.items id) (hendless : h.Endless item) : h.Endless (.array id) := by
  obtain ⟨below, hreaches, hinside⟩ := hendless
  exact ⟨below, .item hunlocked hitem hreaches, hinside⟩

/-- An endless array is not being modified, and has an endless item. -/
theorem Endless.exists_item (hendless : h.Endless (.array id)) :
    (h.array id).locked = false ∧ ∃ item ∈ h.items id, h.Endless item := by
  obtain ⟨below, hreaches, hinside⟩ := hendless
  cases hreaches with
  | here hunlocked =>
    obtain ⟨item, hitem, hback⟩ := hinside
    exact ⟨hunlocked, item, hitem, id, hback, item, hitem, hback⟩
  | item hunlocked hitem hreaches => exact ⟨hunlocked, _, hitem, below, hreaches, hinside⟩

/-- What ends is not endless: an array that is come to from its items would have to end before it
    does. -/
theorem Ends.not_endless (hends : h.Ends value) : ¬ h.Endless value := by
  induction hends with
  | plain hvalue =>
    rintro ⟨id, hreaches, -⟩
    cases hreaches with
    | here => exact hvalue _ rfl
    | item => exact hvalue _ rfl
  | locked hlocked =>
    intro hendless
    rw [hendless.exists_item.1] at hlocked
    cases hlocked
  | array hunlocked hitems ih =>
    intro hendless
    obtain ⟨-, item, hitem, hbelow⟩ := hendless.exists_item
    exact ih item hitem hbelow

/-! ## Texts of snapshots -/

/-- The items of an array have texts together if each of them has a content. -/
theorem displayItems?_eq_some {items : List Snapshot} : ∀ {texts : List String},
    Snapshot.displayItems? items = some texts ↔
      items.map Snapshot.textContent? = texts.map some := by
  induction items with
  | nil =>
    intro texts
    rw [Snapshot.displayItems?, List.map_nil, Option.some.injEq, eq_comm, eq_comm (a := []),
      List.map_eq_nil_iff]
  | cons item items ih =>
    intro texts
    have hcons : Snapshot.displayItems? (item :: items) =
        item.textContent?.bind fun text => (Snapshot.displayItems? items).map (text :: ·) := by
      cases item <;> rfl
    rw [hcons, Option.bind_eq_some_iff, List.map_cons]
    simp only [Option.map_eq_some_iff, ih]
    constructor
    · rintro ⟨text, htext, rest, hrest, rfl⟩
      rw [htext, hrest, List.map_cons]
    · intro htexts
      obtain ⟨text, rest, rfl, htext, hrest⟩ := List.map_eq_cons_iff.1 htexts.symm
      exact ⟨text, htext.symm, rest, hrest.symm, rfl⟩

/-- There is a text for each item if each item has one. -/
theorem exists_texts_iff {content : Value → Option String} {items : List Value} :
    (∃ texts : List String, items.map content = texts.map some) ↔
      ∀ item ∈ items, ∃ text, content item = some text := by
  constructor
  · rintro ⟨texts, htexts⟩ item hitem
    obtain ⟨text, -, htext⟩ := List.mem_map.1 (htexts ▸ List.mem_map_of_mem hitem)
    exact ⟨text, htext.symm⟩
  · intro hitems
    induction items with
    | nil => exact ⟨[], rfl⟩
    | cons item items ih =>
      obtain ⟨⟨text, htext⟩, hrest⟩ := List.forall_mem_cons.1 hitems
      obtain ⟨texts, htexts⟩ := ih hrest
      exact ⟨text :: texts, by rw [List.map_cons, htext, htexts, List.map_cons]⟩

/-- Only the nullish values have another text as a content. -/
theorem textContent?_unfold (h : Heap) (depth : Nat) (ancestors : List Container) (value : Value) :
    (h.unfold depth ancestors value).textContent? =
      if value.isNullish then some "" else (h.unfold depth ancestors value).display? := by
  cases value with
  | undefined | null | bool | number | text | function => cases depth <;> rfl
  | object | array =>
    cases depth <;> simp only [unfold] <;> (repeat' split) <;> first | rfl | contradiction

/-- A value that is no array is one text at any depth. -/
theorem display?_unfold_plain (hvalue : ∀ id, value ≠ .array id) (h : Heap) (depth : Nat)
    (ancestors : List Container) :
    ∃ text, (h.unfold depth ancestors value).display? = some text ∧
      ∀ (h' : Heap) (depth' : Nat) (ancestors' : List Container),
        (h'.unfold depth' ancestors' value).display? = some text := by
  have hobject : ∀ (h : Heap) (depth : Nat) (ancestors : List Container) (id : ObjectId),
      (h.unfold depth ancestors (.object id)).display? = some "[object Object]" := by
    intro h depth ancestors id
    cases depth <;> simp only [unfold] <;> (repeat' split) <;> rfl
  cases value with
  | array id => exact absurd rfl (hvalue id)
  | object id => exact ⟨_, hobject h depth ancestors id, fun h' depth' ancestors' => hobject _ _ _ id⟩
  | undefined | null | bool | number | text | function =>
    refine ⟨_, by cases depth <;> rfl, fun h' depth' ancestors' => ?_⟩
    cases depth' <;> rfl

/-- An array that has a text is being modified, or its items have contents. -/
theorem display?_unfold_array {depth : Nat} {ancestors : List Container} {text : String}
    (htext : (h.unfold depth ancestors (.array id)).display? = some text) :
    ((h.array id).locked = true ∧ text = "") ∨
      (h.array id).locked = false ∧ ∃ below texts, depth = below + 1 ∧
        (h.items id).map (fun item => (h.unfold below (.array id :: ancestors) item).textContent?) =
          texts.map some ∧ text = String.intercalate "," texts := by
  cases hlocked : (h.array id).locked with
  | true =>
    refine .inl ⟨rfl, ?_⟩
    cases depth <;> simp only [unfold, hlocked] at htext <;> split at htext <;> cases htext <;> rfl
  | false =>
    refine .inr ⟨rfl, ?_⟩
    cases depth with
    | zero =>
      simp only [unfold, hlocked] at htext
      split at htext <;> cases htext
    | succ below =>
      simp only [unfold, hlocked, Bool.false_eq_true, if_false] at htext
      split at htext
      · cases htext
      · rw [Snapshot.display?, Option.map_eq_some_iff] at htext
        obtain ⟨texts, htexts, rfl⟩ := htext
        rw [displayItems?_eq_some, List.map_map] at htexts
        exact ⟨below, texts, rfl, htexts, rfl⟩

theorem Ends.of_isNullish (h : Heap) (hnullish : value.isNullish = true) : h.Ends value := by
  refine .plain fun id hid => ?_
  rw [hid] at hnullish
  cases hnullish

/-- Where there is a text, the conversion has come to an end. -/
theorem ends_of_display? {depth : Nat} :
    ∀ {ancestors : List Container} {value : Value} {text : String},
      (h.unfold depth ancestors value).display? = some text → h.Ends value := by
  induction depth with
  | zero =>
    intro ancestors value text htext
    by_cases hvalue : ∃ id, value = .array id
    · obtain ⟨id, rfl⟩ := hvalue
      rcases display?_unfold_array htext with ⟨hlocked, -⟩ | ⟨-, below, -, hdepth, -⟩
      · exact .locked hlocked
      · cases hdepth
    · exact .plain (not_exists.1 hvalue)
  | succ depth ih =>
    intro ancestors value text htext
    by_cases hvalue : ∃ id, value = .array id
    · obtain ⟨id, rfl⟩ := hvalue
      rcases display?_unfold_array htext with
        ⟨hlocked, -⟩ | ⟨hunlocked, below, texts, hdepth, htexts, -⟩
      · exact .locked hlocked
      · obtain rfl := Nat.succ.inj hdepth
        refine .array hunlocked fun item hitem => ?_
        obtain ⟨text, hcontent⟩ := exists_texts_iff.1 ⟨texts, htexts⟩ item hitem
        rw [textContent?_unfold] at hcontent
        split at hcontent
        · next hnullish => exact .of_isNullish h hnullish
        · exact ih hcontent
    · exact .plain (not_exists.1 hvalue)

/-- Arrays that were looked into on the way to a value: all that one comes to from the value, one
    comes to from their items. -/
def LeadTo (h : Heap) (ancestors : List Container) (value : Value) : Prop :=
  ∀ id, .array id ∈ ancestors → (h.array id).locked = false ∧
    ∀ below, h.Reaches value below → ∃ item ∈ h.items id, h.Reaches item below

theorem LeadTo.item {ancestors : List Container} (hlead : h.LeadTo ancestors (.array id))
    (hunlocked : (h.array id).locked = false) {item : Value} (hitem : item ∈ h.items id) :
    h.LeadTo (.array id :: ancestors) item := by
  intro above habove
  rcases List.mem_cons.1 habove with heq | hmem
  · cases heq
    exact ⟨hunlocked, fun below hbelow => ⟨item, hitem, hbelow⟩⟩
  · obtain ⟨hlocked, hreaches⟩ := hlead above hmem
    exact ⟨hlocked, fun below hbelow => hreaches below (.item hunlocked hitem hbelow)⟩

/-- Where the text is not endless, there is one: no ancestor is come to again, and distinct
    ancestors are no more than there are containers. -/
theorem exists_display?_unfold (depth : Nat) :
    ∀ {ancestors : List Container} {value : Value}, ancestors.Nodup → (∀ c ∈ ancestors, h.Known c) →
      h.size < depth + ancestors.length → h.LeadTo ancestors value → ¬ h.Endless value →
      ∃ text, (h.unfold depth ancestors value).display? = some text := by
  induction depth with
  | zero =>
    intro ancestors value hnodup hknown hsize
    have := length_le_size hnodup hknown
    omega
  | succ depth ih =>
    intro ancestors value hnodup hknown hsize hlead hends
    by_cases hvalue : ∃ id, value = .array id
    · obtain ⟨id, rfl⟩ := hvalue
      have hnew : .array id ∉ ancestors := by
        intro hmem
        obtain ⟨hunlocked, hreaches⟩ := hlead id hmem
        exact hends ⟨id, .here hunlocked, hreaches id (.here hunlocked)⟩
      cases hlocked : (h.array id).locked with
      | true =>
        simp only [unfold, hnew, hlocked, if_false, if_true]
        exact ⟨"", rfl⟩
      | false =>
        have hitems : ∀ item ∈ h.items id, ∃ text,
            (h.unfold depth (.array id :: ancestors) item).textContent? = some text := by
          intro item hitem
          have hk : h.Known (.array id) := by
            by_contra hk
            rw [items_of_not_known hk] at hitem
            cases hitem
          rw [textContent?_unfold]
          split
          · exact ⟨"", rfl⟩
          · refine ih (List.nodup_cons.2 ⟨hnew, hnodup⟩) (List.forall_mem_cons.2 ⟨hk, hknown⟩) ?_
              (hlead.item hlocked hitem) fun hendless => hends (hendless.of_item hlocked hitem)
            rw [List.length_cons]
            omega
        obtain ⟨texts, htexts⟩ := exists_texts_iff.2 hitems
        simp only [unfold, hnew, hlocked, if_false, Bool.false_eq_true]
        refine ⟨String.intercalate "," texts, ?_⟩
        rw [Snapshot.display?, displayItems?_eq_some.2 ((List.map_map ..).trans htexts)]
        rfl
    · obtain ⟨text, htext, -⟩ := display?_unfold_plain (not_exists.1 hvalue) h (depth + 1) ancestors
      exact ⟨text, htext⟩

theorem display?_unfold_plain_unique (hvalue : ∀ id, value ≠ .array id) {depth depth' : Nat}
    {ancestors ancestors' : List Container} {text text' : String}
    (htext : (h.unfold depth ancestors value).display? = some text)
    (htext' : (h.unfold depth' ancestors' value).display? = some text') : text = text' := by
  obtain ⟨only, honly, heverywhere⟩ := display?_unfold_plain hvalue h depth ancestors
  rw [honly] at htext
  rw [heverywhere h depth' ancestors'] at htext'
  exact Option.some.inj (htext.symm.trans htext')

/-- The text does not depend on the ancestors, where there is one. -/
theorem display?_unfold_unique (depth : Nat) :
    ∀ {depth' : Nat} {ancestors ancestors' : List Container} {value : Value} {text text' : String},
      (h.unfold depth ancestors value).display? = some text →
      (h.unfold depth' ancestors' value).display? = some text' → text = text' := by
  induction depth with
  | zero =>
    intro depth' ancestors ancestors' value text text' htext htext'
    by_cases hvalue : ∃ id, value = .array id
    · obtain ⟨id, rfl⟩ := hvalue
      rcases display?_unfold_array htext with ⟨hlocked, rfl⟩ | ⟨-, below, -, hdepth, -⟩
      · rcases display?_unfold_array htext' with ⟨-, rfl⟩ | ⟨hunlocked, -⟩
        · rfl
        · cases hlocked.symm.trans hunlocked
      · cases hdepth
    · exact display?_unfold_plain_unique (not_exists.1 hvalue) htext htext'
  | succ depth ih =>
    intro depth' ancestors ancestors' value text text' htext htext'
    by_cases hvalue : ∃ id, value = .array id
    · obtain ⟨id, rfl⟩ := hvalue
      rcases display?_unfold_array htext with
        ⟨hlocked, rfl⟩ | ⟨hunlocked, below, texts, hdepth, htexts, rfl⟩ <;>
      rcases display?_unfold_array htext' with
        ⟨hlocked', rfl⟩ | ⟨hunlocked', below', texts', -, htexts', rfl⟩
      · rfl
      · cases hlocked.symm.trans hunlocked'
      · cases hlocked'.symm.trans hunlocked
      · obtain rfl := Nat.succ.inj hdepth
        have heach : ∀ item ∈ h.items id,
            (h.unfold depth (.array id :: ancestors) item).textContent? =
              (h.unfold below' (.array id :: ancestors') item).textContent? := by
          intro item hitem
          obtain ⟨content, hcontent⟩ := exists_texts_iff.1 ⟨texts, htexts⟩ item hitem
          obtain ⟨content', hcontent'⟩ := exists_texts_iff.1 ⟨texts', htexts'⟩ item hitem
          rw [textContent?_unfold] at hcontent hcontent' ⊢
          rw [textContent?_unfold]
          split
          · rfl
          · next hnullish =>
            rw [if_neg hnullish] at hcontent hcontent'
            rw [hcontent, hcontent', ih hcontent hcontent']
        have hsame : texts.map some = texts'.map some := by
          rw [← htexts, ← htexts', List.map_congr_left heach]
        rw [List.map_injective_iff.2 (fun _ _ => Option.some.inj) hsame]
    · exact display?_unfold_plain_unique (not_exists.1 hvalue) htext htext'

end Heap

/-! ## Texts of values -/

namespace Value

/-- The values without a text are those whose text would be endless. -/
theorem display?_eq_none_iff : value.display? h = none ↔ h.Endless value := by
  constructor
  · intro hnone
    by_contra hends
    obtain ⟨text, htext⟩ := Heap.exists_display?_unfold (h.size + 1) List.nodup_nil
      (List.forall_mem_nil _) (by simp) (fun _ hmem => absurd hmem List.not_mem_nil) hends
    exact Option.some_ne_none _ (htext.symm.trans hnone)
  · intro hendless
    rw [Option.eq_none_iff_forall_ne_some]
    exact fun text htext => (Heap.ends_of_display? htext).not_endless hendless

theorem hasText_iff : value.HasText h ↔ ¬ h.Endless value := by
  rw [HasText, Option.isSome_iff_ne_none, ne_eq, display?_eq_none_iff]

/-- A value has a text if the conversion comes to an end. -/
theorem hasText_iff_ends : value.HasText h ↔ h.Ends value := by
  refine ⟨fun htext => ?_, fun hends => hasText_iff.2 hends.not_endless⟩
  obtain ⟨text, htext⟩ := Option.isSome_iff_exists.1 htext
  exact Heap.ends_of_display? htext

/-- A value as the content of an element, if it has a text. -/
theorem textContent?_snapshot (h : Heap) (value : Value) :
    (h.snapshot value).textContent? =
      if value.isNullish then some "" else value.display? h :=
  Heap.textContent?_unfold h _ _ value

/-- A value that is no array has one text, in every heap. -/
theorem display?_plain (hvalue : ∀ id, value ≠ .array id) (h h' : Heap) :
    value.display? h = value.display? h' := by
  obtain ⟨text, htext, heverywhere⟩ := Heap.display?_unfold_plain hvalue h (h.size + 1) []
  exact htext.trans (heverywhere h' (h'.size + 1) []).symm

/-- The text of an array that is being modified. -/
theorem display?_locked (hlocked : (h.array id).locked = true) :
    (Value.array id).display? h = some "" := by
  simp only [display?, Heap.snapshot, Heap.unfold, hlocked, List.not_mem_nil, if_false, if_true]
  rfl

/-- A text found below some ancestors is the text of the value. -/
theorem display?_of_unfold {depth : Nat} {ancestors : List Container} {text : String}
    (htext : (h.unfold depth ancestors value).display? = some text) :
    value.display? h = some text := by
  have hends := Heap.ends_of_display? htext
  obtain ⟨text', htext'⟩ := Option.isSome_iff_exists.1 (hasText_iff_ends.2 hends)
  rw [htext', Heap.display?_unfold_unique _ htext' htext]

theorem textContent?_of_unfold {depth : Nat} {ancestors : List Container} {text : String}
    (htext : (h.unfold depth ancestors value).textContent? = some text) :
    (h.snapshot value).textContent? = some text := by
  rw [Heap.textContent?_unfold] at htext
  rw [textContent?_snapshot]
  by_cases hnullish : value.isNullish = true
  · rw [if_pos hnullish] at htext ⊢
    exact htext
  · rw [if_neg hnullish] at htext ⊢
    exact display?_of_unfold htext

theorem ends_of_textContent? {text : String} (htext : (h.snapshot value).textContent? = some text) :
    h.Ends value := by
  rw [textContent?_snapshot] at htext
  split at htext
  · next hnullish => exact .of_isNullish h hnullish
  · exact Heap.ends_of_display? htext

/-- The text of an array is made of those of its items. -/
theorem display?_array (hunlocked : (h.array id).locked = false) {text : String} :
    (Value.array id).display? h = some text ↔
      ∃ texts, (h.items id).map (fun item => (h.snapshot item).textContent?) = texts.map some ∧
        text = String.intercalate "," texts := by
  have hmade : ∀ {text : String}, (Value.array id).display? h = some text →
      ∃ texts, (h.items id).map (fun item => (h.snapshot item).textContent?) = texts.map some ∧
        text = String.intercalate "," texts := by
    intro text htext
    rcases Heap.display?_unfold_array htext with ⟨hlocked, -⟩ | ⟨-, below, texts, -, htexts, rfl⟩
    · cases hlocked.symm.trans hunlocked
    · refine ⟨texts, ?_, rfl⟩
      rw [← htexts]
      refine List.map_congr_left fun item hitem => ?_
      obtain ⟨content, hcontent⟩ := Heap.exists_texts_iff.1 ⟨texts, htexts⟩ item hitem
      rw [hcontent, textContent?_of_unfold hcontent]
  refine ⟨hmade, ?_⟩
  rintro ⟨texts, htexts, rfl⟩
  have hends : h.Ends (.array id) := by
    refine .array hunlocked fun item hitem => ?_
    obtain ⟨content, hcontent⟩ := Heap.exists_texts_iff.1 ⟨texts, htexts⟩ item hitem
    exact ends_of_textContent? hcontent
  obtain ⟨text, htext⟩ := Option.isSome_iff_exists.1 (hasText_iff_ends.2 hends)
  obtain ⟨texts', htexts', rfl⟩ := hmade htext
  have hsame : texts'.map some = texts.map some := htexts'.symm.trans htexts
  rw [htext, List.map_injective_iff.2 (fun _ _ => Option.some.inj) hsame]

end Value

end ReactiveTemplate
