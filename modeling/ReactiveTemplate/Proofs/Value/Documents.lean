import ReactiveTemplate.Proofs.State.Growth
import ReactiveTemplate.Proofs.Value.Integers

/-!
# Values as documents

A value that is null, a condition, a finite number, a text or a container of such values becomes a
JSON document and comes back deeply equal: only the order of the fields may differ, and the sign of
a zero.

* `Heap.Plain`: the values that a document can hold.
* `Heap.DeepEqual`: values of two heaps that read the same at every depth.
* `Heap.Plain.snapshot_array`, `Heap.Plain.snapshot_object`: the snapshot of such a value is cut
  nowhere.
* `Heap.Restores`: a datum that is placed deeply equal to a value, in any heap and for good.
* `Heap.Plain.deepEqual_ofJson_json`: the way to a document and back.
-/

namespace ReactiveTemplate

namespace Heap

/-- A value that a document can hold: its numbers are finite, and none of its containers is being
    modified. It is built from below, so no container lies below itself. -/
inductive Plain (h : Heap) : Value → Prop
  | null : Plain h .null
  | bool (b : Bool) : Plain h (.bool b)
  | number {x : Float} (hfinite : x.isFinite = true) : Plain h (.number x)
  | text (t : String) : Plain h (.text t)
  | array {id : ArrayId} (hunlocked : (h.array id).locked = false)
      (hitems : ∀ item ∈ h.items id, Plain h item) : Plain h (.array id)
  | object {id : ObjectId} (hunlocked : (h.object id).locked = false)
      (hfields : ∀ name field, (h.fields id).get? name = some field → Plain h field) :
      Plain h (.object id)

/-- The same kinds, conditions and texts, equal numbers, arrays item by item, and objects name by
    name. -/
inductive DeepEqual (h h' : Heap) : Value → Value → Prop
  | null : DeepEqual h h' .null .null
  | bool (b : Bool) : DeepEqual h h' (.bool b) (.bool b)
  | number {x y : Float} (hequal : (x == y) = true) : DeepEqual h h' (.number x) (.number y)
  | text (t : String) : DeepEqual h h' (.text t) (.text t)
  | array {id id' : ArrayId}
      (hitems : List.Forall₂ (DeepEqual h h') (h.items id) (h'.items id')) :
      DeepEqual h h' (.array id) (.array id')
  | object {id id' : ObjectId}
      (hfields : ∀ name,
        Option.Rel (DeepEqual h h') ((h.fields id).get? name) ((h'.fields id').get? name)) :
      DeepEqual h h' (.object id) (.object id')

variable {h k k' : Heap} {value : Value}

/-! ## Complete snapshots -/

/-- A way from a step below a container back to the container goes on to that step. -/
theorem containerAlong?_back {c : Container} {key : Key} {next : Value} {keys : List Key}
    (hnext : h.child? c key = some next) (hback : h.containerAlong? next keys = some c) :
    ∃ d key' keys', next.container? = some d ∧ h.containerAlong? next (key' :: keys') = some d := by
  obtain ⟨last, hlast, hc⟩ := Option.bind_eq_some_iff.1 hback
  have hround : h.at? next (keys ++ [key]) = some next := by
    rw [at?_append, hlast, Option.bind_some, at?_singleton, hc, Option.bind_some, hnext]
  obtain ⟨d, hd⟩ : ∃ d, next.container? = some d := by
    cases keys with
    | nil =>
      rw [at?_nil, Option.some.injEq] at hlast
      exact ⟨c, hlast ▸ hc⟩
    | cons key' keys =>
      rw [at?_cons, Option.bind_eq_some_iff] at hlast
      obtain ⟨d, hd, -⟩ := hlast
      exact ⟨d, hd⟩
  have hturn : h.containerAlong? next (keys ++ [key]) = some d := by
    rw [containerAlong?, hround, Option.bind_some, hd]
  cases keys with
  | nil => exact ⟨d, key, [], hd, hturn⟩
  | cons key' keys => exact ⟨d, key', keys ++ [key], hd, hturn⟩

/-- No container lies below itself: a way back to it could be taken from its first step on as well,
    and that step was built before the container. -/
theorem Plain.not_below (hplain : h.Plain value) {c : Container} {key : Key} {keys : List Key}
    (hc : value.container? = some c) : h.containerAlong? value (key :: keys) ≠ some c := by
  have hback : ∀ {value : Value} {c : Container} {key : Key} {keys : List Key},
      value.container? = some c →
      (∀ key next, h.child? c key = some next → ∀ d key' keys', next.container? = some d →
        h.containerAlong? next (key' :: keys') ≠ some d) →
      h.containerAlong? value (key :: keys) ≠ some c := by
    intro value c key keys hc ih hbelow
    rw [containerAlong?, at?_cons, hc, Option.bind_some, Option.bind_eq_some_iff] at hbelow
    obtain ⟨last, hlast, hlastc⟩ := hbelow
    obtain ⟨next, hnext, hlast⟩ := Option.bind_eq_some_iff.1 hlast
    obtain ⟨d, key', keys', hd, hturn⟩ := containerAlong?_back hnext
      (Option.bind_eq_some_iff.2 ⟨last, hlast, hlastc⟩)
    exact ih key next hnext d key' keys' hd hturn
  induction hplain generalizing c key keys with
  | null | bool | number | text => cases hc
  | array hunlocked hitems ih =>
    refine hback hc fun key next hnext d key' keys' hd => ?_
    obtain rfl := Option.some.inj hc
    cases key with
    | field name => cases hnext
    | item index => exact ih next (List.mem_of_getElem? hnext) hd
  | object hunlocked hfields ih =>
    refine hback hc fun key next hnext d key' keys' hd => ?_
    obtain rfl := Option.some.inj hc
    cases key with
    | field name => exact ih name next hnext hd
    | item index => cases hnext

/-- Only ancestors that lie below a value cut its snapshot. -/
theorem unfold_ancestors (depth : Nat) :
    ∀ {ancestors others : List Container} {value : Value},
      (∀ keys c, h.containerAlong? value keys = some c → (c ∈ ancestors ↔ c ∈ others)) →
        h.unfold depth ancestors value = h.unfold depth others value := by
  induction depth with
  | zero =>
    intro ancestors others value hsame
    cases value with
    | object id => simp only [unfold, hsame [] (.object id) rfl]
    | array id => simp only [unfold, hsame [] (.array id) rfl]
    | _ => rfl
  | succ depth ih =>
    intro ancestors others value hsame
    have hchild : ∀ {c key next}, value.container? = some c → h.child? c key = some next →
        h.unfold depth (c :: ancestors) next = h.unfold depth (c :: others) next := by
      intro c key next hc hnext
      refine ih fun keys d hd => ?_
      rw [List.mem_cons, List.mem_cons, hsame (key :: keys) d]
      rw [containerAlong?, at?_cons, hc, Option.bind_some, hnext]
      exact hd
    cases value with
    | object id =>
      simp only [unfold, hsame [] (.object id) rfl]
      congr 3
      refine List.map_congr_left fun field hfield => ?_
      have hget : h.child? (.object id) (.field field.1) = some field.2 :=
        findEntry_of_mem (h.fields id).nodup hfield
      rw [hchild rfl hget]
    | array id =>
      simp only [unfold, hsame [] (.array id) rfl]
      congr 3
      refine List.map_congr_left fun item hitem => ?_
      obtain ⟨index, hindex⟩ := List.getElem?_of_mem hitem
      have hget : h.child? (.array id) (.item index) = some item := hindex
      exact hchild rfl hget
    | _ => rfl

theorem Plain.unfold_child {c : Container} {key : Key} {next : Value} (hplain : h.Plain c.value)
    (hnext : h.child? c key = some next) : h.unfold (h.size + 1) [c] next = h.snapshot next := by
  refine unfold_ancestors _ fun keys d hd => ?_
  have hc : c.value.container? = some c := by cases c <;> rfl
  have hne : d ≠ c := by
    rintro rfl
    have hbelow : h.containerAlong? d.value (key :: keys) = some d := by
      rw [containerAlong?, at?_cons, hc, Option.bind_some, hnext]
      exact hd
    exact hplain.not_below hc hbelow
  rw [List.mem_singleton]
  exact iff_of_false hne List.not_mem_nil

theorem Plain.snapshot_array {id : ArrayId} (hplain : h.Plain (.array id)) :
    h.snapshot (.array id) = .array ((h.items id).map h.snapshot) := by
  have hunlocked : (h.array id).locked = false := by cases hplain; assumption
  rw [snapshot_eq_unfold (Nat.lt_add_of_pos_right (by decide : 0 < 2))]
  simp only [unfold, hunlocked, List.not_mem_nil, if_false, Bool.false_eq_true]
  congr 1
  refine List.map_congr_left fun item hitem => ?_
  obtain ⟨index, hindex⟩ := List.getElem?_of_mem hitem
  have hget : h.child? (.array id) (.item index) = some item := hindex
  exact Plain.unfold_child hplain hget

theorem Plain.snapshot_object {id : ObjectId} (hplain : h.Plain (.object id)) :
    h.snapshot (.object id) =
      .object ((h.fields id).entries.map fun field => (field.1, h.snapshot field.2)) := by
  have hunlocked : (h.object id).locked = false := by cases hplain; assumption
  rw [snapshot_eq_unfold (Nat.lt_add_of_pos_right (by decide : 0 < 2))]
  simp only [unfold, hunlocked, List.not_mem_nil, if_false, Bool.false_eq_true]
  congr 1
  refine List.map_congr_left fun field hfield => ?_
  have hget : h.child? (.object id) (.field field.1) = some field.2 :=
    findEntry_of_mem (h.fields id).nodup hfield
  rw [Plain.unfold_child hplain hget]

end Heap

/-! ## Documents of containers -/

theorem exists_forall₂ {α β : Type} {R : α → β → Prop} {l : List α} (hl : ∀ a ∈ l, ∃ b, R a b) :
    ∃ l', List.Forall₂ R l l' := by
  induction l with
  | nil => exact ⟨[], .nil⟩
  | cons a l ih =>
    obtain ⟨⟨b, hb⟩, hrest⟩ := List.forall_mem_cons.1 hl
    obtain ⟨l', hl'⟩ := ih hrest
    exact ⟨b :: l', .cons hb hl'⟩

/-- The items have documents if each of them has one. -/
theorem Snapshot.jsonItems?_of_forall₂ {items : List Snapshot} {documents : List Json}
    (hitems : List.Forall₂ (fun item document => json? item = some document) items documents) :
    jsonItems? items = some documents := by
  induction hitems with
  | nil => rfl
  | cons hitem _ ih => rw [jsonItems?, hitem, ih]; rfl

/-- The fields have documents if each of them has one. -/
theorem Snapshot.jsonFields?_of_forall₂ {fields : List (String × Snapshot)}
    {documents : List (String × Json)}
    (hfields : List.Forall₂ (fun field document =>
      json? field.2 = some document.2 ∧ field.1 = document.1) fields documents) :
    jsonFields? fields = some documents := by
  induction hfields with
  | nil => rfl
  | @cons field document _ _ hfield _ ih =>
    obtain ⟨hdocument, hname⟩ := hfield
    rw [jsonFields?, hdocument, ih, hname]
    rfl

theorem Datum.ofJsonItems_eq (items : List Json) : ofJsonItems items = items.map ofJson := by
  induction items with
  | nil => rfl
  | cons item items ih => rw [ofJsonItems, ih, List.map_cons]

theorem Datum.ofJsonFields_eq (fields : List (String × Json)) :
    ofJsonFields fields = fields.map fun field => (field.1, ofJson field.2) := by
  induction fields with
  | nil => rfl
  | cons field fields ih => rw [ofJsonFields, ih, List.map_cons]

/-- A finite number comes back as an equal one. -/
theorem exists_ofJson_ofNumber {x : Float} (hfinite : x.isFinite = true) :
    ∃ x', Datum.ofJson (.ofNumber x) = .number x' ∧ (x == x') = true := by
  have hself : (x == x) = true := by
    rw [Float.beq_self_iff]
    rintro rfl
    exact absurd hfinite (by decide)
  rw [Json.ofNumber]
  cases hinteger : Number.integer? x with
  | none =>
    dsimp only
    rw [if_pos hfinite]
    exact ⟨x, rfl, hself⟩
  | some n =>
    dsimp only
    split
    · next hsmall => exact ⟨_, rfl, PartialEquivBEq.symm (Number.toFloat_integer? hinteger hsmall)⟩
    · exact ⟨x, rfl, hself⟩

/-- The document of an array has the documents of its items. -/
theorem Heap.Plain.json?_array {h : Heap} {id : ArrayId} (hplain : h.Plain (.array id))
    {documents : List Json}
    (hitems : List.Forall₂ (fun item document => item.json? h = some document) (h.items id) documents) :
    (Value.array id).json? h = some (.array documents) := by
  rw [Value.json?, hplain.snapshot_array, Snapshot.json?,
    Snapshot.jsonItems?_of_forall₂ (List.forall₂_map_left_iff.2 hitems)]
  rfl

/-- The document of an object has the documents of its fields, in the order of their names. -/
theorem Heap.Plain.json?_object {h : Heap} {id : ObjectId} (hplain : h.Plain (.object id))
    {documents : List (String × Json)}
    (hfields : List.Forall₂ (fun field document =>
      field.2.json? h = some document.2 ∧ field.1 = document.1) (h.fields id).entries documents) :
    (Value.object id).json? h = some (.object (Json.sortFields documents)) := by
  rw [Value.json?, hplain.snapshot_object, Snapshot.json?,
    Snapshot.jsonFields?_of_forall₂ (List.forall₂_map_left_iff.2 hfields)]
  rfl

/-! ## Placing -/

namespace Heap

variable {h k k' : Heap} {value : Value}

mutual

theorem place_grows (h : Heap) : ∀ d, h.Grows (h.place d).2
  | .object entries => by
    rw [place]
    exact (placeFields_grows h entries).trans (addObject_grows _ _)
  | .array items => by
    rw [place]
    exact (placeItems_grows h items).trans (addArray_grows _ _)
  | .function script => addFunction_grows h script
  | .held _ | .undefined | .null | .bool _ | .number _ | .text _ => Grows.refl h

theorem placeItems_grows (h : Heap) : ∀ ds, h.Grows (h.placeItems ds).2
  | [] => Grows.refl h
  | d :: ds => (place_grows h d).trans (placeItems_grows _ ds)

theorem placeFields_grows (h : Heap) : ∀ ds, h.Grows (h.placeFields ds).2
  | [] => Grows.refl h
  | (_, d) :: ds => (place_grows h d).trans (placeFields_grows _ ds)

end

/-- Wherever a datum is placed, it is deeply equal to a value, and stays so when the heap grows. -/
def Restores (h : Heap) (value : Value) (d : Datum) : Prop :=
  ∀ k k' : Heap, (k.place d).2.Grows k' → h.DeepEqual k' value (k.place d).1

theorem placeItems_restores {values : List Value} {ds : List Datum}
    (hrestores : List.Forall₂ h.Restores values ds) :
    ∀ {k : Heap}, (k.placeItems ds).2.Grows k' →
      List.Forall₂ (h.DeepEqual k') values (k.placeItems ds).1 := by
  induction hrestores with
  | nil => exact fun _ => .nil
  | cons hfirst _ ih =>
    intro k hgrows
    exact .cons (hfirst k k' ((placeItems_grows _ _).trans hgrows)) (ih hgrows)

theorem map_fst_placeFields (ds : List (String × Datum)) :
    ∀ k : Heap, (k.placeFields ds).1.map Prod.fst = ds.map Prod.fst := by
  induction ds with
  | nil => exact fun _ => rfl
  | cons d ds ih => exact fun k => congrArg (d.1 :: ·) (ih _)

theorem placeFields_restores {fields : Fields Value} {ds : List (String × Datum)}
    (hrestores : ∀ d ∈ ds, ∃ value, fields.get? d.1 = some value ∧ h.Restores value d.2) :
    ∀ {k : Heap}, (k.placeFields ds).2.Grows k' → ∀ e ∈ (k.placeFields ds).1,
      ∃ value, fields.get? e.1 = some value ∧ h.DeepEqual k' value e.2 := by
  induction ds with
  | nil => exact fun _ => nofun
  | cons d ds ih =>
    intro k hgrows e he
    rw [List.forall_mem_cons] at hrestores
    rcases List.mem_cons.1 he with rfl | he
    · obtain ⟨value, hget, hvalue⟩ := hrestores.1
      exact ⟨value, hget, hvalue k k' ((placeFields_grows _ _).trans hgrows)⟩
    · exact ih hrestores.2 hgrows e he

theorem findEntry_eq_none {α : Type} {entries : List (String × α)} {name : String} :
    findEntry name entries = none ↔ name ∉ entries.map Prod.fst := by
  induction entries with
  | nil => simp [findEntry]
  | cons entry entries ih =>
    rw [findEntry, List.map_cons, List.mem_cons, not_or, ← ih]
    by_cases hname : entry.1 = name
    · simp [hname]
    · simp [hname, Ne.symm hname]

/-- The names without a value are those that no entry has. -/
theorem get?_ofList_eq_none {α : Type} {entries : List (String × α)} {name : String} :
    (Fields.ofList entries).get? name = none ↔ name ∉ entries.map Prod.fst := by
  have hfold : ∀ (entries : List (String × α)) (f : Fields α),
      (entries.foldl (fun f e => f.insert e.1 e.2) f).get? name = none ↔
        f.get? name = none ∧ name ∉ entries.map Prod.fst := by
    intro entries
    induction entries with
    | nil => simp
    | cons entry entries ih =>
      intro f
      rw [List.foldl_cons, ih, Fields.get?_insert, List.map_cons, List.mem_cons, not_or]
      by_cases hname : name = entry.1
      · simp [hname]
      · simp [hname]
  rw [Fields.ofList, hfold]
  exact and_iff_right rfl

/-- A fresh array keeps its items when the heap grows. -/
theorem Grows.items_addArray {items : List Value} (hgrows : (h.addArray items).2.Grows k) :
    k.items (h.addArray items).1 = items := by
  have hnew : (h.addArray items).2.array (h.addArray items).1 = ⟨items, false⟩ :=
    (array_addArray h items _).trans (if_pos rfl)
  have hkept : (h.addArray items).2.array (h.addArray items).1 = k.array (h.addArray items).1 :=
    hgrows.agree _ (known_addArray h items _ rfl)
  exact congrArg Cell.content (hkept.symm.trans hnew)

/-- A fresh object keeps its fields when the heap grows. -/
theorem Grows.fields_addObject {fields : Fields Value}
    (hgrows : (h.addObject fields).2.Grows k) : k.fields (h.addObject fields).1 = fields := by
  have hnew : (h.addObject fields).2.object (h.addObject fields).1 = ⟨fields, false⟩ :=
    (object_addObject h fields _).trans (if_pos rfl)
  have hkept : (h.addObject fields).2.object (h.addObject fields).1 =
      k.object (h.addObject fields).1 := hgrows.agree _ (known_addObject h fields _ rfl)
  exact congrArg Cell.content (hkept.symm.trans hnew)

theorem Restores.array {id : ArrayId} {ds : List Datum}
    (hitems : List.Forall₂ h.Restores (h.items id) ds) : h.Restores (.array id) (.array ds) := by
  intro k k' hgrows
  rw [place] at hgrows ⊢
  refine .array ?_
  rw [Grows.items_addArray hgrows]
  exact placeItems_restores hitems ((addArray_grows _ _).trans hgrows)

/-- An object is restored by entries with its names and for each of them its value. -/
theorem Restores.object {id : ObjectId} {entries : List (String × Datum)}
    (hnames : ∀ name, (h.fields id).get? name = none ↔ name ∉ entries.map Prod.fst)
    (hfields : ∀ d ∈ entries, ∃ value, (h.fields id).get? d.1 = some value ∧ h.Restores value d.2) :
    h.Restores (.object id) (.object entries) := by
  intro k k' hgrows
  rw [place] at hgrows ⊢
  refine .object fun name => ?_
  rw [Grows.fields_addObject hgrows]
  cases hnew : (Fields.ofList (k.placeFields entries).1).get? name with
  | none =>
    rw [get?_ofList_eq_none, map_fst_placeFields] at hnew
    rw [(hnames name).2 hnew]
    exact .none
  | some new =>
    obtain ⟨old, hold, hequal⟩ := placeFields_restores hfields
      ((addObject_grows _ _).trans hgrows) _ (get?_ofList hnew)
    rw [show (h.fields id).get? name = some old from hold]
    exact .some hequal

theorem Plain.restores (hplain : h.Plain value) :
    ∃ document, value.json? h = some document ∧ h.Restores value (Datum.ofJson document) := by
  induction hplain with
  | null => exact ⟨.null, rfl, fun _ _ _ => .null⟩
  | bool b => exact ⟨.bool b, rfl, fun _ _ _ => .bool b⟩
  | text t => exact ⟨.text t, rfl, fun _ _ _ => .text t⟩
  | @number x hfinite =>
    obtain ⟨x', hx', hequal⟩ := exists_ofJson_ofNumber hfinite
    refine ⟨.ofNumber x, rfl, ?_⟩
    rw [hx']
    exact fun _ _ _ => .number hequal
  | @array id hunlocked hitems ih =>
    obtain ⟨documents, hdocuments⟩ := exists_forall₂ ih
    refine ⟨.array documents, Plain.json?_array (.array hunlocked hitems)
      (hdocuments.imp fun _ _ hitem => hitem.1), ?_⟩
    rw [Datum.ofJson, Datum.ofJsonItems_eq]
    exact .array (List.forall₂_map_right_iff.2 (hdocuments.imp fun _ _ hitem => hitem.2))
  | @object id hunlocked hfields ih =>
    -- Each field has a document, which stands for the value at its name.
    obtain ⟨documents, hdocuments⟩ := exists_forall₂ (l := (h.fields id).entries)
        (R := fun field (document : String × Json) =>
          (field.2.json? h = some document.2 ∧ field.1 = document.1) ∧
            ∃ value, (h.fields id).get? document.1 = some value ∧
              h.Restores value (Datum.ofJson document.2)) fun field hfield => by
      have hget := findEntry_of_mem (h.fields id).nodup hfield
      obtain ⟨document, hdocument, hrestores⟩ := ih field.1 field.2 hget
      exact ⟨(field.1, document), ⟨hdocument, rfl⟩, field.2, hget, hrestores⟩
    refine ⟨.object (Json.sortFields documents), Plain.json?_object (.object hunlocked hfields)
      (hdocuments.imp fun _ _ hfield => hfield.1), ?_⟩
    have hnames : (h.fields id).entries.map Prod.fst = documents.map Prod.fst :=
      List.forall₂_eq_eq_eq ▸ List.forall₂_map_left_iff.2
        (List.forall₂_map_right_iff.2 (hdocuments.imp fun _ _ hfield => hfield.1.2))
    have hvalues : ∀ document ∈ documents, ∃ value,
        (h.fields id).get? document.1 = some value ∧ h.Restores value (Datum.ofJson document.2) :=
      ((List.forall₂_and_left documents (h.fields id).entries).1
        (hdocuments.flip.imp fun _ _ hfield => ⟨hfield.2, hfield.1⟩)).1
    have hperm : (Json.sortFields documents).Perm documents := List.mergeSort_perm _ _
    rw [Datum.ofJson, Datum.ofJsonFields_eq]
    refine .object (fun name => ?_) (fun d hd => ?_)
    · rw [Fields.get?, findEntry_eq_none, hnames, List.map_map, (hperm.map _).mem_iff]
      rfl
    · obtain ⟨document, hdocument, rfl⟩ := List.mem_map.1 hd
      exact hvalues document (hperm.mem_iff.1 hdocument)

/-- A value becomes a document, and what comes back, in any heap, is deeply equal to what it was. -/
theorem Plain.deepEqual_ofJson_json (hplain : h.Plain value) (k : Heap) :
    ∃ document, value.json? h = some document ∧
      h.DeepEqual (k.place (Datum.ofJson document)).2 value (k.place (Datum.ofJson document)).1 := by
  obtain ⟨document, hdocument, hrestores⟩ := hplain.restores
  exact ⟨document, hdocument, hrestores k _ (Grows.refl _)⟩

/-- An object with the same array at two of its fields, not in the order of their names. -/
def taggedHeap : Heap where
  objects := #[⟨⟨[("tags", .array ⟨0⟩), ("owner", .null), ("again", .array ⟨0⟩)], by decide⟩, false⟩]
  arrays := #[⟨[.number 2, .number 0.5, .number (-0), .text "a"], false⟩]
  functions := #[]

/-- Its document has the array twice, and so has what comes back. -/
theorem tagged_object_comes_back :
    taggedHeap.Plain (.object ⟨0⟩) ∧
      ∃ document, (Value.object ⟨0⟩).json? taggedHeap = some document ∧
        taggedHeap.DeepEqual (empty.place (Datum.ofJson document)).2 (.object ⟨0⟩)
          (empty.place (Datum.ofJson document)).1 := by
  have htags : taggedHeap.Plain (.array ⟨0⟩) := by
    refine .array rfl (List.forall_mem_cons.2 ⟨.number (by decide), ?_⟩)
    refine List.forall_mem_cons.2 ⟨.number (by decide), ?_⟩
    refine List.forall_mem_cons.2 ⟨.number (by decide), ?_⟩
    exact List.forall_mem_cons.2 ⟨.text "a", List.forall_mem_nil _⟩
  have hplain : taggedHeap.Plain (.object ⟨0⟩) := by
    refine .object rfl fun name field hget => ?_
    have hfield : (name, field) ∈ [("tags", .array ⟨0⟩), ("owner", .null), ("again", .array ⟨0⟩)] :=
      mem_of_findEntry hget
    simp only [List.mem_cons, Prod.mk.injEq, List.not_mem_nil, or_false] at hfield
    rcases hfield with ⟨-, rfl⟩ | ⟨-, rfl⟩ | ⟨-, rfl⟩
    · exact htags
    · exact .null
    · exact htags
  exact ⟨hplain, hplain.deepEqual_ofJson_json empty⟩

end Heap

end ReactiveTemplate
