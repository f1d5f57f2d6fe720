import ReactiveTemplate.Proofs.Evaluation.Agreement

/-!
# Evaluation while containers are modified

What an expression gives while some containers are being modified, next to what it gives while none
is. A path that walks into such a container is an error, and so is its length. A value that is
turned into a text is not walked but written out, and an array that is being modified is written
out as if it had no items.

* `Heap.released`, `Heap.emptied`: the same heap with no container being modified.
* `Heap.Acyclic`: no array contains itself.
* `Expr.displayed`: the values that an evaluation turns into texts.
* `Heap.HidesItems`: a value whose text leaves out the items of an array that is being modified.
* `Expr.eval_of_frees`: a value that is found is found in the free heap too, where the texts agree.
* `Expr.eval_eq_error`: why an expression has no value.
* `CompiledExpression.run_while_modified`: the outcome of an accepted expression.
-/

namespace ReactiveTemplate

variable {h h' : Heap} {scope : Scope} {a b : Value}

/-! ## Free heaps -/

namespace Heap

/-- The heap with no container being modified. -/
def released (h : Heap) : Heap :=
  { h with
    objects := h.objects.map fun cell => { cell with locked := false }
    arrays := h.arrays.map fun cell => { cell with locked := false } }

/-- The heap with no container being modified and no items in the arrays that were. -/
def emptied (h : Heap) : Heap :=
  { h with
    objects := h.objects.map fun cell => { cell with locked := false }
    arrays := h.arrays.map fun cell => ⟨if cell.locked then [] else cell.content, false⟩ }

/-- No container of a heap is being modified, and all that can be read of another one is there. -/
structure Frees (h h' : Heap) : Prop where
  object : ∀ id, h'.object id = ⟨h.fields id, false⟩
  array : ∀ id, (h.array id).locked = false → h'.items id = h.items id
  unlocked : ∀ id, (h'.array id).locked = false

theorem object_map (h : Heap) (arrays : Array (Cell (List Value))) (id : ObjectId) :
    ({ h with
        objects := h.objects.map fun cell => { cell with locked := false }
        arrays := arrays } : Heap).object id = ⟨h.fields id, false⟩ := by
  simp only [object, fields, Array.getD_eq_getD_getElem?, Array.getElem?_map]
  cases h.objects[id.index]? <;> rfl

theorem array_released (h : Heap) (id : ArrayId) : h.released.array id = ⟨h.items id, false⟩ := by
  simp only [released, array, items, Array.getD_eq_getD_getElem?, Array.getElem?_map]
  cases h.arrays[id.index]? <;> rfl

theorem array_emptied (h : Heap) (id : ArrayId) :
    h.emptied.array id = ⟨if (h.array id).locked then [] else h.items id, false⟩ := by
  simp only [emptied, array, items, Array.getD_eq_getD_getElem?, Array.getElem?_map]
  cases h.arrays[id.index]? <;> rfl

theorem frees_released (h : Heap) : h.Frees h.released where
  object id := object_map h _ id
  array id _ := by rw [items, array_released]
  unlocked id := congrArg Cell.locked (array_released h id)

theorem frees_emptied (h : Heap) : h.Frees h.emptied where
  object id := object_map h _ id
  array id hlocked := by rw [items, array_emptied, hlocked]; rfl
  unlocked id := congrArg Cell.locked (array_emptied h id)

theorem Frees.isLocked (hf : h.Frees h') (c : Container) : h'.isLocked c = false := by
  cases c with
  | object id => rw [Heap.isLocked, hf.object]
  | array id => exact hf.unlocked id

theorem Frees.fields (hf : h.Frees h') (id : ObjectId) : h'.fields id = h.fields id := by
  rw [Heap.fields, hf.object]

end Heap

/-! ## Texts -/

/-- The text of a value leaves out the items of an array that is being modified: the value is one,
    or an array with such an item. -/
inductive Heap.HidesItems (h : Heap) : Value → Prop
  | here {id : ArrayId} (hlocked : (h.array id).locked = true) : h.HidesItems (.array id)
  | item {id : ArrayId} {item : Value} (hitem : item ∈ h.items id) (hhides : h.HidesItems item) :
      h.HidesItems (.array id)

namespace Heap

/-- What one comes to is not being modified, so one comes to it in a free heap too. -/
theorem Frees.reaches (hf : h.Frees h') {id : ArrayId} (hreaches : h.Reaches a id) :
    h'.Reaches a id := by
  induction hreaches with
  | here => exact .here (hf.unlocked _)
  | item hunlocked hitem _ ih => exact .item (hf.unlocked _) (hf.array _ hunlocked ▸ hitem) ih

theorem Frees.endless (hf : h.Frees h') (ha : h.Endless a) : h'.Endless a := by
  obtain ⟨id, hreaches, item, hitem, hback⟩ := ha
  refine ⟨id, hf.reaches hreaches, item, ?_, hf.reaches hback⟩
  rwa [hf.array id hreaches.unlocked]

/-- Values of a kind are the same texts in a free heap, if the items they hide are not there. -/
theorem Frees.showsAlike (hf : h.Frees h') {S : Value → Prop}
    (hbelow : ∀ id item, S (.array id) → item ∈ h.items id → S item)
    (hlocked : ∀ id, S (.array id) → (h.array id).locked = true → h'.items id = []) (ha : S a) :
    ShowsAlike h h' a := by
  by_cases hendless : h.Endless a
  · rw [ShowsAlike, Value.display?_eq_none_iff.2 hendless,
      Value.display?_eq_none_iff.2 (hf.endless hendless)]
  have hends : h.Ends a := Value.hasText_iff_ends.1 (Value.hasText_iff.2 hendless)
  clear hendless
  induction hends with
  | plain hvalue => exact Value.display?_plain hvalue h h'
  | @locked id hlock =>
    rw [ShowsAlike, Value.display?_locked hlock, eq_comm, Value.display?_array (hf.unlocked id)]
    exact ⟨[], by rw [hlocked id ha hlock]; rfl, rfl⟩
  | @array id hunlocked hitems ih =>
    have hcontent : ∀ item ∈ h.items id,
        (h.snapshot item).textContent? = (h'.snapshot item).textContent? := by
      intro item hitem
      rw [Value.textContent?_snapshot, Value.textContent?_snapshot,
        ih item hitem (hbelow id item ha hitem)]
    refine Option.ext fun text => ?_
    rw [Value.display?_array hunlocked, Value.display?_array (hf.unlocked id),
      hf.array id hunlocked, List.map_congr_left hcontent]

/-- A value that hides nothing is the same text once no container is being modified. -/
theorem showsAlike_released (ha : ¬ h.HidesItems a) : ShowsAlike h h.released a :=
  (frees_released h).showsAlike (S := fun value => ¬ h.HidesItems value)
    (fun _ _ hid hitem hhides => hid (.item hitem hhides))
    (fun _ hid hlock => absurd (.here hlock) hid) ha

/-- Every value is the text that it is when the arrays that are being modified have no items. -/
theorem showsAlike_emptied (h : Heap) (a : Value) : ShowsAlike h h.emptied a := by
  refine (frees_emptied h).showsAlike (S := fun _ => True) (fun _ _ _ _ => trivial)
    (fun id _ hlock => ?_) trivial
  rw [items, array_emptied, hlock]
  rfl

/-- No array contains itself, be it at once or by way of others, whether or not one is being
    modified. -/
def Acyclic (h : Heap) : Prop := ∀ id, ¬ h.released.InsideItself id

theorem Acyclic.not_endless (hacyclic : h.Acyclic) : ¬ h.released.Endless a := by
  rintro ⟨id, -, hinside⟩
  exact hacyclic id hinside

end Heap

/-! ## What is turned into a text -/

/-- The value that an operation turns into a text: the one it reads. -/
def Arithmetic.displayed (h : Heap) (scope : Scope) (operation : Arithmetic) : List Value :=
  (resolvePath h scope operation.path).toOption.toList

/-- The value that a part of a concatenation turns into a text. -/
def ConcatPart.displayed (h : Heap) (scope : Scope) : ConcatPart → List Value
  | .literal _ => []
  | .path p => (resolvePath h scope p).toOption.toList
  | .arithmetic operation => operation.displayed h scope

/-- The values that the evaluation of an expression turns into texts. What it does not evaluate
    does not count. -/
def Expr.displayed (h : Heap) (scope : Scope) : Expr → List Value
  | .literal _ | .path _ | .not _ | .ternary _ _ _ => []
  | .compare left op right =>
    match resolvePath h scope left, right.eval h scope with
    | .ok left, .ok right => op.displayed left right
    | _, _ => []
  | .arithmetic operation => operation.displayed h scope
  | .concat parts => parts.flatMap (ConcatPart.displayed h scope)
  | .logical left op right =>
    left.displayed h scope ++
      match op, (left.eval h scope).map Value.isTruthy with
      | .and, .ok true | .or, .ok false => right.displayed h scope
      | _, _ => []

theorem mem_of_found {r : Except EvalError Value} {value : Value} (hr : r = .ok value) :
    value ∈ r.toOption.toList := by
  rw [hr]
  exact List.mem_singleton.2 rfl

theorem isPrimitive_conditionAsNumber (a : Value) :
    a.conditionAsNumber.isPrimitive = a.isPrimitive := by
  cases a <;> rfl

theorem looseEquals_of_displayed
    (hshown : ∀ value ∈ CompareOp.displayed .looseEqual a b, ShowsAlike h h' value) :
    a.looseEquals h b = a.looseEquals h' b := by
  cases hnullish : a.isNullish || b.isNullish with
  | true => simp only [Value.looseEquals, hnullish, if_true]
  | false =>
    cases hprimitive : a.isPrimitive || b.isPrimitive with
    | true =>
      have hdisplayed : CompareOp.displayed .looseEqual a b = [a, b] := by
        simp only [CompareOp.displayed, hnullish, hprimitive, if_true, Bool.false_eq_true, if_false]
      rw [hdisplayed] at hshown
      exact looseEquals_of_showsAlike (hshown a (by simp)) (hshown b (by simp))
    | false =>
      -- Two containers are compared as they are.
      simp only [Value.looseEquals, hnullish, isPrimitive_conditionAsNumber, hprimitive,
        Bool.false_eq_true, if_false]

theorem holds_of_displayed {op : CompareOp}
    (hshown : ∀ value ∈ op.displayed a b, ShowsAlike h h' value) :
    op.holds h a b = op.holds h' a b := by
  cases op with
  | strictEqual | strictNotEqual => rfl
  | looseEqual | looseNotEqual => simp only [CompareOp.holds, looseEquals_of_displayed hshown]
  | less | greater | lessOrEqual | greaterOrEqual =>
    have ha : ShowsAlike h h' a := hshown a (by simp [CompareOp.displayed])
    have hb : ShowsAlike h h' b := hshown b (by simp [CompareOp.displayed])
    simp only [CompareOp.holds, compare?_of_showsAlike ha hb]

/-! ## Two evaluations -/

section Bind

variable {ε α β : Type}

/-- Where steps fail, one of them has failed. -/
theorem bind_eq_error {r : Except ε α} {next : α → Except ε β} {stop : ε}
    (hr : (r >>= next) = .error stop) :
    r = .error stop ∨ ∃ found, r = .ok found ∧ next found = .error stop := by
  cases r with
  | error e =>
    obtain rfl := Except.error.inj hr
    exact .inl rfl
  | ok found => exact .inr ⟨found, rfl, hr⟩

/-- Where steps succeed, each of them has succeeded. -/
theorem bind_eq_ok {r : Except ε α} {next : α → Except ε β} {result : β}
    (hr : (r >>= next) = .ok result) : ∃ found, r = .ok found ∧ next found = .ok result := by
  cases r with
  | error e => cases hr
  | ok found => exact ⟨found, rfl, hr⟩

end Bind

/-- What one evaluation gives, another one gives too. -/
def Gives {ε : Type} (r r' : Except ε Value) : Prop := ∀ value, r = .ok value → r' = .ok value

namespace Gives

variable {ε : Type} {r r' : Except ε Value}

theorem refl (r : Except ε Value) : Gives r r := fun _ hvalue => hvalue

theorem bind {next next' : Value → Except ε Value} (hr : Gives r r')
    (hnext : ∀ value, r = .ok value → Gives (next value) (next' value)) :
    Gives (r >>= next) (r' >>= next') := by
  intro value hvalue
  cases hfound : r with
  | error e =>
    rw [hfound] at hvalue
    cases hvalue
  | ok found =>
    rw [hfound] at hvalue
    rw [hr found hfound]
    exact hnext found hfound value hvalue

theorem attempt {r r' : Except EvalError Value} (hr : Gives r r') :
    Gives (attempt r) (attempt r') := by
  intro value hvalue
  rw [hr value (attempt_eq_ok.1 hvalue)]
  rfl

/-- Steps that go on once the same texts are written out. -/
theorem writeOut {values : List Value} {r r' : Except NoValue Value}
    (hvalues : ∀ value ∈ values, ShowsAlike h h' value) (hr : Gives r r') :
    Gives (writeOut h values >>= fun _ => r) (writeOut h' values >>= fun _ => r') := by
  rw [writeOut_of_showsAlike hvalues]
  cases ReactiveTemplate.writeOut h' values with
  | error e => exact .refl _
  | ok => exact hr

end Gives

theorem property_of_frees (hf : h.Frees h') (walked : List String) (value : Value) (name : String) :
    Gives (property h walked value name) (property h' walked value name) := by
  intro found hfound
  cases value with
  | object id =>
    rw [property] at hfound ⊢
    split at hfound
    · cases hfound
    · rw [hf.object, if_neg (by simp), hf.fields]
      exact hfound
  | array id =>
    rw [property] at hfound ⊢
    split
    · next hname =>
      rw [if_pos hname] at hfound
      split at hfound
      · cases hfound
      · next hlock =>
        rw [hf.unlocked, if_neg (by simp), hf.array id (by simpa using hlock)]
        exact hfound
    · next hname => rwa [if_neg hname] at hfound
  | _ => exact hfound

theorem descend_of_frees (hf : h.Frees h') (names : List String) :
    ∀ (walked : List String) (value : Value),
      Gives (descend h walked value names) (descend h' walked value names) := by
  induction names with
  | nil => exact fun walked value => .refl _
  | cons name rest ih =>
    intro walked value
    rw [descend, descend]
    refine (property_of_frees hf walked value name).bind fun next _ => ?_
    cases next with
    | undefined => exact .refl _
    | _ => exact ih _ _

theorem lookup_of_frees (hf : h.Frees h') (name : String) {found : Option Value} :
    scope.lookup h name = .ok found → scope.lookup h' name = .ok found := by
  intro hfound
  induction scope with
  | object id =>
    rw [Scope.lookup] at hfound ⊢
    split at hfound
    · cases hfound
    · rw [hf.object, if_neg (by simp), hf.fields]
      exact hfound
  | fields known => exact hfound
  | item itemName value parent ih =>
    rw [Scope.lookup] at hfound ⊢
    split at hfound
    · next hname => rwa [if_pos hname]
    · next hname => rw [if_neg hname, ih hfound]

theorem resolvePath_of_frees (hf : h.Frees h') (scope : Scope) (p : Path) :
    Gives (resolvePath h scope p) (resolvePath h' scope p) := by
  intro value hvalue
  rw [resolvePath] at hvalue ⊢
  cases hlookup : scope.lookup h p.root with
  | error e =>
    rw [hlookup] at hvalue
    cases hvalue
  | ok found =>
    rw [hlookup] at hvalue
    rw [lookup_of_frees hf p.root hlookup]
    cases found with
    | none => exact hvalue
    | some start =>
      exact (descend_of_frees hf p.below [p.root] start).bind (fun next _ => .refl _) value hvalue

theorem Operand.eval_of_frees (hf : h.Frees h') (scope : Scope) (o : Operand) :
    Gives (o.eval h scope) (o.eval h' scope) := by
  cases o with
  | literal l => exact .refl _
  | path p => exact resolvePath_of_frees hf scope p

theorem Arithmetic.eval_of_frees (hf : h.Frees h') {operation : Arithmetic}
    (hshown : ∀ value ∈ operation.displayed h scope, ShowsAlike h h' value) :
    Gives (operation.eval h scope) (operation.eval h' scope) := by
  refine (resolvePath_of_frees hf scope operation.path).attempt.bind fun value hvalue => ?_
  have ha : ShowsAlike h h' value := hshown value (mem_of_found (attempt_eq_ok.1 hvalue))
  have hb : ShowsAlike h h' (.number operation.number) := .plain h h' rfl
  refine .writeOut (by simpa using ha) ?_
  rw [add_of_showsAlike ha hb, ha.toNumber]
  exact .refl _

theorem ConcatPart.eval_of_frees (hf : h.Frees h') {part : ConcatPart}
    (hshown : ∀ value ∈ part.displayed h scope, ShowsAlike h h' value) :
    Gives (part.eval h scope) (part.eval h' scope) := by
  cases part with
  | literal l => exact .refl _
  | path p => exact (resolvePath_of_frees hf scope p).attempt
  | arithmetic operation => exact Arithmetic.eval_of_frees hf hshown

/-- The value of an operation is a number or a text. -/
theorem Arithmetic.container?_of_eval {operation : Arithmetic} {value : Value}
    (hvalue : operation.eval h scope = .ok value) : value.container? = none := by
  rw [Arithmetic.eval] at hvalue
  obtain ⟨read, -, hrest⟩ := bind_eq_ok hvalue
  obtain ⟨-, -, hresult⟩ := bind_eq_ok hrest
  obtain rfl := Except.ok.inj hresult
  cases operation.op with
  | add => exact container?_add h _ _
  | _ => rfl

/-- The value of a part that refers to a container is the value of a path. -/
theorem ConcatPart.container?_of_eval {part : ConcatPart} {value : Value}
    (hvalue : part.eval h scope = .ok value) :
    value.container? = none ∨ ∃ p, part = .path p ∧ resolvePath h scope p = .ok value := by
  cases part with
  | literal l =>
    obtain rfl := Except.ok.inj hvalue
    exact .inl (container?_value_literal l)
  | path p => exact .inr ⟨p, rfl, attempt_eq_ok.1 hvalue⟩
  | arithmetic operation => exact .inl (Arithmetic.container?_of_eval hvalue)

/-- What a part gives is a text to both heaps, as it enters a sum. -/
theorem ConcatPart.showsAlike {part : ConcatPart} {value : Value}
    (hshown : ∀ value ∈ part.displayed h scope, ShowsAlike h h' value)
    (hvalue : part.eval h scope = .ok value) : ShowsAlike h h' value.orBlank := by
  have hplain : ShowsAlike h h' value := by
    rcases ConcatPart.container?_of_eval hvalue with hcontainer | ⟨p, rfl, hread⟩
    · exact .plain h h' hcontainer
    · exact hshown value (mem_of_found hread)
  rw [Value.orBlank]
  split
  · exact .plain h h' rfl
  · exact hplain

theorem sumParts_of_frees (hf : h.Frees h') {parts : List ConcatPart}
    (hshown : ∀ part ∈ parts, ∀ value ∈ part.displayed h scope, ShowsAlike h h' value) :
    ∀ total : Value, ShowsAlike h h' total →
      Gives (sumParts h scope total parts) (sumParts h' scope total parts) ∧
        ∀ sum, sumParts h scope total parts = .ok sum → ShowsAlike h h' sum := by
  induction parts with
  | nil =>
    intro total htotal
    refine ⟨.refl _, ?_⟩
    rintro _ ⟨⟩
    exact htotal
  | cons part parts ih =>
    intro total htotal
    have hpart := hshown part List.mem_cons_self
    have hrest := ih fun part hmem => hshown part (List.mem_cons_of_mem _ hmem)
    have hsum : ∀ value : Value, ShowsAlike h h' (total.add h value.orBlank) := fun value =>
      .plain h h' (container?_add h _ _)
    refine ⟨(ConcatPart.eval_of_frees hf hpart).bind fun value hvalue => ?_, fun sum heq => ?_⟩
    · have hblank := ConcatPart.showsAlike hpart hvalue
      refine .writeOut (by simpa using ⟨htotal, hblank⟩) ?_
      rw [← add_of_showsAlike htotal hblank]
      exact (hrest _ (hsum value)).1
    · obtain ⟨value, -, hwritten⟩ := bind_eq_ok heq
      obtain ⟨-, -, heq⟩ := bind_eq_ok hwritten
      exact (hrest _ (hsum value)).2 sum heq

theorem evalConcat_of_frees (hf : h.Frees h') {parts : List ConcatPart}
    (hshown : ∀ part ∈ parts, ∀ value ∈ part.displayed h scope, ShowsAlike h h' value) :
    Gives (evalConcat h scope parts) (evalConcat h' scope parts) := by
  cases parts with
  | nil => exact .refl _
  | cons first rest =>
    have hfirst := hshown first List.mem_cons_self
    refine (ConcatPart.eval_of_frees hf hfirst).bind fun value hvalue => ?_
    obtain ⟨hsum, hshows⟩ := sumParts_of_frees hf
      (fun part hmem => hshown part (List.mem_cons_of_mem _ hmem)) _
      (ConcatPart.showsAlike hfirst hvalue)
    refine hsum.bind fun total htotal => ?_
    have htotal := hshows total htotal
    refine .writeOut (by simpa using htotal) ?_
    rw [htotal.textContent]
    exact .refl _

/-- What an expression gives is what it gives in the free heap, if all that it turns into texts is
    the same text there. -/
theorem Expr.eval_of_frees (hf : h.Frees h') {e : Expr}
    (hshown : ∀ value ∈ e.displayed h scope, ShowsAlike h h' value) :
    Gives (e.eval h scope) (e.eval h' scope) := by
  induction e with
  | literal l => exact .refl _
  | path p => exact (resolvePath_of_frees hf scope p).attempt
  | compare left op right =>
    refine (resolvePath_of_frees hf scope left).attempt.bind fun value hvalue => ?_
    refine (Operand.eval_of_frees hf scope right).attempt.bind fun other hother => ?_
    simp only [displayed, attempt_eq_ok.1 hvalue, attempt_eq_ok.1 hother] at hshown
    refine .writeOut hshown ?_
    rw [holds_of_displayed hshown]
    exact .refl _
  | arithmetic operation => exact Arithmetic.eval_of_frees hf hshown
  | concat parts =>
    refine evalConcat_of_frees hf fun part hpart value hvalue => hshown value ?_
    exact List.mem_flatMap.2 ⟨part, hpart, hvalue⟩
  | logical left op right ihleft ihright =>
    have hleft := ihleft fun value hvalue => hshown value (List.mem_append_left _ hvalue)
    refine hleft.bind fun value hvalue => ?_
    cases op <;> cases htruthy : value.isTruthy
    · exact .refl _
    · refine ihright fun other hother => hshown other (List.mem_append_right _ ?_)
      simpa [hvalue, htruthy, Except.map] using hother
    · refine ihright fun other hother => hshown other (List.mem_append_right _ ?_)
      simpa [hvalue, htruthy, Except.map] using hother
    · exact .refl _
  | not p => exact (resolvePath_of_frees hf scope p).attempt.bind fun value _ => .refl _
  | ternary condition thenValue elseValue =>
    exact (resolvePath_of_frees hf scope condition).attempt.bind fun value _ => .refl _

/-! ## Errors -/

/-- An error names the part of a path at which a container is being modified. -/
def Blames (h : Heap) (names : List String) (error : EvalError) : Prop :=
  ∃ walked, walked <+: names ∧ error = .locked (String.intercalate "." walked) ∧
    ∃ c, h.isLocked c = true

theorem property_eq_error {walked : List String} {value : Value} {name : String} {error : EvalError}
    (hproperty : property h walked value name = .error error) : Blames h walked error := by
  refine ⟨walked, List.prefix_rfl, ?_⟩
  cases value with
  | object id =>
    rw [property] at hproperty
    split at hproperty
    · next hlock => exact ⟨(Except.error.inj hproperty).symm, .object id, hlock⟩
    · cases hproperty
  | array id =>
    rw [property] at hproperty
    split at hproperty
    · split at hproperty
      · next hlock => exact ⟨(Except.error.inj hproperty).symm, .array id, hlock⟩
      · cases hproperty
    · cases hproperty
  | text t =>
    rw [property] at hproperty
    split at hproperty <;> cases hproperty
  | undefined | null | bool | number | function => cases hproperty

theorem descend_eq_error {names : List String} {error : EvalError} :
    ∀ {walked : List String} {value : Value}, descend h walked value names = .error error →
      Blames h (walked ++ names) error := by
  induction names with
  | nil => exact nofun
  | cons name rest ih =>
    intro walked value hdescend
    rw [descend] at hdescend
    rcases bind_eq_error hdescend with hproperty | ⟨next, -, hnext⟩
    · obtain ⟨part, hpart, hrest⟩ := property_eq_error hproperty
      exact ⟨part, hpart.trans (List.prefix_append walked _), hrest⟩
    · rw [List.append_cons]
      cases next with
      | undefined => cases hnext
      | _ => exact ih hnext

theorem lookup_eq_error {name : String} {error : EvalError}
    (hlookup : scope.lookup h name = .error error) : Blames h [] error := by
  induction scope with
  | object id =>
    rw [Scope.lookup] at hlookup
    split at hlookup
    · next hlock =>
      exact ⟨[], List.prefix_rfl, (Except.error.inj hlookup).symm, .object id, hlock⟩
    · cases hlookup
  | fields known => cases hlookup
  | item itemName value parent ih =>
    rw [Scope.lookup] at hlookup
    split at hlookup
    · cases hlookup
    · exact ih hlookup

theorem resolvePath_eq_error {p : Path} {error : EvalError}
    (hresolve : resolvePath h scope p = .error error) : Blames h p.segments error := by
  rw [resolvePath] at hresolve
  cases hlookup : scope.lookup h p.root with
  | error e =>
    rw [hlookup] at hresolve
    obtain rfl := Except.error.inj hresolve
    obtain ⟨walked, hwalked, hrest⟩ := lookup_eq_error hlookup
    exact ⟨walked, hwalked.trans List.nil_prefix, hrest⟩
  | ok found =>
    rw [hlookup] at hresolve
    cases found with
    | none => cases hresolve
    | some start =>
      change (descend h [p.root] start p.below >>= _) = _ at hresolve
      rcases bind_eq_error hresolve with hdescend | ⟨value, -, hvalue⟩
      · exact descend_eq_error hdescend
      · cases hvalue

/-- Why an evaluation that reads some paths has no value: one of them cannot be read, or what it
    reads is an array whose text is endless. -/
def Stops (h : Heap) (scope : Scope) (reads : List Path) : NoValue → Prop
  | .failed error => ∃ p ∈ reads, resolvePath h scope p = .error error
  | .endless => ∃ p ∈ reads, ∃ value, resolvePath h scope p = .ok value ∧ h.Endless value

theorem Stops.mono {reads more : List Path} {stop : NoValue} (hstops : Stops h scope reads stop)
    (hmore : ∀ p ∈ reads, p ∈ more) : Stops h scope more stop := by
  cases stop with
  | failed error =>
    obtain ⟨p, hp, hread⟩ := hstops
    exact ⟨p, hmore p hp, hread⟩
  | endless =>
    obtain ⟨p, hp, hread⟩ := hstops
    exact ⟨p, hmore p hp, hread⟩

theorem stops_of_attempt {p : Path} {stop : NoValue}
    (hread : attempt (resolvePath h scope p) = .error stop) : Stops h scope [p] stop := by
  obtain ⟨error, herror, rfl⟩ := attempt_eq_error.1 hread
  exact ⟨p, List.mem_singleton.2 rfl, herror⟩

/-- A value that refers to no container is not endless. -/
theorem Heap.not_endless_plain (ha : a.container? = none) : ¬ h.Endless a := by
  refine (Heap.Ends.plain fun id hid => ?_).not_endless
  rw [hid] at ha
  cases ha

theorem Arithmetic.eval_eq_error {operation : Arithmetic} {stop : NoValue}
    (heval : operation.eval h scope = .error stop) : Stops h scope [operation.path] stop := by
  rcases bind_eq_error heval with hread | ⟨value, hread, hrest⟩
  · exact stops_of_attempt hread
  · rcases bind_eq_error hrest with hwritten | ⟨-, -, hvalue⟩
    · obtain ⟨rfl, shown, hshown, hendless⟩ := writeOut_eq_error.1 hwritten
      obtain rfl := List.mem_singleton.1 hshown
      exact ⟨operation.path, List.mem_singleton.2 rfl, shown, attempt_eq_ok.1 hread, hendless⟩
    · cases hvalue

theorem ConcatPart.eval_eq_error {part : ConcatPart} {stop : NoValue}
    (heval : part.eval h scope = .error stop) : Stops h scope part.reads stop := by
  cases part with
  | literal l => cases heval
  | path p => exact stops_of_attempt heval
  | arithmetic operation => exact Arithmetic.eval_eq_error heval

/-- A part whose value is endless in a sum has read it. -/
theorem ConcatPart.stops_of_endless {part : ConcatPart} {value : Value}
    (hvalue : part.eval h scope = .ok value) (hendless : h.Endless value.orBlank) :
    Stops h scope part.reads .endless := by
  rw [Value.orBlank] at hendless
  split at hendless
  · exact absurd hendless (Heap.not_endless_plain rfl)
  · rcases ConcatPart.container?_of_eval hvalue with hcontainer | ⟨p, rfl, hread⟩
    · exact absurd hendless (Heap.not_endless_plain hcontainer)
    · exact ⟨p, List.mem_singleton.2 rfl, value, hread, hendless⟩

/-- Only the value that a sum starts with can be endless: sums are numbers or texts. -/
theorem endless_of_sumParts {parts : List ConcatPart} {total sum : Value}
    (hsum : sumParts h scope total parts = .ok sum) (hendless : h.Endless sum) :
    h.Endless total := by
  induction parts generalizing total with
  | nil =>
    obtain rfl := Except.ok.inj hsum
    exact hendless
  | cons part parts ih =>
    obtain ⟨value, -, hwritten⟩ := bind_eq_ok hsum
    obtain ⟨-, -, hrest⟩ := bind_eq_ok hwritten
    exact absurd (ih hrest) (Heap.not_endless_plain (container?_add h _ _))

theorem sumParts_eq_error {parts : List ConcatPart} {stop : NoValue} :
    ∀ {total : Value}, sumParts h scope total parts = .error stop →
      stop = .endless ∧ h.Endless total ∨ ∃ part ∈ parts, Stops h scope part.reads stop := by
  induction parts with
  | nil => exact nofun
  | cons part parts ih =>
    intro total hsum
    rcases bind_eq_error hsum with hpart | ⟨value, hvalue, hrest⟩
    · exact .inr ⟨part, List.mem_cons_self, ConcatPart.eval_eq_error hpart⟩
    rcases bind_eq_error hrest with hwritten | ⟨-, -, hrest⟩
    · obtain ⟨rfl, shown, hshown, hendless⟩ := writeOut_eq_error.1 hwritten
      rcases List.mem_pair.1 hshown with rfl | rfl
      · exact .inl ⟨rfl, hendless⟩
      · exact .inr ⟨part, List.mem_cons_self, ConcatPart.stops_of_endless hvalue hendless⟩
    · rcases ih hrest with ⟨-, hendless⟩ | ⟨other, hmem, hother⟩
      · exact absurd hendless (Heap.not_endless_plain (container?_add h _ _))
      · exact .inr ⟨other, List.mem_cons_of_mem _ hmem, hother⟩

theorem evalConcat_eq_error {parts : List ConcatPart} {stop : NoValue}
    (heval : evalConcat h scope parts = .error stop) :
    ∃ part ∈ parts, Stops h scope part.reads stop := by
  cases parts with
  | nil => cases heval
  | cons first rest =>
    rcases bind_eq_error heval with hfirst | ⟨value, hvalue, hsum⟩
    · exact ⟨first, List.mem_cons_self, ConcatPart.eval_eq_error hfirst⟩
    rcases bind_eq_error hsum with hrest | ⟨total, htotal, hwritten⟩
    · rcases sumParts_eq_error hrest with ⟨rfl, hendless⟩ | ⟨part, hmem, hpart⟩
      · exact ⟨first, List.mem_cons_self, ConcatPart.stops_of_endless hvalue hendless⟩
      · exact ⟨part, List.mem_cons_of_mem _ hmem, hpart⟩
    rcases bind_eq_error hwritten with hwritten | ⟨-, -, htext⟩
    · obtain ⟨rfl, shown, hshown, hendless⟩ := writeOut_eq_error.1 hwritten
      obtain rfl := List.mem_singleton.1 hshown
      have hfirst := endless_of_sumParts htotal hendless
      exact ⟨first, List.mem_cons_self, ConcatPart.stops_of_endless hvalue hfirst⟩
    · cases htext

/-- An expression has no value where one of its paths cannot be read or reads an endless value. -/
theorem Expr.eval_eq_error {e : Expr} {stop : NoValue} (heval : e.eval h scope = .error stop) :
    Stops h scope e.reads stop := by
  induction e with
  | literal l => cases heval
  | path p => exact stops_of_attempt heval
  | compare left op right =>
    rcases bind_eq_error heval with hleft | ⟨value, hvalue, hrest⟩
    · exact (stops_of_attempt hleft).mono (by simp [reads])
    rcases bind_eq_error hrest with hright | ⟨other, hother, hrest⟩
    · cases right with
      | literal l => cases hright
      | path p => exact (stops_of_attempt hright).mono (by simp [reads, Operand.reads])
    rcases bind_eq_error hrest with hwritten | ⟨-, -, hresult⟩
    · obtain ⟨rfl, shown, hshown, hendless⟩ := writeOut_eq_error.1 hwritten
      rcases mem_displayed hshown with rfl | rfl
      · exact ⟨left, List.mem_cons_self, shown, attempt_eq_ok.1 hvalue, hendless⟩
      · cases right with
        | literal l =>
          obtain rfl := Except.ok.inj hother
          exact absurd hendless (Heap.not_endless_plain (container?_value_literal l))
        | path p =>
          exact ⟨p, List.mem_cons_of_mem _ (List.mem_singleton.2 rfl), shown,
            attempt_eq_ok.1 hother, hendless⟩
    · cases hresult
  | arithmetic operation => exact Arithmetic.eval_eq_error heval
  | concat parts =>
    obtain ⟨part, hpart, hstops⟩ := evalConcat_eq_error heval
    exact hstops.mono fun p hp => List.mem_flatMap.2 ⟨part, hpart, hp⟩
  | logical left op right ihleft ihright =>
    rcases bind_eq_error heval with hleft | ⟨value, -, hrest⟩
    · exact (ihleft hleft).mono fun p hp => List.mem_append_left _ hp
    · have hright : right.eval h scope = .error stop := by
        cases op <;> cases htruthy : value.isTruthy <;> rw [htruthy] at hrest
        · cases hrest
        · exact hrest
        · exact hrest
        · cases hrest
      exact (ihright hright).mono fun p hp => List.mem_append_right _ hp
  | not p =>
    rcases bind_eq_error heval with hread | ⟨value, -, hvalue⟩
    · exact stops_of_attempt hread
    · cases hvalue
  | ternary condition thenValue elseValue =>
    rcases bind_eq_error heval with hread | ⟨value, -, hvalue⟩
    · exact stops_of_attempt hread
    · cases hvalue

/-! ## The outcome -/

/-- While containers are being modified, an accepted expression gives what it gives while none is,
    or the error of a path that it reads, unless the items of such a container are missing in a
    text. Where they are, it gives what it gives if the container has no items. Where an array
    contains itself, it may have no value at all. -/
theorem CompiledExpression.run_while_modified {compiled : CompiledExpression} {e : Expr}
    (haccepted : compiled.outcome = .ok e) (h : Heap) (scope : Scope) :
    (h.Acyclic → ∃ value, compiled.run h.released scope = .ok value) ∧
    (∀ value, compiled.run h scope = .ok value →
      (∀ shown ∈ e.displayed h scope, ¬ h.HidesItems shown) →
        compiled.run h.released scope = .ok value) ∧
    (∀ value, compiled.run h scope = .ok value → compiled.run h.emptied scope = .ok value) ∧
    ∀ stop, compiled.run h scope = .error stop →
      (∃ p ∈ e.reads, ∃ walked, walked <+: p.segments ∧
        stop = .failed (.locked (String.intercalate "." walked))) ∨
      (stop = .endless ∧ ¬ h.Acyclic) := by
  have hrun : ∀ h', compiled.run h' scope = e.eval h' scope := by
    intro h'
    rw [CompiledExpression.run, haccepted]
  simp only [hrun]
  refine ⟨fun hacyclic => ?_, fun value hvalue hshown => ?_, ?_, fun stop hstop => ?_⟩
  · cases hfree : e.eval h.released scope with
    | ok value => exact ⟨value, rfl⟩
    | error stop =>
      have hstops := Expr.eval_eq_error hfree
      cases stop with
      | failed error =>
        obtain ⟨p, -, hread⟩ := hstops
        obtain ⟨-, -, -, c, hlock⟩ := resolvePath_eq_error hread
        rw [(Heap.frees_released h).isLocked c] at hlock
        cases hlock
      | endless =>
        obtain ⟨-, -, value, -, hendless⟩ := hstops
        exact absurd hendless hacyclic.not_endless
  · refine Expr.eval_of_frees (Heap.frees_released h) (fun shown hmem => ?_) value hvalue
    exact Heap.showsAlike_released (hshown shown hmem)
  · exact Expr.eval_of_frees (Heap.frees_emptied h) fun shown _ => Heap.showsAlike_emptied h shown
  · have hstops := Expr.eval_eq_error hstop
    cases stop with
    | failed error =>
      obtain ⟨p, hp, hread⟩ := hstops
      obtain ⟨walked, hwalked, rfl, -⟩ := resolvePath_eq_error hread
      exact .inl ⟨p, hp, walked, hwalked, rfl⟩
    | endless =>
      obtain ⟨-, -, value, -, hendless⟩ := hstops
      exact .inr ⟨rfl, fun hacyclic =>
        hacyclic.not_endless ((Heap.frees_released h).endless hendless)⟩

/-- An object with a name and a list of items. -/
def stocked : Heap :=
  (Heap.empty.place (.object [("name", .text "x"), ("items", .array [.text "a", .text "b"])])).2

/-- While the items are being modified, a greeting is what it always is, the items are missing from
    a text, and their number is an error. -/
theorem greeting_kept_items_missing :
    let h := stocked.setLocked true (.array ⟨0⟩)
    let scope := Scope.object ⟨0⟩
    let greeting := CompiledExpression.compile "'Hi ' + name"
    let joined := CompiledExpression.compile "'x' + items"
    let count := CompiledExpression.compile "items.length"
    h.Acyclic ∧ (∃ value, count.run h.released scope = .ok value) ∧
    greeting.run h scope = .ok (.text "Hi x") ∧
    greeting.run h.released scope = .ok (.text "Hi x") ∧
    joined.run stocked scope = .ok (.text "xa,b") ∧ joined.run h scope = .ok (.text "x") ∧
    joined.run h.emptied scope = .ok (.text "x") ∧
    count.run h scope = .error (.failed (.locked "items")) ∧
    ∃ p ∈ (Expr.path ⟨"items", ["length"]⟩).reads, ∃ walked, walked <+: p.segments ∧
      NoValue.failed (.locked "items") = .failed (.locked (String.intercalate "." walked)) := by
  intro h scope greeting joined count
  have hgreeting := CompiledExpression.run_while_modified
    (show greeting.outcome = .ok (.concat [.literal (.text "Hi "), .path ⟨"name", []⟩]) from rfl)
    h scope
  have hjoined := CompiledExpression.run_while_modified
    (show joined.outcome = .ok (.concat [.literal (.text "x"), .path ⟨"items", []⟩]) from rfl)
    h scope
  have hcount := CompiledExpression.run_while_modified
    (show count.outcome = .ok (.path ⟨"items", ["length"]⟩) from rfl) h scope
  have hacyclic : h.Acyclic := by
    rintro ⟨index⟩ ⟨item, hitem, hreaches⟩
    rw [Heap.items, Heap.array_released] at hitem
    have htext : item ∈ [Value.text "a", .text "b"] := by
      cases index with
      | zero => exact hitem
      | succ index => exact absurd hitem List.not_mem_nil
    rcases List.mem_pair.1 htext with rfl | rfl <;> cases hreaches
  refine ⟨hacyclic, hcount.1 hacyclic, rfl, hgreeting.2.1 _ rfl fun shown hshown => ?_, rfl, rfl,
    hjoined.2.2.1 _ rfl, rfl, ?_⟩
  · obtain rfl : shown = .text "x" := List.mem_singleton.1 hshown
    intro hhides
    cases hhides
  · rcases hcount.2.2.2 _ rfl with hlocked | ⟨hendless, -⟩
    · exact hlocked
    · cases hendless

end ReactiveTemplate
