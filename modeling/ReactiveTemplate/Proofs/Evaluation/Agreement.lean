import ReactiveTemplate.Evaluation.Compiled
import ReactiveTemplate.Proofs.State.Change
import ReactiveTemplate.Proofs.Value.Texts

/-!
# Evaluation in two scopes

An expression has the same value in two scopes, which may look into different heaps, if each path
it reads does, and all below what the paths read is the same. Over one heap the latter goes without
saying.

* `ReadsAlike`: a path reads the same in two scopes; `ReadsSame`: the same scope in two heaps.
* `ShowsAlike`: a value is the same text to two heaps, and so all its conversions are.
* `Expr.eval_of_readsAlike`: the value of an expression.
* `ReadsAlike.item`, `ReadsAlike.outside`: reads of an item and past it.
-/

namespace ReactiveTemplate

/-- A path reads the same in two heaps, and so does everything below what it reads. -/
structure ReadsSame (h h' : Heap) (scope : Scope) (p : Path) : Prop where
  value : resolvePath h scope p = resolvePath h' scope p
  below : ∀ found, resolvePath h scope p = .ok found → h.AgreeBelow h' found

/-- A path reads the same in a scope over one heap and in a scope over another, and so does
    everything below what it reads. -/
structure ReadsAlike (h h' : Heap) (scope scope' : Scope) (p : Path) : Prop where
  value : resolvePath h scope p = resolvePath h' scope' p
  below : ∀ found, resolvePath h scope p = .ok found → h.AgreeBelow h' found

variable {h h' : Heap} {scope scope' : Scope} {a b : Value}

/-- Over one heap it is enough that the path reads the same. -/
theorem ReadsAlike.of_resolvePath {p : Path}
    (hp : resolvePath h scope p = resolvePath h scope' p) : ReadsAlike h h scope scope' p :=
  ⟨hp, fun found _ => Heap.AgreeBelow.refl h found⟩

theorem ReadsSame.alike {p : Path} (hp : ReadsSame h h' scope p) :
    ReadsAlike h h' scope scope p :=
  ⟨hp.value, hp.below⟩

theorem ReadsSame.refl (h : Heap) (scope : Scope) (p : Path) : ReadsSame h h scope p :=
  ⟨rfl, fun found _ => Heap.AgreeBelow.refl h found⟩

theorem ReadsSame.trans {h'' : Heap} {p : Path} (hr : ReadsSame h h' scope p)
    (hr' : ReadsSame h' h'' scope p) : ReadsSame h h'' scope p := by
  refine ⟨hr.value.trans hr'.value, fun found hfound => ?_⟩
  exact (hr.below found hfound).trans (hr'.below found (hr.value ▸ hfound))

theorem agreeBelow_orEmpty (ha : h.AgreeBelow h' a) : h.AgreeBelow h' a.orEmpty := by
  cases a with
  | undefined => exact Heap.agreeBelow_of_container?_eq_none h h' rfl
  | _ => exact ha

/-- Paths read the same where all below the root object is the same. -/
theorem ReadsSame.of_agreeBelow {id : ObjectId} (hb : h.AgreeBelow h' (.object id)) (p : Path) :
    ReadsSame h h' (.object id) p := by
  obtain ⟨hsame, hbelow⟩ := hb.descend p.segments []
  refine ⟨?_, fun found hfound => ?_⟩
  · rw [resolvePath_object, resolvePath_object, hsame]
  · rw [resolvePath_object] at hfound
    cases hdescend : descend h [] (.object id) p.segments with
    | error e =>
      rw [hdescend] at hfound
      cases hfound
    | ok value =>
      rw [hdescend] at hfound
      obtain rfl := Except.ok.inj hfound
      exact agreeBelow_orEmpty (hbelow value hdescend)

/-! ## Conversions -/

theorem Heap.textContent_eq (h : Heap) (ha : a.isNullish = false) :
    a.textContent h = a.display h := by
  rw [Value.textContent, Value.textContent?_snapshot, ha]
  rfl

/-- A value is the same text to two heaps, or to none of them a text. -/
def ShowsAlike (h h' : Heap) (value : Value) : Prop := value.display? h = value.display? h'

theorem Heap.AgreeBelow.showsAlike (hb : h.AgreeBelow h' a) : ShowsAlike h h' a := by
  rw [ShowsAlike, Value.display?, Value.display?, hb.snapshot]

/-- A value that refers to no container is the same text everywhere. -/
theorem ShowsAlike.plain (h h' : Heap) (ha : a.container? = none) : ShowsAlike h h' a :=
  (Heap.agreeBelow_of_container?_eq_none h h' ha).showsAlike

namespace ShowsAlike

theorem display (ha : ShowsAlike h h' a) : a.display h = a.display h' := by
  rw [Value.display, Value.display, ha]

theorem hasText (ha : ShowsAlike h h' a) : a.HasText h ↔ a.HasText h' := by
  rw [Value.HasText, Value.HasText, ha]

theorem toNumber (ha : ShowsAlike h h' a) : a.toNumber h = a.toNumber h' := by
  cases a with
  | array id => rw [Value.toNumber, Value.toNumber, ha.display]
  | _ => rfl

theorem toPrimitive (ha : ShowsAlike h h' a) : a.toPrimitive h = a.toPrimitive h' := by
  rw [Value.toPrimitive, Value.toPrimitive, ha.display]

theorem textContent (ha : ShowsAlike h h' a) : a.textContent h = a.textContent h' := by
  rw [Value.textContent, Value.textContent, Value.textContent?_snapshot,
    Value.textContent?_snapshot, ha]

end ShowsAlike

/-! ## Steps -/

section Steps

variable {α : Type} {r : Except EvalError α} {found : α} {stop : NoValue} {values : List Value}

theorem attempt_eq_ok : attempt r = .ok found ↔ r = .ok found := by
  cases r <;> simp [attempt, Except.mapError]

theorem attempt_eq_error : attempt r = .error stop ↔ ∃ error, r = .error error ∧ stop = .failed error := by
  cases r <;> simp [attempt, Except.mapError, eq_comm]

/-- Values are not written out if one of them is endless. -/
theorem writeOut_eq_error :
    writeOut h values = .error stop ↔ stop = .endless ∧ ∃ value ∈ values, h.Endless value := by
  rw [writeOut]
  split
  · next htexts =>
    refine ⟨nofun, ?_⟩
    rintro ⟨-, value, hmem, hendless⟩
    exact absurd hendless (Value.hasText_iff.1 (htexts value hmem))
  · next htexts =>
    simp only [Value.hasText_iff, not_forall, not_not, exists_prop] at htexts
    simp [htexts, eq_comm]

theorem writeOut_eq_ok : writeOut h values = .ok () ↔ ∀ value ∈ values, value.HasText h := by
  rw [writeOut]
  split <;> simp_all

end Steps

/-- Values that are the same texts can be written out in both heaps or in none. -/
theorem writeOut_of_showsAlike {values : List Value} (hvalues : ∀ value ∈ values, ShowsAlike h h' value) :
    writeOut h values = writeOut h' values := by
  have htexts : (∀ value ∈ values, value.HasText h) ↔ ∀ value ∈ values, value.HasText h' :=
    forall₂_congr fun value hvalue => (hvalues value hvalue).hasText
  simp only [writeOut, htexts]

theorem Heap.AgreeBelow.textContent (hb : h.AgreeBelow h' a) :
    a.textContent h = a.textContent h' :=
  hb.showsAlike.textContent

theorem container?_toPrimitive (h : Heap) (value : Value) :
    (value.toPrimitive h).container? = none := by
  cases value <;> rfl

theorem add_of_showsAlike (ha : ShowsAlike h h' a) (hb : ShowsAlike h h' b) :
    a.add h b = a.add h' b := by
  have ha' : ShowsAlike h h' (a.toPrimitive h) := .plain h h' (container?_toPrimitive h a)
  have hb' : ShowsAlike h h' (b.toPrimitive h) := .plain h h' (container?_toPrimitive h b)
  simp only [Value.add, ← ha.toPrimitive, ← hb.toPrimitive, ha'.toNumber, hb'.toNumber, ha'.display,
    hb'.display]

theorem container?_add (h : Heap) (a b : Value) : (a.add h b).container? = none := by
  simp only [Value.add]
  split <;> rfl

theorem compare?_of_showsAlike (ha : ShowsAlike h h' a) (hb : ShowsAlike h h' b) :
    a.compare? h b = a.compare? h' b := by
  have ha' : ShowsAlike h h' (a.toPrimitive h) := .plain h h' (container?_toPrimitive h a)
  have hb' : ShowsAlike h h' (b.toPrimitive h) := .plain h h' (container?_toPrimitive h b)
  simp only [Value.compare?, ← ha.toPrimitive, ← hb.toPrimitive]
  generalize a.toPrimitive h = left at ha' ⊢
  generalize b.toPrimitive h = right at hb' ⊢
  cases left <;> cases right <;> simp only [ha'.toNumber, hb'.toNumber]

theorem showsAlike_conditionAsNumber (ha : ShowsAlike h h' a) :
    ShowsAlike h h' a.conditionAsNumber := by
  cases a with
  | bool b => exact .plain h h' rfl
  | _ => exact ha

theorem looseEquals_of_showsAlike (ha : ShowsAlike h h' a) (hb : ShowsAlike h h' b) :
    a.looseEquals h b = a.looseEquals h' b := by
  have ha' := showsAlike_conditionAsNumber ha
  have hb' := showsAlike_conditionAsNumber hb
  simp only [Value.looseEquals, ha'.toPrimitive, hb'.toPrimitive]

theorem holds_of_agreeBelow (op : CompareOp) (ha : h.AgreeBelow h' a) (hb : h.AgreeBelow h' b) :
    op.holds h a b = op.holds h' a b := by
  cases op <;> simp only [CompareOp.holds, compare?_of_showsAlike ha.showsAlike hb.showsAlike,
    looseEquals_of_showsAlike ha.showsAlike hb.showsAlike]

/-! ## Expressions -/

/-- Two evaluations have the same outcome, and what they give is the same below. -/
structure SameOutcome {ε : Type} (h h' : Heap) (r r' : Except ε Value) : Prop where
  outcome : r = r'
  below : ∀ value, r = .ok value → h.AgreeBelow h' value

theorem ReadsAlike.sameOutcome {p : Path} (hp : ReadsAlike h h' scope scope' p) :
    SameOutcome h h' (resolvePath h scope p) (resolvePath h' scope' p) :=
  ⟨hp.value, hp.below⟩

namespace SameOutcome

variable {ε : Type} {r r' : Except ε Value}

/-- A value without containers is the same outcome in both. -/
theorem plain {value : Value} (hvalue : value.container? = none) :
    SameOutcome h h' (.ok value : Except ε Value) (.ok value) := by
  refine ⟨rfl, ?_⟩
  rintro _ ⟨⟩
  exact Heap.agreeBelow_of_container?_eq_none h h' hvalue

/-- Steps that go on from the same outcome. -/
theorem bind {next next' : Value → Except ε Value} (hr : SameOutcome h h' r r')
    (hnext : ∀ value, r = .ok value → SameOutcome h h' (next value) (next' value)) :
    SameOutcome h h' (r >>= next) (r' >>= next') := by
  obtain ⟨rfl, -⟩ := hr
  cases r with
  | error e => exact ⟨rfl, nofun⟩
  | ok value => exact hnext value rfl

/-- Reads of the same outcome are steps of the same outcome. -/
theorem attempt {r r' : Except EvalError Value} (hr : SameOutcome h h' r r') :
    SameOutcome h h' (attempt r) (attempt r') := by
  obtain ⟨rfl, hbelow⟩ := hr
  refine ⟨rfl, ?_⟩
  cases r with
  | error e => exact nofun
  | ok value =>
    rintro _ ⟨⟩
    exact hbelow value rfl

/-- Steps that go on once the same texts are written out. -/
theorem writeOut {values : List Value} {r r' : Except NoValue Value}
    (hvalues : ∀ value ∈ values, ShowsAlike h h' value) (hr : SameOutcome h h' r r') :
    SameOutcome h h' (writeOut h values >>= fun _ => r) (writeOut h' values >>= fun _ => r') := by
  rw [writeOut_of_showsAlike hvalues]
  cases ReactiveTemplate.writeOut h' values with
  | error e => exact ⟨rfl, nofun⟩
  | ok => exact hr

end SameOutcome

theorem ReadsAlike.attempt {p : Path} (hp : ReadsAlike h h' scope scope' p) :
    SameOutcome h h' (attempt (resolvePath h scope p)) (attempt (resolvePath h' scope' p)) :=
  hp.sameOutcome.attempt

theorem container?_value_literal (l : Literal) : l.value.container? = none := by
  cases l <;> rfl

theorem Operand.eval_of_readsAlike {o : Operand} (ho : ∀ p ∈ o.reads, ReadsAlike h h' scope scope' p) :
    SameOutcome h h' (o.eval h scope) (o.eval h' scope') := by
  cases o with
  | literal l => exact SameOutcome.plain (container?_value_literal l)
  | path p => exact (ho p (by simp [reads])).sameOutcome

theorem Arithmetic.eval_of_readsAlike {operation : Arithmetic}
    (ho : ReadsAlike h h' scope scope' operation.path) :
    SameOutcome h h' (operation.eval h scope) (operation.eval h' scope') := by
  refine ho.attempt.bind fun value hvalue => ?_
  have hb := ho.attempt.below value hvalue
  have hnumber : ShowsAlike h h' (.number operation.number) := .plain h h' rfl
  refine .writeOut (by simpa using hb.showsAlike) ?_
  cases operation.op with
  | add =>
    change SameOutcome h h' (.ok (value.add h _)) (.ok (value.add h' _))
    rw [← add_of_showsAlike hb.showsAlike hnumber]
    exact SameOutcome.plain (container?_add h _ _)
  | subtract =>
    change SameOutcome h h' (.ok (.number (value.toNumber h - _))) _
    rw [hb.showsAlike.toNumber]
    exact SameOutcome.plain rfl
  | multiply =>
    change SameOutcome h h' (.ok (.number (value.toNumber h * _))) _
    rw [hb.showsAlike.toNumber]
    exact SameOutcome.plain rfl
  | divide =>
    change SameOutcome h h' (.ok (.number (value.toNumber h / _))) _
    rw [hb.showsAlike.toNumber]
    exact SameOutcome.plain rfl

theorem ConcatPart.eval_of_readsAlike {part : ConcatPart}
    (hp : ∀ p ∈ part.reads, ReadsAlike h h' scope scope' p) :
    SameOutcome h h' (part.eval h scope) (part.eval h' scope') := by
  cases part with
  | literal l => exact SameOutcome.plain (container?_value_literal l)
  | path p => exact (hp p (by simp [reads])).attempt
  | arithmetic operation => exact Arithmetic.eval_of_readsAlike (hp _ (by simp [reads]))

theorem agreeBelow_orBlank (ha : h.AgreeBelow h' a) : h.AgreeBelow h' a.orBlank := by
  rw [Value.orBlank]
  split
  · exact Heap.agreeBelow_of_container?_eq_none h h' rfl
  · exact ha

theorem sumParts_of_readsAlike {parts : List ConcatPart}
    (hparts : ∀ part ∈ parts, ∀ p ∈ part.reads, ReadsAlike h h' scope scope' p) :
    ∀ {total : Value}, h.AgreeBelow h' total →
      SameOutcome h h' (sumParts h scope total parts) (sumParts h' scope' total parts) := by
  induction parts with
  | nil =>
    intro total htotal
    refine ⟨rfl, ?_⟩
    rintro _ ⟨⟩
    exact htotal
  | cons part parts ih =>
    intro total htotal
    have hpart := ConcatPart.eval_of_readsAlike (hparts part (by simp))
    refine hpart.bind fun value hvalue => ?_
    have horBlank := agreeBelow_orBlank (hpart.below value hvalue)
    refine .writeOut (by simpa using ⟨htotal.showsAlike, horBlank.showsAlike⟩) ?_
    rw [add_of_showsAlike htotal.showsAlike horBlank.showsAlike]
    exact ih (fun p hp => hparts p (by simp [hp]))
      (Heap.agreeBelow_of_container?_eq_none h h' (container?_add h' _ _))

theorem evalConcat_of_readsAlike {parts : List ConcatPart}
    (hparts : ∀ part ∈ parts, ∀ p ∈ part.reads, ReadsAlike h h' scope scope' p) :
    SameOutcome h h' (evalConcat h scope parts) (evalConcat h' scope' parts) := by
  cases parts with
  | nil => exact SameOutcome.plain rfl
  | cons first rest =>
    have hfirst := ConcatPart.eval_of_readsAlike (hparts first (by simp))
    refine hfirst.bind fun value hvalue => ?_
    have hrest := sumParts_of_readsAlike (fun part hpart => hparts part (List.mem_cons_of_mem _ hpart))
      (agreeBelow_orBlank (hfirst.below value hvalue))
    refine hrest.bind fun total htotal => ?_
    have htotal := hrest.below total htotal
    refine .writeOut (by simpa using htotal.showsAlike) ?_
    rw [htotal.textContent]
    exact SameOutcome.plain rfl

/-- A comparison turns no other values into texts than those it compares. -/
theorem mem_displayed {op : CompareOp} {shown : Value} (hshown : shown ∈ op.displayed a b) :
    shown = a ∨ shown = b := by
  cases op with
  | strictEqual | strictNotEqual => cases hshown
  | looseEqual | looseNotEqual =>
    simp only [CompareOp.displayed] at hshown
    split at hshown
    · cases hshown
    · split at hshown
      · simpa using hshown
      · cases hshown
  | less | greater | lessOrEqual | greaterOrEqual => simpa [CompareOp.displayed] using hshown

/-- An expression reads only its paths. -/
theorem Expr.eval_of_readsAlike {e : Expr} (he : ∀ p ∈ e.reads, ReadsAlike h h' scope scope' p) :
    SameOutcome h h' (e.eval h scope) (e.eval h' scope') := by
  induction e with
  | literal l => exact SameOutcome.plain (container?_value_literal l)
  | path p => exact (he p (by simp [reads])).attempt
  | compare left op right =>
    have hleft := (he left (by simp [reads])).attempt
    have hright :=
      (Operand.eval_of_readsAlike (o := right) fun p hp => he p (by simp [reads, hp])).attempt
    refine hleft.bind fun value hvalue => ?_
    refine hright.bind fun other hother => ?_
    refine .writeOut (fun shown hshown => ?_) ?_
    · rcases mem_displayed hshown with rfl | rfl
      · exact (hleft.below shown hvalue).showsAlike
      · exact (hright.below shown hother).showsAlike
    rw [holds_of_agreeBelow op (hleft.below value hvalue) (hright.below other hother)]
    exact SameOutcome.plain rfl
  | arithmetic operation => exact Arithmetic.eval_of_readsAlike (he _ (by simp [reads]))
  | concat parts =>
    refine evalConcat_of_readsAlike fun part hpart p hp => he p ?_
    rw [reads, List.mem_flatMap]
    exact ⟨part, hpart, hp⟩
  | logical left op right ihleft ihright =>
    have hleft := ihleft fun p hp => he p (by simp [reads, hp])
    have hright := ihright fun p hp => he p (by simp [reads, hp])
    refine hleft.bind fun value hvalue => ?_
    have hsame : SameOutcome h h' (.ok value : Except NoValue Value) (.ok value) := by
      refine ⟨rfl, ?_⟩
      rintro _ ⟨⟩
      exact hleft.below value hvalue
    cases op <;> cases value.isTruthy
    · exact hsame
    · exact hright
    · exact hright
    · exact hsame
  | not p =>
    exact (he p (by simp [reads])).attempt.bind fun value _ => SameOutcome.plain rfl
  | ternary condition thenValue elseValue =>
    refine (he condition (by simp [reads])).attempt.bind fun value _ => ?_
    cases value.isTruthy
    · exact SameOutcome.plain (container?_value_literal elseValue)
    · exact SameOutcome.plain (container?_value_literal thenValue)

/-! ## Compiled expressions -/

theorem Expr.mem_distinct {p : Path} {paths : List Path} :
    ∀ (seen : List Path), p ∈ paths → p ∈ seen ∨ p ∈ distinct seen paths := by
  induction paths with
  | nil => simp
  | cons first rest ih =>
    intro seen hp
    rw [distinct]
    rcases List.mem_cons.1 hp with rfl | hp
    · by_cases hseen : p ∈ seen
      · exact .inl hseen
      · rw [if_neg hseen]
        exact .inr (by simp)
    · split
      · exact ih seen hp
      · rcases ih (first :: seen) hp with hmem | hmem
        · rcases List.mem_cons.1 hmem with rfl | hmem
          · exact .inr (by simp)
          · exact .inl hmem
        · exact .inr (by simp [hmem])

theorem Expr.mem_paths_of_mem_reads {e : Expr} {p : Path} (hp : p ∈ e.reads) : p ∈ e.paths := by
  rcases mem_distinct [] hp with h | h
  · cases h
  · exact h

/-- A compiled expression reads only its paths. -/
theorem CompiledExpression.run_of_readsAlike {compiled : CompiledExpression}
    (hpaths : ∀ p ∈ compiled.paths, ReadsAlike h h' scope scope' p) :
    SameOutcome h h' (compiled.run h scope) (compiled.run h' scope') := by
  obtain ⟨source, outcome⟩ := compiled
  cases outcome with
  | error e => exact SameOutcome.plain rfl
  | ok e => exact Expr.eval_of_readsAlike fun p hp => hpaths p (Expr.mem_paths_of_mem_reads hp)

/-- The value of an expression whose paths read the same, and what is below it. -/
theorem CompiledExpression.evaluate_of_readsAlike {e : CompiledExpression}
    (hpaths : ∀ p ∈ e.paths, ReadsAlike h h' scope scope' p) :
    e.evaluate h scope = e.evaluate h' scope' ∧ h.AgreeBelow h' (e.evaluate h scope) := by
  obtain ⟨houtcome, hbelow⟩ := run_of_readsAlike hpaths
  rw [evaluate, evaluate, eval?, eval?, ← houtcome]
  refine ⟨rfl, ?_⟩
  cases hvalue : e.run h scope with
  | error stop => cases stop <;> exact Heap.agreeBelow_of_container?_eq_none h h' rfl
  | ok value => exact hbelow value hvalue

/-! ## Items -/

/-- A path that starts at an item is walked below the item. -/
theorem resolvePath_item (h : Heap) (scope : Scope) (value : Value) {item : String} {p : Path}
    (hp : p.root = item) : resolvePath h (.item item value scope) p =
      (descend h [p.root] value p.below).map Value.orEmpty := by
  rw [resolvePath, Scope.lookup, if_pos hp]
  change (descend h [p.root] value p.below >>= fun a => pure a.orEmpty) = _
  cases descend h [p.root] value p.below <;> rfl

/-- A path that does not start at the item is read in the scope behind it. -/
theorem resolvePath_outside (h : Heap) (scope : Scope) (value : Value) {item : String} {p : Path}
    (hp : p.root ≠ item) :
    resolvePath h (.item item value scope) p = resolvePath h scope p := by
  rw [resolvePath, Scope.lookup, if_neg hp, resolvePath]

/-- A path that starts at an item, below which all is the same. -/
theorem ReadsAlike.item {item : String} {value : Value} (hb : h.AgreeBelow h' value) {p : Path}
    (hp : p.root = item) :
    ReadsAlike h h' (.item item value scope) (.item item value scope') p := by
  obtain ⟨hsame, hbelow⟩ := hb.descend p.below [p.root]
  refine ⟨?_, fun found hfound => ?_⟩
  · rw [resolvePath_item _ _ _ hp, resolvePath_item _ _ _ hp, hsame]
  · rw [resolvePath_item _ _ _ hp] at hfound
    cases hdescend : descend h [p.root] value p.below with
    | error e =>
      rw [hdescend] at hfound
      cases hfound
    | ok below =>
      rw [hdescend] at hfound
      obtain rfl := Except.ok.inj hfound
      exact agreeBelow_orEmpty (hbelow below hdescend)

/-- A path that does not start at the item. -/
theorem ReadsAlike.outside {item : String} {value : Value} {p : Path} (hp : p.root ≠ item)
    (hr : ReadsAlike h h' scope scope' p) :
    ReadsAlike h h' (.item item value scope) (.item item value scope') p := by
  refine ⟨?_, fun found hfound => ?_⟩
  · rw [resolvePath_outside _ _ _ hp, resolvePath_outside _ _ _ hp, hr.value]
  · rw [resolvePath_outside _ _ _ hp] at hfound
    exact hr.below found hfound

/-- The value of an expression for an item, where the paths that do not start at the item read the
    same. -/
theorem CompiledExpression.run_item_of_readsAlike {compiled : CompiledExpression} {item : String}
    {value : Value} (hb : h.AgreeBelow h' value)
    (hpaths : ∀ p ∈ compiled.paths, p.root ≠ item → ReadsAlike h h' scope scope' p) :
    SameOutcome h h' (compiled.run h (.item item value scope))
      (compiled.run h' (.item item value scope')) := by
  refine run_of_readsAlike fun p hp => ?_
  by_cases hroot : p.root = item
  · exact .item hb hroot
  · exact .outside hroot (hpaths p hp hroot)

end ReactiveTemplate
