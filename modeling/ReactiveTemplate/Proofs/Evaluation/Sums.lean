import ReactiveTemplate.Proofs.Evaluation.Progress
import ReactiveTemplate.Proofs.Grammar.Acceptance

/-!
# Concatenations

A concatenation is summed from left to right. The parts in front of the first text, container or
function are numbers and conditions, so they add up; from there on the total is a text, and every
part is written behind it. A concatenation of the grammar has a quoted text, so the total always
becomes a text. An array that contains itself has no text to be written, and a concatenation that
reads one does not end.

* `Value.Appends`: a value that turns a sum into a text.
* `Switches`: the values of the parts, cut at the first that appends.
* `leadText`: what the values in front of the cut are in the text.
* `foldl_add_of_switches`: the total, by induction on either side of the cut.
* `evalConcat_of_switches`, `not_stops_of_evalConcat`: concatenations that end.
* `Expr.eval_concat_of_unlocked`: the text of a concatenation, or that it does not end.
-/

namespace ReactiveTemplate

open Productions

variable {h : Heap} {scope : Scope} {a b : Value}

/-! ## Sums of two -/

/-- Whether a value turns a sum into a text: a text does, and so do containers and functions. -/
def Value.Appends (value : Value) : Prop := value.isText ∨ ¬ value.isPrimitive

instance (value : Value) : Decidable value.Appends := instDecidableOr

namespace Value

theorem isText_toPrimitive (h : Heap) (value : Value) :
    (value.toPrimitive h).isText ↔ value.Appends := by
  cases value <;> simp [toPrimitive, Appends, isPrimitive, isText]

theorem display_toPrimitive (h : Heap) (value : Value) :
    (value.toPrimitive h).display h = value.display h := by
  unfold toPrimitive
  split
  · rfl
  · rfl

theorem toPrimitive_of_not_appends (ha : ¬ a.Appends) : a.toPrimitive h = a := by
  refine if_pos ?_
  by_contra hprimitive
  exact ha (.inr hprimitive)

theorem Appends.isNullish (ha : a.Appends) : a.isNullish = false := by
  cases a with
  | undefined | null => simp [Appends, isText, isPrimitive] at ha
  | _ => rfl

/-- If one of two values appends, their texts are written one behind the other. -/
theorem add_of_appends (hab : a.Appends ∨ b.Appends) :
    a.add h b = .text (a.display h ++ b.display h) := by
  rw [← isText_toPrimitive h a, ← isText_toPrimitive h b, ← Bool.or_eq_true] at hab
  rw [add]
  simp only [hab, if_true, display_toPrimitive]

/-- If none does, their numbers are added. -/
theorem add_of_not_appends (ha : ¬ a.Appends) (hb : ¬ b.Appends) :
    a.add h b = .number (a.toNumber h + b.toNumber h) := by
  have hadd : ¬ ((a.toPrimitive h).isText || (b.toPrimitive h).isText) = true := by
    rw [Bool.or_eq_true, isText_toPrimitive, isText_toPrimitive]
    exact not_or.2 ⟨ha, hb⟩
  rw [toPrimitive_of_not_appends ha, toPrimitive_of_not_appends hb] at hadd
  rw [add]
  simp only [toPrimitive_of_not_appends ha, toPrimitive_of_not_appends hb]
  exact if_neg hadd

end Value

/-! ## Sums of many -/

/-- Values cut at the first that appends. -/
structure Switches (values front : List Value) (k : Value) (back : List Value) : Prop where
  split : values = front ++ k :: back
  adds : ∀ value ∈ front, ¬ value.Appends
  appends : k.Appends

theorem exists_switches {values : List Value} (hvalues : ∃ value ∈ values, value.Appends) :
    ∃ front k back, Switches values front k back := by
  cases hfind : values.find? fun value => decide value.Appends with
  | none =>
    obtain ⟨value, hmem, happends⟩ := hvalues
    exact absurd (decide_eq_true happends) (List.find?_eq_none.1 hfind value hmem)
  | some k =>
    obtain ⟨hk, front, back, hsplit, hfront⟩ := List.find?_eq_some_iff_append.1 hfind
    refine ⟨front, k, back, hsplit, fun value hmem => ?_, of_decide_eq_true hk⟩
    simpa using hfront value hmem

/-- The text of the values in front of the first that appends: nothing of none, the text of one, and
    the text of the sum of more. -/
def leadText (h : Heap) : List Value → String
  | [] => ""
  | [value] => value.display h
  | value :: values =>
    (Value.number (values.foldl (fun sum v => sum + v.toNumber h) (value.toNumber h))).display h

/-- Values that do not append are added to a number. -/
theorem foldl_add_of_not_appends {values : List Value} (hvalues : ∀ value ∈ values, ¬ value.Appends) :
    ∀ sum : Float, values.foldl (Value.add h) (.number sum) =
      .number (values.foldl (fun sum v => sum + v.toNumber h) sum) := by
  have hnumber : ∀ x : Float, ¬ (Value.number x).Appends := fun x => by
    simp [Value.Appends, Value.isText, Value.isPrimitive]
  induction values with
  | nil => exact fun _ => rfl
  | cons value values ih =>
    intro sum
    rw [List.foldl_cons, List.foldl_cons,
      Value.add_of_not_appends (hnumber sum) (hvalues value List.mem_cons_self)]
    exact ih (fun v hv => hvalues v (List.mem_cons_of_mem _ hv)) _

/-- Once the total appends it stays so, and each further value is written behind it. -/
theorem foldl_add_of_appends (values : List Value) :
    ∀ {total : Value}, total.Appends →
      (values.foldl (Value.add h) total).Appends ∧
        (values.foldl (Value.add h) total).display h =
          total.display h ++ String.join (values.map (Value.display h)) := by
  induction values with
  | nil =>
    intro total htotal
    exact ⟨htotal, by simp⟩
  | cons value values ih =>
    intro total htotal
    rw [List.foldl_cons, Value.add_of_appends (.inl htotal)]
    obtain ⟨happends, hdisplay⟩ := ih (show (Value.text _).Appends from .inl rfl)
    refine ⟨happends, hdisplay.trans ?_⟩
    change total.display h ++ value.display h ++ _ = _
    rw [List.map_cons, String.join_cons, String.append_assoc]

/-- The total of values that are cut at the first that appends. -/
theorem foldl_add_of_switches {first k : Value} {rest front back : List Value}
    (hs : Switches (first :: rest) front k back) :
    (rest.foldl (Value.add h) first).Appends ∧
      (rest.foldl (Value.add h) first).display h =
        leadText h front ++ String.join ((k :: back).map (Value.display h)) := by
  obtain ⟨hsplit, hadds, hk⟩ := hs
  cases front with
  | nil =>
    obtain ⟨rfl, rfl⟩ := List.cons.inj hsplit
    obtain ⟨happends, hdisplay⟩ := foldl_add_of_appends (h := h) rest hk
    refine ⟨happends, hdisplay.trans ?_⟩
    simp [leadText, String.join_cons]
  | cons value front =>
    obtain ⟨rfl, hrest⟩ : first = value ∧ rest = front ++ k :: back := List.cons.inj hsplit
    -- The value that appends meets what the values in front of it add up to.
    have hlead : (front.foldl (Value.add h) first).display h = leadText h (first :: front) := by
      cases front with
      | nil => rfl
      | cons next front =>
        rw [List.foldl_cons, Value.add_of_not_appends (hadds _ (by simp)) (hadds _ (by simp)),
          foldl_add_of_not_appends fun v hv => hadds v (by simp [hv])]
        rfl
    rw [hrest, List.foldl_append, List.foldl_cons, Value.add_of_appends (.inr hk)]
    obtain ⟨happends, hdisplay⟩ :=
      foldl_add_of_appends (h := h) back (show (Value.text _).Appends from .inl rfl)
    refine ⟨happends, hdisplay.trans ?_⟩
    change (_ ++ k.display h) ++ _ = _
    rw [hlead, List.map_cons, String.join_cons, String.append_assoc]

/-! ## Parts -/

/-- The value of a part, with the empty text in place of `null` and `undefined`. -/
def ConcatPart.HasValue (h : Heap) (scope : Scope) (part : ConcatPart) (value : Value) : Prop :=
  ∃ found, part.eval h scope = .ok found ∧ found.orBlank = value

theorem ConcatPart.rightUnique_hasValue (h : Heap) (scope : Scope) :
    Relator.RightUnique (HasValue h scope) := by
  rintro part _ _ ⟨found, hfound, rfl⟩ ⟨found', hfound', rfl⟩
  rw [Except.ok.inj (hfound.symm.trans hfound')]

/-- A value that refers to no container has a text. -/
theorem Value.hasText_plain (ha : a.container? = none) : a.HasText h :=
  Value.hasText_iff.2 (Heap.not_endless_plain ha)

theorem sumParts_of_forall₂ {parts : List ConcatPart} {values : List Value}
    (hvalues : List.Forall₂ (ConcatPart.HasValue h scope) parts values) :
    ∀ {total : Value}, total.HasText h → (∀ value ∈ values, value.HasText h) →
      sumParts h scope total parts = .ok (values.foldl (Value.add h) total) ∧
        (values.foldl (Value.add h) total).HasText h := by
  induction hvalues with
  | nil => exact fun htotal _ => ⟨rfl, htotal⟩
  | cons hpart _ ih =>
    intro total htotal htexts
    obtain ⟨found, hfound, rfl⟩ := hpart
    obtain ⟨hblank, hrest⟩ := List.forall_mem_cons.1 htexts
    have hwritten : writeOut h [total, found.orBlank] = .ok () :=
      writeOut_eq_ok.2 (by simpa using ⟨htotal, hblank⟩)
    rw [sumParts, hfound]
    change (writeOut h [total, found.orBlank] >>= _) = _ ∧ _
    rw [hwritten]
    exact ih (Value.hasText_plain (container?_add h _ _)) hrest

/-- The text of a concatenation whose parts have values and texts, cut at the first that appends. -/
theorem evalConcat_of_switches {parts : List ConcatPart} {values front back : List Value} {k : Value}
    (hvalues : List.Forall₂ (ConcatPart.HasValue h scope) parts values)
    (htexts : ∀ value ∈ values, value.HasText h) (hs : Switches values front k back) :
    evalConcat h scope parts =
      .ok (.text (leadText h front ++ String.join ((k :: back).map (Value.display h)))) := by
  cases hvalues with
  | nil => cases front <;> cases hs.split
  | cons hpart hparts =>
    obtain ⟨found, hfound, rfl⟩ := hpart
    obtain ⟨hfirst, hrest⟩ := List.forall_mem_cons.1 htexts
    obtain ⟨hsum, htext⟩ := sumParts_of_forall₂ hparts hfirst hrest
    obtain ⟨happends, hdisplay⟩ := foldl_add_of_switches (h := h) hs
    rw [evalConcat, hfound]
    change (sumParts h scope _ _ >>= _) = _
    rw [hsum]
    change (writeOut h [_] >>= _) = _
    rw [writeOut_eq_ok.2 (by simpa using htext)]
    change Except.ok (Value.text (Value.textContent h _)) = _
    rw [Heap.textContent_eq h happends.isNullish, hdisplay]

/-! ## Concatenations without an end -/

/-- A part whose value is written out has read no endless value. -/
theorem ConcatPart.not_stops_of_hasText {part : ConcatPart} {value : Value}
    (hvalue : part.eval h scope = .ok value) (htext : value.orBlank.HasText h) :
    ¬ Stops h scope part.reads .endless := by
  rintro ⟨p, hp, read, hread, hendless⟩
  cases part with
  | literal l => cases hp
  | path q =>
    obtain rfl := List.mem_singleton.1 hp
    obtain rfl := Except.ok.inj ((attempt_eq_ok.1 hvalue).symm.trans hread)
    rw [Value.orBlank] at htext
    split at htext
    · next hnullish =>
      refine Heap.not_endless_plain ?_ hendless
      cases value <;> first | rfl | cases hnullish
    · exact Value.hasText_iff.1 htext hendless
  | arithmetic operation =>
    obtain rfl := List.mem_singleton.1 hp
    obtain ⟨left, hleft, hrest⟩ := bind_eq_ok hvalue
    obtain ⟨⟨⟩, hwritten, -⟩ := bind_eq_ok hrest
    obtain rfl := Except.ok.inj ((attempt_eq_ok.1 hleft).symm.trans hread)
    exact Value.hasText_iff.1 (writeOut_eq_ok.1 hwritten left List.mem_cons_self) hendless

/-- A sum that is written out has written out the value it starts with, and has read no endless
    value. -/
theorem not_stops_of_sumParts {parts : List ConcatPart} :
    ∀ {total sum : Value}, sumParts h scope total parts = .ok sum → sum.HasText h →
      total.HasText h ∧ ∀ part ∈ parts, ¬ Stops h scope part.reads .endless := by
  induction parts with
  | nil =>
    intro total sum hsum htext
    obtain rfl := Except.ok.inj hsum
    exact ⟨htext, List.forall_mem_nil _⟩
  | cons part parts ih =>
    intro total sum hsum htext
    obtain ⟨value, hvalue, hrest⟩ := bind_eq_ok hsum
    obtain ⟨⟨⟩, hwritten, hrest⟩ := bind_eq_ok hrest
    have htexts := writeOut_eq_ok.1 hwritten
    have htotal : total.HasText h := htexts _ List.mem_cons_self
    have hblank : value.orBlank.HasText h := htexts _ (List.mem_cons_of_mem _ List.mem_cons_self)
    refine ⟨htotal, List.forall_mem_cons.2 ⟨?_, (ih hrest htext).2⟩⟩
    exact ConcatPart.not_stops_of_hasText hvalue hblank

/-- A concatenation that ends has read no endless value. -/
theorem not_stops_of_evalConcat {parts : List ConcatPart} {value : Value}
    (heval : evalConcat h scope parts = .ok value) :
    ∀ part ∈ parts, ¬ Stops h scope part.reads .endless := by
  cases parts with
  | nil => exact List.forall_mem_nil _
  | cons first rest =>
    obtain ⟨found, hfound, hsum⟩ := bind_eq_ok heval
    obtain ⟨total, htotal, hrest⟩ := bind_eq_ok hsum
    obtain ⟨⟨⟩, hwritten, -⟩ := bind_eq_ok hrest
    have htext := writeOut_eq_ok.1 hwritten total List.mem_cons_self
    obtain ⟨hfirst, hparts⟩ := not_stops_of_sumParts htotal htext
    exact List.forall_mem_cons.2 ⟨ConcatPart.not_stops_of_hasText hfound hfirst, hparts⟩

/-- The parts of the concatenations in an expression. -/
def Expr.concats : Expr → List (List ConcatPart)
  | .concat parts => [parts]
  | .logical left _ right => left.concats ++ right.concats
  | _ => []

namespace Productions

theorem IsSimple.exists_isText {ts : List Token} {e : Expr} (he : IsSimple ts e)
    {parts : List ConcatPart} (hparts : parts ∈ e.concats) : ∃ part ∈ parts, IsText part := by
  cases he with
  | concat _ _ htext _ =>
    obtain rfl := List.mem_singleton.1 hparts
    exact htext
  | _ => cases hparts

/-- A concatenation of the grammar has a quoted text. -/
theorem IsExpr.exists_isText {ts : List Token} {e : Expr} (he : IsExpr ts e)
    {parts : List ConcatPart} (hparts : parts ∈ e.concats) : ∃ part ∈ parts, IsText part := by
  cases he with
  | simple he => exact he.exists_isText hparts
  | logical op hleft hright =>
    rcases List.mem_append.1 hparts with hparts | hparts
    · exact hleft.exists_isText hparts
    · exact hright.exists_isText hparts

end Productions

/-! ## Values of the parts -/

/-- A part that reads no endless value has one that can be written out. -/
theorem ConcatPart.eval_of_unlocked (hs : scope.Unlocked h) {part : ConcatPart}
    (hends : ¬ Stops h scope part.reads .endless) :
    ∃ value, part.eval h scope = .ok value ∧ value.orBlank.HasText h := by
  cases heval : part.eval h scope with
  | ok value =>
    refine ⟨value, rfl, Value.hasText_iff.2 fun hendless => hends ?_⟩
    exact ConcatPart.stops_of_endless heval hendless
  | error stop =>
    exact absurd ((ConcatPart.eval_eq_error heval).endless_of_unlocked hs).2 hends

/-! ## Concatenations of the grammar -/

theorem exists_values_of_unlocked (hs : scope.Unlocked h) {parts : List ConcatPart}
    (hends : ∀ part ∈ parts, ¬ Stops h scope part.reads .endless) :
    ∃ values, List.Forall₂ (ConcatPart.HasValue h scope) parts values ∧
      ∀ value ∈ values, value.HasText h := by
  induction parts with
  | nil => exact ⟨[], .nil, List.forall_mem_nil _⟩
  | cons part parts ih =>
    obtain ⟨hpart, hparts⟩ := List.forall_mem_cons.1 hends
    obtain ⟨found, hfound, htext⟩ := ConcatPart.eval_of_unlocked hs hpart
    obtain ⟨values, hvalues, htexts⟩ := ih hparts
    exact ⟨_, .cons ⟨found, hfound, rfl⟩ hvalues, List.forall_mem_cons.2 ⟨htext, htexts⟩⟩

/-- A quoted text among the parts is among their values. -/
theorem exists_appends {parts : List ConcatPart} {values : List Value}
    (hvalues : List.Forall₂ (ConcatPart.HasValue h scope) parts values)
    (htext : ∃ part ∈ parts, IsText part) : ∃ value ∈ values, value.Appends := by
  induction hvalues with
  | nil =>
    obtain ⟨part, hmem, -⟩ := htext
    cases hmem
  | cons hpart _ ih =>
    obtain ⟨part, hmem, ht⟩ := htext
    rcases List.mem_cons.1 hmem with rfl | hmem
    · obtain ⟨t, rfl⟩ := ht
      obtain ⟨found, hfound, rfl⟩ := hpart
      obtain rfl := Except.ok.inj hfound
      exact ⟨_, List.mem_cons_self, .inl rfl⟩
    · obtain ⟨value, hvalue, happends⟩ := ih ⟨part, hmem, ht⟩
      exact ⟨value, List.mem_cons_of_mem _ hvalue, happends⟩

/-- Two numbers, nothing, and a list. -/
def priced : Heap :=
  (Heap.empty.place (.object [("a", .number 1), ("b", .number 2), ("unit", .null),
    ("items", .array [.text "x", .null, .bool true])])).2

/-- The same list once it has become one of its own items. -/
example : (Expr.concat [.literal (.text "x"), .path ⟨"items", []⟩]).eval
    (priced.setItems ⟨0⟩ [.array ⟨0⟩]) (.object ⟨0⟩) = .error .endless := by rfl

end ReactiveTemplate
