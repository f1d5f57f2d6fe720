import ReactiveTemplate.Proofs.Evaluation.Leniency
import ReactiveTemplate.Proofs.Evaluation.Locks
import ReactiveTemplate.Proofs.State.Assignment
import ReactiveTemplate.Proofs.State.Evolution

/-!
# Evaluations that have a value

An evaluation fails at a container that is being modified, and does not end at an array that
contains itself. Where a scope leads to neither, every expression has a value, and the value has a
text.

* `Scope.Unlocked`, `resolvePath_of_unlocked`: where every path is read.
* `Scope.Loopless`, `loopless_of_resolvePath`: where no container that is read lies below itself.
* `Heap.Loopless.not_endless`: an array that a conversion comes to twice lies below itself.
* `CompiledExpression.exists_run`, `Tracked.Orderly.exists_run`: the value of an expression.
-/

namespace ReactiveTemplate

variable {h : Heap} {scope : Scope} {a b : Value}

/-! ## Unlocked scopes -/

/-- No container that a scope leads to is being modified. -/
def Scope.Unlocked (h : Heap) : Scope → Prop
  | .object id => h.UnlockedBelow (.object id)
  | .fields known => ∀ name value, known.get? name = some value → h.UnlockedBelow value
  | .item _ value parent => h.UnlockedBelow value ∧ parent.Unlocked h

namespace Heap

theorem UnlockedBelow.plain (h : Heap) (ha : a.container? = none) : h.UnlockedBelow a := by
  intro keys c hc
  rw [containerAlong?_of_container?_eq_none ha] at hc
  cases hc

theorem UnlockedBelow.isLocked (ha : h.UnlockedBelow a) {c : Container}
    (hc : a.container? = some c) : h.isLocked c = false :=
  ha [] c (by rw [containerAlong?_nil, hc])

theorem UnlockedBelow.property (ha : h.UnlockedBelow a) (walked : List String) (name : String) :
    ∃ found, ReactiveTemplate.property h walked a name = .ok found ∧ h.UnlockedBelow found := by
  cases a with
  | object id =>
    have hlocked : (h.object id).locked = false := ha.isLocked rfl
    refine ⟨((h.fields id).get? name).getD .undefined, ?_, ha.step rfl⟩
    rw [ReactiveTemplate.property, hlocked]
    rfl
  | array id =>
    have hlocked : (h.array id).locked = false := ha.isLocked rfl
    rw [ReactiveTemplate.property, hlocked]
    split <;> exact ⟨_, rfl, .plain h rfl⟩
  | text t =>
    rw [ReactiveTemplate.property]
    split <;> exact ⟨_, rfl, .plain h rfl⟩
  | undefined | null | bool | number | function => exact ⟨.undefined, rfl, .plain h rfl⟩

theorem UnlockedBelow.descend (names : List String) :
    ∀ {a : Value} (walked : List String), h.UnlockedBelow a →
      ∃ found, ReactiveTemplate.descend h walked a names = .ok found := by
  induction names with
  | nil => exact fun {a} _ _ => ⟨a, rfl⟩
  | cons name names ih =>
    intro a walked ha
    obtain ⟨next, hnext, hbelow⟩ := ha.property walked name
    rw [descend_cons, hnext]
    exact ih _ hbelow

end Heap

theorem Scope.Unlocked.lookup (hs : scope.Unlocked h) (name : String) :
    ∃ found, scope.lookup h name = .ok found ∧ ∀ value ∈ found, h.UnlockedBelow value := by
  induction scope with
  | object id =>
    have hu : h.UnlockedBelow (.object id) := hs
    have hlocked : (h.object id).locked = false := hu.isLocked rfl
    refine ⟨(h.fields id).get? name, by rw [Scope.lookup, hlocked]; rfl, fun value hvalue => ?_⟩
    have hstep : h.step (.object id) name = .ok value := by
      change Except.ok (((h.fields id).get? name).getD .undefined) = _
      rw [hvalue]
      rfl
    exact hu.step hstep
  | fields known => exact ⟨known.get? name, rfl, fun value hvalue => hs name value hvalue⟩
  | item itemName value parent ih =>
    rw [Scope.lookup]
    split
    · refine ⟨some value, rfl, fun other hother => ?_⟩
      obtain rfl := Option.some.inj hother
      exact hs.1
    · exact ih hs.2

/-- In an unlocked scope every path is read. -/
theorem resolvePath_of_unlocked (hs : scope.Unlocked h) (p : Path) :
    ∃ value, resolvePath h scope p = .ok value := by
  obtain ⟨found, hfound, hbelow⟩ := hs.lookup p.root
  rw [resolvePath, hfound]
  cases found with
  | none => exact ⟨.text "", rfl⟩
  | some start =>
    obtain ⟨value, hvalue⟩ := Heap.UnlockedBelow.descend p.below [p.root] (hbelow start rfl)
    refine ⟨value.orEmpty, ?_⟩
    change (descend h [p.root] start p.below >>= _) = _
    rw [hvalue]
    rfl

/-- In an unlocked scope an evaluation without a value has read an endless one. -/
theorem Stops.endless_of_unlocked {reads : List Path} {stop : NoValue}
    (hstops : Stops h scope reads stop) (hs : scope.Unlocked h) :
    stop = .endless ∧ Stops h scope reads .endless := by
  cases stop with
  | failed error =>
    obtain ⟨p, -, hp⟩ := hstops
    obtain ⟨value, hvalue⟩ := resolvePath_of_unlocked hs p
    cases hvalue.symm.trans hp
  | endless => exact ⟨rfl, hstops⟩

/-! ## Loopless scopes -/

/-- No container that a scope leads to lies below itself. -/
def Scope.Loopless (h : Heap) : Scope → Prop
  | .object id => h.Loopless (.object id)
  | .fields known => ∀ name value, known.get? name = some value → h.Loopless value
  | .item _ value parent => h.Loopless value ∧ parent.Loopless h

namespace Heap

theorem Loopless.plain (h : Heap) (ha : a.container? = none) : h.Loopless a := by
  intro keys below c hc
  rw [containerAlong?_of_container?_eq_none ha] at hc
  cases hc

theorem Loopless.at? (ha : h.Loopless a) {keys : List Key} (hb : h.at? a keys = some b) :
    h.Loopless b := by
  intro keys' below c hc
  rw [← containerAlong?_of_at? hb] at hc
  exact ha _ below c hc

theorem Loopless.property (ha : h.Loopless a) {walked : List String} {name : String}
    (hb : ReactiveTemplate.property h walked a name = .ok b) : h.Loopless b := by
  rcases property_eq_ok hb with ⟨c, hc, hchild⟩ | hplain
  · have hat : h.at? a [.field name] = some b := by
      rw [at?_singleton, hc, Option.bind_some, hchild]
    exact ha.at? hat
  · exact .plain h hplain

theorem Loopless.descend {names : List String} :
    ∀ {walked : List String} {a : Value}, h.Loopless a →
      ReactiveTemplate.descend h walked a names = .ok b → h.Loopless b := by
  induction names with
  | nil =>
    intro walked a ha hb
    exact Except.ok.inj hb ▸ ha
  | cons name names ih =>
    intro walked a ha hb
    rw [descend_cons] at hb
    obtain ⟨next, hnext, hrest⟩ := bind_eq_ok hb
    exact ih (ha.property hnext) hrest

/-- What lies below an item lies below the array. -/
theorem exists_containerAlong?_of_item {id : ArrayId} {item : Value} (hitem : item ∈ h.items id)
    {keys : List Key} {c : Container} (hc : h.containerAlong? item keys = some c) :
    ∃ key, h.containerAlong? (.array id) (key :: keys) = some c := by
  obtain ⟨index, hindex⟩ := List.getElem?_of_mem hitem
  have hat : h.at? (.array id) [.item index] = some item := by
    rw [at?_singleton]
    exact hindex
  exact ⟨.item index, (containerAlong?_of_at? hat).trans hc⟩

/-- An array that a conversion comes to lies below the value. -/
theorem Reaches.exists_keys {id : ArrayId} (hreaches : h.Reaches a id) :
    ∃ keys, h.containerAlong? a keys = some (.array id) := by
  induction hreaches with
  | here => exact ⟨[], rfl⟩
  | item _ hitem _ ih =>
    obtain ⟨keys, hkeys⟩ := ih
    obtain ⟨key, hkey⟩ := exists_containerAlong?_of_item hitem hkeys
    exact ⟨key :: keys, hkey⟩

/-- An array that a conversion comes to twice lies below itself. -/
theorem Loopless.not_endless (ha : h.Loopless a) : ¬ h.Endless a := by
  rintro ⟨id, hreaches, item, hitem, hback⟩
  obtain ⟨keys, hkeys⟩ := hreaches.exists_keys
  obtain ⟨back, hback⟩ := hback.exists_keys
  obtain ⟨key, hloop⟩ := exists_containerAlong?_of_item hitem hback
  exact absurd (ha keys _ (.array id) hkeys hloop) (List.cons_ne_nil key back)

end Heap

theorem Scope.Loopless.lookup (hs : scope.Loopless h) {name : String} {value : Value}
    (hvalue : scope.lookup h name = .ok (some value)) : h.Loopless value := by
  induction scope with
  | object id =>
    rw [Scope.lookup] at hvalue
    split at hvalue
    · cases hvalue
    · have hat : h.at? (.object id) [.field name] = some value := by
        rw [Heap.at?_singleton]
        exact Except.ok.inj hvalue
      exact Heap.Loopless.at? hs hat
  | fields known => exact hs name value (Except.ok.inj hvalue)
  | item itemName item parent ih =>
    rw [Scope.lookup] at hvalue
    split at hvalue
    · exact Option.some.inj (Except.ok.inj hvalue) ▸ hs.1
    · exact ih hs.2 hvalue

/-- No container that is read in a loopless scope lies below itself. -/
theorem loopless_of_resolvePath (hs : scope.Loopless h) {p : Path} {value : Value}
    (hread : resolvePath h scope p = .ok value) : h.Loopless value := by
  rw [resolvePath] at hread
  cases hlookup : scope.lookup h p.root with
  | error e =>
    rw [hlookup] at hread
    cases hread
  | ok found =>
    rw [hlookup] at hread
    cases found with
    | none => exact Except.ok.inj hread ▸ .plain h rfl
    | some start =>
      change (descend h [p.root] start p.below >>= _) = _ at hread
      obtain ⟨last, hlast, horEmpty⟩ := bind_eq_ok hread
      obtain rfl := Except.ok.inj horEmpty
      have hloopless := (hs.lookup hlookup).descend hlast
      cases last with
      | undefined => exact .plain h rfl
      | _ => exact hloopless

/-! ## Values of expressions -/

theorem container?_of_evalConcat {parts : List ConcatPart} {value : Value}
    (hvalue : evalConcat h scope parts = .ok value) : value.container? = none := by
  cases parts with
  | nil => exact Except.ok.inj hvalue ▸ rfl
  | cons first rest =>
    obtain ⟨found, -, hsum⟩ := bind_eq_ok hvalue
    obtain ⟨total, -, hwritten⟩ := bind_eq_ok hsum
    obtain ⟨⟨⟩, -, htext⟩ := bind_eq_ok hwritten
    exact Except.ok.inj htext ▸ rfl

/-- The value of an expression is what it reads, or no container. -/
theorem Expr.loopless_of_eval {e : Expr} {value : Value} (hs : scope.Loopless h)
    (hvalue : e.eval h scope = .ok value) : h.Loopless value := by
  induction e generalizing value with
  | literal l => exact Except.ok.inj hvalue ▸ .plain h (container?_value_literal l)
  | path p => exact loopless_of_resolvePath hs (attempt_eq_ok.1 hvalue)
  | compare left op right =>
    obtain ⟨first, -, hrest⟩ := bind_eq_ok hvalue
    obtain ⟨second, -, hrest⟩ := bind_eq_ok hrest
    obtain ⟨⟨⟩, -, hresult⟩ := bind_eq_ok hrest
    exact Except.ok.inj hresult ▸ .plain h rfl
  | arithmetic operation => exact .plain h (Arithmetic.container?_of_eval hvalue)
  | concat parts => exact .plain h (container?_of_evalConcat hvalue)
  | logical left op right ihleft ihright =>
    obtain ⟨first, hfirst, hrest⟩ := bind_eq_ok hvalue
    have hleft := ihleft hfirst
    cases op <;> cases htruthy : first.isTruthy <;> rw [htruthy] at hrest
    · exact Except.ok.inj hrest ▸ hleft
    · exact ihright hrest
    · exact ihright hrest
    · exact Except.ok.inj hrest ▸ hleft
  | not p =>
    obtain ⟨first, -, hresult⟩ := bind_eq_ok hvalue
    exact Except.ok.inj hresult ▸ .plain h rfl
  | ternary condition thenValue elseValue =>
    obtain ⟨first, -, hresult⟩ := bind_eq_ok hvalue
    refine Except.ok.inj hresult ▸ .plain h ?_
    split <;> exact container?_value_literal _

/-- Where a scope leads to no container that is being modified or that lies below itself, every
    expression has a value, and the value has a text. -/
theorem CompiledExpression.exists_run (hs : scope.Unlocked h) (hl : scope.Loopless h)
    (compiled : CompiledExpression) :
    ∃ value, compiled.run h scope = .ok value ∧ value.HasText h := by
  obtain ⟨source, outcome⟩ := compiled
  cases outcome with
  | error e => exact ⟨.text "", rfl, Value.hasText_iff.2 (Heap.not_endless_plain rfl)⟩
  | ok e =>
    cases heval : e.eval h scope with
    | ok value =>
      exact ⟨value, heval, Value.hasText_iff.2 (Expr.loopless_of_eval hl heval).not_endless⟩
    | error stop =>
      obtain ⟨-, p, -, value, hread, hendless⟩ :=
        (Expr.eval_eq_error heval).endless_of_unlocked hs
      exact absurd hendless (loopless_of_resolvePath hl hread).not_endless

/-- So it is in a state that is not being modified and has every container on one path only. -/
theorem Tracked.Orderly.exists_run {s : State} (hs : s.Orderly) (compiled : CompiledExpression) :
    ∃ value, compiled.run s.heap s.scope = .ok value ∧ value.HasText s.heap := by
  have hunlocked : s.scope.Unlocked s.heap := fun _ c _ => hs.invariant.atRest.unlocked c
  have hloopless : s.scope.Loopless s.heap := hs.unshared.loopless
  exact compiled.exists_run hunlocked hloopless

end ReactiveTemplate
