import ReactiveTemplate.Proofs.Grammar.Acceptance

/-!
# The language of event actions

The closed grammar of what an event may do, as productions over tokens, and that the reader
accepts exactly this language. So an action depends on the tokens of its text only, and not
on their places.

* `Productions.IsAction`: calls, steps and assignments.
* `Grammar.eventAction_sound`, `Grammar.eventAction_complete`: what is read is what is derived.
* `parseEventAction_iff`: the actions of texts.
-/

namespace ReactiveTemplate

/-- The sign of a direction. -/
def Direction.sign : Direction → Sign
  | .increment => .increment
  | .decrement => .decrement

namespace Productions

/-- `name '(' ')' | path ('++' | '--') | path '=' operand` -/
inductive IsAction : List Token → EventAction → Prop
  | call (name : String) :
    IsAction [.identifier name, .sign .openParen, .sign .closeParen] (.call name)
  | step {ts : List Token} {p : Path} (direction : Direction) :
    IsPath ts p → IsAction (ts ++ [.sign direction.sign]) (.step p direction)
  | assign {ts us : List Token} {p : Path} {o : Operand} :
    IsPath ts p → IsOperand us o → IsAction (ts ++ .sign .assign :: us) (.assign p o)

theorem IsAction.ne_nil {ts : List Token} {a : EventAction} (h : IsAction ts a) : ts ≠ [] := by
  cases h <;> simp

end Productions

open Productions

namespace Grammar

variable {items mid rest : List (Located Token)} {ts : List Token} {p : Path}

theorem read_direction {direction : Direction} :
    (select direction?).read items = some (direction, rest) ↔
      Begins [.sign direction.sign] items rest := by
  rw [select, Rule.read_satisfy_eq_some]
  constructor
  · rintro ⟨t, ht, h⟩
    unfold direction? at ht
    split at ht <;> simp only [Option.some.injEq, reduceCtorEq] at ht <;> subst ht <;> exact h
  · exact fun h => ⟨_, by cases direction <;> rfl, h⟩

/-! ## Soundness -/

theorem call_sound {a : EventAction} (h : call.read items = some (a, rest)) :
    ∃ ts, IsAction ts a ∧ Begins ts items rest := by
  rw [call, Rule.read_bind_eq_some] at h
  obtain ⟨name, mid, hname, h⟩ := h
  rw [Rule.read_bind_eq_some] at h
  obtain ⟨⟨⟩, mid', hopen, h⟩ := h
  rw [Rule.read_bind_eq_some] at h
  obtain ⟨⟨⟩, mid'', hclose, h⟩ := h
  obtain ⟨rfl, rfl⟩ := Prod.mk.inj (Option.some.inj h)
  refine ⟨_, .call name, ?_⟩
  rw [begins_cons_iff]
  refine ⟨mid, read_identifier.1 hname, ?_⟩
  rw [begins_cons_iff]
  exact ⟨mid', read_sign.1 hopen, read_sign.1 hclose⟩

theorem step_sound {a : EventAction} (h : step.read items = some (a, rest)) :
    ∃ ts, IsAction ts a ∧ Begins ts items rest := by
  rw [step, Rule.read_bind_eq_some] at h
  obtain ⟨target, mid, htarget, h⟩ := h
  rw [Rule.read_bind_eq_some] at h
  obtain ⟨direction, mid', hdirection, h⟩ := h
  obtain ⟨rfl, rfl⟩ := Prod.mk.inj (Option.some.inj h)
  obtain ⟨ts, hts, hb⟩ := path_sound htarget
  exact ⟨_, .step direction hts, begins_append.2 ⟨mid, hb, read_direction.1 hdirection⟩⟩

theorem assignment_sound {a : EventAction} (h : assignment.read items = some (a, rest)) :
    ∃ ts, IsAction ts a ∧ Begins ts items rest := by
  rw [assignment, Rule.read_bind_eq_some] at h
  obtain ⟨target, mid, htarget, h⟩ := h
  rw [Rule.read_bind_eq_some] at h
  obtain ⟨⟨⟩, mid', hassign, h⟩ := h
  rw [Rule.read_bind_eq_some] at h
  obtain ⟨o, mid'', ho, h⟩ := h
  obtain ⟨rfl, rfl⟩ := Prod.mk.inj (Option.some.inj h)
  obtain ⟨ts, hts, hb⟩ := path_sound htarget
  obtain ⟨us, hus, hb'⟩ := operand_sound ho
  refine ⟨_, .assign hts hus, begins_append.2 ⟨mid, hb, ?_⟩⟩
  rw [begins_cons_iff]
  exact ⟨mid', read_sign.1 hassign, hb'⟩

theorem eventAction_iff {a : EventAction} :
    eventAction.read items = some (a, rest) ↔
      call.read items = some (a, rest) ∨
      call.read items = none ∧ (step.read items = some (a, rest) ∨
      step.read items = none ∧ assignment.read items = some (a, rest)) := by
  simp only [eventAction, Rule.choice, List.foldr_cons, List.foldr_nil, Rule.read_orElse_eq_some]

theorem eventAction_sound {a : EventAction} (h : eventAction.read items = some (a, rest)) :
    ∃ ts, IsAction ts a ∧ Begins ts items rest := by
  rcases eventAction_iff.1 h with hcall | ⟨-, hstep | ⟨-, hassign⟩⟩
  · exact call_sound hcall
  · exact step_sound hstep
  · exact assignment_sound hassign

/-! ## Completeness -/

/-- A path that no bracket follows is no call. -/
theorem call_eq_none (hp : IsPath ts p) (h : Begins ts items mid)
    (hmid : headItem? mid ≠ some (.sign .openParen)) : call.read items = none := by
  rw [isPath_iff.1 hp, begins_cons_iff] at h
  obtain ⟨mid₀, hroot, hbelow⟩ := h
  have hopen : headItem? mid₀ ≠ some (.sign .openParen) := by
    cases hnames : p.below with
    | nil =>
      rw [hnames, belowTokens, List.flatMap_nil, begins_nil] at hbelow
      exact hbelow ▸ hmid
    | cons name names =>
      rw [hnames, belowTokens, List.flatMap_cons, List.cons_append] at hbelow
      simp [headItem?_of_begins hbelow]
  rw [call, Rule.read_bind_of_eq_some (read_identifier.2 hroot), Rule.read_bind_eq_none]
  intro _ _ h'
  rw [read_sign_eq_none hopen] at h'
  cases h'

theorem step_eq_none (hp : IsPath ts p) (h : Begins ts items mid)
    (hdot : headItem? mid ≠ some (.sign .dot)) (hmid : (headItem? mid).bind direction? = none) :
    step.read items = none := by
  rw [step, Rule.read_bind_of_eq_some (path_complete hp h hdot), Rule.read_bind_eq_none]
  intro _ _ h'
  rw [read_select_eq_none hmid] at h'
  cases h'

/-- What is derived is read, up to the end. -/
theorem eventAction_complete {a : EventAction} (ha : IsAction ts a) (h : Begins ts items []) :
    eventAction.read items = some (a, []) := by
  rw [eventAction_iff]
  cases ha with
  | call name =>
    rw [begins_cons_iff] at h
    obtain ⟨mid, hname, h⟩ := h
    rw [begins_cons_iff] at h
    obtain ⟨mid', hopen, hclose⟩ := h
    left
    rw [call, Rule.read_bind_of_eq_some (read_identifier.2 hname),
      Rule.read_bind_of_eq_some (read_sign.2 hopen),
      Rule.read_bind_of_eq_some (read_sign.2 hclose)]
    rfl
  | step direction hp =>
    obtain ⟨mid, hb, hdirection⟩ := begins_append.1 h
    have hhead := headItem?_of_begins hdirection
    have hdot : headItem? mid ≠ some (.sign .dot) := by
      rw [hhead]
      cases direction <;> simp [Direction.sign]
    refine .inr ⟨call_eq_none hp hb ?_, .inl ?_⟩
    · rw [hhead]
      cases direction <;> simp [Direction.sign]
    · rw [step, Rule.read_bind_of_eq_some (path_complete hp hb hdot),
        Rule.read_bind_of_eq_some (read_direction.2 hdirection)]
      rfl
  | assign hp ho =>
    obtain ⟨mid, hb, h⟩ := begins_append.1 h
    have hhead := headItem?_of_begins h
    have hdot : headItem? mid ≠ some (.sign .dot) := by simp [hhead]
    rw [begins_cons_iff] at h
    obtain ⟨mid', hassign, hoperand⟩ := h
    refine .inr ⟨call_eq_none hp hb (by simp [hhead]), .inr ⟨step_eq_none hp hb hdot ?_, ?_⟩⟩
    · rw [hhead]
      rfl
    · have hend : headItem? ([] : List (Located Token)) ≠ some (.sign .dot) := by simp [headItem?]
      rw [assignment, Rule.read_bind_of_eq_some (path_complete hp hb hdot),
        Rule.read_bind_of_eq_some (read_sign.2 hassign),
        Rule.read_bind_of_eq_some (operand_complete ho hoperand hend)]
      rfl

theorem eventAction_exact : eventAction.Exact IsAction :=
  .of_sound_of_complete eventAction_sound eventAction_complete

end Grammar

/-- A text is an action exactly when its tokens are. -/
theorem parseEventAction_iff {source : String} {a : EventAction} :
    parseEventAction source = .ok a ↔
      ∃ tokens, Lexer.tokenize source = .ok tokens ∧ IsAction (tokens.map Located.item) a := by
  simp only [parseEventAction, parseWith_eq_ok_iff, Grammar.eventAction_exact.accepts]

end ReactiveTemplate
