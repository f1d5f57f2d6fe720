import ReactiveTemplate.Proofs.Grammar.Actions

/-!
# The language of clauses

The closed grammar of the clause of a repeated element, and that its reader accepts exactly this
language. The word between the item and the list is an identifier like any other, so it may name the
item or stand in the path as well: what counts is its place. Beside it the language of actions, whose
three productions all begin with identifiers and never derive the same tokens.

* `Productions.IsClause`: an item, the word, and a path.
* `Grammar.forClause_sound`, `Grammar.forClause_complete`: what is read is what is derived.
* `parseForClause_iff`: the clauses of texts.
* `Productions.IsClause.not_isAction`: a clause is never an action.
* `clause_and_action_grammars_exact`: what the readers of clauses and actions accept.
-/

namespace ReactiveTemplate

namespace Productions

/-- `name 'in' path` -/
inductive IsClause : List Token → ForClause → Prop
  | clause {ts : List Token} {p : Path} (item : String) :
    IsPath ts p → IsClause (.identifier item :: .identifier "in" :: ts) ⟨item, p⟩

theorem isClause_iff {ts : List Token} {item : String} {list : Path} :
    IsClause ts ⟨item, list⟩ ↔
      ∃ us, IsPath us list ∧ ts = .identifier item :: .identifier "in" :: us := by
  constructor
  · rintro ⟨_, hp⟩
    exact ⟨_, hp, rfl⟩
  · rintro ⟨us, hp, rfl⟩
    exact .clause item hp

/-! ## The three actions -/

variable {ts : List Token} {p : Path}

theorem isAction_call {name : String} :
    IsAction ts (.call name) ↔ ts = [.identifier name, .sign .openParen, .sign .closeParen] := by
  constructor
  · rintro ⟨⟩
    rfl
  · rintro rfl
    exact .call name

theorem isAction_step {direction : Direction} :
    IsAction ts (.step p direction) ↔ ∃ us, IsPath us p ∧ ts = us ++ [.sign direction.sign] := by
  constructor
  · rintro ⟨⟩
    exact ⟨_, ‹_›, rfl⟩
  · rintro ⟨us, hp, rfl⟩
    exact .step direction hp

theorem isAction_assign {o : Operand} :
    IsAction ts (.assign p o) ↔
      ∃ us vs, IsPath us p ∧ IsOperand vs o ∧ ts = us ++ .sign .assign :: vs := by
  constructor
  · rintro ⟨⟩
    exact ⟨_, _, ‹_›, ‹_›, rfl⟩
  · rintro ⟨us, vs, hp, ho, rfl⟩
    exact .assign hp ho

/-- Behind the first segment of a path comes a sign, if one comes behind the path. -/
theorem IsPath.sign_second (hp : IsPath ts p) (s : Sign) (us : List Token) :
    ∃ s' vs, ts ++ .sign s :: us = .identifier p.root :: .sign s' :: vs := by
  rw [Grammar.isPath_iff.1 hp]
  cases p.below with
  | nil => exact ⟨s, us, rfl⟩
  | cons name names => exact ⟨.dot, _, rfl⟩

/-- The second token of an action is a sign. -/
theorem IsAction.sign_second {a : EventAction} (h : IsAction ts a) :
    ∃ name s us, ts = .identifier name :: .sign s :: us := by
  cases h with
  | call name => exact ⟨name, .openParen, _, rfl⟩
  | step direction hp =>
    obtain ⟨s, us, heq⟩ := hp.sign_second direction.sign []
    exact ⟨_, s, us, heq⟩
  | assign hp _ =>
    obtain ⟨s, us, heq⟩ := hp.sign_second .assign _
    exact ⟨_, s, us, heq⟩

/-- The second token of a clause is an identifier, so a clause is no action. -/
theorem IsClause.not_isAction {c : ForClause} {a : EventAction} (hc : IsClause ts c) :
    ¬ IsAction ts a := by
  intro ha
  obtain ⟨name, s, us, heq⟩ := ha.sign_second
  cases hc with
  | clause item hp =>
    have hsecond := (List.cons.inj (List.cons.inj heq).2).1
    cases hsecond

end Productions

open Productions

namespace Grammar

variable {items rest : List (Located Token)} {ts : List Token}

theorem read_keywordIn :
    keywordIn.read items = some ((), rest) ↔ Begins [.identifier "in"] items rest := by
  rw [keywordIn, select, Rule.read_satisfy_eq_some]
  constructor
  · rintro ⟨t, ht, h⟩
    split at ht
    · next name =>
      split at ht
      · next hname => exact hname ▸ h
      · cases ht
    · cases ht
  · exact fun h => ⟨_, rfl, h⟩

/-! ## Soundness and completeness -/

theorem forClause_sound {c : ForClause} (h : forClause.read items = some (c, rest)) :
    ∃ ts, IsClause ts c ∧ Begins ts items rest := by
  rw [forClause, Rule.read_bind_eq_some] at h
  obtain ⟨item, mid, hitem, h⟩ := h
  rw [Rule.read_bind_eq_some] at h
  obtain ⟨⟨⟩, mid', hin, h⟩ := h
  rw [Rule.read_bind_eq_some] at h
  obtain ⟨list, mid'', hlist, h⟩ := h
  obtain ⟨rfl, rfl⟩ := Prod.mk.inj (Option.some.inj h)
  obtain ⟨ts, hts, hb⟩ := path_sound hlist
  refine ⟨_, .clause item hts, ?_⟩
  rw [begins_cons_iff]
  refine ⟨mid, read_identifier.1 hitem, ?_⟩
  rw [begins_cons_iff]
  exact ⟨mid', read_keywordIn.1 hin, hb⟩

/-- What is derived is read, up to the last segment of the list. -/
theorem forClause_complete {c : ForClause} (hc : IsClause ts c) (h : Begins ts items rest)
    (hrest : headItem? rest ≠ some (.sign .dot)) : forClause.read items = some (c, rest) := by
  cases hc with
  | clause item hp =>
    rw [begins_cons_iff] at h
    obtain ⟨mid, hitem, h⟩ := h
    rw [begins_cons_iff] at h
    obtain ⟨mid', hin, hlist⟩ := h
    rw [forClause, Rule.read_bind_of_eq_some (read_identifier.2 hitem),
      Rule.read_bind_of_eq_some (read_keywordIn.2 hin),
      Rule.read_bind_of_eq_some (path_complete hp hlist hrest)]
    rfl

theorem forClause_exact : forClause.Exact IsClause :=
  .of_sound_of_complete forClause_sound fun hc h => forClause_complete hc h (by simp [headItem?])

end Grammar

/-- A text is a clause exactly when its tokens are. -/
theorem parseForClause_iff {source : String} {c : ForClause} :
    parseForClause source = .ok c ↔
      ∃ tokens, Lexer.tokenize source = .ok tokens ∧ IsClause (tokens.map Located.item) c := by
  simp only [parseForClause, parseWith_eq_ok_iff, Grammar.forClause_exact.accepts]

/-- The readers of clauses and of event actions accept exactly their sentences. A clause is an
    identifier, the word and a path, an action is a call, a path and a sign of a step, or a path,
    the sign of an assignment and an operand. All other tokens are rejected, and none have two
    readings, by one reader or by both. -/
theorem clause_and_action_grammars_exact :
    Grammar.forClause.Exact IsClause ∧ Grammar.eventAction.Exact IsAction ∧
    (∀ (items : List (Located Token)) (item : String) (list : Path),
      Grammar.forClause.parse items = .ok ⟨item, list⟩ ↔ ∃ us, IsPath us list ∧
        items.map Located.item = .identifier item :: .identifier "in" :: us) ∧
    (∀ (items : List (Located Token)) (name : String),
      Grammar.eventAction.parse items = .ok (.call name) ↔
        items.map Located.item = [.identifier name, .sign .openParen, .sign .closeParen]) ∧
    (∀ (items : List (Located Token)) (p : Path) (direction : Direction),
      Grammar.eventAction.parse items = .ok (.step p direction) ↔ ∃ us, IsPath us p ∧
        items.map Located.item = us ++ [.sign direction.sign]) ∧
    (∀ (items : List (Located Token)) (p : Path) (o : Operand),
      Grammar.eventAction.parse items = .ok (.assign p o) ↔ ∃ us vs, IsPath us p ∧ IsOperand vs o ∧
        items.map Located.item = us ++ .sign .assign :: vs) ∧
    ∀ (ts : List Token) (c : ForClause) (a : EventAction), IsClause ts c → ¬ IsAction ts a := by
  have hclause := Grammar.forClause_exact
  have haction := Grammar.eventAction_exact
  refine ⟨hclause, haction, ?_, ?_, ?_, ?_, fun _ _ _ hc => hc.not_isAction⟩
  · exact fun items _ _ => (hclause.accepts items _).trans isClause_iff
  · exact fun items _ => (haction.accepts items _).trans isAction_call
  · exact fun items _ _ => (haction.accepts items _).trans isAction_step
  · exact fun items _ _ => (haction.accepts items _).trans isAction_assign

/-- The word may name the item and stand in the path. -/
example : Grammar.forClause.parse
    [⟨.identifier "in", 0, 2⟩, ⟨.identifier "in", 3, 5⟩, ⟨.identifier "in", 6, 8⟩,
      ⟨.sign .dot, 8, 9⟩, ⟨.identifier "in", 9, 11⟩] = .ok ⟨"in", ⟨"in", ["in"]⟩⟩ := by
  rfl

end ReactiveTemplate
