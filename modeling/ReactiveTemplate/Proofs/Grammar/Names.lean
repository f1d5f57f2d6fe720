import ReactiveTemplate.Proofs.Grammar.Clauses
import ReactiveTemplate.Proofs.State.Paths

/-!
# The names of parsed texts

The segments of the paths in a parsed text are identifiers of the lexer, so they hold no
dots and are not empty.

* `Lexer.isIdentifier_of_tokenize`: the identifiers among the tokens of a text.
* `Path.grammatical_of_parseExpression`, `Path.grammatical_of_parseForClause`: the paths of
  expressions and clauses.
* `EventAction.grammatical_of_parse`: the target of an event action.
-/

namespace ReactiveTemplate

open Productions

namespace Rule

variable {σ α : Type}

/-- What a repetition reads, its rule reads somewhere. -/
theorem exists_read_of_mem_readUpTo {p : Rule σ α} {a : α} (n : Nat) :
    ∀ {items : List (Located σ)}, a ∈ (readUpTo p n items).1 →
      ∃ items' rest, p.read items' = some (a, rest) := by
  induction n with
  | zero =>
    intro items ha
    cases ha
  | succ n ih =>
    intro items ha
    rw [readUpTo] at ha
    cases hread : p.read items with
    | none =>
      rw [hread] at ha
      cases ha
    | some r =>
      rw [hread] at ha
      rcases List.mem_cons.1 ha with rfl | ha
      · exact ⟨items, r.2, hread⟩
      · exact ih ha

theorem exists_read_of_mem_repeated {p : Rule σ α} {a : α} {as : List α}
    {items rest : List (Located σ)} (h : (repeated p).read items = some (as, rest)) (ha : a ∈ as) :
    ∃ items' rest', p.read items' = some (a, rest') := by
  have hread : readUpTo p (items.length + 1) items = (as, rest) := Option.some.inj h
  have hmem : a ∈ (readUpTo p (items.length + 1) items).1 := hread ▸ ha
  exact exists_read_of_mem_readUpTo _ hmem

theorem exists_read_of_choice {rules : List (Rule σ α)} {last : Rule σ α}
    {items : List (Located σ)} {r : α × List (Located σ)}
    (h : (choice rules last).read items = some r) : ∃ p ∈ rules ++ [last], p.read items = some r := by
  induction rules with
  | nil => exact ⟨last, by simp, h⟩
  | cons first rules ih =>
    rcases read_orElse_eq_some.1 h with hfirst | ⟨-, hrest⟩
    · exact ⟨first, by simp, hfirst⟩
    · obtain ⟨p, hp, hread⟩ := ih hrest
      exact ⟨p, by simp at hp ⊢; exact .inr hp, hread⟩

end Rule

namespace Lexer

variable {items rest : List (Located Char)}

theorem read_charOf {e e' : Expectation} {member : Char → Bool} {c : Char}
    (h : (charOf e e' member).read items = some (c, rest)) : member c = true := by
  obtain ⟨d, hd, -⟩ := Rule.read_satisfy_eq_some.1 h
  split at hd
  · next hmember => exact Option.some.inj hd ▸ hmember
  · cases hd

theorem isIdentifier_of_read_identifier {name : String}
    (h : identifier.read items = some (.identifier name, rest)) : IsIdentifier name := by
  rw [identifier, Rule.read_bind_eq_some] at h
  obtain ⟨first, mid, hfirst, h⟩ := h
  rw [Rule.read_bind_eq_some] at h
  obtain ⟨others, mid', hothers, h⟩ := h
  have htoken := (Prod.mk.inj (Option.some.inj h)).1
  have hname : String.ofList (first :: others) = name := by
    unfold wordToken at htoken
    split at htoken
    · cases htoken
    · split at htoken
      · cases htoken
      · exact Token.identifier.inj htoken
  refine ⟨first, others, ?_, read_charOf hfirst, List.all_eq_true.2 fun c hc => ?_⟩
  · rw [← hname, String.toList_ofList]
  · obtain ⟨items', rest', hc⟩ := Rule.exists_read_of_mem_repeated hothers hc
    exact read_charOf hc

theorem read_sign_ne_identifier {s : Sign} {name : String} :
    (sign s).read items ≠ some (.identifier name, rest) := by
  intro h
  rw [sign, Rule.read_bind_eq_some] at h
  obtain ⟨_, mid, -, h⟩ := h
  cases (Prod.mk.inj (Option.some.inj h)).1

theorem read_number_ne_identifier {name : String} :
    number.read items ≠ some (.identifier name, rest) := by
  intro h
  rw [number, Rule.read_bind_eq_some] at h
  obtain ⟨whole, mid, -, h⟩ := h
  rw [Rule.read_bind_eq_some] at h
  obtain ⟨part, mid', -, h⟩ := h
  cases (Prod.mk.inj (Option.some.inj h)).1

theorem read_text_ne_identifier {name : String} :
    text.read items ≠ some (.identifier name, rest) := by
  intro h
  rw [text, Rule.read_bind_eq_some] at h
  obtain ⟨_, mid, -, h⟩ := h
  rw [Rule.read_bind_eq_some] at h
  obtain ⟨body, mid', -, h⟩ := h
  rw [Rule.read_bind_eq_some] at h
  obtain ⟨_, mid'', -, h⟩ := h
  cases (Prod.mk.inj (Option.some.inj h)).1

theorem isIdentifier_of_read_token {name : String}
    (h : token.read items = some (.identifier name, rest)) : IsIdentifier name := by
  obtain ⟨p, hp, hread⟩ := Rule.exists_read_of_choice h
  have hsigns : ∀ signs : List Sign, p ∈ signs.map sign → IsIdentifier name := by
    intro signs hmem
    obtain ⟨s, -, rfl⟩ := List.mem_map.1 hmem
    exact absurd hread read_sign_ne_identifier
  simp only [List.mem_append, List.mem_cons, List.not_mem_nil, or_false] at hp
  rcases hp with ((hp | rfl | rfl | rfl) | hp) | rfl
  · exact hsigns _ hp
  · exact absurd hread read_number_ne_identifier
  · exact absurd hread read_text_ne_identifier
  · exact isIdentifier_of_read_identifier hread
  · exact hsigns _ hp
  · exact absurd hread read_sign_ne_identifier

theorem isIdentifier_of_read_paddedToken {i : Located Token} {name : String}
    (h : paddedToken.read items = some (i, rest)) (hi : i.item = .identifier name) :
    IsIdentifier name := by
  rw [paddedToken, Rule.read_bind_eq_some] at h
  obtain ⟨_, mid, -, h⟩ := h
  rw [Rule.read_bind_eq_some] at h
  obtain ⟨result, mid', hresult, h⟩ := h
  rw [Rule.read_bind_eq_some] at h
  obtain ⟨_, mid'', -, h⟩ := h
  obtain rfl := (Prod.mk.inj (Option.some.inj h)).1
  simp only [Rule.located] at hresult
  split at hresult
  · next t rest' hread =>
    obtain ⟨rfl, rfl⟩ := Prod.mk.inj (Option.some.inj hresult)
    obtain rfl : t = .identifier name := hi
    exact isIdentifier_of_read_token hread
  · cases hresult

/-- The identifiers among the tokens of a text. -/
theorem isIdentifier_of_tokenize {source : String} {result : List (Located Token)} {name : String}
    (h : tokenize source = .ok result) (hname : Token.identifier name ∈ result.map Located.item) :
    IsIdentifier name := by
  obtain ⟨i, hi, hitem⟩ := List.mem_map.1 hname
  unfold tokenize at h
  split at h
  · next found hparse =>
    obtain rfl := Except.ok.inj h
    obtain ⟨items', rest', hread⟩ :=
      Rule.exists_read_of_mem_repeated (Rule.parse_eq_ok_iff.1 hparse) hi
    exact isIdentifier_of_read_paddedToken hread hitem
  · cases h

end Lexer

/-- The path that an action writes at. -/
def EventAction.target? : EventAction → Option Path
  | .call _ => none
  | .step target _ | .assign target _ => some target

namespace Productions

variable {ts us : List Token} {P : String → Prop}

/-- The segments of a path are identifiers among its tokens. -/
theorem IsPath.segments_mem {p : Path} (hp : IsPath ts p) :
    ∀ name ∈ p.segments, Token.identifier name ∈ ts := by
  rw [Grammar.isPath_iff.1 hp]
  intro name hname
  rcases List.mem_cons.1 hname with rfl | hname
  · simp
  · refine List.mem_cons_of_mem _ (List.mem_flatMap.2 ⟨name, hname, by simp⟩)

theorem IsOperand.segments_mem {o : Operand} (ho : IsOperand ts o) :
    ∀ p ∈ o.reads, ∀ name ∈ p.segments, Token.identifier name ∈ ts := by
  cases ho with
  | literal => nofun
  | path hp =>
    intro p hmem
    rw [List.mem_singleton.1 hmem]
    exact hp.segments_mem

theorem IsArithmetic.segments_mem {a : Arithmetic} (ha : IsArithmetic ts a) :
    ∀ name ∈ a.path.segments, Token.identifier name ∈ ts := by
  intro name hname
  cases ha with
  | bare op x hp => exact List.mem_append_left _ (hp.segments_mem name hname)
  | parenthesized op x hp =>
    exact List.mem_append_left _ (List.mem_cons_of_mem _ (hp.segments_mem name hname))

theorem IsPart.segments_mem {part : ConcatPart} (hpart : IsPart ts part) :
    ∀ p ∈ part.reads, ∀ name ∈ p.segments, Token.identifier name ∈ ts := by
  cases hpart with
  | literal => nofun
  | path hp =>
    intro p hmem
    rw [List.mem_singleton.1 hmem]
    exact hp.segments_mem
  | arithmetic ha =>
    intro p hmem
    rw [List.mem_singleton.1 hmem]
    exact ha.segments_mem

theorem IsChain.segments_mem {parts : List ConcatPart} (hparts : IsChain ts parts) :
    ∀ part ∈ parts, ∀ p ∈ part.reads, ∀ name ∈ p.segments, Token.identifier name ∈ ts := by
  induction hparts with
  | single hpart =>
    intro part hmem
    rw [List.mem_singleton.1 hmem]
    exact hpart.segments_mem
  | cons hpart _ ih =>
    intro part hmem p hp name hname
    rcases List.mem_cons.1 hmem with rfl | hmem
    · exact List.mem_append_left _ (hpart.segments_mem p hp name hname)
    · exact List.mem_append_right _ (List.mem_cons_of_mem _ (ih part hmem p hp name hname))

theorem IsSimple.segments_mem {e : Expr} (he : IsSimple ts e) :
    ∀ p ∈ e.reads, ∀ name ∈ p.segments, Token.identifier name ∈ ts := by
  intro p hmem name hname
  cases he with
  | path hp =>
    rw [List.mem_singleton.1 hmem] at hname
    exact hp.segments_mem name hname
  | literal => cases hmem
  | compare op hp ho =>
    rcases List.mem_cons.1 hmem with rfl | hmem
    · exact List.mem_append_left _ (hp.segments_mem name hname)
    · exact List.mem_append_right _ (List.mem_cons_of_mem _ (ho.segments_mem p hmem name hname))
  | arithmetic ha =>
    rw [List.mem_singleton.1 hmem] at hname
    exact ha.segments_mem name hname
  | concat hparts =>
    obtain ⟨part, hpart, hp⟩ := List.mem_flatMap.1 hmem
    exact hparts.segments_mem part hpart p hp name hname
  | not hp =>
    rw [List.mem_singleton.1 hmem] at hname
    exact List.mem_cons_of_mem _ (hp.segments_mem name hname)
  | ternary hp =>
    rw [List.mem_singleton.1 hmem] at hname
    exact List.mem_append_left _ (hp.segments_mem name hname)

theorem IsExpr.segments_mem {e : Expr} (he : IsExpr ts e) :
    ∀ p ∈ e.reads, ∀ name ∈ p.segments, Token.identifier name ∈ ts := by
  cases he with
  | simple hsimple => exact hsimple.segments_mem
  | logical op hleft hright =>
    intro p hmem name hname
    rcases List.mem_append.1 hmem with hmem | hmem
    · exact List.mem_append_left _ (hleft.segments_mem p hmem name hname)
    · exact List.mem_append_right _
        (List.mem_cons_of_mem _ (hright.segments_mem p hmem name hname))

theorem IsAction.segments_mem {action : EventAction} (h : IsAction ts action) :
    ∀ target, action.target? = some target →
      ∀ name ∈ target.segments, Token.identifier name ∈ ts := by
  cases h with
  | call => nofun
  | step direction hp =>
    rintro _ ⟨⟩ name hname
    exact List.mem_append_left _ (hp.segments_mem name hname)
  | assign hp ho =>
    rintro _ ⟨⟩ name hname
    exact List.mem_append_left _ (hp.segments_mem name hname)

theorem IsClause.segments_mem {clause : ForClause} (h : IsClause ts clause) :
    ∀ name ∈ clause.list.segments, Token.identifier name ∈ ts := by
  cases h with
  | clause item hp =>
    intro name hname
    exact List.mem_cons_of_mem _ (List.mem_cons_of_mem _ (hp.segments_mem name hname))

end Productions

/-- The paths of a parsed expression. -/
theorem Path.grammatical_of_parseExpression {source : String} {e : Expr}
    (h : parseExpression source = .ok e) : ∀ p ∈ e.reads, p.Grammatical := by
  obtain ⟨tokens, htokens, he⟩ := parseExpression_iff.1 h
  intro p hp name hname
  exact Lexer.isIdentifier_of_tokenize htokens (he.segments_mem p hp name hname)

/-- The list of a parsed clause. -/
theorem Path.grammatical_of_parseForClause {source : String} {clause : ForClause}
    (h : parseForClause source = .ok clause) : clause.list.Grammatical := by
  obtain ⟨tokens, htokens, hclause⟩ := parseForClause_iff.1 h
  intro name hname
  exact Lexer.isIdentifier_of_tokenize htokens (hclause.segments_mem name hname)

/-- The target of an action can be spelled. -/
def EventAction.Grammatical : EventAction → Prop
  | .call _ => True
  | .step target _ | .assign target _ => target.Grammatical

/-- The target of a parsed action. -/
theorem EventAction.grammatical_of_parse {source : String} {action : EventAction}
    (h : parseEventAction source = .ok action) : action.Grammatical := by
  obtain ⟨tokens, htokens, haction⟩ := parseEventAction_iff.1 h
  cases action with
  | call name => trivial
  | step target direction | assign target value =>
    intro name hname
    exact Lexer.isIdentifier_of_tokenize htokens (haction.segments_mem target rfl name hname)

end ReactiveTemplate
