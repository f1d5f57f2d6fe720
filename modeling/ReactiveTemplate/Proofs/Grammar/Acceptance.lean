import ReactiveTemplate.Proofs.Grammar.Parts

/-!
# The reader accepts its language

Reading is an ordered choice whose first success is final, and the language is a set of
productions. They agree: an earlier shape never takes a front that a later one needs.

* `Grammar.simple_sound`, `Grammar.simple_complete`: expressions without connectives.
* `Grammar.parse_expression_iff`: what is read is exactly what the productions derive.
* `expression_grammar_exact`: the same, with unique trees, for tokens and for texts.
-/

namespace ReactiveTemplate

open Productions

namespace Grammar

variable {items rest : List (Located Token)}

/-! ## Alternatives that fail -/

theorem ternary_eq_none
    (h : ∀ p mid, path.read items = some (p, mid) → headItem? mid ≠ some (.sign .question)) :
    ternary.read items = none := by
  rw [ternary, Rule.read_bind_eq_none]
  intro p mid hp
  rw [Rule.read_bind_eq_none]
  intro _ _ h'
  rw [read_sign_eq_none (h p mid hp)] at h'
  simp at h'

theorem comparison_eq_none
    (h : ∀ p mid, path.read items = some (p, mid) → (headItem? mid).bind compareOp? = none) :
    comparison.read items = none := by
  rw [comparison, Rule.read_bind_eq_none]
  intro p mid hp
  rw [Rule.read_bind_eq_none]
  intro _ _ h'
  rw [read_select_eq_none (h p mid hp)] at h'
  simp at h'

theorem concat_eq_none
    (h : ∀ part mid, concatPart.read items = some (part, mid) →
      headItem? mid ≠ some (.sign .plus)) : concat.read items = none := by
  rw [concat, Rule.read_bind_eq_none]
  intro ps mid hps
  rw [Rule.read_checked_eq_some, parts_eq_none h] at hps
  simp at hps

theorem arithmetic_eq_none
    (h : ∀ p mid, path.read items = some (p, mid) → (headItem? mid).bind arithmeticOp? = none) :
    arithmetic.read items = none := by
  rw [arithmetic, Rule.read_bind_eq_none]
  intro p mid hp
  rw [Rule.read_bind_eq_none]
  intro _ _ h'
  rw [read_select_eq_none (h p mid hp)] at h'
  simp at h'

theorem negation_eq_none (h : headItem? items ≠ some (.sign .bang)) :
    negation.read items = none := by
  rw [negation, Rule.read_bind_eq_none]
  intro _ _ h'
  rw [read_sign_eq_none h] at h'
  simp at h'

/-! ## Expressions without connectives -/

/-- What may follow an expression without connectives: nothing, or a connective. -/
def Stops (rest : List (Located Token)) : Prop :=
  ∀ t, headItem? rest = some t → ∃ op : LogicalOp, t = .sign op.sign

theorem Stops.ne {s : Sign} (h : Stops rest) (hs : ∀ op : LogicalOp, op.sign ≠ s) :
    headItem? rest ≠ some (.sign s) := by
  intro hhead
  obtain ⟨op, hop⟩ := h _ hhead
  exact hs op (Token.sign.inj hop).symm

theorem Stops.dot (h : Stops rest) : headItem? rest ≠ some (.sign .dot) :=
  h.ne fun op => by cases op <;> decide

theorem Stops.plus (h : Stops rest) : headItem? rest ≠ some (.sign .plus) :=
  h.ne fun op => by cases op <;> decide

theorem Stops.question (h : Stops rest) : headItem? rest ≠ some (.sign .question) :=
  h.ne fun op => by cases op <;> decide

theorem Stops.bind_eq_none {α : Type} {meaning : Token → Option α} (h : Stops rest)
    (hm : ∀ op : LogicalOp, meaning (.sign op.sign) = none) :
    (headItem? rest).bind meaning = none := by
  rw [Option.bind_eq_none_iff]
  intro t ht
  obtain ⟨op, rfl⟩ := h t ht
  exact hm op

theorem Stops.compareOp (h : Stops rest) : (headItem? rest).bind compareOp? = none :=
  h.bind_eq_none fun op => by cases op <;> rfl

theorem Stops.arithmeticOp (h : Stops rest) : (headItem? rest).bind arithmeticOp? = none :=
  h.bind_eq_none fun op => by cases op <;> rfl

/-- Where no path begins, no shape that starts with a path is read. -/
theorem path_vacuous {P : Path → List (Located Token) → Prop}
    (h : ∀ name, headItem? items ≠ some (.identifier name)) :
    ∀ p mid, path.read items = some (p, mid) → P p mid := by
  intro p mid hp
  rw [path_eq_none h] at hp
  simp at hp

/-- A path is read up to one place only. -/
theorem path_only {ts : List Token} {p : Path} {mid : List (Located Token)}
    {P : Path → List (Located Token) → Prop} (hp : IsPath ts p) (h : Begins ts items mid)
    (hdot : headItem? mid ≠ some (.sign .dot)) (hP : P p mid) :
    ∀ p' mid', path.read items = some (p', mid') → P p' mid' := by
  intro p' mid' h'
  rw [path_complete hp h hdot] at h'
  obtain ⟨rfl, rfl⟩ := Prod.mk.inj (Option.some.inj h')
  exact hP

/-- A part of a chain is read up to one place only. -/
theorem concatPart_only {ts : List Token} {part : ConcatPart} {mid : List (Located Token)}
    {P : ConcatPart → List (Located Token) → Prop} (hpart : IsPart ts part)
    (h : Begins ts items mid) (hdot : headItem? mid ≠ some (.sign .dot)) (hP : P part mid) :
    ∀ part' mid', concatPart.read items = some (part', mid') → P part' mid' := by
  intro part' mid' h'
  rw [concatPart_complete hpart h hdot] at h'
  obtain ⟨rfl, rfl⟩ := Prod.mk.inj (Option.some.inj h')
  exact hP

theorem simple_iff {e : Expr} :
    simple.read items = some (e, rest) ↔
      ternary.read items = some (e, rest) ∨
      ternary.read items = none ∧ (comparison.read items = some (e, rest) ∨
      comparison.read items = none ∧ (concat.read items = some (e, rest) ∨
      concat.read items = none ∧
        ((∃ a, (Rule.orElse parenthesized arithmetic).read items = some (a, rest) ∧
          .arithmetic a = e) ∨
      (Rule.orElse parenthesized arithmetic).read items = none ∧
        (negation.read items = some (e, rest) ∨
      negation.read items = none ∧ ((∃ l, literal.read items = some (l, rest) ∧ .literal l = e) ∨
      literal.read items = none ∧ ∃ p, path.read items = some (p, rest) ∧ .path p = e))))) := by
  simp only [simple, Rule.choice, List.foldr_cons, List.foldr_nil, Rule.read_orElse_eq_some,
    Rule.read_map_eq_some, Rule.read_map_eq_none]

theorem ternary_sound {e : Expr} (h : ternary.read items = some (e, rest)) :
    ∃ ts, IsSimple ts e ∧ Begins ts items rest := by
  rw [ternary, Rule.read_bind_eq_some] at h
  obtain ⟨p, mid, hp, h⟩ := h
  rw [Rule.read_bind_eq_some] at h
  obtain ⟨⟨⟩, mid₁, hquestion, h⟩ := h
  rw [Rule.read_bind_eq_some] at h
  obtain ⟨l, mid₂, hl, h⟩ := h
  rw [Rule.read_bind_eq_some] at h
  obtain ⟨⟨⟩, mid₃, hcolon, h⟩ := h
  rw [Rule.read_bind_eq_some] at h
  obtain ⟨m, mid₄, hm, h⟩ := h
  obtain ⟨rfl, rfl⟩ := Prod.mk.inj (Option.some.inj h)
  obtain ⟨ts, hts, hb⟩ := path_sound hp
  obtain ⟨t, ht, hbt⟩ := read_literal.1 hl
  obtain ⟨u, hu, hbu⟩ := read_literal.1 hm
  refine ⟨_, .ternary hts ht hu, begins_append.2 ⟨mid, hb, ?_⟩⟩
  rw [begins_cons_iff]
  refine ⟨mid₁, read_sign.1 hquestion, ?_⟩
  rw [begins_cons_iff]
  refine ⟨mid₂, hbt, ?_⟩
  rw [begins_cons_iff]
  exact ⟨mid₃, read_sign.1 hcolon, hbu⟩

theorem ternary_complete {ts : List Token} {p : Path} {t u : Token} {l m : Literal}
    (hp : IsPath ts p) (ht : IsLiteral t l) (hu : IsLiteral u m)
    (h : Begins (ts ++ [.sign .question, t, .sign .colon, u]) items rest) :
    ternary.read items = some (.ternary p l m, rest) := by
  obtain ⟨mid, hb, h⟩ := begins_append.1 h
  have hmid : headItem? mid ≠ some (.sign .dot) := by simp [headItem?_of_begins h]
  rw [begins_cons_iff] at h
  obtain ⟨mid₁, hquestion, h⟩ := h
  rw [begins_cons_iff] at h
  obtain ⟨mid₂, hbt, h⟩ := h
  rw [begins_cons_iff] at h
  obtain ⟨mid₃, hcolon, hbu⟩ := h
  rw [ternary, Rule.read_bind_of_eq_some (path_complete hp hb hmid),
    Rule.read_bind_of_eq_some (read_sign.2 hquestion),
    Rule.read_bind_of_eq_some (read_literal.2 ⟨t, ht, hbt⟩),
    Rule.read_bind_of_eq_some (read_sign.2 hcolon),
    Rule.read_bind_of_eq_some (read_literal.2 ⟨u, hu, hbu⟩)]
  rfl

theorem comparison_sound {e : Expr} (h : comparison.read items = some (e, rest)) :
    ∃ ts, IsSimple ts e ∧ Begins ts items rest := by
  rw [comparison, Rule.read_bind_eq_some] at h
  obtain ⟨p, mid, hp, h⟩ := h
  rw [Rule.read_bind_eq_some] at h
  obtain ⟨op, mid', hop, h⟩ := h
  rw [Rule.read_bind_eq_some] at h
  obtain ⟨o, mid'', ho, h⟩ := h
  obtain ⟨rfl, rfl⟩ := Prod.mk.inj (Option.some.inj h)
  obtain ⟨ts, hts, hb⟩ := path_sound hp
  obtain ⟨us, hus, hb'⟩ := operand_sound ho
  refine ⟨_, .compare op hts hus, begins_append.2 ⟨mid, hb, ?_⟩⟩
  rw [begins_cons_iff]
  exact ⟨mid', read_compareOp.1 hop, hb'⟩

theorem concat_sound {e : Expr} (h : concat.read items = some (e, rest)) :
    ∃ ts, IsSimple ts e ∧ Begins ts items rest := by
  rw [concat, Rule.read_bind_eq_some] at h
  obtain ⟨ps, mid, hps, h⟩ := h
  obtain ⟨rfl, rfl⟩ := Prod.mk.inj (Option.some.inj h)
  obtain ⟨hread, hcheck⟩ := Rule.read_checked_eq_some.1 hps
  obtain ⟨ts, hts, htwo, hb⟩ := parts_sound hread
  obtain ⟨htext, hone⟩ := (isConcatenation_iff ps).1 hcheck
  exact ⟨ts, .concat hts htwo htext hone, hb⟩

theorem operation_sound {a : Arithmetic}
    (h : (Rule.orElse parenthesized arithmetic).read items = some (a, rest)) :
    ∃ ts, IsArithmetic ts a ∧ Begins ts items rest := by
  rcases Rule.read_orElse_eq_some.1 h with h | ⟨-, h⟩
  · obtain ⟨ts, hts, -, hb⟩ := parenthesized_sound h
    exact ⟨ts, hts, hb⟩
  · obtain ⟨ts, hts, hpar, hb⟩ := arithmetic_sound h
    obtain ⟨p, op, x, par⟩ := a
    obtain rfl : par = false := hpar
    exact ⟨_, .bare op x hts, hb⟩

theorem negation_sound {e : Expr} (h : negation.read items = some (e, rest)) :
    ∃ ts, IsSimple ts e ∧ Begins ts items rest := by
  rw [negation, Rule.read_bind_eq_some] at h
  obtain ⟨⟨⟩, mid, hbang, h⟩ := h
  rw [Rule.read_bind_eq_some] at h
  obtain ⟨p, mid', hp, h⟩ := h
  obtain ⟨rfl, rfl⟩ := Prod.mk.inj (Option.some.inj h)
  obtain ⟨ts, hts, hb⟩ := path_sound hp
  refine ⟨_, .not hts, ?_⟩
  rw [begins_cons_iff]
  exact ⟨mid, read_sign.1 hbang, hb⟩

/-- What is read is derived, whatever follows. -/
theorem simple_sound {e : Expr} (h : simple.read items = some (e, rest)) :
    ∃ ts, IsSimple ts e ∧ Begins ts items rest := by
  rcases simple_iff.1 h with hread | ⟨-, hread | ⟨-, hread | ⟨-, ⟨a, ha, rfl⟩ |
    ⟨-, hread | ⟨-, hread⟩⟩⟩⟩⟩
  · exact ternary_sound hread
  · exact comparison_sound hread
  · exact concat_sound hread
  · obtain ⟨ts, hts, hb⟩ := operation_sound ha
    exact ⟨ts, .arithmetic hts, hb⟩
  · exact negation_sound hread
  · rcases hread with ⟨l, hl, rfl⟩ | ⟨-, p, hp, rfl⟩
    · obtain ⟨t, ht, hb⟩ := read_literal.1 hl
      exact ⟨[t], .literal ht, hb⟩
    · obtain ⟨ts, hts, hb⟩ := path_sound hp
      exact ⟨ts, .path hts, hb⟩

theorem comparison_complete {ts us : List Token} {p : Path} {op : CompareOp} {o : Operand}
    (hp : IsPath ts p) (ho : IsOperand us o) (h : Begins (ts ++ .sign op.sign :: us) items rest)
    (hstop : Stops rest) : ternary.read items = none ∧
      comparison.read items = some (.compare p op o, rest) := by
  obtain ⟨mid, hb, h⟩ := begins_append.1 h
  have hmid : headItem? mid = some (.sign op.sign) := headItem?_of_begins h
  have hdot : headItem? mid ≠ some (.sign .dot) := by
    rw [hmid]
    cases op <;> simp [CompareOp.sign]
  rw [begins_cons_iff] at h
  obtain ⟨mid', hop, ho'⟩ := h
  constructor
  · apply ternary_eq_none
    refine path_only hp hb hdot ?_
    rw [hmid]
    cases op <;> simp [CompareOp.sign]
  · rw [comparison, Rule.read_bind_of_eq_some (path_complete hp hb hdot),
      Rule.read_bind_of_eq_some (read_compareOp.2 hop),
      Rule.read_bind_of_eq_some (operand_complete ho ho' hstop.dot)]
    rfl

theorem concat_complete {ts : List Token} {ps : List ConcatPart} (hps : IsChain ts ps)
    (htwo : 2 ≤ ps.length) (htext : ∃ part ∈ ps, IsText part) (hone : (operations ps).length ≤ 1)
    (h : Begins ts items rest) (hstop : Stops rest) :
    ternary.read items = none ∧ comparison.read items = none ∧
      concat.read items = some (.concat ps, rest) := by
  -- A path at the front is followed by a plus, which begins no other shape.
  have hfront : ∀ p mid, path.read items = some (p, mid) → headItem? mid = some (.sign .plus) := by
    cases hps with
    | single => simp at htwo
    | cons hpart hothers =>
      obtain ⟨mid, hb, hmid⟩ := begins_append.1 h
      cases hpart with
      | literal hl =>
        apply path_vacuous
        rw [headItem?_of_begins hb]
        cases hl <;> simp
      | path hp =>
        refine path_only hp hb ?_ (headItem?_of_begins hmid)
        simp [headItem?_of_begins hmid]
      | arithmetic ha hpar =>
        apply path_vacuous
        cases ha with
        | bare => simp at hpar
        | parenthesized =>
          rw [List.cons_append] at hb
          simp [headItem?_of_begins hb]
  refine ⟨?_, ?_, ?_⟩
  · apply ternary_eq_none
    intro p mid hp
    simp [hfront p mid hp]
  · apply comparison_eq_none
    intro p mid hp
    rw [hfront p mid hp]
    rfl
  · have hread := parts_complete hps htwo h hstop.dot hstop.plus
    have hcheck := (isConcatenation_iff ps).2 ⟨htext, hone⟩
    rw [concat, Rule.read_bind_of_eq_some (Rule.read_checked_eq_some.2 ⟨hread, hcheck⟩)]
    rfl

/-- A path and a number with an operation between them are no chain: there is no text. -/
theorem concat_eq_none_of_operation {ts : List Token} {p : Path} {op : ArithmeticOp} {x : Float}
    (hp : IsPath ts p) (h : Begins (ts ++ [.sign op.sign, .number x]) items rest)
    (hstop : Stops rest) : concat.read items = none := by
  obtain ⟨mid, hb, hmid⟩ := begins_append.1 h
  have hdot : headItem? mid ≠ some (.sign .dot) := by
    rw [headItem?_of_begins hmid]
    cases op <;> simp [ArithmeticOp.sign]
  by_cases hop : op = .add
  · subst hop
    have hchain : IsChain (ts ++ [.sign .plus, .number x]) [.path p, .literal (.number x)] :=
      .cons (.path hp) (.single (.literal (.number x)))
    have hread := parts_complete hchain (by simp) h hstop.dot hstop.plus
    rw [concat, Rule.read_bind_eq_none]
    intro ps mid' hps
    obtain ⟨hps, hcheck⟩ := Rule.read_checked_eq_some.1 hps
    rw [hread] at hps
    obtain ⟨rfl, rfl⟩ := Prod.mk.inj (Option.some.inj hps)
    simp [isConcatenation, isTextPart] at hcheck
  · apply concat_eq_none
    refine concatPart_only (.path hp) hb hdot ?_
    rw [headItem?_of_begins hmid]
    cases op <;> simp [ArithmeticOp.sign] at hop ⊢

theorem operation_complete {ts : List Token} {a : Arithmetic} (ha : IsArithmetic ts a)
    (h : Begins ts items rest) (hstop : Stops rest) :
    ternary.read items = none ∧ comparison.read items = none ∧ concat.read items = none ∧
      (Rule.orElse parenthesized arithmetic).read items = some (a, rest) := by
  cases ha with
  | @bare ts p op x hp =>
    obtain ⟨mid, hb, hmid⟩ := begins_append.1 h
    have hdot : headItem? mid ≠ some (.sign .dot) := by
      rw [headItem?_of_begins hmid]
      cases op <;> simp [ArithmeticOp.sign]
    refine ⟨?_, ?_, concat_eq_none_of_operation hp h hstop, ?_⟩
    · apply ternary_eq_none
      refine path_only hp hb hdot ?_
      rw [headItem?_of_begins hmid]
      cases op <;> simp [ArithmeticOp.sign]
    · apply comparison_eq_none
      refine path_only hp hb hdot ?_
      rw [headItem?_of_begins hmid]
      cases op <;> rfl
    · refine Rule.read_orElse_eq_some.2 (.inr ⟨?_, arithmetic_complete hp h⟩)
      apply parenthesized_eq_none
      rw [headItem?_of_isPath hp hb]
      simp
  | @parenthesized ts p op x hp =>
    have ha : IsArithmetic _ ⟨p, op, x, true⟩ := .parenthesized op x hp
    have hhead : ∀ name, headItem? items ≠ some (.identifier name) := by
      rw [List.cons_append] at h
      simp [headItem?_of_begins h]
    refine ⟨ternary_eq_none (path_vacuous hhead), comparison_eq_none (path_vacuous hhead), ?_,
      Rule.read_orElse_eq_some.2 (.inl (parenthesized_complete ha rfl h))⟩
    exact concat_eq_none (concatPart_only (.arithmetic ha rfl) h hstop.dot hstop.plus)

/-- Where an operand stands alone, no shape that goes on after it is read. -/
theorem operand_alone {ts : List Token} {o : Operand} (ho : IsOperand ts o)
    (h : Begins ts items rest) (hstop : Stops rest) :
    ternary.read items = none ∧ comparison.read items = none ∧ concat.read items = none ∧
      (Rule.orElse parenthesized arithmetic).read items = none ∧ negation.read items = none := by
  rw [Rule.read_orElse_eq_none]
  cases ho with
  | @literal t l hl =>
    have hhead : ∀ name, headItem? items ≠ some (.identifier name) := by
      rw [headItem?_of_begins h]
      cases hl <;> simp
    refine ⟨ternary_eq_none (path_vacuous hhead), comparison_eq_none (path_vacuous hhead),
      concat_eq_none (concatPart_only (.literal hl) h hstop.dot hstop.plus),
      ⟨parenthesized_eq_none ?_, arithmetic_eq_none (path_vacuous hhead)⟩, negation_eq_none ?_⟩
    all_goals
      rw [headItem?_of_begins h]
      cases hl <;> simp
  | @path ts p hp =>
    refine ⟨ternary_eq_none (path_only hp h hstop.dot hstop.question),
      comparison_eq_none (path_only hp h hstop.dot hstop.compareOp),
      concat_eq_none (concatPart_only (.path hp) h hstop.dot hstop.plus),
      ⟨parenthesized_eq_none ?_, arithmetic_eq_none (path_only hp h hstop.dot hstop.arithmeticOp)⟩,
      negation_eq_none ?_⟩
    all_goals
      rw [headItem?_of_isPath hp h]
      simp

theorem negation_complete {ts : List Token} {p : Path} (hp : IsPath ts p)
    (h : Begins (.sign .bang :: ts) items rest) (hstop : Stops rest) :
    ternary.read items = none ∧ comparison.read items = none ∧ concat.read items = none ∧
      (Rule.orElse parenthesized arithmetic).read items = none ∧
      negation.read items = some (.not p, rest) := by
  have hbang := headItem?_of_begins h
  have hhead : ∀ name, headItem? items ≠ some (.identifier name) := by simp [hbang]
  have hpar : parenthesized.read items = none := parenthesized_eq_none (by simp [hbang])
  have hliteral : literal.read items = none := by
    apply read_literal_eq_none
    intro t l ht hl
    rw [hbang] at ht
    obtain rfl := Option.some.inj ht
    cases hl
  have hpart : concatPart.read items = none := by
    simp only [concatPart, Rule.choice, List.foldr_cons, List.foldr_nil,
      Rule.read_orElse_eq_none, Rule.read_map_eq_none]
    exact ⟨hpar, hliteral, path_eq_none hhead⟩
  rw [begins_cons_iff] at h
  obtain ⟨mid, hsign, hb⟩ := h
  refine ⟨ternary_eq_none (path_vacuous hhead), comparison_eq_none (path_vacuous hhead),
    concat_eq_none (by simp [hpart]),
    Rule.read_orElse_eq_none.2 ⟨hpar, arithmetic_eq_none (path_vacuous hhead)⟩, ?_⟩
  rw [negation, Rule.read_bind_of_eq_some (read_sign.2 hsign),
    Rule.read_bind_of_eq_some (path_complete hp hb hstop.dot)]
  rfl

/-- What is derived is read, where nothing goes on after it: no earlier shape takes its
    front. -/
theorem simple_complete {ts : List Token} {e : Expr} (he : IsSimple ts e)
    (h : Begins ts items rest) (hstop : Stops rest) : simple.read items = some (e, rest) := by
  rw [simple_iff]
  cases he with
  | ternary hp ht hu => exact .inl (ternary_complete hp ht hu h)
  | compare op hp ho =>
    obtain ⟨ht, hc⟩ := comparison_complete hp ho h hstop
    exact .inr ⟨ht, .inl hc⟩
  | concat hps htwo htext hone =>
    obtain ⟨ht, hc, hread⟩ := concat_complete hps htwo htext hone h hstop
    exact .inr ⟨ht, .inr ⟨hc, .inl hread⟩⟩
  | arithmetic ha =>
    obtain ⟨ht, hc, hcat, hread⟩ := operation_complete ha h hstop
    exact .inr ⟨ht, .inr ⟨hc, .inr ⟨hcat, .inl ⟨_, hread, rfl⟩⟩⟩⟩
  | not hp =>
    obtain ⟨ht, hc, hcat, ha, hread⟩ := negation_complete hp h hstop
    exact .inr ⟨ht, .inr ⟨hc, .inr ⟨hcat, .inr ⟨ha, .inl hread⟩⟩⟩⟩
  | literal hl =>
    obtain ⟨ht, hc, hcat, ha, hn⟩ := operand_alone (.literal hl) h hstop
    exact .inr ⟨ht, .inr ⟨hc, .inr ⟨hcat, .inr ⟨ha, .inr ⟨hn, .inl
      ⟨_, read_literal.2 ⟨_, hl, h⟩, rfl⟩⟩⟩⟩⟩⟩
  | path hp =>
    obtain ⟨ht, hc, hcat, ha, hn⟩ := operand_alone (.path hp) h hstop
    exact .inr ⟨ht, .inr ⟨hc, .inr ⟨hcat, .inr ⟨ha, .inr ⟨hn, .inr
      ⟨literal_eq_none_of_isPath hp h, _, path_complete hp h hstop.dot, rfl⟩⟩⟩⟩⟩⟩

/-! ## Expressions -/

theorem stops_nil : Stops [] := by
  intro t ht
  simp [headItem?] at ht

theorem logicalTail_sound {op : LogicalOp} {e : Expr}
    (h : logicalTail.read items = some ((op, e), rest)) :
    ∃ ts, IsSimple ts e ∧ Begins (.sign op.sign :: ts) items rest := by
  rw [logicalTail, Rule.read_bind_eq_some] at h
  obtain ⟨op', mid, hop, h⟩ := h
  rw [Rule.read_bind_eq_some] at h
  obtain ⟨e', mid', he, h⟩ := h
  obtain ⟨hpair, rfl⟩ := Prod.mk.inj (Option.some.inj h)
  obtain ⟨rfl, rfl⟩ := Prod.mk.inj hpair
  obtain ⟨ts, hts, hb⟩ := simple_sound he
  refine ⟨ts, hts, ?_⟩
  rw [begins_cons_iff]
  exact ⟨mid, read_logicalOp.1 hop, hb⟩

theorem logicalTail_complete {ts : List Token} {op : LogicalOp} {e : Expr} (he : IsSimple ts e)
    (h : Begins (.sign op.sign :: ts) items rest) (hstop : Stops rest) :
    logicalTail.read items = some ((op, e), rest) := by
  rw [begins_cons_iff] at h
  obtain ⟨mid, hop, hb⟩ := h
  rw [logicalTail, Rule.read_bind_of_eq_some (read_logicalOp.2 hop),
    Rule.read_bind_of_eq_some (simple_complete he hb hstop)]
  rfl

theorem expression_sound {e : Expr} (h : expression.read items = some (e, rest)) :
    ∃ ts, IsExpr ts e ∧ Begins ts items rest := by
  rw [expression, Rule.read_bind_eq_some] at h
  obtain ⟨left, mid, hleft, h⟩ := h
  rw [Rule.read_bind_eq_some] at h
  obtain ⟨tail, mid', htail, h⟩ := h
  obtain ⟨rfl, rfl⟩ := Prod.mk.inj (Option.some.inj h)
  obtain ⟨ts, hts, hb⟩ := simple_sound hleft
  rw [Rule.read_optional] at htail
  cases hread : logicalTail.read mid with
  | none =>
    simp only [hread, Option.some.injEq, Prod.mk.injEq] at htail
    obtain ⟨rfl, rfl⟩ := htail
    exact ⟨ts, .simple hts, hb⟩
  | some r =>
    obtain ⟨⟨op, right⟩, mid''⟩ := r
    simp only [hread, Option.some.injEq, Prod.mk.injEq] at htail
    obtain ⟨rfl, rfl⟩ := htail
    obtain ⟨us, hus, hb'⟩ := logicalTail_sound hread
    exact ⟨_, .logical op hts hus, begins_append.2 ⟨mid, hb, hb'⟩⟩

theorem expression_complete {ts : List Token} {e : Expr} (he : IsExpr ts e)
    (h : Begins ts items []) : expression.read items = some (e, []) := by
  cases he with
  | simple hsimple =>
    have hnone : logicalTail.read [] = none := rfl
    have htail : (Rule.optional logicalTail).read [] = some (none, []) := by
      rw [Rule.read_optional, hnone]
    rw [expression, Rule.read_bind_of_eq_some (simple_complete hsimple h stops_nil),
      Rule.read_bind_of_eq_some htail]
    rfl
  | @logical ts us e f op he hf =>
    obtain ⟨mid, hb, hmid⟩ := begins_append.1 h
    have hstop : Stops mid := by
      intro t ht
      rw [headItem?_of_begins hmid] at ht
      exact ⟨op, (Option.some.inj ht).symm⟩
    have htail : (Rule.optional logicalTail).read mid = some (some (op, f), []) := by
      rw [Rule.read_optional, logicalTail_complete hf hmid stops_nil]
    rw [expression, Rule.read_bind_of_eq_some (simple_complete he hb hstop),
      Rule.read_bind_of_eq_some htail]
    rfl

theorem expression_exact : expression.Exact IsExpr :=
  .of_sound_of_complete expression_sound expression_complete

/-- The tree of a list of tokens is what the productions derive. -/
theorem parse_expression_iff {items : List (Located Token)} {e : Expr} :
    expression.parse items = .ok e ↔ IsExpr (items.map Located.item) e :=
  expression_exact.accepts items e

/-- A list of tokens derives at most one tree. -/
theorem isExpr_unique {ts : List Token} {e f : Expr} (he : IsExpr ts e) (hf : IsExpr ts f) :
    e = f :=
  expression_exact.unique ts e f he hf

end Grammar

/-- A text is read by a rule when its tokens are. -/
theorem parseWith_eq_ok_iff {α : Type} {rule : Rule Token α} {source : String} {a : α} :
    parseWith rule source = .ok a ↔
      ∃ tokens, Lexer.tokenize source = .ok tokens ∧ rule.parse tokens = .ok a := by
  unfold parseWith
  cases htokens : Lexer.tokenize source with
  | error err => simp
  | ok tokens => cases hparse : rule.parse tokens <;> simp [hparse]

/-- A text is an expression exactly when its tokens are. -/
theorem parseExpression_iff {source : String} {e : Expr} :
    parseExpression source = .ok e ↔
      ∃ tokens, Lexer.tokenize source = .ok tokens ∧ IsExpr (tokens.map Located.item) e := by
  simp only [parseExpression, parseWith_eq_ok_iff, Grammar.parse_expression_iff]

/-- The reader of expressions accepts exactly the closed grammar. On tokens it returns a
    tree if and only if they derive it, no tokens derive two trees, and a text is rejected
    if and only if it has no tokens or they derive no tree. -/
theorem expression_grammar_exact :
    (∀ (items : List (Located Token)) (e : Expr),
      Grammar.expression.parse items = .ok e ↔ IsExpr (items.map Located.item) e) ∧
    (∀ (ts : List Token) (e f : Expr), IsExpr ts e → IsExpr ts f → e = f) ∧
    (∀ (source : String) (e : Expr), parseExpression source = .ok e ↔
      ∃ tokens, Lexer.tokenize source = .ok tokens ∧ IsExpr (tokens.map Located.item) e) ∧
    ∀ source : String, (∃ error, parseExpression source = .error error) ↔
      ¬ ∃ tokens e, Lexer.tokenize source = .ok tokens ∧ IsExpr (tokens.map Located.item) e := by
  refine ⟨fun _ _ => Grammar.parse_expression_iff, fun _ _ _ => Grammar.isExpr_unique,
    fun _ _ => parseExpression_iff, fun source => ?_⟩
  constructor
  · rintro ⟨error, herror⟩ ⟨tokens, e, htokens, he⟩
    rw [parseExpression_iff.2 ⟨tokens, htokens, he⟩] at herror
    cases herror
  · intro hnone
    cases hparse : parseExpression source with
    | error error => exact ⟨error, rfl⟩
    | ok e =>
      obtain ⟨tokens, htokens, he⟩ := parseExpression_iff.1 hparse
      exact absurd ⟨tokens, e, htokens, he⟩ hnone

end ReactiveTemplate
