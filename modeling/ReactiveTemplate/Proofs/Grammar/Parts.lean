import Mathlib.Data.List.Induction
import ReactiveTemplate.Grammar.Sentence
import ReactiveTemplate.Proofs.Grammar.Productions
import ReactiveTemplate.Proofs.Grammar.Reading

/-!
# The parts of expressions

What the rules for paths, operands, operations and chains read. Each rule is sound, it
reads only what the productions derive, and complete, it reads all of it where no longer
reading is possible.

* `Grammar.path_sound`, `Grammar.path_complete`: paths, up to the last segment.
* `Grammar.parts_sound`, `Grammar.parts_complete`: chains, up to the last part.
* `Grammar.isConcatenation_iff`: the check of a chain.
-/

namespace ReactiveTemplate

open Productions

namespace Grammar

variable {items rest : List (Located Token)}

/-! ## Single tokens -/

theorem headItem?_of_begins {t : Token} {ts : List Token} (h : Begins (t :: ts) items rest) :
    headItem? items = some t := by
  obtain ⟨i, tail, rfl, rfl, -⟩ := begins_cons.1 h
  rfl

theorem length_lt_of_begins {t : Token} {ts : List Token} (h : Begins (t :: ts) items rest) :
    rest.length < items.length := by
  obtain ⟨front, rfl, hf⟩ := h
  cases front with
  | nil => simp at hf
  | cons i front =>
    simp only [List.cons_append, List.length_cons, List.length_append]
    omega

theorem read_sign {s : Sign} : (sign s).read items = some ((), rest) ↔ Begins [.sign s] items rest := by
  rw [sign, Rule.read_satisfy_eq_some]
  constructor
  · rintro ⟨t, ht, h⟩
    split at ht
    · next other =>
      split at ht
      · next hs => exact hs ▸ h
      · simp at ht
    · simp at ht
  · exact fun h => ⟨_, by simp, h⟩

theorem read_sign_eq_none {s : Sign} (h : headItem? items ≠ some (.sign s)) :
    (sign s).read items = none := by
  rw [sign, Rule.read_satisfy_eq_none, Option.bind_eq_none_iff]
  intro t ht
  split
  · next other =>
    have : other ≠ s := fun hs => h (hs ▸ ht)
    simp [this]
  · rfl

theorem read_identifier {name : String} :
    identifier.read items = some (name, rest) ↔ Begins [.identifier name] items rest := by
  rw [identifier, select, Rule.read_satisfy_eq_some]
  constructor
  · rintro ⟨t, ht, h⟩
    split at ht
    · next other => exact Option.some.inj ht ▸ h
    · simp at ht
  · exact fun h => ⟨_, rfl, h⟩

theorem read_identifier_eq_none (h : ∀ name, headItem? items ≠ some (.identifier name)) :
    identifier.read items = none := by
  rw [identifier, select, Rule.read_satisfy_eq_none, Option.bind_eq_none_iff]
  intro t ht
  split
  · next name => exact absurd ht (h name)
  · rfl

theorem read_literal {l : Literal} :
    literal.read items = some (l, rest) ↔ ∃ t, IsLiteral t l ∧ Begins [t] items rest := by
  rw [literal, select, Rule.read_satisfy_eq_some]
  constructor
  · rintro ⟨t, ht, h⟩
    refine ⟨t, ?_, h⟩
    split at ht
    · exact Option.some.inj ht ▸ .text _
    · exact Option.some.inj ht ▸ .number _
    · exact Option.some.inj ht ▸ .bool _
    · simp at ht
  · rintro ⟨t, ht, h⟩
    exact ⟨t, by cases ht <;> rfl, h⟩

theorem read_literal_eq_none (h : ∀ t l, headItem? items = some t → ¬ IsLiteral t l) :
    literal.read items = none := by
  rw [literal, select, Rule.read_satisfy_eq_none, Option.bind_eq_none_iff]
  intro t ht
  split
  · exact absurd (.text _) (h _ _ ht)
  · exact absurd (.number _) (h _ _ ht)
  · exact absurd (.bool _) (h _ _ ht)
  · rfl

theorem read_compareOp {op : CompareOp} :
    (select compareOp?).read items = some (op, rest) ↔ Begins [.sign op.sign] items rest := by
  rw [select, Rule.read_satisfy_eq_some]
  constructor
  · rintro ⟨t, ht, h⟩
    unfold compareOp? at ht
    split at ht <;> simp only [Option.some.injEq, reduceCtorEq] at ht <;> subst ht <;> exact h
  · exact fun h => ⟨_, by cases op <;> rfl, h⟩

theorem read_arithmeticOp {op : ArithmeticOp} :
    (select arithmeticOp?).read items = some (op, rest) ↔ Begins [.sign op.sign] items rest := by
  rw [select, Rule.read_satisfy_eq_some]
  constructor
  · rintro ⟨t, ht, h⟩
    unfold arithmeticOp? at ht
    split at ht <;> simp only [Option.some.injEq, reduceCtorEq] at ht <;> subst ht <;> exact h
  · exact fun h => ⟨_, by cases op <;> rfl, h⟩

theorem read_logicalOp {op : LogicalOp} :
    (select logicalOp?).read items = some (op, rest) ↔ Begins [.sign op.sign] items rest := by
  rw [select, Rule.read_satisfy_eq_some]
  constructor
  · rintro ⟨t, ht, h⟩
    unfold logicalOp? at ht
    split at ht <;> simp only [Option.some.injEq, reduceCtorEq] at ht <;> subst ht <;> exact h
  · exact fun h => ⟨_, by cases op <;> rfl, h⟩

theorem read_number {x : Float} :
    (select number?).read items = some (x, rest) ↔ Begins [.number x] items rest := by
  rw [select, Rule.read_satisfy_eq_some]
  constructor
  · rintro ⟨t, ht, h⟩
    unfold number? at ht
    split at ht <;> simp only [Option.some.injEq, reduceCtorEq] at ht
    exact ht ▸ h
  · exact fun h => ⟨_, rfl, h⟩

theorem read_select_eq_none {α : Type} {meaning : Token → Option α}
    (h : (headItem? items).bind meaning = none) : (select meaning).read items = none := by
  rw [select, Rule.read_satisfy_eq_none, h]

/-! ## Paths -/

theorem read_segment {name : String} :
    segment.read items = some (name, rest) ↔
      Begins [.sign .dot, .identifier name] items rest := by
  rw [segment, Rule.read_bind_eq_some, begins_cons_iff]
  constructor
  · rintro ⟨⟨⟩, mid, h₁, h₂⟩
    exact ⟨mid, read_sign.1 h₁, read_identifier.1 h₂⟩
  · rintro ⟨mid, h₁, h₂⟩
    exact ⟨(), mid, read_sign.2 h₁, read_identifier.2 h₂⟩

theorem segment_progresses : segment.Progresses :=
  fun _ _ _ h => length_lt_of_begins (read_segment.1 h)

theorem read_segment_eq_none (h : headItem? items ≠ some (.sign .dot)) :
    segment.read items = none := by
  rw [segment, Rule.read_bind_eq_none]
  intro _ _ h'
  rw [read_sign_eq_none h] at h'
  simp at h'

/-- The tokens of the segments of a path after the first one. -/
def belowTokens (names : List String) : List Token :=
  names.flatMap fun name => [.sign .dot, .identifier name]

theorem isPath_iff {ts : List Token} {p : Path} :
    IsPath ts p ↔ ts = .identifier p.root :: belowTokens p.below := by
  constructor
  · intro h
    induction h with
    | name root => rfl
    | dot name _ ih => simp [ih, belowTokens]
  · obtain ⟨root, below⟩ := p
    rintro rfl
    induction below using List.reverseRecOn with
    | nil => exact .name root
    | append_singleton names name ih =>
      have := IsPath.dot name ih
      simpa [belowTokens] using this

theorem read_segments {names : List String} (h : Begins (belowTokens names) items rest)
    (hrest : headItem? rest ≠ some (.sign .dot)) :
    (Rule.repeated segment).read items = some (names, rest) := by
  induction names generalizing items with
  | nil =>
    rw [belowTokens, List.flatMap_nil, begins_nil] at h
    subst h
    rw [Rule.read_repeated segment_progresses, read_segment_eq_none hrest]
  | cons name names ih =>
    rw [belowTokens, List.flatMap_cons, begins_append] at h
    obtain ⟨mid, hname, hnames⟩ := h
    rw [Rule.read_repeated segment_progresses, read_segment.2 hname]
    simp only [ih hnames, Option.map_some]

/-- A path is read up to its last segment. -/
theorem path_complete {ts : List Token} {p : Path} (hp : IsPath ts p) (h : Begins ts items rest)
    (hrest : headItem? rest ≠ some (.sign .dot)) : path.read items = some (p, rest) := by
  rw [isPath_iff.1 hp, begins_cons_iff] at h
  obtain ⟨mid, hroot, hbelow⟩ := h
  rw [path, Rule.read_bind_of_eq_some (read_identifier.2 hroot),
    Rule.read_bind_of_eq_some (read_segments hbelow hrest)]
  rfl

theorem path_sound {p : Path} (h : path.read items = some (p, rest)) :
    ∃ ts, IsPath ts p ∧ Begins ts items rest := by
  rw [path, Rule.read_bind_eq_some] at h
  obtain ⟨root, mid, hroot, h⟩ := h
  rw [Rule.read_bind_eq_some] at h
  obtain ⟨below, mid', hbelow, h⟩ := h
  obtain ⟨rfl, rfl⟩ := Prod.mk.inj (Option.some.inj h)
  obtain ⟨tss, hall, htss⟩ := Rule.begins_of_repeated segment_progresses
    (F := fun ts name => ts = [Token.sign .dot, .identifier name])
    (fun _ _ _ h => ⟨_, rfl, read_segment.1 h⟩) _ mid below mid' (Nat.lt_succ_self _) hbelow
  have : tss.flatten = belowTokens below := by
    clear hbelow htss h
    induction hall with
    | nil => rfl
    | cons hts _ ih =>
      rw [List.flatten_cons, ih, hts]
      rfl
  refine ⟨_, isPath_iff.2 rfl, ?_⟩
  rw [begins_cons_iff]
  exact ⟨mid, read_identifier.1 hroot, this ▸ htss⟩

theorem path_eq_none (h : ∀ name, headItem? items ≠ some (.identifier name)) :
    path.read items = none := by
  rw [path, Rule.read_bind_eq_none]
  intro _ _ h'
  rw [read_identifier_eq_none h] at h'
  simp at h'

theorem headItem?_of_isPath {ts : List Token} {p : Path} (hp : IsPath ts p)
    (h : Begins ts items rest) : headItem? items = some (.identifier p.root) := by
  rw [isPath_iff.1 hp] at h
  exact headItem?_of_begins h

/-! ## Operands and operations -/

theorem operand_sound {o : Operand} (h : operand.read items = some (o, rest)) :
    ∃ ts, IsOperand ts o ∧ Begins ts items rest := by
  rw [operand, Rule.read_orElse_eq_some] at h
  rcases h with h | ⟨-, h⟩
  · obtain ⟨l, hl, rfl⟩ := Rule.read_map_eq_some.1 h
    obtain ⟨t, ht, hb⟩ := read_literal.1 hl
    exact ⟨[t], .literal ht, hb⟩
  · obtain ⟨p, hp, rfl⟩ := Rule.read_map_eq_some.1 h
    obtain ⟨ts, hts, hb⟩ := path_sound hp
    exact ⟨ts, .path hts, hb⟩

/-- No literal is an identifier. -/
theorem literal_eq_none_of_isPath {ts : List Token} {p : Path} (hp : IsPath ts p)
    (h : Begins ts items rest) : literal.read items = none := by
  apply read_literal_eq_none
  intro t l ht hl
  rw [headItem?_of_isPath hp h] at ht
  obtain rfl := Option.some.inj ht
  cases hl

theorem operand_complete {ts : List Token} {o : Operand} (ho : IsOperand ts o)
    (h : Begins ts items rest) (hrest : headItem? rest ≠ some (.sign .dot)) :
    operand.read items = some (o, rest) := by
  rw [operand, Rule.read_orElse_eq_some]
  cases ho with
  | literal hl => exact .inl (Rule.read_map_eq_some.2 ⟨_, read_literal.2 ⟨_, hl, h⟩, rfl⟩)
  | path hp =>
    refine .inr ⟨?_, Rule.read_map_eq_some.2 ⟨_, path_complete hp h hrest, rfl⟩⟩
    exact Rule.read_map_eq_none.2 (literal_eq_none_of_isPath hp h)

theorem arithmetic_sound {a : Arithmetic} (h : arithmetic.read items = some (a, rest)) :
    ∃ ts, IsPath ts a.path ∧ a.parenthesized = false ∧
      Begins (ts ++ [.sign a.op.sign, .number a.number]) items rest := by
  rw [arithmetic, Rule.read_bind_eq_some] at h
  obtain ⟨p, mid, hp, h⟩ := h
  rw [Rule.read_bind_eq_some] at h
  obtain ⟨op, mid', hop, h⟩ := h
  rw [Rule.read_bind_eq_some] at h
  obtain ⟨x, mid'', hx, h⟩ := h
  obtain ⟨rfl, rfl⟩ := Prod.mk.inj (Option.some.inj h)
  obtain ⟨ts, hts, hb⟩ := path_sound hp
  refine ⟨ts, hts, rfl, begins_append.2 ⟨mid, hb, ?_⟩⟩
  rw [begins_cons_iff]
  exact ⟨mid', read_arithmeticOp.1 hop, read_number.1 hx⟩

theorem arithmetic_complete {ts : List Token} {p : Path} {op : ArithmeticOp} {x : Float}
    (hp : IsPath ts p) (h : Begins (ts ++ [.sign op.sign, .number x]) items rest) :
    arithmetic.read items = some (⟨p, op, x, false⟩, rest) := by
  obtain ⟨mid, hb, h⟩ := begins_append.1 h
  have hmid : headItem? mid ≠ some (.sign .dot) := by
    rw [headItem?_of_begins h]
    cases op <;> simp [ArithmeticOp.sign]
  rw [begins_cons_iff] at h
  obtain ⟨mid', hop, hx⟩ := h
  rw [arithmetic, Rule.read_bind_of_eq_some (path_complete hp hb hmid),
    Rule.read_bind_of_eq_some (read_arithmeticOp.2 hop),
    Rule.read_bind_of_eq_some (read_number.2 hx)]
  rfl

theorem parenthesized_sound {a : Arithmetic} (h : parenthesized.read items = some (a, rest)) :
    ∃ ts, IsArithmetic ts a ∧ a.parenthesized = true ∧ Begins ts items rest := by
  rw [parenthesized, Rule.read_bind_eq_some] at h
  obtain ⟨⟨⟩, mid, hopen, h⟩ := h
  rw [Rule.read_bind_eq_some] at h
  obtain ⟨b, mid', hb, h⟩ := h
  rw [Rule.read_bind_eq_some] at h
  obtain ⟨⟨⟩, mid'', hclose, h⟩ := h
  obtain ⟨rfl, rfl⟩ := Prod.mk.inj (Option.some.inj h)
  obtain ⟨ts, hts, -, hb⟩ := arithmetic_sound hb
  refine ⟨_, .parenthesized b.op b.number hts, rfl, ?_⟩
  rw [List.cons_append, begins_cons_iff]
  refine ⟨mid, read_sign.1 hopen, ?_⟩
  have : ts ++ [Token.sign b.op.sign, .number b.number, .sign .closeParen] =
      (ts ++ [.sign b.op.sign, .number b.number]) ++ [.sign .closeParen] := by simp
  rw [this, begins_append]
  exact ⟨mid', hb, read_sign.1 hclose⟩

theorem parenthesized_complete {ts : List Token} {a : Arithmetic} (ha : IsArithmetic ts a)
    (hpar : a.parenthesized = true) (h : Begins ts items rest) :
    parenthesized.read items = some (a, rest) := by
  cases ha with
  | bare => simp at hpar
  | @parenthesized ts p op x hp =>
    rw [List.cons_append, begins_cons_iff] at h
    obtain ⟨mid, hopen, h⟩ := h
    have : ts ++ [Token.sign op.sign, .number x, .sign .closeParen] =
        (ts ++ [.sign op.sign, .number x]) ++ [.sign .closeParen] := by simp
    rw [this, begins_append] at h
    obtain ⟨mid', hb, hclose⟩ := h
    rw [parenthesized, Rule.read_bind_of_eq_some (read_sign.2 hopen),
      Rule.read_bind_of_eq_some (arithmetic_complete hp hb),
      Rule.read_bind_of_eq_some (read_sign.2 hclose)]
    rfl

theorem parenthesized_eq_none (h : headItem? items ≠ some (.sign .openParen)) :
    parenthesized.read items = none := by
  rw [parenthesized, Rule.read_bind_eq_none]
  intro _ _ h'
  rw [read_sign_eq_none h] at h'
  simp at h'

/-! ## Chains of parts -/

theorem concatPart_sound {part : ConcatPart} (h : concatPart.read items = some (part, rest)) :
    ∃ ts, IsPart ts part ∧ Begins ts items rest := by
  simp only [concatPart, Rule.choice, List.foldr_cons, List.foldr_nil,
    Rule.read_orElse_eq_some, Rule.read_map_eq_some] at h
  rcases h with ⟨a, ha, rfl⟩ | ⟨-, ⟨l, hl, rfl⟩ | ⟨-, p, hp, rfl⟩⟩
  · obtain ⟨ts, hts, hpar, hb⟩ := parenthesized_sound ha
    exact ⟨ts, .arithmetic hts hpar, hb⟩
  · obtain ⟨t, ht, hb⟩ := read_literal.1 hl
    exact ⟨[t], .literal ht, hb⟩
  · obtain ⟨ts, hts, hb⟩ := path_sound hp
    exact ⟨ts, .path hts, hb⟩

theorem concatPart_complete {ts : List Token} {part : ConcatPart} (hpart : IsPart ts part)
    (h : Begins ts items rest) (hrest : headItem? rest ≠ some (.sign .dot)) :
    concatPart.read items = some (part, rest) := by
  simp only [concatPart, Rule.choice, List.foldr_cons, List.foldr_nil,
    Rule.read_orElse_eq_some, Rule.read_map_eq_some, Rule.read_map_eq_none]
  cases hpart with
  | literal hl =>
    refine .inr ⟨parenthesized_eq_none ?_, .inl ⟨_, read_literal.2 ⟨_, hl, h⟩, rfl⟩⟩
    rw [headItem?_of_begins h]
    cases hl <;> simp
  | path hp =>
    refine .inr ⟨parenthesized_eq_none ?_, .inr ⟨literal_eq_none_of_isPath hp h, _,
      path_complete hp h hrest, rfl⟩⟩
    rw [headItem?_of_isPath hp h]
    simp
  | arithmetic ha hpar => exact .inl ⟨_, parenthesized_complete ha hpar h, rfl⟩

theorem furtherPart_sound {part : ConcatPart} (h : furtherPart.read items = some (part, rest)) :
    ∃ ts, (∃ us, ts = Token.sign .plus :: us ∧ IsPart us part) ∧ Begins ts items rest := by
  rw [furtherPart, Rule.read_bind_eq_some] at h
  obtain ⟨⟨⟩, mid, hplus, h⟩ := h
  obtain ⟨us, hus, hb⟩ := concatPart_sound h
  refine ⟨_, ⟨us, rfl, hus⟩, ?_⟩
  rw [begins_cons_iff]
  exact ⟨mid, read_sign.1 hplus, hb⟩

theorem furtherPart_progresses : furtherPart.Progresses := by
  intro _ _ _ h
  obtain ⟨_, ⟨us, rfl, -⟩, hb⟩ := furtherPart_sound h
  exact length_lt_of_begins hb

theorem furtherPart_eq_none (h : headItem? items ≠ some (.sign .plus)) :
    furtherPart.read items = none := by
  rw [furtherPart, Rule.read_bind_eq_none]
  intro _ _ h'
  rw [read_sign_eq_none h] at h'
  simp at h'

theorem furtherPart_complete {ts : List Token} {part : ConcatPart} (hpart : IsPart ts part)
    (h : Begins (.sign .plus :: ts) items rest) (hrest : headItem? rest ≠ some (.sign .dot)) :
    furtherPart.read items = some (part, rest) := by
  rw [begins_cons_iff] at h
  obtain ⟨mid, hplus, h⟩ := h
  rw [furtherPart, Rule.read_bind_of_eq_some (read_sign.2 hplus), concatPart_complete hpart h hrest]

/-- A chain after a plus is read part by part. -/
theorem furtherParts_complete {ts : List Token} {parts : List ConcatPart}
    (hparts : IsChain ts parts) (hdot : headItem? rest ≠ some (.sign .dot))
    (hplus : headItem? rest ≠ some (.sign .plus)) :
    ∀ {items : List (Located Token)}, Begins (.sign .plus :: ts) items rest →
      (Rule.repeated furtherPart).read items = some (parts, rest) := by
  induction hparts with
  | single hpart =>
    intro items h
    have hend : (Rule.repeated furtherPart).read rest = some ([], rest) := by
      rw [Rule.read_repeated furtherPart_progresses, furtherPart_eq_none hplus]
    rw [Rule.read_repeated furtherPart_progresses, furtherPart_complete hpart h hdot]
    simp only [hend, Option.map_some]
  | @cons ts us part parts hpart _ ih =>
    intro items h
    rw [← List.cons_append, begins_append] at h
    obtain ⟨mid, hts, hus⟩ := h
    have hmid : headItem? mid ≠ some (.sign .dot) := by simp [headItem?_of_begins hus]
    rw [Rule.read_repeated furtherPart_progresses, furtherPart_complete hpart hts hmid]
    simp only [ih hus, Option.map_some]

theorem chain_of_forall {tss : List (List Token)} {parts : List ConcatPart}
    (hall : List.Forall₂ (fun ts part => ∃ us, ts = Token.sign .plus :: us ∧ IsPart us part)
      tss parts) :
    ∀ {ts : List Token} {part : ConcatPart}, IsPart ts part →
      IsChain (ts ++ tss.flatten) (part :: parts) := by
  induction hall with
  | nil =>
    intro ts part hpart
    rw [List.flatten_nil, List.append_nil]
    exact .single hpart
  | cons hfirst _ ih =>
    intro ts part hpart
    obtain ⟨us, rfl, hus⟩ := hfirst
    rw [List.flatten_cons, List.cons_append]
    exact .cons hpart (ih hus)

theorem parts_sound {ps : List ConcatPart} (h : parts.read items = some (ps, rest)) :
    ∃ ts, IsChain ts ps ∧ 2 ≤ ps.length ∧ Begins ts items rest := by
  rw [parts, Rule.read_bind_eq_some] at h
  obtain ⟨first, mid, hfirst, h⟩ := h
  rw [Rule.read_bind_eq_some] at h
  obtain ⟨second, mid', hsecond, h⟩ := h
  rw [Rule.read_bind_eq_some] at h
  obtain ⟨others, mid'', hothers, h⟩ := h
  obtain ⟨rfl, rfl⟩ := Prod.mk.inj (Option.some.inj h)
  obtain ⟨ts, hts, hb⟩ := concatPart_sound hfirst
  obtain ⟨us, hus, hb'⟩ := furtherPart_sound hsecond
  obtain ⟨uss, huss, hb''⟩ := Rule.begins_of_repeated furtherPart_progresses
    (fun _ _ _ h => furtherPart_sound h) _ mid' others mid'' (Nat.lt_succ_self _) hothers
  refine ⟨ts ++ (us :: uss).flatten, chain_of_forall (.cons hus huss) hts, by simp, ?_⟩
  exact begins_append.2 ⟨mid, hb, begins_append.2 ⟨mid', hb', hb''⟩⟩

theorem parts_complete {ts : List Token} {ps : List ConcatPart} (hps : IsChain ts ps)
    (htwo : 2 ≤ ps.length) (h : Begins ts items rest) (hdot : headItem? rest ≠ some (.sign .dot))
    (hplus : headItem? rest ≠ some (.sign .plus)) : parts.read items = some (ps, rest) := by
  cases hps with
  | single => simp at htwo
  | @cons ts us first others hfirst hothers =>
    obtain ⟨mid, hts, hus⟩ := begins_append.1 h
    have hmid : headItem? mid ≠ some (.sign .dot) := by simp [headItem?_of_begins hus]
    have hrep := furtherParts_complete hothers hdot hplus hus
    cases others with
    | nil => simp at htwo
    | cons second others =>
      obtain ⟨mid', hsecond, hrest⟩ := Rule.read_repeated_cons furtherPart_progresses hrep
      rw [parts, Rule.read_bind_of_eq_some (concatPart_complete hfirst hts hmid),
        Rule.read_bind_of_eq_some hsecond, Rule.read_bind_of_eq_some hrest]
      rfl

/-- A first part that no plus follows is no chain. -/
theorem parts_eq_none
    (h : ∀ part mid, concatPart.read items = some (part, mid) →
      headItem? mid ≠ some (.sign .plus)) : parts.read items = none := by
  rw [parts, Rule.read_bind_eq_none]
  intro part mid hpart
  rw [Rule.read_bind_eq_none]
  intro second mid' hsecond
  rw [furtherPart_eq_none (h part mid hpart)] at hsecond
  simp at hsecond

theorem countP_isArithmeticPart (ps : List ConcatPart) :
    ps.countP isArithmeticPart = (operations ps).length := by
  induction ps with
  | nil => rfl
  | cons part ps ih =>
    rw [List.countP_cons, ih]
    cases part <;> simp [isArithmeticPart, operations]

theorem isConcatenation_iff (ps : List ConcatPart) :
    isConcatenation ps = true ↔ (∃ part ∈ ps, IsText part) ∧ (operations ps).length ≤ 1 := by
  have htext : ∀ part, isTextPart part = true ↔ IsText part := by
    intro part
    cases part with
    | literal l => cases l <;> simp [isTextPart, IsText]
    | path => simp [isTextPart, IsText]
    | arithmetic => simp [isTextPart, IsText]
  simp only [isConcatenation, Bool.and_eq_true, List.any_eq_true, htext, decide_eq_true_eq,
    countP_isArithmeticPart]

end Grammar

end ReactiveTemplate
