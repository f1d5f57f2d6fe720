import ReactiveTemplate.Evaluation.Compiled
import ReactiveTemplate.Proofs.Grammar.Acceptance
import ReactiveTemplate.Proofs.Grammar.Trimming

/-!
# Chains of identifiers

The paths that an expression reads are the longest chains `name ('.' name)*` among its tokens.
Which shape a chain belongs to does not matter: between two paths of an expression stands a token
that no path has, so no chain goes from one path to the next.

* `Chain.Maximal`: a chain among some tokens that lies in no longer one.
* `Woven`: paths with other tokens between them; `Productions.IsExpr.woven`: expressions are that.
* `Woven.exists_chains`: the maximal chains of woven paths are the paths.
* `parseExpression_trim`: a trimmed expression is the same expression.
* `paths_eq_maximal_chains`: what an expression reads and depends on.
-/

namespace ReactiveTemplate

open Productions

/-! ## Chains -/

/-- A path among some tokens, from one place up to another. -/
structure Chain where
  start : Nat
  stop : Nat
  path : Path

namespace Chain

variable {ts : List Token} {c d : Chain} {k : Nat}

/-- The tokens from the first place up to the second one are the path. -/
def WrittenIn (ts : List Token) (c : Chain) : Prop :=
  ∃ front us back, ts = front ++ us ++ back ∧ IsPath us c.path ∧ c.start = front.length ∧
    c.stop = front.length + us.length

/-- A chain that lies in no longer one. -/
structure Maximal (ts : List Token) (c : Chain) : Prop where
  written : c.WrittenIn ts
  longest : ∀ d : Chain, d.WrittenIn ts → d.start ≤ c.start → c.stop ≤ d.stop → d = c

/-- The token at a place belongs to the chain. -/
def Covers (c : Chain) (k : Nat) : Prop := c.start ≤ k ∧ k < c.stop

end Chain

/-- A token that no path has. -/
def Foreign (t : Token) : Prop := t ≠ .sign .dot ∧ ∀ name, t ≠ .identifier name

theorem Productions.IsPath.ne_nil {us : List Token} {p : Path} (h : IsPath us p) : us ≠ [] := by
  rw [Grammar.isPath_iff.1 h]
  exact List.cons_ne_nil _ _

theorem Productions.IsPath.not_foreign {us : List Token} {p : Path} (h : IsPath us p) :
    ∀ t ∈ us, ¬ Foreign t := by
  induction h with
  | name root =>
    rintro t ht ⟨-, hname⟩
    exact hname root (List.mem_singleton.1 ht)
  | dot name _ ih =>
    intro t ht hforeign
    rcases List.mem_append.1 ht with ht | ht
    · exact ih t ht hforeign
    · rcases List.mem_pair.1 ht with rfl | rfl
      · exact hforeign.1 rfl
      · exact hforeign.2 name rfl

/-- Tokens are one path at most. -/
theorem Productions.IsPath.unique {us : List Token} {p q : Path} (h : IsPath us p)
    (h' : IsPath us q) : p = q := by
  have hinj : ∀ names names' : List String,
      Grammar.belowTokens names = Grammar.belowTokens names' → names = names' := by
    intro names
    induction names with
    | nil =>
      intro names' heq
      cases names' with
      | nil => rfl
      | cons => simp [Grammar.belowTokens] at heq
    | cons name names ih =>
      intro names' heq
      cases names' with
      | nil => simp [Grammar.belowTokens] at heq
      | cons name' names' =>
        simp only [Grammar.belowTokens, List.flatMap_cons, List.cons_append, List.nil_append,
          List.cons.injEq, Token.identifier.injEq, true_and] at heq
        rw [heq.1, ih names' heq.2]
  have heq := (Grammar.isPath_iff.1 h).symm.trans (Grammar.isPath_iff.1 h')
  simp only [List.cons.injEq, Token.identifier.injEq] at heq
  obtain ⟨root, below⟩ := p
  obtain ⟨root', below'⟩ := q
  rw [Path.mk.injEq]
  exact ⟨heq.1, hinj _ _ heq.2⟩

namespace Chain

variable {ts : List Token} {c d : Chain} {k : Nat}

theorem WrittenIn.start_lt_stop (h : c.WrittenIn ts) : c.start < c.stop := by
  obtain ⟨front, us, back, -, hpath, hstart, hstop⟩ := h
  have hpos := List.length_pos_iff.2 hpath.ne_nil
  omega

theorem WrittenIn.stop_le (h : c.WrittenIn ts) : c.stop ≤ ts.length := by
  obtain ⟨front, us, back, rfl, -, -, hstop⟩ := h
  rw [hstop, List.length_append, List.length_append]
  omega

/-- No token of a chain is foreign to paths. -/
theorem WrittenIn.not_foreign (h : c.WrittenIn ts) (hk : c.Covers k) {t : Token}
    (ht : ts[k]? = some t) : ¬ Foreign t := by
  obtain ⟨front, us, back, rfl, hpath, hstart, hstop⟩ := h
  obtain ⟨hge, hlt⟩ := hk
  rw [List.getElem?_append_left (by rw [List.length_append]; omega),
    List.getElem?_append_right (by omega)] at ht
  exact hpath.not_foreign t (List.mem_of_getElem? ht)

/-- Chains in the same place are the same. -/
theorem WrittenIn.unique (hc : c.WrittenIn ts) (hd : d.WrittenIn ts) (hstart : c.start = d.start)
    (hstop : c.stop = d.stop) : c = d := by
  obtain ⟨front, us, back, rfl, hpath, hc₁, hc₂⟩ := hc
  obtain ⟨front', us', back', heq, hpath', hd₁, hd₂⟩ := hd
  have hfront : front.length = front'.length := by omega
  have hus : us.length = us'.length := by omega
  rw [List.append_assoc, List.append_assoc] at heq
  obtain ⟨-, heq⟩ := List.append_inj heq hfront
  obtain ⟨rfl, -⟩ := List.append_inj heq hus
  obtain ⟨start, stop, path⟩ := c
  obtain ⟨start', stop', path'⟩ := d
  rw [Chain.mk.injEq]
  exact ⟨hstart, hstop, hpath.unique hpath'⟩

end Chain

/-! ## Woven paths -/

/-- Paths with other tokens between them. -/
inductive Woven : List Token → List Path → Prop
  | nil : Woven [] []
  | other {t : Token} {ts : List Token} {ps : List Path} :
    Foreign t → Woven ts ps → Woven (t :: ts) ps
  | path {us ts : List Token} {p : Path} {ps : List Path} :
    IsPath us p → (∀ t ∈ ts.head?, Foreign t) → Woven ts ps → Woven (us ++ ts) (p :: ps)

namespace Woven

variable {ts us front rest : List Token} {ps qs : List Path}

theorem single {p : Path} (h : IsPath us p) : Woven us [p] := by
  have hpath : Woven (us ++ []) [p] := .path h nofun .nil
  rwa [List.append_nil] at hpath

/-- Woven paths on both sides of another token. -/
theorem append {t : Token} (h : Woven ts ps) (ht : Foreign t) (h' : Woven us qs) :
    Woven (ts ++ t :: us) (ps ++ qs) := by
  induction h with
  | nil => exact .other ht h'
  | other hother _ ih => exact .other hother ih
  | @path vs ws p ps hpath hhead _ ih =>
    rw [List.append_assoc, List.cons_append]
    refine .path hpath ?_ ih
    cases ws with
    | nil =>
      rintro _ ⟨⟩
      exact ht
    | cons w ws => exact hhead

theorem concat {t : Token} (h : Woven ts ps) (ht : Foreign t) : Woven (ts ++ [t]) ps := by
  have hboth := h.append ht .nil
  rwa [List.append_nil] at hboth

/-- A border that no chain crosses: a token that no path has stands before it or behind it. -/
def Border (front rest : List Token) : Prop :=
  (∀ t ∈ front.getLast?, Foreign t) ∨ ∀ t ∈ rest.head?, Foreign t

/-- A chain that begins before a border ends there. -/
theorem Border.stop_le (h : Border front rest) {c : Chain} (hc : c.WrittenIn (front ++ rest))
    (hstart : c.start < front.length) : c.stop ≤ front.length := by
  by_contra hstop
  rcases h with hlast | hhead
  · have hne : front ≠ [] := fun hnil => by simp [hnil] at hstart
    have hget : (front ++ rest)[front.length - 1]? = some (front.getLast hne) := by
      rw [List.getElem?_append_left (by omega), List.getLast_eq_getElem, List.getElem?_eq_getElem]
    exact hc.not_foreign ⟨by omega, by omega⟩ hget (hlast _ (List.getLast?_eq_some_getLast hne))
  · have hlength := hc.stop_le
    rw [List.length_append] at hlength
    cases rest with
    | nil =>
      rw [List.length_nil] at hlength
      omega
    | cons t rest =>
      have hget : (front ++ t :: rest)[front.length]? = some t := by simp
      exact hc.not_foreign ⟨by omega, by omega⟩ hget (hhead t rfl)

/-- A path between two borders is a maximal chain, and the only one there. -/
theorem maximal_iff {p : Path} (hpath : IsPath us p) (hfront : Border front (us ++ rest))
    (hrest : Border (front ++ us) rest) {c : Chain} (hstart : front.length ≤ c.start)
    (hstop : c.start < front.length + us.length) :
    c.Maximal (front ++ (us ++ rest)) ↔ c = ⟨front.length, front.length + us.length, p⟩ := by
  let whole : Chain := ⟨front.length, front.length + us.length, p⟩
  have hassoc : front ++ (us ++ rest) = (front ++ us) ++ rest := (List.append_assoc _ _ _).symm
  have hwhole : whole.WrittenIn (front ++ (us ++ rest)) :=
    ⟨front, us, rest, hassoc, hpath, rfl, rfl⟩
  have hlength : (front ++ us).length = front.length + us.length := List.length_append
  have hwithin : ∀ d : Chain, d.WrittenIn (front ++ (us ++ rest)) →
      d.start < front.length + us.length → d.stop ≤ front.length + us.length := by
    intro d hd hlt
    rw [← hlength] at hlt ⊢
    exact hrest.stop_le (hassoc ▸ hd) hlt
  constructor
  · intro hc
    exact (hc.longest whole hwhole hstart (hwithin c hc.written hstop)).symm
  · rintro rfl
    refine ⟨hwhole, fun d hd hle hge => ?_⟩
    have hpos := List.length_pos_iff.2 hpath.ne_nil
    dsimp only at hle hge
    have hfrom : front.length ≤ d.start := by
      by_contra hlt
      have hend := hfront.stop_le hd (by omega)
      omega
    have hto := hwithin d hd (by omega)
    exact hd.unique hwhole (by dsimp only [whole]; omega) (by dsimp only [whole]; omega)

/-- The maximal chains of woven paths are the paths in their order, and all identifiers belong to
    them. -/
theorem exists_chains (h : Woven rest ps) : ∀ front : List Token, Border front rest →
    ∃ chains : List Chain, chains.map Chain.path = ps ∧
      chains.Pairwise (fun c d => c.stop ≤ d.start) ∧
      (∀ c, c ∈ chains ↔ c.Maximal (front ++ rest) ∧ front.length ≤ c.start) ∧
      ∀ k name, front.length ≤ k → (front ++ rest)[k]? = some (.identifier name) →
        ∃ c ∈ chains, c.Covers k := by
  induction h with
  | nil =>
    intro front _
    refine ⟨[], rfl, .nil, fun c => ⟨nofun, fun ⟨hc, hstart⟩ => ?_⟩, fun k name hk hname => ?_⟩
    · have hlt := hc.written.start_lt_stop
      have hle := hc.written.stop_le
      rw [List.append_nil] at hle
      omega
    · rw [List.append_nil, List.getElem?_eq_none hk] at hname
      cases hname
  | @other t rest ps hforeign _ ih =>
    intro front _
    have hlast : Border (front ++ [t]) rest := .inl (by simpa using hforeign)
    obtain ⟨chains, hpaths, horder, hmem, hcover⟩ := ih _ hlast
    rw [List.append_assoc, List.singleton_append, List.length_append, List.length_singleton] at *
    have hget : (front ++ t :: rest)[front.length]? = some t := by simp
    refine ⟨chains, hpaths, horder, fun c => ?_, fun k name hk hname => ?_⟩
    · rw [hmem]
      refine and_congr_right fun hc => ⟨fun hle => by omega, fun hle => ?_⟩
      by_contra hlt
      have hstart := hc.written.start_lt_stop
      exact hc.written.not_foreign ⟨by omega, by omega⟩ hget hforeign
    · refine hcover k name ?_ hname
      by_contra hlt
      obtain rfl : k = front.length := by omega
      rw [hget] at hname
      exact hforeign.2 name (Option.some.inj hname)
  | @path us rest p ps hpath hhead _ ih =>
    intro front hborder
    obtain ⟨chains, hpaths, horder, hmem, hcover⟩ := ih (front ++ us) (.inr hhead)
    rw [List.append_assoc, List.length_append] at *
    have hmax := @maximal_iff us front rest p hpath hborder (.inr hhead)
    refine ⟨⟨front.length, front.length + us.length, p⟩ :: chains, ?_, ?_, fun c => ?_,
      fun k name hk hname => ?_⟩
    · rw [List.map_cons, hpaths]
    · exact List.pairwise_cons.2 ⟨fun d hd => ((hmem d).1 hd).2, horder⟩
    · rw [List.mem_cons, hmem]
      by_cases hstart : front.length ≤ c.start ∧ c.start < front.length + us.length
      · rw [hmax hstart.1 hstart.2, and_iff_left hstart.1]
        exact or_iff_left fun hc => by omega
      · have hne : c ≠ ⟨front.length, front.length + us.length, p⟩ := by
          rintro rfl
          have hpos := List.length_pos_iff.2 hpath.ne_nil
          dsimp only at hstart
          omega
        rw [or_iff_right hne]
        refine and_congr_right fun _ => ⟨fun hle => by omega, fun hle => by omega⟩
    · by_cases hlt : k < front.length + us.length
      · exact ⟨_, List.mem_cons_self, hk, hlt⟩
      · obtain ⟨c, hc, hcovers⟩ := hcover k name (by omega) hname
        exact ⟨c, List.mem_cons_of_mem _ hc, hcovers⟩

end Woven

/-! ## Expressions -/

theorem foreign_sign {s : Sign} (h : s ≠ .dot) : Foreign (.sign s) :=
  ⟨fun heq => h (Token.sign.inj heq), nofun⟩

namespace Productions

variable {ts us : List Token}

theorem IsLiteral.foreign {t : Token} {l : Literal} (h : IsLiteral t l) : Foreign t := by
  cases h <;> exact ⟨nofun, nofun⟩

theorem IsLiteral.woven {t : Token} {l : Literal} (h : IsLiteral t l) : Woven [t] [] :=
  .other h.foreign .nil

theorem IsOperand.woven {o : Operand} (h : IsOperand ts o) : Woven ts o.reads := by
  cases h with
  | literal hl => exact hl.woven
  | path hp => exact .single hp

theorem IsArithmetic.woven {a : Arithmetic} (h : IsArithmetic ts a) : Woven ts [a.path] := by
  have hnumber : ∀ x, Foreign (.number x) := fun x => (IsLiteral.number x).foreign
  have hop : ∀ op : ArithmeticOp, Foreign (.sign op.sign) := fun op =>
    foreign_sign (by cases op <;> decide)
  cases h with
  | bare op x hp =>
    have hwoven := ((Woven.single hp).concat (hop op)).concat (hnumber x)
    rwa [List.append_assoc] at hwoven
  | @parenthesized us p op x hp =>
    have hwoven := (((Woven.single hp).concat (hop op)).concat (hnumber x)).concat
      (foreign_sign (s := .closeParen) (by decide))
    rw [List.append_assoc, List.append_assoc] at hwoven
    exact .other (foreign_sign (by decide)) hwoven

theorem IsPart.woven {part : ConcatPart} (h : IsPart ts part) : Woven ts part.reads := by
  cases h with
  | literal hl => exact hl.woven
  | path hp => exact .single hp
  | arithmetic ha => exact ha.woven

theorem IsChain.woven {parts : List ConcatPart} (h : IsChain ts parts) :
    Woven ts (parts.flatMap ConcatPart.reads) := by
  induction h with
  | single hpart =>
    rw [List.flatMap_singleton]
    exact hpart.woven
  | cons hpart _ ih =>
    rw [List.flatMap_cons]
    exact hpart.woven.append (foreign_sign (by decide)) ih

theorem IsSimple.woven {e : Expr} (h : IsSimple ts e) : Woven ts e.reads := by
  cases h with
  | path hp => exact .single hp
  | literal hl => exact hl.woven
  | compare op hp ho =>
    exact (Woven.single hp).append (foreign_sign (by cases op <;> decide)) ho.woven
  | arithmetic ha => exact ha.woven
  | concat hparts => exact hparts.woven
  | not hp => exact .other (foreign_sign (by decide)) (.single hp)
  | ternary hp ht hu =>
    exact (Woven.single hp).append (foreign_sign (by decide))
      (.other ht.foreign (.other (foreign_sign (by decide)) hu.woven))

theorem IsExpr.woven {e : Expr} (h : IsExpr ts e) : Woven ts e.reads := by
  cases h with
  | simple hsimple => exact hsimple.woven
  | logical op hleft hright =>
    exact hleft.woven.append (foreign_sign (by cases op <;> decide)) hright.woven

theorem IsExpr.ne_nil {e : Expr} (h : IsExpr ts e) : ts ≠ [] := by
  rintro rfl
  have hread : Grammar.expression.parse [] = .ok e := Grammar.parse_expression_iff.2 h
  cases hread

end Productions

theorem parseExpression_iff_spells {source : String} {e : Expr} :
    parseExpression source = .ok e ↔
      ∃ ts, Lexer.Spells (Lexer.locateFrom 0 source.toList) ts [] ∧ IsExpr ts e := by
  rw [parseExpression_iff]
  constructor
  · rintro ⟨tokens, htokens, he⟩
    exact ⟨_, Lexer.tokenize_iff.1 ⟨tokens, htokens, rfl⟩, he⟩
  · rintro ⟨ts, hspells, he⟩
    obtain ⟨tokens, htokens, rfl⟩ := Lexer.tokenize_iff.2 hspells
    exact ⟨tokens, htokens, he⟩

/-- Trimming does not change an expression. -/
theorem parseExpression_trim {source : String} {e : Expr} (h : parseExpression source = .ok e) :
    parseExpression (Text.trim source) = .ok e := by
  obtain ⟨ts, hspells, he⟩ := parseExpression_iff_spells.1 h
  refine parseExpression_iff_spells.2 ⟨ts, ?_, he⟩
  rw [Text.trim_eq]
  exact hspells.trim he.ne_nil

/-- A compiled text depends on the paths of its expression. -/
theorem CompiledExpression.dependencies_compile {source : String} {e : Expr}
    (h : parseExpression source = .ok e) :
    (CompiledExpression.compile source).dependencies = e.paths.map Path.dotted := by
  have htrim := parseExpression_trim h
  unfold CompiledExpression.dependencies CompiledExpression.paths CompiledExpression.compile
  dsimp only
  rw [htrim]

/-- The paths of an expression are what it reads without later occurrences. -/
theorem Expr.distinct_eq (ps : List Path) :
    ∀ seen : List Path, Expr.distinct seen ps = (ps.filter (· ∉ seen)).eraseDups := by
  induction ps with
  | nil => exact fun _ => rfl
  | cons p ps ih =>
    intro seen
    rw [Expr.distinct]
    split
    · next hseen => rw [ih, List.filter_cons_of_neg (by simpa using hseen)]
    · next hnew =>
      rw [ih, List.filter_cons_of_pos (by simpa using hnew), List.eraseDups_cons,
        List.filter_filter]
      congr 2
      refine List.filter_congr fun q _ => ?_
      rw [Bool.eq_iff_iff]
      simp

theorem Expr.paths_eq (e : Expr) : e.paths = e.reads.eraseDups := by
  rw [Expr.paths, Expr.distinct_eq]
  simp

/-- Of chains that stand one after the other, no two have a token in common. -/
theorem Chain.eq_of_covers {chains : List Chain}
    (h : chains.Pairwise fun c d => c.stop ≤ d.start) {c d : Chain} (hc : c ∈ chains)
    (hd : d ∈ chains) {k : Nat} (hck : c.Covers k) (hdk : d.Covers k) : c = d := by
  obtain ⟨hc₁, hc₂⟩ := hck
  obtain ⟨hd₁, hd₂⟩ := hdk
  induction h with
  | nil => cases hc
  | cons hfirst _ ih =>
    rcases List.mem_cons.1 hc with rfl | hc'
    · rcases List.mem_cons.1 hd with rfl | hd'
      · rfl
      · have hle := hfirst d hd'
        omega
    · rcases List.mem_cons.1 hd with rfl | hd'
      · have hle := hfirst c hc'
        omega
      · exact ih hc' hd'

/-- What an expression reads are the maximal chains of identifiers among its tokens, in their order,
    without later occurrences. So every identifier belongs to one chain, which the expression
    depends on, and it depends on nothing else. -/
theorem paths_eq_maximal_chains {source : String} {e : Expr} (h : parseExpression source = .ok e) :
    ∃ tokens, ∃ chains : List Chain, Lexer.tokenize source = .ok tokens ∧
      let ts := tokens.map Located.item
      let dependencies := (CompiledExpression.compile source).dependencies
      (∀ c, c ∈ chains ↔ Chain.Maximal ts c) ∧
      chains.Pairwise (fun c d => c.stop ≤ d.start) ∧
      e.paths = (chains.map Chain.path).eraseDups ∧
      dependencies = e.paths.map Path.dotted ∧
      (∀ k name, ts[k]? = some (.identifier name) →
        ∃! c : Chain, c.Maximal ts ∧ c.Covers k ∧ c.path.dotted ∈ dependencies) ∧
      ∀ read, read ∈ dependencies ↔ ∃ c : Chain, c.Maximal ts ∧ c.path.dotted = read := by
  obtain ⟨tokens, htokens, he⟩ := parseExpression_iff.1 h
  obtain ⟨chains, hpaths, horder, hmem, hcover⟩ := he.woven.exists_chains [] (.inl nofun)
  have hmaximal : ∀ c, c ∈ chains ↔ c.Maximal (tokens.map Located.item) := fun c => by
    rw [hmem, List.nil_append]
    exact and_iff_left (Nat.zero_le _)
  have hdistinct : e.paths = (chains.map Chain.path).eraseDups := by rw [e.paths_eq, hpaths]
  have hdepends := CompiledExpression.dependencies_compile h
  have hreads : ∀ read, read ∈ (CompiledExpression.compile source).dependencies ↔
      ∃ c : Chain, c.Maximal (tokens.map Located.item) ∧ c.path.dotted = read := fun read => by
    rw [hdepends, hdistinct]
    simp [hmaximal]
  refine ⟨tokens, chains, htokens, hmaximal, horder, hdistinct, hdepends, fun k name hk => ?_,
    hreads⟩
  obtain ⟨c, hc, hcovers⟩ := hcover k name (Nat.zero_le _) hk
  refine ⟨c, ⟨(hmaximal c).1 hc, hcovers, (hreads _).2 ⟨c, (hmaximal c).1 hc, rfl⟩⟩, ?_⟩
  rintro d ⟨hd, hdcovers, -⟩
  exact Chain.eq_of_covers horder ((hmaximal d).2 hd) hc hdcovers hcovers

/-- A path that stands twice is reported once, and both places belong to chains of it. -/
theorem comparison_chains :
    let e : Expr :=
      .logical (.compare ⟨"a", ["b"]⟩ .looseEqual (.path ⟨"c", []⟩)) .and (.path ⟨"a", ["b"]⟩)
    let ts : List Token := [.identifier "a", .sign .dot, .identifier "b", .sign .looseEqual,
      .identifier "c", .sign .and, .identifier "a", .sign .dot, .identifier "b"]
    parseExpression "a.b == c && a.b" = .ok e ∧
      (CompiledExpression.compile "a.b == c && a.b").dependencies = ["a.b", "c"] ∧
      ∀ k ∈ [0, 2, 4, 6, 8], ∃! c : Chain, c.Maximal ts ∧ c.Covers k ∧
        c.path.dotted ∈ ["a.b", "c"] := by
  intro e ts
  have hparse : parseExpression "a.b == c && a.b" = .ok e := rfl
  obtain ⟨tokens, chains, htokens, -, -, -, hdepends, hone, -⟩ := paths_eq_maximal_chains hparse
  have hreads : (CompiledExpression.compile "a.b == c && a.b").dependencies = ["a.b", "c"] :=
    hdepends.trans rfl
  have hitems : tokens.map Located.item = ts := by
    have hmap : (Lexer.tokenize "a.b == c && a.b").map (List.map Located.item) = .ok ts := rfl
    rw [htokens] at hmap
    exact Except.ok.inj hmap
  rw [hreads, hitems] at hone
  refine ⟨hparse, hreads, ?_⟩
  simp only [List.forall_mem_cons]
  exact ⟨hone 0 "a" rfl, hone 2 "b" rfl, hone 4 "c" rfl, hone 6 "a" rfl, hone 8 "b" rfl, nofun⟩

end ReactiveTemplate
