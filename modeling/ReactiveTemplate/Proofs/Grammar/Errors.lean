import ReactiveTemplate.Proofs.Grammar.LongestMatch

/-!
# Places of syntax errors

A syntax error points into its source. Reading fails at some item of the text, a character for the
lexer and a token for the three grammars, or at its end, and items lie between characters.

* `Stays`: a rule leaves the end of what it was given, and its failures do so as well.
* `Lexer.stays_tokens`, `Grammar.stays_expression`, `Grammar.stays_forClause`,
  `Grammar.stays_eventAction`: the lexer and the grammars.
* `LiesIn`: a place between characters of a text.
* `SyntaxError.PointsInto`: what the place of an error is.
* `syntax_errors_point_into_source`: the errors of the three readers.
-/

namespace ReactiveTemplate

variable {σ α β : Type}

/-! ## Furthest stops -/

/-- What was left at a stop is the end of some items. -/
def StopsWithin (whole : List (Located σ)) (furthest : Furthest σ) : Prop :=
  ∀ stop ∈ furthest, stop.rest <:+ whole

variable {whole items : List (Located σ)} {furthest : Furthest σ}

theorem stopsWithin_none : StopsWithin whole none := nofun

theorem stopsWithin_some {stop : Stop σ} : StopsWithin whole (some stop) ↔ stop.rest <:+ whole := by
  simp [StopsWithin]

theorem StopsWithin.record (h : StopsWithin whole furthest) (hitems : items <:+ whole)
    (e : Expectation) : StopsWithin whole (Stop.record items e furthest) := by
  cases furthest with
  | none => exact stopsWithin_some.2 hitems
  | some stop =>
    have hstop : stop.rest <:+ whole := stopsWithin_some.1 h
    rw [Stop.record]
    split
    · exact stopsWithin_some.2 hitems
    · split
      · exact stopsWithin_some.2 hstop
      · exact stopsWithin_some.2 hstop

theorem StopsWithin.merge {newer : Furthest σ} (h : StopsWithin whole furthest)
    (hnewer : StopsWithin whole newer) : StopsWithin whole (Stop.merge furthest newer) := by
  cases furthest with
  | none => exact hnewer
  | some a =>
    cases newer with
    | none => exact h
    | some b =>
      have ha : a.rest <:+ whole := stopsWithin_some.1 h
      have hb : b.rest <:+ whole := stopsWithin_some.1 hnewer
      rw [Stop.merge]
      split
      · exact stopsWithin_some.2 hb
      · split
        · exact stopsWithin_some.2 ha
        · split <;> exact stopsWithin_some.2 ha

namespace Rule

/-! ## Rules -/

/-- A rule stays within what it was given: it leaves the end of it, and so do the failures it
    adds to the ones before. -/
structure Stays (p : Rule σ α) : Prop where
  leaves : p.Leaves
  trace : ∀ {whole items : List (Located σ)} {furthest : Furthest σ}, items <:+ whole →
    StopsWithin whole furthest → StopsWithin whole (p.trace items furthest)

theorem stays_pure (a : α) : (pure a : Rule σ α).Stays := ⟨leaves_pure a, fun _ h => h⟩

theorem stays_satisfy (e e' : Expectation) (meaning : σ → Option α) :
    (satisfy e e' meaning).Stays := by
  refine ⟨leaves_satisfy e e' meaning, fun {whole items furthest} hitems h => ?_⟩
  cases items with
  | nil => exact h.record hitems e'
  | cons i rest =>
    rw [satisfy]
    dsimp only
    split
    · exact h
    · exact h.record hitems e

theorem Stays.bind {p : Rule σ α} {q : α → Rule σ β} (hp : p.Stays) (hq : ∀ a, (q a).Stays) :
    (p >>= q).Stays := by
  refine ⟨hp.leaves.bind fun a => (hq a).leaves, fun {whole items furthest} hitems h => ?_⟩
  have htrace := hp.trace hitems h
  change StopsWithin whole ((andThen p q).trace items furthest)
  rw [andThen]
  dsimp only
  split
  · exact htrace
  · next a rest hread => exact (hq a).trace ((hp.leaves items a rest hread).trans hitems) htrace

theorem Stays.map {p : Rule σ α} (hp : p.Stays) (f : α → β) : (f <$> p).Stays :=
  hp.bind fun a => stays_pure (f a)

theorem Stays.orElse {p q : Rule σ α} (hp : p.Stays) (hq : q.Stays) : (orElse p q).Stays := by
  constructor
  · intro items a rest h
    rcases read_orElse_eq_some.1 h with h | ⟨-, h⟩
    · exact hp.leaves items a rest h
    · exact hq.leaves items a rest h
  · intro whole items furthest hitems h
    rw [Rule.orElse]
    dsimp only
    split
    · exact hp.trace hitems h
    · exact hq.trace hitems (hp.trace hitems h)

theorem stays_choice {rules : List (Rule σ α)} {last : Rule σ α}
    (h : ∀ p ∈ rules ++ [last], p.Stays) : (choice rules last).Stays := by
  induction rules with
  | nil => exact h last (List.mem_singleton.2 rfl)
  | cons first rules ih =>
    exact .orElse (h first List.mem_cons_self) (ih fun p hp => h p (List.mem_cons_of_mem _ hp))

theorem Stays.optional {p : Rule σ α} (hp : p.Stays) : (optional p).Stays :=
  ⟨hp.leaves.optional, hp.trace⟩

theorem Stays.traceUpTo {p : Rule σ α} (hp : p.Stays) (n : Nat) :
    ∀ {whole items : List (Located σ)} {furthest : Furthest σ}, items <:+ whole →
      StopsWithin whole furthest → StopsWithin whole (traceUpTo p n items furthest) := by
  induction n with
  | zero => exact fun _ h => h
  | succ n ih =>
    intro whole items furthest hitems h
    rw [Rule.traceUpTo]
    split
    · exact hp.trace hitems h
    · next a rest hread =>
      exact ih ((hp.leaves items a rest hread).trans hitems) (hp.trace hitems h)

theorem Stays.repeated {p : Rule σ α} (hp : p.Stays) : (repeated p).Stays :=
  ⟨hp.leaves.repeated, hp.traceUpTo _⟩

theorem Stays.checked {p : Rule σ α} (hp : p.Stays) (check : α → Bool) :
    (checked p check).Stays := by
  constructor
  · exact fun items a rest h => hp.leaves items a rest (read_checked_eq_some.1 h).1
  · intro whole items furthest hitems h
    -- The failures of the rule are merged into the ones before, unless the check fails.
    have hmerge := h.merge (hp.trace hitems stopsWithin_none)
    rw [Rule.checked]
    dsimp only
    split
    · split
      · exact hmerge
      · exact h
    · exact hmerge

theorem Stays.located {p : Rule σ α} (hp : p.Stays) : (located p).Stays := by
  refine ⟨fun items a rest h => ?_, hp.trace⟩
  rw [Rule.located] at h
  dsimp only at h
  split at h
  · next b rest' hread =>
    obtain ⟨-, rfl⟩ := Prod.mk.inj (Option.some.inj h)
    exact hp.leaves items b rest' hread
  · cases h

theorem stays_skip (class? : σ → Bool) : (skip class?).Stays := by
  refine ⟨fun items a rest h => ?_, fun _ h => h⟩
  obtain ⟨-, rfl⟩ := Prod.mk.inj (Option.some.inj h)
  exact List.dropWhile_suffix _

/-- A rejected text has its furthest stop within it. -/
theorem Stays.parse {p : Rule σ α} (hp : p.Stays) (h : p.parse items = .error furthest) :
    StopsWithin items furthest := by
  have htrace := hp.trace (List.suffix_refl items) stopsWithin_none
  rw [Rule.parse] at h
  split at h
  · cases h
  · next a rest _ hread =>
    obtain rfl := Except.error.inj h
    exact htrace.record (hp.leaves items a rest hread) _
  · obtain rfl := Except.error.inj h
    exact htrace

end Rule

/-! ## The lexer -/

namespace Lexer

open Rule

theorem stays_word (cs : List Char) : (word cs).Stays := by
  induction cs with
  | nil => exact stays_pure ()
  | cons c cs ih => exact (stays_satisfy _ _ _).bind fun _ => ih

theorem stays_sign (s : Sign) : (sign s).Stays :=
  (stays_word _).bind fun _ => stays_pure _

/-- A character of a class, and what goes on by characters of another one. -/
theorem stays_charOf_repeated {e₁ e₂ e₃ e₄ : Expectation} {first other : Char → Bool}
    (result : Char → List Char → α) : (do
      let c ← charOf e₁ e₂ first
      let cs ← repeated (charOf e₃ e₄ other)
      return result c cs : Rule Char α).Stays :=
  (stays_satisfy _ _ _).bind fun _ => (stays_satisfy _ _ _).repeated.bind fun _ => stays_pure _

theorem stays_digits : digits.Stays := stays_charOf_repeated _

theorem stays_identifier : identifier.Stays := stays_charOf_repeated _

theorem stays_number : number.Stays :=
  have hfraction : fraction.Stays := (stays_satisfy _ _ _).bind fun _ => stays_digits
  stays_digits.bind fun _ => hfraction.optional.bind fun _ => stays_pure _

theorem stays_text : text.Stays :=
  (stays_satisfy _ _ _).bind fun _ => (stays_satisfy _ _ _).repeated.bind fun _ =>
    (stays_satisfy _ _ _).bind fun _ => stays_pure _

theorem stays_token : token.Stays :=
  stays_choice (forall_token stays_sign stays_number stays_text stays_identifier)

theorem stays_tokens : tokens.Stays :=
  have hpadded : paddedToken.Stays :=
    (stays_skip _).bind fun _ => stays_token.located.bind fun _ => (stays_skip _).bind fun _ =>
      stays_pure _
  hpadded.repeated

end Lexer

/-! ## The grammars -/

namespace Grammar

open Rule

theorem stays_select (meaning : Token → Option α) : (select meaning).Stays := stays_satisfy _ _ _

theorem stays_sign (s : Sign) : (sign s).Stays := stays_satisfy _ _ _

theorem stays_path : path.Stays :=
  have hsegment : segment.Stays := (stays_sign _).bind fun _ => stays_select _
  (stays_select _).bind fun _ => hsegment.repeated.bind fun _ => stays_pure _

theorem stays_literal : literal.Stays := stays_select _

theorem stays_operand : operand.Stays := (stays_literal.map _).orElse (stays_path.map _)

theorem stays_arithmetic : arithmetic.Stays :=
  stays_path.bind fun _ => (stays_select _).bind fun _ => (stays_select _).bind fun _ =>
    stays_pure _

theorem stays_parenthesized : parenthesized.Stays :=
  (stays_sign _).bind fun _ => stays_arithmetic.bind fun _ => (stays_sign _).bind fun _ =>
    stays_pure _

theorem stays_ternary : ternary.Stays :=
  stays_path.bind fun _ => (stays_sign _).bind fun _ => stays_literal.bind fun _ =>
    (stays_sign _).bind fun _ => stays_literal.bind fun _ => stays_pure _

theorem stays_comparison : comparison.Stays :=
  stays_path.bind fun _ => (stays_select _).bind fun _ => stays_operand.bind fun _ => stays_pure _

theorem stays_concatPart : concatPart.Stays :=
  (stays_parenthesized.map _).orElse ((stays_literal.map _).orElse (stays_path.map _))

theorem stays_parts : parts.Stays :=
  have hfurther : furtherPart.Stays := (stays_sign _).bind fun _ => stays_concatPart
  stays_concatPart.bind fun _ => hfurther.bind fun _ => hfurther.repeated.bind fun _ => stays_pure _

theorem stays_concat : concat.Stays := (stays_parts.checked _).bind fun _ => stays_pure _

theorem stays_negation : negation.Stays :=
  (stays_sign _).bind fun _ => stays_path.bind fun _ => stays_pure _

theorem stays_simple : simple.Stays :=
  have hoperation := (stays_parenthesized.orElse stays_arithmetic).map Expr.arithmetic
  stays_ternary.orElse <| stays_comparison.orElse <| stays_concat.orElse <| hoperation.orElse <|
    stays_negation.orElse <| (stays_literal.map _).orElse (stays_path.map _)

theorem stays_expression : expression.Stays :=
  have htail : logicalTail.Stays :=
    (stays_select _).bind fun _ => stays_simple.bind fun _ => stays_pure _
  stays_simple.bind fun _ => htail.optional.bind fun _ => stays_pure _

theorem stays_forClause : forClause.Stays :=
  (stays_select _).bind fun _ => (stays_select _).bind fun _ => stays_path.bind fun _ =>
    stays_pure _

theorem stays_eventAction : eventAction.Stays :=
  have hcall : call.Stays :=
    (stays_select _).bind fun _ => (stays_sign _).bind fun _ => (stays_sign _).bind fun _ =>
      stays_pure _
  have hstep : step.Stays := stays_path.bind fun _ => (stays_select _).bind fun _ => stays_pure _
  have hassignment : assignment.Stays :=
    stays_path.bind fun _ => (stays_sign _).bind fun _ => stays_operand.bind fun _ => stays_pure _
  hcall.orElse (hstep.orElse hassignment)

end Grammar

/-! ## Places -/

/-- Two numbers of bytes are the start and the stop of a part of a text. -/
def LiesIn (source : String) (start stop : Nat) : Prop :=
  ∃ before inside after : String, source = before ++ inside ++ after ∧
    start = before.utf8ByteSize ∧ stop = before.utf8ByteSize + inside.utf8ByteSize

variable {source : String}

theorem liesIn_whole (source : String) : LiesIn source 0 source.utf8ByteSize :=
  ⟨"", source, "", by simp, rfl, by simp⟩

theorem liesIn_end (source : String) : LiesIn source source.utf8ByteSize source.utf8ByteSize :=
  ⟨source, "", "", by simp, rfl, by simp⟩

namespace Lexer

theorem liesIn_of_mem_locateFrom {i : Located Char} {cs : List Char} :
    ∀ {place : Nat}, i ∈ locateFrom place cs → ∃ before c after, cs = before ++ c :: after ∧
      i.start = place + byteSize before ∧ i.stop = i.start + c.utf8Size := by
  induction cs with
  | nil => exact nofun
  | cons c cs ih =>
    intro place hi
    rcases List.mem_cons.1 hi with rfl | hi
    · exact ⟨[], c, cs, rfl, rfl, rfl⟩
    · obtain ⟨before, d, after, rfl, hstart, hstop⟩ := ih hi
      exact ⟨c :: before, d, after, rfl, by rw [hstart, byteSize, Nat.add_assoc], hstop⟩

/-- Characters lie where they are located. -/
theorem liesIn_of_mem_locateChars {i : Located Char} (hi : i ∈ locateChars source) :
    LiesIn source i.start i.stop := by
  obtain ⟨before, c, after, hsource, hstart, hstop⟩ := liesIn_of_mem_locateFrom hi
  refine ⟨String.ofList before, String.singleton c, String.ofList after, ?_, ?_, ?_⟩
  · rw [← String.toList_inj, hsource]
    simp
  · rw [hstart, utf8ByteSize_ofList, Nat.zero_add]
  · rw [hstop, hstart, utf8ByteSize_ofList, String.utf8ByteSize_singleton, Nat.zero_add]

/-- So do tokens. -/
theorem liesIn_of_mem_tokens {result : List (Located Token)} {i : Located Token}
    (h : tokenize source = .ok result) (hi : i ∈ result) : LiesIn source i.start i.stop := by
  have hlossless := (longestMatch_of_read result (tokenize_eq_ok.1 h)).lossless
  obtain ⟨before, word, after, hsource, hstart, hstop, -⟩ := hlossless.spelled i hi
  exact ⟨before, word, after, hsource, hstart, hstop⟩

end Lexer

namespace SyntaxError

/-- The place of an error is a part of its source: it lies between the ends of the source, it begins
    and ends at borders of characters, and the source can be cut there. -/
structure PointsInto (error : SyntaxError) (source : String) : Prop where
  start_le_stop : error.start ≤ error.stop
  stop_le : error.stop ≤ source.utf8ByteSize
  start_isValid : String.Pos.Raw.IsValid source ⟨error.start⟩
  stop_isValid : String.Pos.Raw.IsValid source ⟨error.stop⟩
  cuts : ∃ before inside after : String, source = before ++ inside ++ after ∧
    before.utf8ByteSize = error.start ∧ inside.utf8ByteSize = error.stop - error.start

theorem pointsInto_of_liesIn {error : SyntaxError} (h : LiesIn source error.start error.stop) :
    error.PointsInto source := by
  obtain ⟨before, inside, after, rfl, hstart, hstop⟩ := h
  refine ⟨?_, ?_, ?_, ?_, before, inside, after, rfl, hstart.symm, ?_⟩
  · rw [hstart, hstop]
    exact Nat.le_add_right _ _
  · rw [hstop, String.utf8ByteSize_append, String.utf8ByteSize_append]
    exact Nat.le_add_right _ _
  · rw [String.append_assoc, String.Pos.Raw.isValid_iff_exists_append]
    exact ⟨before, inside ++ after, rfl, by rw [hstart]; rfl⟩
  · rw [String.Pos.Raw.isValid_iff_exists_append]
    exact ⟨before ++ inside, after, rfl, by rw [hstop, ← String.utf8ByteSize_append]; rfl⟩
  · rw [hstop, hstart, Nat.add_sub_cancel_left]

/-- The error of a stop points into a text whose items lie in it. -/
theorem ofStop_pointsInto {items : List (Located σ)} {furthest : Furthest σ} (spelling : σ → String)
    (hitems : ∀ i ∈ items, LiesIn source i.start i.stop) (h : StopsWithin items furthest) :
    (ofStop spelling source.utf8ByteSize furthest).PointsInto source := by
  apply pointsInto_of_liesIn
  cases furthest with
  | none => exact liesIn_whole source
  | some stop =>
    have hstop : stop.rest <:+ items := stopsWithin_some.1 h
    rw [ofStop]
    split
    · exact liesIn_end source
    -- The error takes the place of the first item that is left.
    · next i rest hrest => exact hitems i (hstop.subset (hrest ▸ List.mem_cons_self))

end SyntaxError

/-! ## Readers -/

theorem Lexer.tokenize_error_pointsInto {error : SyntaxError} (h : tokenize source = .error error) :
    error.PointsInto source := by
  unfold tokenize at h
  split at h
  · cases h
  · next furthest hparse =>
    obtain rfl := Except.error.inj h
    exact SyntaxError.ofStop_pointsInto _ (fun _ => liesIn_of_mem_locateChars)
      (stays_tokens.parse hparse)

theorem parseWith_error_pointsInto {rule : Rule Token α} (hrule : rule.Stays) {error : SyntaxError}
    (h : parseWith rule source = .error error) : error.PointsInto source := by
  unfold parseWith at h
  split at h
  · next e htokens =>
    obtain rfl := Except.error.inj h
    exact Lexer.tokenize_error_pointsInto htokens
  · next tokens htokens =>
    split at h
    · cases h
    · next furthest hparse =>
      obtain rfl := Except.error.inj h
      exact SyntaxError.ofStop_pointsInto _ (fun _ => Lexer.liesIn_of_mem_tokens htokens)
        (hrule.parse hparse)

/-- Whatever text is rejected by one of the three readers, the error points into it. -/
theorem syntax_errors_point_into_source (source : String) (error : SyntaxError) :
    (parseExpression source = .error error → error.PointsInto source) ∧
      (parseForClause source = .error error → error.PointsInto source) ∧
      (parseEventAction source = .error error → error.PointsInto source) :=
  ⟨parseWith_error_pointsInto Grammar.stays_expression,
    parseWith_error_pointsInto Grammar.stays_forClause,
    parseWith_error_pointsInto Grammar.stays_eventAction⟩

/-- Errors at a character, at a token and at the end, in texts with characters of two bytes. -/
theorem accented_errors_point_into_source :
    (∃ error, parseExpression "'é' + ü" = .error error ∧ error.start = 7 ∧ error.stop = 9 ∧
      error.PointsInto "'é' + ü") ∧
    (∃ error, parseForClause "x 'é'" = .error error ∧ error.start = 2 ∧ error.stop = 6 ∧
      error.PointsInto "x 'é'") ∧
    ∃ error, parseEventAction "a = 'é" = .error error ∧ error.start = 7 ∧ error.stop = 7 ∧
      error.PointsInto "a = 'é" :=
  ⟨⟨_, rfl, rfl, rfl, (syntax_errors_point_into_source _ _).1 rfl⟩,
    ⟨_, rfl, rfl, rfl, (syntax_errors_point_into_source _ _).2.1 rfl⟩,
    _, rfl, rfl, rfl, (syntax_errors_point_into_source _ _).2.2 rfl⟩

end ReactiveTemplate
