import Mathlib.Data.List.TakeWhile
import ReactiveTemplate.Proofs.Grammar.Actions
import ReactiveTemplate.Proofs.Grammar.Names

/-!
# What ends a token

White space and semicolons end every token but a quoted text. So a token that is read at the
end of a text is read as well where more text follows that begins with one of them, and
nothing else is read there instead unless the text has opened a quote.

* `Rule.Leaves`, `Rule.EndsAt`: a rule leaves the end of a text, and reads a front of it as if
  nothing followed.
* `Lexer.head_of_read_token`: how tokens begin.
* `Lexer.token_endsAt`, `Lexer.token_endsAt_of_read`: a token before a border.
-/

namespace ReactiveTemplate

namespace Rule

variable {σ α β : Type}

/-! ## What a rule leaves -/

/-- What a rule leaves is the end of what it was given. -/
def Leaves (p : Rule σ α) : Prop :=
  ∀ items a rest, p.read items = some (a, rest) → rest <:+ items

theorem leaves_pure (a : α) : (pure a : Rule σ α).Leaves := by
  rintro items _ _ ⟨⟩
  exact List.suffix_refl items

theorem leaves_satisfy (e e' : Expectation) (meaning : σ → Option α) :
    (satisfy e e' meaning).Leaves := by
  intro items a rest h
  obtain ⟨t, -, front, rfl, -⟩ := read_satisfy_eq_some.1 h
  exact List.suffix_append front rest

/-- A rule leaves the end of what it was given, and takes something before it. -/
structure Takes (p : Rule σ α) : Prop where
  leaves : p.Leaves
  progresses : p.Progresses

theorem takes_satisfy (e e' : Expectation) (meaning : σ → Option α) :
    (satisfy e e' meaning).Takes := by
  refine ⟨leaves_satisfy e e' meaning, fun items a rest h => ?_⟩
  obtain ⟨t, -, hbegins⟩ := read_satisfy_eq_some.1 h
  obtain ⟨i, rfl, -⟩ := begins_singleton.1 hbegins
  exact Nat.lt_succ_self rest.length

theorem Leaves.bind {p : Rule σ α} {q : α → Rule σ β} (hp : p.Leaves) (hq : ∀ a, (q a).Leaves) :
    (p >>= q).Leaves := by
  intro items b rest h
  obtain ⟨a, mid, hfirst, hrest⟩ := read_bind_eq_some.1 h
  exact (hq a mid b rest hrest).trans (hp items a mid hfirst)

theorem Takes.bind {p : Rule σ α} {q : α → Rule σ β} (hp : p.Takes) (hq : ∀ a, (q a).Leaves) :
    (p >>= q).Takes := by
  refine ⟨hp.leaves.bind hq, fun items b rest h => ?_⟩
  obtain ⟨a, mid, hfirst, hrest⟩ := read_bind_eq_some.1 h
  exact Nat.lt_of_le_of_lt (hq a mid b rest hrest).length_le (hp.progresses items a mid hfirst)

theorem Leaves.optional {p : Rule σ α} (hp : p.Leaves) : (optional p).Leaves := by
  intro items a rest h
  rw [read_optional] at h
  cases hread : p.read items with
  | none =>
    rw [hread] at h
    obtain ⟨-, rfl⟩ := Prod.mk.inj (Option.some.inj h)
    exact List.suffix_refl items
  | some r =>
    rw [hread] at h
    obtain ⟨-, rfl⟩ := Prod.mk.inj (Option.some.inj h)
    exact hp items r.1 r.2 hread

theorem Leaves.readUpTo {p : Rule σ α} (hp : p.Leaves) (n : Nat) :
    ∀ items, (readUpTo p n items).2 <:+ items := by
  induction n with
  | zero => exact fun items => List.suffix_refl items
  | succ n ih =>
    intro items
    rw [Rule.readUpTo]
    cases hread : p.read items with
    | none => exact List.suffix_refl items
    | some r => exact (ih r.2).trans (hp items r.1 r.2 hread)

theorem Leaves.repeated {p : Rule σ α} (hp : p.Leaves) : (repeated p).Leaves := by
  intro items as rest h
  have hread : Rule.readUpTo p (items.length + 1) items = (as, rest) := Option.some.inj h
  have hleaves := hp.readUpTo (items.length + 1) items
  rwa [hread] at hleaves

theorem takes_choice {rules : List (Rule σ α)} {last : Rule σ α}
    (h : ∀ p ∈ rules ++ [last], p.Takes) : (choice rules last).Takes := by
  constructor
  · intro items a rest hread
    obtain ⟨p, hp, hread⟩ := exists_read_of_choice hread
    exact (h p hp).leaves items a rest hread
  · intro items a rest hread
    obtain ⟨p, hp, hread⟩ := exists_read_of_choice hread
    exact (h p hp).progresses items a rest hread

/-! ## Fronts of longer texts -/

section

variable (move : Located σ → Located σ) (back : List (Located σ))

/-- A rule reads the front of a longer text as if nothing followed. The front may lie at another
    place there. -/
def EndsAt (p : Rule σ α) (front : List (Located σ)) : Prop :=
  p.read (front.map move ++ back) = (p.read front).map fun r => (r.1, r.2.map move ++ back)

variable {move back}

theorem endsAt_pure (a : α) (front : List (Located σ)) :
    (pure a : Rule σ α).EndsAt move back front := rfl

theorem endsAt_satisfy {e e' : Expectation} {meaning : σ → Option α}
    (hmove : ∀ i, (move i).item = i.item) (hback : (headItem? back).bind meaning = none)
    (front : List (Located σ)) : (satisfy e e' meaning).EndsAt move back front := by
  cases front with
  | nil => exact read_satisfy_eq_none.2 hback
  | cons i rest =>
    show (meaning (move i).item).map _ = ((meaning i.item).map _).map _
    rw [hmove, Option.map_map]
    rfl

theorem EndsAt.bind {p : Rule σ α} {q : α → Rule σ β} {front : List (Located σ)}
    (hp : p.EndsAt move back front)
    (hq : ∀ a rest, p.read front = some (a, rest) → (q a).EndsAt move back rest) :
    (p >>= q).EndsAt move back front := by
  rw [EndsAt, read_bind, read_bind, hp]
  cases hread : p.read front with
  | none => rfl
  | some r => exact hq r.1 r.2 hread

theorem EndsAt.optional {p : Rule σ α} {front : List (Located σ)}
    (hp : p.EndsAt move back front) : (optional p).EndsAt move back front := by
  rw [EndsAt, read_optional, read_optional, hp]
  cases p.read front <;> rfl

theorem EndsAt.orElse {p q : Rule σ α} {front : List (Located σ)}
    (hp : p.EndsAt move back front) (hq : q.EndsAt move back front) :
    (orElse p q).EndsAt move back front := by
  rw [EndsAt, Rule.orElse]
  dsimp only
  rw [hp, hq]
  cases p.read front <;> rfl

theorem endsAt_choice {rules : List (Rule σ α)} {last : Rule σ α} {front : List (Located σ)}
    (h : ∀ p ∈ rules ++ [last], p.EndsAt move back front) :
    (choice rules last).EndsAt move back front := by
  induction rules with
  | nil => exact h last (List.mem_singleton.2 rfl)
  | cons first rules ih =>
    exact .orElse (h first List.mem_cons_self) (ih fun p hp => h p (List.mem_cons_of_mem _ hp))

theorem endsAt_repeated {p : Rule σ α} (hp : p.Progresses)
    (hends : ∀ front, p.EndsAt move back front) (n : Nat) :
    ∀ front : List (Located σ), front.length < n → (repeated p).EndsAt move back front := by
  induction n with
  | zero => intro front h; omega
  | succ n ih =>
    intro front hlength
    rw [EndsAt, read_repeated hp, read_repeated hp, hends front]
    cases hread : p.read front with
    | none => rfl
    | some r =>
      have hshorter := hp front r.1 r.2 hread
      have hrest := ih r.2 (by omega)
      rw [EndsAt] at hrest
      dsimp only [Option.map_some]
      rw [hrest, Option.map_map, Option.map_map]
      rfl

end

end Rule

namespace Lexer

/-! ## What tokens leave -/

variable {items rest : List (Located Char)}

theorem leaves_word (cs : List Char) : (word cs).Leaves := by
  induction cs with
  | nil => exact Rule.leaves_pure ()
  | cons c cs ih => exact (Rule.leaves_satisfy _ _ _).bind fun _ => ih

theorem spelling_ne_nil (s : Sign) : s.spelling.toList ≠ [] := by cases s <;> decide +kernel

theorem takes_sign (s : Sign) : (sign s).Takes := by
  have hword : ∀ cs : List Char, cs ≠ [] → (word cs).Takes
    | [], hcs => absurd rfl hcs
    | _ :: cs, _ => (Rule.takes_satisfy _ _ _).bind fun _ => leaves_word cs
  exact (hword _ (spelling_ne_nil s)).bind fun _ => Rule.leaves_pure _

/-- A character of a class, and what goes on by characters of another one. -/
theorem takes_charOf_repeated {α : Type} {e₁ e₂ e₃ e₄ : Expectation} {first other : Char → Bool}
    (result : Char → List Char → α) : (do
      let c ← charOf e₁ e₂ first
      let cs ← Rule.repeated (charOf e₃ e₄ other)
      return result c cs : Rule Char α).Takes :=
  (Rule.takes_satisfy _ _ _).bind fun _ => (Rule.leaves_satisfy _ _ _).repeated.bind fun _ =>
    Rule.leaves_pure _

theorem takes_digits : digits.Takes := takes_charOf_repeated _

theorem takes_identifier : identifier.Takes := takes_charOf_repeated _

theorem leaves_fraction : fraction.Leaves :=
  (Rule.leaves_satisfy _ _ _).bind fun _ => takes_digits.leaves

theorem takes_number : number.Takes :=
  takes_digits.bind fun _ => leaves_fraction.optional.bind fun _ => Rule.leaves_pure _

theorem takes_text : text.Takes :=
  (Rule.takes_satisfy _ _ _).bind fun _ => (Rule.leaves_satisfy _ _ _).repeated.bind fun _ =>
    (Rule.leaves_satisfy _ _ _).bind fun _ => Rule.leaves_pure _

/-- What holds for each kind of tokens holds for each alternative. -/
theorem forall_token {P : Rule Char Token → Prop} (hsign : ∀ s, P (sign s)) (hnumber : P number)
    (htext : P text) (hidentifier : P identifier) :
    ∀ p ∈ Sign.brackets.map sign ++ [number, text, identifier] ++ Sign.operators.dropLast.map sign
      ++ [sign .assign], P p := by
  intro p hp
  simp only [List.mem_append, List.mem_map, List.mem_cons, List.not_mem_nil, or_false] at hp
  rcases hp with ((⟨s, -, rfl⟩ | rfl | rfl | rfl) | ⟨s, -, rfl⟩) | rfl
  · exact hsign s
  · exact hnumber
  · exact htext
  · exact hidentifier
  · exact hsign s
  · exact hsign .assign

theorem takes_token : token.Takes :=
  Rule.takes_choice (forall_token takes_sign takes_number takes_text takes_identifier)

/-! ## Borders -/

/-- The characters that are in no token but a quoted text: the semicolon and white space. -/
def borders : List Nat := 0x3B :: Text.blanks

/-- What follows a text begins with a border, or nothing follows. -/
def Border (back : List (Located Char)) : Prop :=
  ∀ c, headItem? back = some c → c.toNat ∈ borders

/-- No sign holds a border. -/
theorem spelling_not_border (s : Sign) : ∀ c ∈ s.spelling.toList, c.toNat ∉ borders := by
  have hall : (s.spelling.toList.all fun c => !borders.contains c.toNat) = true := by
    cases s <;> rfl
  intro c hc
  simpa using List.all_eq_true.1 hall c hc

/-- What holds for the borders one by one holds at every border. -/
theorem forall_borders {P : Char → Bool} (h : borders.all fun n => P (Char.ofNat n)) {c : Char}
    (hc : c.toNat ∈ borders) : P c = true := by
  have hchar := List.all_eq_true.1 h c.toNat hc
  rwa [Char.ofNat_toNat] at hchar

section

variable {move : Located Char → Located Char} {back front : List (Located Char)}

theorem charOf_endsAt {e e' : Expectation} {member : Char → Bool}
    (hmove : ∀ i, (move i).item = i.item) (hback : Border back)
    (hmember : borders.all fun n => !member (Char.ofNat n)) (front : List (Located Char)) :
    (charOf e e' member).EndsAt move back front := by
  refine Rule.endsAt_satisfy hmove (Option.bind_eq_none_iff.2 fun c hc => ?_) front
  have hnot : (!member c) = true := forall_borders (P := fun c => !member c) hmember (hback c hc)
  rw [Bool.not_eq_true'] at hnot
  rw [hnot]
  rfl

theorem char_endsAt (hmove : ∀ i, (move i).item = i.item) (hback : Border back) {c : Char}
    (hc : c.toNat ∉ borders) (front : List (Located Char)) :
    (char c).EndsAt move back front := by
  refine Rule.endsAt_satisfy hmove (Option.bind_eq_none_iff.2 fun d hd => if_neg ?_) front
  rintro rfl
  exact hc (hback d hd)

theorem word_endsAt (hmove : ∀ i, (move i).item = i.item) (hback : Border back) (cs : List Char)
    (hcs : ∀ c ∈ cs, c.toNat ∉ borders) :
    ∀ front, (word cs).EndsAt move back front := by
  induction cs with
  | nil => exact fun front => Rule.endsAt_pure () front
  | cons c cs ih =>
    intro front
    have hfirst := char_endsAt hmove hback (hcs c List.mem_cons_self) front
    exact hfirst.bind fun _ rest _ => ih (fun d hd => hcs d (List.mem_cons_of_mem _ hd)) rest

theorem sign_endsAt (hmove : ∀ i, (move i).item = i.item) (hback : Border back) (s : Sign)
    (front : List (Located Char)) : (sign s).EndsAt move back front := by
  exact (word_endsAt hmove hback _ (spelling_not_border s) front).bind fun _ _ _ => Rule.endsAt_pure _ _

theorem charOf_repeated_endsAt {α : Type} {e₁ e₂ e₃ e₄ : Expectation} {first other : Char → Bool}
    (result : Char → List Char → α) (hmove : ∀ i, (move i).item = i.item) (hback : Border back)
    (hfirst : borders.all fun n => !first (Char.ofNat n))
    (hother : borders.all fun n => !other (Char.ofNat n)) (front : List (Located Char)) :
    (do
      let c ← charOf e₁ e₂ first
      let cs ← Rule.repeated (charOf e₃ e₄ other)
      return result c cs : Rule Char α).EndsAt move back front :=
  (charOf_endsAt hmove hback hfirst front).bind fun _ rest _ =>
    (Rule.endsAt_repeated (Rule.takes_satisfy _ _ _).progresses (charOf_endsAt hmove hback hother)
      _ rest (Nat.lt_succ_self _)).bind fun _ _ _ => Rule.endsAt_pure _ _

theorem digits_endsAt (hmove : ∀ i, (move i).item = i.item) (hback : Border back)
    (front : List (Located Char)) : digits.EndsAt move back front :=
  charOf_repeated_endsAt _ hmove hback (by decide) (by decide) front

theorem identifier_endsAt (hmove : ∀ i, (move i).item = i.item) (hback : Border back)
    (front : List (Located Char)) : identifier.EndsAt move back front :=
  charOf_repeated_endsAt _ hmove hback (by decide) (by decide) front

theorem number_endsAt (hmove : ∀ i, (move i).item = i.item) (hback : Border back)
    (front : List (Located Char)) : number.EndsAt move back front := by
  have hfraction : ∀ front, fraction.EndsAt move back front := fun front =>
    (char_endsAt hmove hback (by decide) front).bind fun _ rest _ => digits_endsAt hmove hback rest
  exact (digits_endsAt hmove hback front).bind fun _ rest _ =>
    (hfraction rest).optional.bind fun _ _ _ => Rule.endsAt_pure _ _

/-! ## Quoted texts -/

/-- Whether a character goes on with a quoted text. -/
def isInside (i : Located Char) : Bool := i.item != quoteMark

/-- A quoted text after its first quote. -/
def quoted : Rule Char Token := do
  let body ← Rule.repeated (charOf .somethingElse .somethingElse (· != quoteMark))
  char quoteMark
  return .text (String.ofList body)

theorem text_eq : text = (do char quoteMark; quoted) := rfl

theorem read_charOf_cons {e e' : Expectation} {member : Char → Bool} (i : Located Char)
    (rest : List (Located Char)) :
    (charOf e e' member).read (i :: rest) = if member i.item then some (i.item, rest) else none := by
  rw [charOf, Rule.satisfy]
  dsimp only
  split <;> rfl

/-- Characters of a class are read as long as there are some. -/
theorem read_repeated_charOf {e e' : Expectation} {member : Char → Bool}
    (items : List (Located Char)) :
    (Rule.repeated (charOf e e' member)).read items =
      some ((items.takeWhile fun i => member i.item).map Located.item,
        items.dropWhile fun i => member i.item) := by
  have hprogress : (charOf e e' member).Progresses := (Rule.takes_satisfy _ _ _).progresses
  induction items with
  | nil => rfl
  | cons i rest ih =>
    rw [Rule.read_repeated hprogress, read_charOf_cons, List.takeWhile_cons, List.dropWhile_cons]
    cases member i.item with
    | false => rfl
    | true =>
      rw [if_pos rfl]
      dsimp only
      rw [ih]
      rfl

theorem read_inside (items : List (Located Char)) :
    (Rule.repeated (charOf .somethingElse .somethingElse (· != quoteMark))).read items =
      some ((items.takeWhile isInside).map Located.item, items.dropWhile isInside) :=
  read_repeated_charOf items

/-- A quoted text ends at the next quote. -/
theorem read_quoted (items : List (Located Char)) :
    quoted.read items =
      match items.dropWhile isInside with
      | [] => none
      | _ :: after =>
        some (.text (String.ofList ((items.takeWhile isInside).map Located.item)), after) := by
  rw [quoted, Rule.read_bind_of_eq_some (read_inside items)]
  cases hrest : items.dropWhile isInside with
  | nil => rfl
  | cons i after =>
    have hi : i.item = quoteMark := by
      have hhead := List.head?_dropWhile_not isInside items
      rw [hrest] at hhead
      simpa [isInside] using hhead
    rw [Rule.read_bind, char, Rule.satisfy]
    dsimp only
    rw [if_pos hi]
    rfl

theorem isInside_eq_false {i : Located Char} : isInside i = false ↔ i.item = quoteMark := by
  simp [isInside]

/-- A quoted text that is closed is not changed by what follows. One that is not closed stays so
    if no quote follows. -/
theorem quoted_endsAt (hmove : ∀ i, (move i).item = i.item) (front : List (Located Char))
    (hquote : front.dropWhile isInside ≠ [] ∨ ∀ i ∈ back, isInside i = true) :
    quoted.EndsAt move back front := by
  have hinside : ∀ i, isInside (move i) = isInside i := fun i => congrArg (· != quoteMark) (hmove i)
  have hbody : ∀ i ∈ (front.takeWhile isInside).map move, isInside i = true := by
    intro i hi
    obtain ⟨j, hj, rfl⟩ := List.mem_map.1 hi
    exact (hinside j).trans (List.mem_takeWhile_imp hj)
  have hsplit : front.map move ++ back =
      (front.takeWhile isInside).map move ++ ((front.dropWhile isInside).map move ++ back) := by
    rw [← List.append_assoc, ← List.map_append, List.takeWhile_append_dropWhile]
  rw [Rule.EndsAt, read_quoted, read_quoted, hsplit, List.dropWhile_append_of_pos hbody,
    List.takeWhile_append_of_pos hbody]
  cases hrest : front.dropWhile isInside with
  | nil =>
    have hback := hquote.resolve_left fun hclosed => hclosed hrest
    rw [List.map_nil, List.nil_append, List.dropWhile_eq_nil_iff.2 hback]
    rfl
  | cons i after =>
    have hi : isInside i = false := by
      have hhead := List.head?_dropWhile_not isInside front
      rwa [hrest] at hhead
    have hmoved : ¬ isInside (move i) = true := by simp [hinside, hi]
    have hitems : Located.item ∘ move = Located.item := funext hmove
    rw [List.map_cons, List.cons_append, List.dropWhile_cons_of_neg hmoved,
      List.takeWhile_cons_of_neg hmoved, List.append_nil, List.map_map, hitems]
    rfl

theorem text_endsAt (hmove : ∀ i, (move i).item = i.item) (hback : Border back)
    (front : List (Located Char))
    (hquote : text.read front ≠ none ∨ ∀ i ∈ back, isInside i = true) :
    text.EndsAt move back front := by
  rw [text_eq] at hquote ⊢
  refine (char_endsAt hmove hback (by decide) front).bind fun a rest hread => ?_
  rw [Rule.read_bind_of_eq_some hread, read_quoted] at hquote
  refine quoted_endsAt hmove rest (hquote.imp_left fun hclosed hrest => hclosed ?_)
  rw [hrest]

/-! ## Tokens before a border -/

theorem token_endsAt (hmove : ∀ i, (move i).item = i.item) (hback : Border back)
    (front : List (Located Char)) (htext : text.EndsAt move back front) :
    token.EndsAt move back front :=
  Rule.endsAt_choice (forall_token (fun s => sign_endsAt hmove hback s front)
    (number_endsAt hmove hback front) htext (identifier_endsAt hmove hback front))

theorem member_of_read_charOf_bind {α : Type} {e e' : Expectation} {member : Char → Bool}
    {q : Char → Rule Char α} {i : Located Char} {items : List (Located Char)}
    {r : α × List (Located Char)} (h : (charOf e e' member >>= q).read (i :: items) = some r) :
    member i.item = true := by
  obtain ⟨c, mid, hc, -⟩ := Rule.read_bind_eq_some.1 h
  rw [read_charOf_cons] at hc
  split at hc
  · assumption
  · cases hc

theorem mem_spelling_of_read_sign {s : Sign} {i : Located Char} {items : List (Located Char)}
    {r : Token × List (Located Char)} (h : (sign s).read (i :: items) = some r) :
    i.item ∈ s.spelling.toList := by
  obtain ⟨⟨⟩, mid, hword, -⟩ := Rule.read_bind_eq_some.1 h
  obtain ⟨c, cs, hcs⟩ := List.exists_cons_of_ne_nil (spelling_ne_nil s)
  rw [hcs, word] at hword
  obtain ⟨⟨⟩, mid', hchar, -⟩ := Rule.read_bind_eq_some.1 hword
  obtain ⟨d, hd, hbegins⟩ := Rule.read_satisfy_eq_some.1 hchar
  obtain ⟨j, heq, rfl⟩ := begins_singleton.1 hbegins
  obtain ⟨rfl, -⟩ := List.cons.inj heq
  split at hd
  · next hitem =>
    rw [hcs, hitem]
    exact List.mem_cons_self
  · cases hd

theorem head_of_read_text {i : Located Char} {items : List (Located Char)}
    {r : Token × List (Located Char)} (h : text.read (i :: items) = some r) :
    i.item = quoteMark := by
  rw [text_eq, Rule.read_bind, char, Rule.satisfy] at h
  dsimp only at h
  split at h
  · assumption
  · cases h

/-- How each kind of tokens begins. -/
theorem head_of_read_token {i : Located Char} {items : List (Located Char)}
    {r : Token × List (Located Char)} (h : token.read (i :: items) = some r) :
    (∃ s : Sign, i.item ∈ s.spelling.toList) ∨ i.item.isDigit = true ∨
      startsIdentifier i.item = true ∨ text.read (i :: items) = some r := by
  obtain ⟨p, hp, hread⟩ := Rule.exists_read_of_choice h
  revert hread
  refine forall_token (P := fun p => p.read (i :: items) = some r → _)
    (fun s hread => ?_) (fun hread => ?_) (fun hread => ?_) (fun hread => ?_) p hp
  · exact .inl ⟨s, mem_spelling_of_read_sign hread⟩
  · obtain ⟨whole, mid, hdigits, -⟩ := Rule.read_bind_eq_some.1 hread
    exact .inr (.inl (member_of_read_charOf_bind hdigits))
  · exact .inr (.inr (.inr hread))
  · exact .inr (.inr (.inl (member_of_read_charOf_bind hread)))

/-- No token begins with a border. -/
theorem token_eq_none_of_border {i : Located Char} (hi : i.item.toNat ∈ borders)
    (items : List (Located Char)) : token.read (i :: items) = none := by
  cases h : token.read (i :: items) with
  | none => rfl
  | some r =>
    rcases head_of_read_token h with ⟨s, hs⟩ | hdigit | hstart | htext
    · exact absurd hi (spelling_not_border s _ hs)
    · have hnot := forall_borders (P := fun c => !c.isDigit) (by decide) hi
      simp [hdigit] at hnot
    · have hnot := forall_borders (P := fun c => !startsIdentifier c) (by decide) hi
      simp [hstart] at hnot
    · rw [head_of_read_text htext] at hi
      exact absurd hi (by decide)

/-- Of all tokens only a text begins with a quote. -/
theorem read_text_of_read_token {i : Located Char} {items : List (Located Char)}
    {r : Token × List (Located Char)} (h : token.read (i :: items) = some r)
    (hi : i.item = quoteMark) : text.read (i :: items) = some r := by
  rcases head_of_read_token h with ⟨s, hs⟩ | hdigit | hstart | htext
  · have hquote : quoteMark ∉ s.spelling.toList := by cases s <;> decide +kernel
    exact absurd (hi ▸ hs) hquote
  · rw [hi] at hdigit
    cases hdigit
  · rw [hi] at hstart
    cases hstart
  · exact htext

/-- A token that is read is read as well before any border. -/
theorem token_endsAt_of_read (hmove : ∀ i, (move i).item = i.item) (hback : Border back)
    {front : List (Located Char)} {r : Token × List (Located Char)}
    (h : token.read front = some r) : token.EndsAt move back front := by
  refine token_endsAt hmove hback front ?_
  cases front with
  | nil => cases h
  | cons i rest =>
    by_cases hi : i.item = quoteMark
    · refine text_endsAt hmove hback _ (.inl ?_)
      rw [read_text_of_read_token h hi]
      nofun
    · have hnone : ∀ (j : Located Char) items, j.item ≠ quoteMark → text.read (j :: items) = none :=
        fun j items hj => Option.eq_none_iff_forall_ne_some.2 fun r hr => hj (head_of_read_text hr)
      rw [Rule.EndsAt, List.map_cons, List.cons_append, hnone i rest hi,
        hnone _ _ fun hj => hi ((hmove i).symm.trans hj)]
      rfl

end

end Lexer

end ReactiveTemplate
