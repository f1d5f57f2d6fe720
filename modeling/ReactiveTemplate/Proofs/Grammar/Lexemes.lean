import ReactiveTemplate.Proofs.Grammar.Borders

/-!
# The words of the token grammar

A token is written in one way: a sign by its spelling, a number by digits with a fraction or
without, a text between quotes, any other word by itself. The rule for a token tries one kind of
words after the other. It reads the longest word nonetheless: words of different kinds begin
differently, and a sign comes before all signs that begin it.

* `Lexer.Lexeme`: how a token is written; `Lexer.IsLongest`: the longest word in front of a text.
* `Lexer.Lexeme.unique`: a word is one token.
* `Lexer.Longest`: a rule reads the longest word of some kinds; `Lexer.Longest.choice`: so does the
  ordered choice between such rules.
* `Lexer.read_token_iff`: the rule for a token reads the longest word of all.
-/

namespace ReactiveTemplate.Lexer

/-! ## Words -/

/-- One or more decimal digits. -/
def IsDigits (cs : List Char) : Prop := cs ≠ [] ∧ ∀ c ∈ cs, c.isDigit = true

/-- The number with the given digits before and after the point. -/
def numberOf (whole part : List Char) : Float := (Number.Decimal.ofParts false whole part 0).toFloat

/-- The token grammar: a token and the characters it is written with. -/
inductive Lexeme : Token → List Char → Prop
  | sign (s : Sign) : Lexeme (.sign s) s.spelling.toList
  | whole {ds : List Char} : IsDigits ds → Lexeme (.number (numberOf ds [])) ds
  | fraction {ds es : List Char} : IsDigits ds → IsDigits es →
    Lexeme (.number (numberOf ds es)) (ds ++ '.' :: es)
  | text {body : List Char} : quoteMark ∉ body →
    Lexeme (.text (String.ofList body)) (quoteMark :: body ++ [quoteMark])
  | bool (b : Bool) : Lexeme (.bool b) (if b then "true" else "false").toList
  | identifier {name : String} : IsIdentifier name → name ≠ "true" → name ≠ "false" →
    Lexeme (.identifier name) name.toList

/-- Of all words that a text begins with, this is the longest. -/
structure IsLongest (t : Token) (word rest : List Char) : Prop where
  lexeme : Lexeme t word
  longest : ∀ t' word', Lexeme t' word' → word' <+: word ++ rest → word'.length ≤ word.length

/-! ## Kinds of words -/

/-- The kinds of words. Truth values are words like any identifier. -/
inductive Shape where
  | sign (s : Sign)
  | number
  | text
  | word
  deriving DecidableEq

/-- The kind of words that a token is written with. -/
def shape : Token → Shape
  | .sign s => .sign s
  | .number _ => .number
  | .text _ => .text
  | .bool _ | .identifier _ => .word

/-- The characters that words of a kind begin with. -/
def Shape.opens : Shape → Char → Bool
  | .sign s, c => s.spelling.toList.head? == some c
  | .number, c => c.isDigit
  | .text, c => c == quoteMark
  | .word, c => startsIdentifier c

section

variable {t t' : Token} {w w' : List Char} {c : Char}

theorem Lexeme.eq_of_sign {s : Sign} (h : Lexeme t w) (ht : shape t = .sign s) :
    t = .sign s ∧ w = s.spelling.toList := by
  cases h with
  | sign s' =>
    obtain rfl := Shape.sign.inj ht
    exact ⟨rfl, rfl⟩
  | whole | fraction | text | bool | identifier => cases ht

theorem Lexeme.eq_of_number (h : Lexeme t w) (ht : shape t = .number) :
    ∃ ds, IsDigits ds ∧ (t = .number (numberOf ds []) ∧ w = ds ∨
      ∃ es, IsDigits es ∧ t = .number (numberOf ds es) ∧ w = ds ++ '.' :: es) := by
  cases h with
  | whole hds => exact ⟨_, hds, .inl ⟨rfl, rfl⟩⟩
  | fraction hds hes => exact ⟨_, hds, .inr ⟨_, hes, rfl, rfl⟩⟩
  | sign | text | bool | identifier => cases ht

theorem Lexeme.eq_of_text (h : Lexeme t w) (ht : shape t = .text) :
    ∃ body, quoteMark ∉ body ∧ t = .text (String.ofList body) ∧
      w = quoteMark :: body ++ [quoteMark] := by
  cases h with
  | text hbody => exact ⟨_, hbody, rfl, rfl⟩
  | sign | whole | fraction | bool | identifier => cases ht

theorem Lexeme.eq_of_word (h : Lexeme t w) (ht : shape t = .word) :
    ∃ name, IsIdentifier name ∧ t = wordToken name ∧ w = name.toList := by
  cases h with
  | bool b =>
    cases b with
    | true => exact ⟨"true", ⟨'t', ['r', 'u', 'e'], rfl, by decide, by decide⟩, rfl, rfl⟩
    | false => exact ⟨"false", ⟨'f', ['a', 'l', 's', 'e'], rfl, by decide, by decide⟩, rfl, rfl⟩
  | identifier hname htrue hfalse =>
    exact ⟨_, hname, by rw [wordToken, if_neg htrue, if_neg hfalse], rfl⟩
  | sign | whole | fraction | text => cases ht

theorem lexeme_wordToken {name : String} (h : IsIdentifier name) :
    Lexeme (wordToken name) name.toList ∧ shape (wordToken name) = .word := by
  rw [wordToken]
  split
  · next htrue =>
    subst htrue
    exact ⟨.bool true, rfl⟩
  · next htrue =>
    split
    · next hfalse =>
      subst hfalse
      exact ⟨.bool false, rfl⟩
    · next hfalse => exact ⟨.identifier h htrue hfalse, rfl⟩

/-! ## How words begin -/

theorem IsDigits.exists_cons {cs : List Char} (h : IsDigits cs) :
    ∃ d ds, cs = d :: ds ∧ d.isDigit = true := by
  obtain ⟨d, ds, rfl⟩ := List.exists_cons_of_ne_nil h.1
  exact ⟨d, ds, rfl, h.2 d List.mem_cons_self⟩

theorem IsDigits.point_not_mem {cs : List Char} (h : IsDigits cs) : '.' ∉ cs := fun hmem =>
  absurd (h.2 '.' hmem) (by decide)

theorem Lexeme.opens (h : Lexeme t w) : ∃ c cs, w = c :: cs ∧ (shape t).opens c = true := by
  cases ht : shape t with
  | sign s =>
    obtain ⟨rfl, rfl⟩ := h.eq_of_sign ht
    obtain ⟨c, cs, hcs⟩ := List.exists_cons_of_ne_nil (spelling_ne_nil s)
    exact ⟨c, cs, hcs, by simp [Shape.opens, hcs]⟩
  | number =>
    obtain ⟨ds, hds, hw⟩ := h.eq_of_number ht
    obtain ⟨d, ds, rfl, hd⟩ := hds.exists_cons
    rcases hw with ⟨-, rfl⟩ | ⟨es, -, -, rfl⟩
    · exact ⟨d, ds, rfl, hd⟩
    · exact ⟨d, ds ++ '.' :: es, rfl, hd⟩
  | text =>
    obtain ⟨body, -, -, rfl⟩ := h.eq_of_text ht
    exact ⟨quoteMark, body ++ [quoteMark], rfl, by decide⟩
  | word =>
    obtain ⟨name, ⟨c, cs, hname, hc, -⟩, -, rfl⟩ := h.eq_of_word ht
    exact ⟨c, cs, hname, hc⟩

theorem opens_sign {s : Sign} (h : (Shape.sign s).opens c = true) :
    c.isDigit = false ∧ c ≠ quoteMark ∧ startsIdentifier c = false := by
  have hall : (s.spelling.toList.head?.all fun c =>
      !c.isDigit && c != quoteMark && !startsIdentifier c) = true := by
    cases s <;> rfl
  rw [Shape.opens, beq_iff_eq] at h
  rw [h] at hall
  simpa [and_assoc] using hall

/-- Only words of one kind, or signs, begin alike. -/
theorem Shape.eq_of_opens {a b : Shape} (ha : a.opens c = true) (hb : b.opens c = true) :
    a = b ∨ ∃ s s', a = .sign s ∧ b = .sign s' := by
  have hdigit : c.isDigit = true → startsIdentifier c = true → False := fun hd hc => by
    rw [isDigit_of_startsIdentifier hc] at hd
    cases hd
  have hquote : c = quoteMark → c.isDigit = false ∧ startsIdentifier c = false := by
    rintro rfl
    decide
  cases a with
  | sign s =>
    obtain ⟨hd, hq, hc⟩ := opens_sign ha
    cases b with
    | sign s' => exact .inr ⟨s, s', rfl, rfl⟩
    | number => exact absurd (hd.symm.trans hb) nofun
    | text => exact absurd (beq_iff_eq.1 hb) hq
    | word => exact absurd (hc.symm.trans hb) nofun
  | number =>
    cases b with
    | sign s' => exact absurd ((opens_sign hb).1.symm.trans ha) nofun
    | number => exact .inl rfl
    | text => exact absurd ((hquote (beq_iff_eq.1 hb)).1.symm.trans ha) nofun
    | word => exact (hdigit ha hb).elim
  | text =>
    have hq := hquote (beq_iff_eq.1 ha)
    cases b with
    | sign s' => exact absurd (beq_iff_eq.1 ha) (opens_sign hb).2.1
    | number => exact absurd (hq.1.symm.trans hb) nofun
    | text => exact .inl rfl
    | word => exact absurd (hq.2.symm.trans hb) nofun
  | word =>
    cases b with
    | sign s' => exact absurd ((opens_sign hb).2.2.symm.trans ha) nofun
    | number => exact (hdigit hb ha).elim
    | text => exact absurd ((hquote (beq_iff_eq.1 hb)).2.symm.trans ha) nofun
    | word => exact .inl rfl

theorem Lexeme.shape_eq_of_begins (h : Lexeme t w) (h' : Lexeme t' w') (hfront : w <+: w') :
    shape t = shape t' ∨ ∃ s s', shape t = .sign s ∧ shape t' = .sign s' := by
  obtain ⟨c, cs, rfl, hc⟩ := h.opens
  obtain ⟨c', cs', rfl, hc'⟩ := h'.opens
  obtain ⟨rfl, -⟩ := List.cons_prefix_cons.1 hfront
  exact Shape.eq_of_opens hc hc'

/-! ## Signs in order -/

/-- A word of the first kind does not begin one of the second. -/
def Shape.precedes : Shape → Shape → Bool
  | .sign s, .sign s' => !s.spelling.toList.isPrefixOf s'.spelling.toList
  | a, b => a != b

theorem Lexeme.not_begins (h : Lexeme t w) (h' : Lexeme t' w')
    (hprecedes : (shape t).precedes (shape t') = true) : ¬ w <+: w' := by
  intro hfront
  rcases h.shape_eq_of_begins h' hfront with heq | ⟨s, s', hs, hs'⟩
  · rw [← heq] at hprecedes
    cases ht : shape t with
    | sign s =>
      rw [ht, Shape.precedes, List.isPrefixOf_iff_prefix.2 (List.prefix_refl _)] at hprecedes
      cases hprecedes
    | number | text | word =>
      rw [ht] at hprecedes
      cases hprecedes
  · obtain ⟨-, rfl⟩ := h.eq_of_sign hs
    obtain ⟨-, rfl⟩ := h'.eq_of_sign hs'
    rw [hs, hs', Shape.precedes, List.isPrefixOf_iff_prefix.2 hfront] at hprecedes
    cases hprecedes

/-- The signs are spelled differently. -/
theorem spelling_injective {s s' : Sign} (h : s.spelling = s'.spelling) : s = s' := by
  let signOf (text : String) : Option Sign :=
    (Sign.brackets ++ Sign.operators).find? fun s => s.spelling == text
  have hfind : ∀ s : Sign, signOf s.spelling = some s := fun s => by cases s <;> rfl
  exact Option.some.inj ((hfind s).symm.trans ((congrArg signOf h).trans (hfind s')))

/-- Characters of a class before one that is in none are all of the class that come first. -/
theorem append_cons_inj_of_member {member : Char → Bool} {cs cs' es es' : List Char} {c c' : Char}
    (hcs : ∀ d ∈ cs, member d = true) (hcs' : ∀ d ∈ cs', member d = true)
    (hc : member c = false) (hc' : member c' = false) (h : cs ++ c :: es = cs' ++ c' :: es') :
    cs = cs' ∧ c = c' ∧ es = es' := by
  have hspan : ∀ {cs es : List Char} {c : Char}, (∀ d ∈ cs, member d = true) → member c = false →
      (cs ++ c :: es).takeWhile member = cs := fun {cs es c} hcs hc => by
    rw [List.takeWhile_append_of_pos hcs, List.takeWhile_cons_of_neg (by simp [hc]),
      List.append_nil]
  have heq : cs = cs' := by
    have hfirst := congrArg (List.takeWhile member) h
    rwa [hspan hcs hc, hspan hcs' hc'] at hfirst
  subst heq
  obtain ⟨rfl, rfl⟩ := List.cons.inj (List.append_cancel_left h)
  exact ⟨rfl, rfl, rfl⟩

/-- A word is written for one token only. -/
theorem Lexeme.unique (h : Lexeme t w) (h' : Lexeme t' w) : t = t' := by
  rcases h.shape_eq_of_begins h' (List.prefix_refl w) with heq | ⟨s, s', hs, hs'⟩
  · cases ht : shape t with
    | sign s =>
      obtain ⟨rfl, -⟩ := h.eq_of_sign ht
      obtain ⟨rfl, -⟩ := h'.eq_of_sign (heq ▸ ht)
      rfl
    | number =>
      obtain ⟨ds, hds, hw⟩ := h.eq_of_number ht
      obtain ⟨ds', hds', hw'⟩ := h'.eq_of_number (heq ▸ ht)
      rcases hw with ⟨rfl, rfl⟩ | ⟨es, -, rfl, rfl⟩
      · rcases hw' with ⟨rfl, rfl⟩ | ⟨es', -, -, rfl⟩
        · rfl
        · exact absurd (by simp) hds.point_not_mem
      · rcases hw' with ⟨-, rfl⟩ | ⟨es', -, rfl, hw'⟩
        · exact absurd (by simp) hds'.point_not_mem
        · obtain ⟨rfl, -, rfl⟩ :=
            append_cons_inj_of_member hds.2 hds'.2 (by decide) (by decide) hw'
          rfl
    | text =>
      obtain ⟨body, -, rfl, rfl⟩ := h.eq_of_text ht
      obtain ⟨body', -, rfl, hw'⟩ := h'.eq_of_text (heq ▸ ht)
      rw [List.append_cancel_right (List.cons.inj hw').2]
    | word =>
      obtain ⟨name, -, rfl, rfl⟩ := h.eq_of_word ht
      obtain ⟨name', -, rfl, hw'⟩ := h'.eq_of_word (heq ▸ ht)
      rw [String.toList_inj.1 hw']
  · obtain ⟨rfl, rfl⟩ := h.eq_of_sign hs
    obtain ⟨rfl, hw'⟩ := h'.eq_of_sign hs'
    rw [spelling_injective (String.toList_inj.1 hw')]

/-! ## Rules that read the longest word -/

variable {items rest : List (Located Char)}

/-- The items that are left do not go on by a character of a class. -/
def Stops (member : Char → Bool) (rest : List (Located Char)) : Prop :=
  ∀ c, headItem? rest = some c → member c = false

/-- What begins a text and is longer than what was read goes on by the character after that. -/
theorem exists_of_longer {word word' : List Char} (hbegins : Begins word items rest)
    (hfront : word' <+: items.map Located.item) (hlonger : word.length < word'.length) :
    ∃ c tail, word' = word ++ c :: tail ∧ headItem? rest = some c ∧
      c :: tail <+: rest.map Located.item := by
  obtain ⟨front, rfl, rfl⟩ := hbegins
  rw [List.map_append] at hfront
  obtain ⟨extra, rfl⟩ :=
    List.prefix_of_prefix_length_le (List.prefix_append _ _) hfront hlonger.le
  have hextra : extra <+: rest.map Located.item := (List.prefix_append_right_inj _).1 hfront
  cases extra with
  | nil => simp at hlonger
  | cons c tail =>
    obtain ⟨others, hothers⟩ := hextra
    refine ⟨c, tail, rfl, ?_, others, hothers⟩
    rw [headItem?, ← List.head?_map, ← hothers]
    rfl

/-- What a text begins with, without saying what follows. -/
theorem isPrefix_of_begins {word : List Char} (h : Begins word items rest) :
    word <+: items.map Located.item := by
  obtain ⟨front, rfl, rfl⟩ := h
  rw [List.map_append]
  exact List.prefix_append _ _

/-- A rule reads the longest of the words of some kinds that a text begins with, if there is
    one. -/
structure Longest (p : Rule Char Token) (kinds : Shape → Prop) : Prop where
  sound : ∀ {items rest t}, p.read items = some (t, rest) →
    ∃ word, Begins word items rest ∧ Lexeme t word ∧ kinds (shape t) ∧
      ∀ t' word', Lexeme t' word' → kinds (shape t') → word' <+: items.map Located.item →
        word'.length ≤ word.length
  complete : ∀ {items}, p.read items = none →
    ∀ t word, Lexeme t word → kinds (shape t) → ¬ word <+: items.map Located.item

theorem Longest.congr {p : Rule Char Token} {kinds kinds' : Shape → Prop} (h : Longest p kinds)
    (hkinds : ∀ a, kinds a ↔ kinds' a) : Longest p kinds' := by
  obtain rfl : kinds = kinds' := funext fun a => propext (hkinds a)
  exact h

/-- The first of two rules that reads something, where no word of the first begins a longer one of
    the second. -/
theorem Longest.orElse {p q : Rule Char Token} {a : Shape} {kinds : Shape → Prop}
    (hp : Longest p (· = a)) (hq : Longest q kinds)
    (hprecedes : ∀ b, kinds b → a.precedes b = true) :
    Longest (Rule.orElse p q) fun b => b = a ∨ kinds b := by
  constructor
  · intro items rest t h
    rcases Rule.read_orElse_eq_some.1 h with hread | ⟨hnone, hread⟩
    · obtain ⟨word, hbegins, hword, ht, hlongest⟩ := hp.sound hread
      refine ⟨word, hbegins, hword, .inl ht, fun t' word' hword' ht' hfront => ?_⟩
      rcases ht' with ht' | ht'
      · exact hlongest t' word' hword' ht' hfront
      · by_contra hlonger
        refine hword.not_begins hword' (ht ▸ hprecedes _ ht') ?_
        exact List.prefix_of_prefix_length_le (isPrefix_of_begins hbegins) hfront (by omega)
    · obtain ⟨word, hbegins, hword, ht, hlongest⟩ := hq.sound hread
      refine ⟨word, hbegins, hword, .inr ht, fun t' word' hword' ht' hfront => ?_⟩
      rcases ht' with ht' | ht'
      · exact absurd hfront (hp.complete hnone t' word' hword' ht')
      · exact hlongest t' word' hword' ht' hfront
  · intro items h t word hword ht
    obtain ⟨hfirst, hsecond⟩ := Rule.read_orElse_eq_none.1 h
    exact ht.elim (hp.complete hfirst t word hword) (hq.complete hsecond t word hword)

/-- The ordered choice between rules for words of one kind each, where no word begins a longer one
    of a later kind. -/
theorem Longest.choice {rule : Shape → Rule Char Token} (hrule : ∀ a, Longest (rule a) (· = a))
    (last : Shape) (shapes : List Shape)
    (h : (shapes ++ [last]).Pairwise fun a b => a.precedes b = true) :
    Longest (Rule.choice (shapes.map rule) (rule last)) (· ∈ shapes ++ [last]) := by
  induction shapes with
  | nil => exact (hrule last).congr fun a => by simp
  | cons first shapes ih =>
    obtain ⟨hfirst, hrest⟩ := List.pairwise_cons.1 h
    exact ((hrule first).orElse (ih hrest) hfirst).congr fun a => by simp

/-! ## Signs -/

theorem read_char_eq_some {c : Char} :
    (char c).read items = some ((), rest) ↔ Begins [c] items rest := by
  rw [char, Rule.read_satisfy_eq_some]
  constructor
  · rintro ⟨d, hd, hbegins⟩
    split at hd
    · next heq => exact heq ▸ hbegins
    · cases hd
  · exact fun hbegins => ⟨c, if_pos rfl, hbegins⟩

theorem read_word_eq_some (cs : List Char) :
    (word cs).read items = some ((), rest) ↔ Begins cs items rest := by
  induction cs generalizing items with
  | nil =>
    rw [begins_nil, word, Rule.read_pure]
    simp
  | cons c cs ih =>
    rw [begins_cons_iff, word, Rule.read_bind_eq_some]
    constructor
    · rintro ⟨⟨⟩, mid, hfirst, hrest⟩
      exact ⟨mid, read_char_eq_some.1 hfirst, ih.1 hrest⟩
    · rintro ⟨mid, hfirst, hrest⟩
      exact ⟨(), mid, read_char_eq_some.2 hfirst, ih.2 hrest⟩

theorem longest_sign (s : Sign) : Longest (sign s) (· = .sign s) := by
  constructor
  · intro items rest t h
    obtain ⟨⟨⟩, mid, hword, hdone⟩ := Rule.read_bind_eq_some.1 h
    obtain ⟨rfl, rfl⟩ := Prod.mk.inj (Option.some.inj hdone)
    refine ⟨_, (read_word_eq_some _).1 hword, .sign s, rfl, fun t' word' hword' ht' _ => ?_⟩
    obtain ⟨-, rfl⟩ := hword'.eq_of_sign ht'
    exact le_rfl
  · rintro items h t word hword ht ⟨others, hothers⟩
    obtain ⟨-, rfl⟩ := hword.eq_of_sign ht
    have hbegins : Begins s.spelling.toList items (items.drop s.spelling.toList.length) := by
      refine ⟨items.take s.spelling.toList.length, (List.take_append_drop _ _).symm, ?_⟩
      rw [List.map_take, ← hothers, List.take_left]
    have hnone := Rule.read_bind_eq_none.1 h () _ ((read_word_eq_some _).2 hbegins)
    cases hnone

/-! ## Characters of a class -/

/-- A repetition reads all characters of its class. -/
theorem begins_of_read_repeated {e e' : Expectation} {member : Char → Bool} {cs : List Char}
    (h : (Rule.repeated (charOf e e' member)).read items = some (cs, rest)) :
    (∀ c ∈ cs, member c = true) ∧ Begins cs items rest ∧ Stops member rest := by
  rw [read_repeated_charOf] at h
  obtain ⟨rfl, rfl⟩ := Prod.mk.inj (Option.some.inj h)
  refine ⟨fun c hc => ?_, ⟨_, List.takeWhile_append_dropWhile.symm, rfl⟩, fun c hc => ?_⟩
  · obtain ⟨i, hi, rfl⟩ := List.mem_map.1 hc
    exact List.mem_takeWhile_imp (p := fun i => member (Located.item i)) hi
  · obtain ⟨i, hi, rfl⟩ := Option.map_eq_some_iff.1 hc
    have hhead := List.head?_dropWhile_not (fun i => member (Located.item i)) items
    rw [hi] at hhead
    exact hhead

theorem read_charOf_eq_none {e e' : Expectation} {member : Char → Bool} :
    (charOf e e' member).read items = none ↔ Stops member items := by
  rw [charOf, Rule.read_satisfy_eq_none, Stops]
  cases headItem? items with
  | none => simp
  | some c => simp

theorem begins_of_read_charOf {e e' : Expectation} {member : Char → Bool} {c : Char}
    (h : (charOf e e' member).read items = some (c, rest)) :
    member c = true ∧ Begins [c] items rest := by
  refine ⟨read_charOf h, ?_⟩
  obtain ⟨d, hd, hbegins⟩ := Rule.read_satisfy_eq_some.1 h
  split at hd
  · exact Option.some.inj hd ▸ hbegins
  · cases hd

/-- A character of one class and all of another one that follow. -/
theorem begins_of_read_run {e₁ e₂ e₃ e₄ : Expectation} {first other : Char → Bool} {α : Type}
    {result : Char → List Char → α} {a : α}
    (h : (do
      let c ← charOf e₁ e₂ first
      let cs ← Rule.repeated (charOf e₃ e₄ other)
      return result c cs : Rule Char α).read items = some (a, rest)) :
    ∃ c cs, a = result c cs ∧ first c = true ∧ (∀ d ∈ cs, other d = true) ∧
      Begins (c :: cs) items rest ∧ Stops other rest := by
  obtain ⟨c, mid, hc, h⟩ := Rule.read_bind_eq_some.1 h
  obtain ⟨cs, mid', hcs, h⟩ := Rule.read_bind_eq_some.1 h
  obtain ⟨rfl, rfl⟩ := Prod.mk.inj (Option.some.inj h)
  obtain ⟨hfirst, hbegins⟩ := begins_of_read_charOf hc
  obtain ⟨hothers, hbegins', hstops⟩ := begins_of_read_repeated hcs
  exact ⟨c, cs, rfl, hfirst, hothers, begins_cons_iff.2 ⟨mid, hbegins, hbegins'⟩, hstops⟩

theorem stops_of_read_run_eq_none {e₁ e₂ e₃ e₄ : Expectation} {first other : Char → Bool}
    {α : Type} {result : Char → List Char → α}
    (h : (do
      let c ← charOf e₁ e₂ first
      let cs ← Rule.repeated (charOf e₃ e₄ other)
      return result c cs : Rule Char α).read items = none) : Stops first items := by
  rw [← read_charOf_eq_none]
  cases hread : (charOf e₁ e₂ first).read items with
  | none => rfl
  | some r =>
    have hnone := Rule.read_bind_eq_none.1 h r.1 r.2 hread
    rw [Rule.read_bind_of_eq_some (read_repeated_charOf r.2)] at hnone
    cases hnone

/-- No word begins a text at which no word of its kind opens. -/
theorem Lexeme.not_begins_of_stops (h : Lexeme t w) (hstops : Stops (shape t).opens items) :
    ¬ w <+: items.map Located.item := by
  rintro ⟨others, hothers⟩
  obtain ⟨c, cs, rfl, hc⟩ := h.opens
  have hhead : headItem? items = some c := by
    rw [headItem?, ← List.head?_map, ← hothers]
    rfl
  rw [hstops c hhead] at hc
  cases hc

/-! ## Identifiers and texts -/

theorem longest_identifier : Longest identifier (· = .word) := by
  constructor
  · intro items rest t h
    obtain ⟨c, cs, rfl, hc, hcs, hbegins, hstops⟩ := begins_of_read_run h
    have hname : IsIdentifier (String.ofList (c :: cs)) :=
      ⟨c, cs, String.toList_ofList, hc, List.all_eq_true.2 hcs⟩
    obtain ⟨hword, hshape⟩ := lexeme_wordToken hname
    rw [String.toList_ofList] at hword
    refine ⟨c :: cs, hbegins, hword, hshape, fun t' word' hword' ht' hfront => ?_⟩
    by_contra hlonger
    obtain ⟨d, tail, rfl, hd, -⟩ := exists_of_longer hbegins hfront (by omega)
    obtain ⟨name', ⟨c', cs', hname', -, hall⟩, -, hw'⟩ := hword'.eq_of_word ht'
    obtain ⟨-, rfl⟩ := List.cons.inj (hw'.trans hname')
    have hmember := List.all_eq_true.1 hall d (by simp)
    rw [hstops d hd] at hmember
    cases hmember
  · intro items h t word hword ht
    refine hword.not_begins_of_stops ?_
    rw [ht]
    exact stops_of_read_run_eq_none h

theorem longest_text : Longest text (· = .text) := by
  constructor
  · intro items rest t h
    obtain ⟨⟨⟩, mid, hopen, h⟩ := Rule.read_bind_eq_some.1 h
    obtain ⟨body, mid', hbody, h⟩ := Rule.read_bind_eq_some.1 h
    obtain ⟨⟨⟩, mid'', hclose, h⟩ := Rule.read_bind_eq_some.1 h
    obtain ⟨rfl, rfl⟩ := Prod.mk.inj (Option.some.inj h)
    obtain ⟨hinside, hbegins, -⟩ := begins_of_read_repeated hbody
    have hquote : quoteMark ∉ body := fun hmem => by simpa using hinside _ hmem
    have hall : Begins (quoteMark :: body ++ [quoteMark]) items mid'' :=
      begins_append.2 ⟨mid', begins_cons_iff.2 ⟨mid, read_char_eq_some.1 hopen, hbegins⟩,
        read_char_eq_some.1 hclose⟩
    refine ⟨_, hall, .text hquote, rfl, fun t' word' hword' ht' hfront => ?_⟩
    obtain ⟨body', hquote', -, rfl⟩ := hword'.eq_of_text ht'
    obtain ⟨others, hothers⟩ := isPrefix_of_begins hall
    obtain ⟨others', hothers'⟩ := hfront
    -- Both texts end at the first quote after the one that opens them.
    have hsame : body ++ quoteMark :: others = body' ++ quoteMark :: others' := by
      simpa using hothers.trans hothers'.symm
    have hinside' : ∀ c ∈ body', (c != quoteMark) = true := fun c hc => by
      rw [bne_iff_ne]
      rintro rfl
      exact hquote' hc
    have hends : (quoteMark != quoteMark) = false := by decide
    obtain ⟨rfl, -, -⟩ := append_cons_inj_of_member hinside hinside' hends hends hsame
    exact le_rfl
  · rintro items h t word hword ht ⟨others, hothers⟩
    obtain ⟨body, -, -, rfl⟩ := hword.eq_of_text ht
    cases items with
    | nil => cases hothers
    | cons i items =>
      obtain ⟨hi, hrest⟩ := List.cons.inj hothers
      have hopen : (char quoteMark).read (i :: items) = some ((), items) :=
        read_char_eq_some.2 (begins_singleton.2 ⟨i, rfl, hi.symm⟩)
      rw [text_eq, Rule.read_bind_of_eq_some hopen, read_quoted] at h
      have hinside : items.dropWhile isInside = [] := by
        cases hdrop : items.dropWhile isInside with
        | nil => rfl
        | cons j after =>
          rw [hdrop] at h
          cases h
      have hmem : quoteMark ∈ items.map Located.item := by
        rw [← hrest]
        simp
      obtain ⟨j, hj, hquote⟩ := List.mem_map.1 hmem
      have hfalse := List.dropWhile_eq_nil_iff.1 hinside j hj
      rw [isInside_eq_false.2 hquote] at hfalse
      cases hfalse

/-! ## Numbers -/

theorem begins_of_read_digits {ds : List Char} (h : digits.read items = some (ds, rest)) :
    IsDigits ds ∧ Begins ds items rest ∧ Stops Char.isDigit rest := by
  obtain ⟨c, cs, rfl, hc, hcs, hbegins, hstops⟩ := begins_of_read_run h
  refine ⟨⟨List.cons_ne_nil c cs, fun d hd => ?_⟩, hbegins, hstops⟩
  rcases List.mem_cons.1 hd with rfl | hd
  · exact hc
  · exact hcs d hd

theorem begins_of_read_fraction {es : List Char} (h : fraction.read items = some (es, rest)) :
    IsDigits es ∧ Begins ('.' :: es) items rest ∧ Stops Char.isDigit rest := by
  obtain ⟨⟨⟩, mid, hpoint, h⟩ := Rule.read_bind_eq_some.1 h
  obtain ⟨hes, hbegins, hstops⟩ := begins_of_read_digits h
  exact ⟨hes, begins_cons_iff.2 ⟨mid, read_char_eq_some.1 hpoint, hbegins⟩, hstops⟩

/-- Where no fraction is read, there is no point with digits after it. -/
theorem not_begins_of_read_fraction (h : fraction.read items = none) {es : List Char}
    (hes : IsDigits es) : ¬ '.' :: es <+: items.map Located.item := by
  rintro ⟨others, hothers⟩
  obtain ⟨d, ds, rfl, hd⟩ := hes.exists_cons
  cases items with
  | nil => cases hothers
  | cons i items =>
    obtain ⟨hi, hrest⟩ := List.cons.inj hothers
    have hpoint : (char '.').read (i :: items) = some ((), items) :=
      read_char_eq_some.2 (begins_singleton.2 ⟨i, rfl, hi.symm⟩)
    have hstops : Stops Char.isDigit items :=
      stops_of_read_run_eq_none (Rule.read_bind_eq_none.1 h () items hpoint)
    have hhead : headItem? items = some d := by
      rw [headItem?, ← List.head?_map, ← hrest]
      rfl
    rw [hstops d hhead] at hd
    cases hd

/-- A number that is not followed by a fraction is the longest one there. -/
theorem length_le_of_whole {ds : List Char} (hds : IsDigits ds) (hbegins : Begins ds items rest)
    (hstops : Stops Char.isDigit rest) (hnone : fraction.read rest = none) (h : Lexeme t w)
    (ht : shape t = .number) (hfront : w <+: items.map Located.item) : w.length ≤ ds.length := by
  by_contra hlonger
  obtain ⟨d, tail, rfl, hd, htail⟩ := exists_of_longer hbegins hfront (by omega)
  obtain ⟨ds', hds', ⟨-, rfl⟩ | ⟨es', hes', -, hw⟩⟩ := h.eq_of_number ht
  · have hdigit := hds'.2 d (by simp)
    rw [hstops d hd] at hdigit
    cases hdigit
  · obtain ⟨rfl, rfl, rfl⟩ := append_cons_inj_of_member hds.2 hds'.2 (hstops d hd) (by decide) hw
    exact not_begins_of_read_fraction hnone hes' htail

/-- A number with a fraction that no digit follows is the longest one there. -/
theorem length_le_of_fraction {ds es : List Char} (hds : IsDigits ds)
    (hbegins : Begins (ds ++ '.' :: es) items rest) (hstops : Stops Char.isDigit rest)
    (h : Lexeme t w) (ht : shape t = .number) (hfront : w <+: items.map Located.item) :
    w.length ≤ (ds ++ '.' :: es).length := by
  by_contra hlonger
  obtain ⟨d, tail, rfl, hd, -⟩ := exists_of_longer hbegins hfront (by omega)
  obtain ⟨ds', hds', ⟨-, rfl⟩ | ⟨es', hes', -, hw⟩⟩ := h.eq_of_number ht
  · exact hds'.point_not_mem (by simp)
  · rw [List.append_assoc, List.cons_append] at hw
    obtain ⟨-, -, rfl⟩ := append_cons_inj_of_member hds.2 hds'.2 (by decide) (by decide) hw
    have hdigit := hes'.2 d (by simp)
    rw [hstops d hd] at hdigit
    cases hdigit

/-- Any digits are a number. -/
theorem read_digits_of_number_eq_none (h : number.read items = none) :
    digits.read items = none := by
  cases hread : digits.read items with
  | none => rfl
  | some r =>
    have hnone := Rule.read_bind_eq_none.1 h r.1 r.2 hread
    rw [Rule.read_bind, Rule.read_optional] at hnone
    cases hfraction : fraction.read r.2 <;> rw [hfraction] at hnone <;> cases hnone

theorem longest_number : Longest number (· = .number) := by
  constructor
  · intro items rest t h
    obtain ⟨ds, mid, hdigits, h⟩ := Rule.read_bind_eq_some.1 h
    obtain ⟨part, mid', hpart, h⟩ := Rule.read_bind_eq_some.1 h
    obtain ⟨rfl, rfl⟩ := Prod.mk.inj (Option.some.inj h)
    obtain ⟨hds, hbegins, hstops⟩ := begins_of_read_digits hdigits
    rw [Rule.read_optional] at hpart
    cases hfraction : fraction.read mid with
    | none =>
      rw [hfraction] at hpart
      obtain ⟨rfl, rfl⟩ := Prod.mk.inj (Option.some.inj hpart)
      exact ⟨ds, hbegins, .whole hds, rfl, fun _ _ hword ht hfront =>
        length_le_of_whole hds hbegins hstops hfraction hword ht hfront⟩
    | some r =>
      obtain ⟨es, rest⟩ := r
      rw [hfraction] at hpart
      obtain ⟨rfl, rfl⟩ := Prod.mk.inj (Option.some.inj hpart)
      obtain ⟨hes, hbegins', hstops'⟩ := begins_of_read_fraction hfraction
      have hall : Begins (ds ++ '.' :: es) items rest := begins_append.2 ⟨mid, hbegins, hbegins'⟩
      exact ⟨_, hall, .fraction hds hes, rfl, fun _ _ hword ht hfront =>
        length_le_of_fraction hds hall hstops' hword ht hfront⟩
  · intro items h t word hword ht
    refine hword.not_begins_of_stops ?_
    rw [ht]
    exact stops_of_read_run_eq_none (read_digits_of_number_eq_none h)

/-! ## Tokens -/

/-- The rule for the words of a kind. -/
def Shape.rule : Shape → Rule Char Token
  | .sign s => Lexer.sign s
  | .number => Lexer.number
  | .text => Lexer.text
  | .word => identifier

theorem Shape.longest_rule (a : Shape) : Longest a.rule (· = a) := by
  cases a with
  | sign s => exact longest_sign s
  | number => exact longest_number
  | text => exact longest_text
  | word => exact longest_identifier

/-- The kinds of words in the order in which they are tried, but for the last one. -/
def shapes : List Shape :=
  Sign.brackets.map .sign ++ [.number, .text, .word] ++ Sign.operators.dropLast.map .sign

theorem token_eq : token = Rule.choice (shapes.map Shape.rule) (Shape.rule (.sign .assign)) := rfl

theorem pairwise_shapes :
    (shapes ++ [Shape.sign .assign]).Pairwise fun a b => a.precedes b = true := by
  decide +kernel

theorem mem_shapes (a : Shape) : a ∈ shapes ++ [.sign .assign] := by
  cases a with
  | sign s => cases s <;> decide
  | number | text | word => decide

theorem longest_token : Longest token fun _ => True := by
  rw [token_eq]
  refine (Longest.choice Shape.longest_rule (.sign .assign) shapes pairwise_shapes).congr fun a => ?_
  simp only [mem_shapes]

/-- The rule for a token reads the longest word that a text begins with. -/
theorem read_token_iff :
    token.read items = some (t, rest) ↔
      ∃ word, Begins word items rest ∧ IsLongest t word (rest.map Located.item) := by
  constructor
  · intro h
    obtain ⟨word, hbegins, hword, -, hlongest⟩ := longest_token.sound h
    obtain ⟨front, rfl, rfl⟩ := hbegins
    refine ⟨_, ⟨front, rfl, rfl⟩, hword, fun t' word' hword' hfront => ?_⟩
    rw [← List.map_append] at hfront
    exact hlongest t' word' hword' trivial hfront
  · rintro ⟨word, ⟨front, rfl, rfl⟩, hword, hlongest⟩
    rw [← List.map_append] at hlongest
    cases hread : token.read (front ++ rest) with
    | none =>
      refine absurd ?_ (longest_token.complete hread t _ hword trivial)
      rw [List.map_append]
      exact List.prefix_append _ _
    | some r =>
      obtain ⟨word', ⟨front', hitems, rfl⟩, hword', -, hlongest'⟩ := longest_token.sound hread
      have hle := hlongest r.1 _ hword' (by rw [hitems, List.map_append]; exact List.prefix_append _ _)
      have hge := hlongest' t _ hword trivial (by rw [List.map_append]; exact List.prefix_append _ _)
      rw [List.length_map, List.length_map] at hle hge
      obtain ⟨rfl, hrest⟩ := List.append_inj hitems (by omega)
      rw [hword.unique hword', hrest]

end

end ReactiveTemplate.Lexer
