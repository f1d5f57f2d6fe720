import Mathlib.Data.List.DropRight
import ReactiveTemplate.Proofs.Grammar.Borders

/-!
# Trimmed and cut texts

The white space at the ends of a text does not matter to its tokens. A text that is cut at a
semicolon has no tokens any more if it had some, since the semicolon lay in a quoted text.

* `Lexer.Spells`: a text spells tokens up to some place.
* `Lexer.Spells.append`: a text with more text behind it.
* `parseEventAction_trim`: a trimmed action.
* `parseEventAction_cut`: an action that is cut at a semicolon.
-/

namespace ReactiveTemplate

/-! ## Trimming -/

namespace Text

/-- A text is blank before and after what trimming leaves of it. -/
theorem exists_trimChars (cs : List Char) : ∃ lead tail,
    cs = lead ++ trimChars cs ++ tail ∧ (∀ c ∈ lead, isBlank c = true) ∧
      ∀ c ∈ tail, isBlank c = true := by
  refine ⟨cs.takeWhile isBlank, (cs.dropWhile isBlank).rtakeWhile isBlank, ?_, ?_, ?_⟩
  · have hback : trimChars cs = (cs.dropWhile isBlank).rdropWhile isBlank := rfl
    rw [hback, List.append_assoc, List.rdropWhile_append_rtakeWhile, List.takeWhile_append_dropWhile]
  · exact fun c hc => List.mem_takeWhile_imp hc
  · exact fun c hc => List.mem_rtakeWhile_imp hc

theorem getLast?_trimChars {cs : List Char} {c : Char} (h : (trimChars cs).getLast? = some c) :
    isBlank c = false := by
  have hback : trimChars cs = (cs.dropWhile isBlank).rdropWhile isBlank := rfl
  have hne : trimChars cs ≠ [] := by
    intro hnil
    rw [hnil] at h
    cases h
  rw [List.getLast?_eq_some_getLast hne] at h
  have hlast := List.rdropWhile_last_not isBlank (cs.dropWhile isBlank) hne
  exact Bool.eq_false_iff.2 (Option.some.inj h ▸ hlast)

end Text

namespace Lexer

/-! ## Tokens in a row -/

/-- A text without the blanks at its front. -/
def skipBlanks (items : List (Located Char)) : List (Located Char) :=
  items.dropWhile fun i => Text.isBlank i.item

theorem read_paddedToken (items : List (Located Char)) :
    (paddedToken.read items).map (fun r => (r.1.item, r.2)) =
      (token.read (skipBlanks items)).map fun r => (r.1, skipBlanks r.2) := by
  have hskip : ∀ items, (Rule.skip Text.isBlank).read items = some ((), skipBlanks items) :=
    fun _ => rfl
  rw [paddedToken, Rule.read_bind_of_eq_some (hskip items), Rule.read_bind, Rule.located]
  dsimp only
  cases token.read (skipBlanks items) with
  | none => rfl
  | some r => rfl

/-- The beginning of a text spells tokens, and no further token follows them. -/
inductive Spells : List (Located Char) → List Token → List (Located Char) → Prop
  | stop {items : List (Located Char)} : token.read (skipBlanks items) = none → Spells items [] items
  | next {items mid rest : List (Located Char)} {t : Token} {ts : List Token} :
    token.read (skipBlanks items) = some (t, mid) → Spells (skipBlanks mid) ts rest →
    Spells items (t :: ts) rest

variable {items rest rest' : List (Located Char)} {ts ts' : List Token}

theorem Spells.unique (h : Spells items ts rest) (h' : Spells items ts' rest') :
    ts = ts' ∧ rest = rest' := by
  induction h generalizing ts' with
  | stop hnone =>
    cases h' with
    | stop => exact ⟨rfl, rfl⟩
    | next hread =>
      rw [hnone] at hread
      cases hread
  | next hread _ ih =>
    cases h' with
    | stop hnone =>
      rw [hread] at hnone
      cases hnone
    | next hread' h' =>
      rw [hread] at hread'
      obtain ⟨rfl, rfl⟩ := Prod.mk.inj (Option.some.inj hread')
      obtain ⟨rfl, rfl⟩ := ih h'
      exact ⟨rfl, rfl⟩

theorem progresses_paddedToken : paddedToken.Progresses := by
  intro items a rest h
  have hread := read_paddedToken items
  rw [h] at hread
  obtain ⟨⟨t, mid⟩, htoken, hpair⟩ := Option.map_eq_some_iff.1 hread.symm
  obtain ⟨-, rfl⟩ := Prod.mk.inj hpair
  have hfront : (skipBlanks items).length ≤ items.length := (List.dropWhile_suffix _).length_le
  have hback : (skipBlanks mid).length ≤ mid.length := (List.dropWhile_suffix _).length_le
  have hmid := takes_token.progresses _ t mid htoken
  dsimp only
  omega

/-- What the rule for a whole text reads are the tokens that it spells. -/
theorem spells_of_read (n : Nat) : ∀ {items : List (Located Char)}, items.length < n →
    ∀ {result : List (Located Token)} {rest : List (Located Char)},
      tokens.read items = some (result, rest) → Spells items (result.map Located.item) rest := by
  induction n with
  | zero => intro items h; omega
  | succ n ih =>
    intro items hlength result rest h
    have hpadded := read_paddedToken items
    rw [tokens, Rule.read_repeated progresses_paddedToken] at h
    cases hread : paddedToken.read items with
    | none =>
      rw [hread] at h hpadded
      obtain ⟨rfl, rfl⟩ := Prod.mk.inj (Option.some.inj h)
      exact .stop (Option.map_eq_none_iff.1 hpadded.symm)
    | some r =>
      rw [hread] at h hpadded
      obtain ⟨⟨t, mid⟩, htoken, hpair⟩ := Option.map_eq_some_iff.1 hpadded.symm
      obtain ⟨hitem, hrest⟩ := Prod.mk.inj hpair
      obtain ⟨⟨others, rest'⟩, hothers, hpair⟩ := Option.map_eq_some_iff.1 h
      obtain ⟨rfl, rfl⟩ := Prod.mk.inj hpair
      have hshorter := progresses_paddedToken items r.1 r.2 hread
      have hspells := ih (by omega) hothers
      dsimp only at hitem hrest
      rw [← hrest] at hspells
      rw [List.map_cons, ← hitem]
      exact .next htoken hspells

theorem exists_read_tokens (items : List (Located Char)) :
    ∃ result rest, tokens.read items = some (result, rest) := ⟨_, _, rfl⟩

theorem exists_spells (items : List (Located Char)) : ∃ ts rest, Spells items ts rest := by
  obtain ⟨result, rest, hread⟩ := exists_read_tokens items
  exact ⟨_, _, spells_of_read _ (Nat.lt_succ_self _) hread⟩

/-- The tokens of a text are what it spells up to its end. -/
theorem tokenize_iff {source : String} :
    (∃ result, tokenize source = .ok result ∧ result.map Located.item = ts) ↔
      Spells (locateChars source) ts [] := by
  unfold tokenize
  constructor
  · rintro ⟨result, h, rfl⟩
    split at h
    · next found hparse =>
      obtain rfl := Except.ok.inj h
      exact spells_of_read _ (Nat.lt_succ_self _) (Rule.parse_eq_ok_iff.1 hparse)
    · cases h
  · intro h
    obtain ⟨result, rest, hread⟩ := exists_read_tokens (locateChars source)
    obtain ⟨hts, rfl⟩ := (spells_of_read _ (Nat.lt_succ_self _) hread).unique h
    rw [Rule.parse_eq_ok_iff.2 hread]
    exact ⟨result, rfl, hts⟩

/-! ## Texts with more text behind them -/

/-- A text that is not empty and has no blank at its end. -/
def EndsInked (items : List (Located Char)) : Prop :=
  ∃ last, items.getLast? = some last ∧ Text.isBlank last.item = false

theorem EndsInked.of_suffix (h : EndsInked items) {mid : List (Located Char)} (hmid : mid <:+ items)
    (hne : mid ≠ []) : EndsInked mid := by
  obtain ⟨last, hlast, hinked⟩ := h
  obtain ⟨front, rfl⟩ := hmid
  refine ⟨last, ?_, hinked⟩
  rwa [List.getLast?_append_of_ne_nil front hne] at hlast

variable {move : Located Char → Located Char} {back : List (Located Char)}

theorem EndsInked.skipBlanks_ne_nil (h : EndsInked items) : skipBlanks items ≠ [] := by
  obtain ⟨last, hlast, hinked⟩ := h
  intro hnil
  rw [List.dropWhile_eq_nil_iff.1 hnil last (List.mem_of_getLast? hlast)] at hinked
  cases hinked

theorem EndsInked.skipBlanks (h : EndsInked items) : EndsInked (Lexer.skipBlanks items) :=
  h.of_suffix (List.dropWhile_suffix _) h.skipBlanks_ne_nil

/-- Only blanks at the front of the text itself are skipped. -/
theorem EndsInked.skipBlanks_append (hmove : ∀ i, (move i).item = i.item) (h : EndsInked items) :
    Lexer.skipBlanks (items.map move ++ back) = (Lexer.skipBlanks items).map move ++ back := by
  have hblank : (fun i => Text.isBlank (Located.item i)) ∘ move = fun i => Text.isBlank i.item :=
    funext fun i => congrArg Text.isBlank (hmove i)
  have hskip : Lexer.skipBlanks (items.map move) = (Lexer.skipBlanks items).map move := by
    rw [Lexer.skipBlanks, List.dropWhile_map, hblank, Lexer.skipBlanks]
  have hne : ¬ (Lexer.skipBlanks (items.map move)).isEmpty = true := by
    rw [hskip, List.isEmpty_iff, List.map_eq_nil_iff]
    exact h.skipBlanks_ne_nil
  rw [← hskip, Lexer.skipBlanks, List.dropWhile_append]
  exact if_neg hne

/-- After some blanks there is nothing more, or a semicolon. -/
def Breaks (back : List (Located Char)) : Prop :=
  ∀ c, headItem? (skipBlanks back) = some c → c = ';'

theorem Breaks.border (h : Breaks back) : Border back := by
  intro c hc
  obtain ⟨i, hi, rfl⟩ := Option.map_eq_some_iff.1 hc
  obtain ⟨rest, rfl⟩ := List.head?_eq_some_iff.1 hi
  cases hblank : Text.isBlank i.item with
  | true => exact List.mem_cons_of_mem _ (List.contains_iff_mem.1 hblank)
  | false =>
    have hsemicolon : i.item = ';' := by
      refine h i.item ?_
      rw [skipBlanks, List.dropWhile_cons_of_neg (by simp [hblank])]
      rfl
    rw [hsemicolon]
    decide

theorem Breaks.stop (h : Breaks back) : token.read (skipBlanks back) = none := by
  cases hskip : skipBlanks back with
  | nil => rfl
  | cons i rest =>
    have hsemicolon : i.item = ';' := h i.item (by rw [hskip]; rfl)
    refine token_eq_none_of_border ?_ rest
    rw [hsemicolon]
    decide

/-- A text spells the same tokens with more text behind it, if that breaks them off and does not
    close a quoted text that the first one has opened. -/
theorem Spells.append (hmove : ∀ i, (move i).item = i.item) (hback : Breaks back)
    (h : Spells items ts rest) (hitems : EndsInked items)
    (hquiet : rest = [] ∨ ∀ i ∈ back, isInside i = true) :
    Spells (items.map move ++ back) ts
      (if rest = [] then skipBlanks back else rest.map move ++ back) := by
  induction h with
  | @stop items hnone =>
    have hne : items ≠ [] := by
      rintro rfl
      exact hitems.skipBlanks_ne_nil rfl
    have hends := token_endsAt hmove hback.border (skipBlanks items)
      (text_endsAt hmove hback.border _ (.inr (hquiet.resolve_left hne)))
    rw [if_neg hne]
    refine .stop ?_
    rw [hitems.skipBlanks_append hmove, hends, hnone]
    rfl
  | @next items mid rest t ts hread hrest ih =>
    have hends := token_endsAt_of_read hmove hback.border hread
    have htoken : token.read (skipBlanks (items.map move ++ back)) =
        some (t, mid.map move ++ back) := by
      rw [hitems.skipBlanks_append hmove, hends, hread]
      rfl
    have hmid := takes_token.leaves _ t mid hread
    by_cases hnil : mid = []
    · -- The last token: the blanks after it are skipped together with it.
      subst hnil
      obtain ⟨rfl, rfl⟩ := hrest.unique (.stop rfl)
      refine .next htoken ?_
      have hnil : skipBlanks [] = [] := rfl
      rw [if_pos hnil, List.map_nil, List.nil_append]
      refine .stop ?_
      rw [skipBlanks, skipBlanks, List.dropWhile_idempotent]
      exact hback.stop
    · have hinked := hitems.skipBlanks.of_suffix hmid hnil
      refine .next htoken ?_
      rw [hinked.skipBlanks_append hmove]
      exact ih hinked.skipBlanks hquiet

/-- A text spells the same tokens with blanks before it. -/
theorem Spells.lead (h : Spells items ts rest) (hne : items ≠ []) {lead : List (Located Char)}
    (hlead : ∀ i ∈ lead, Text.isBlank i.item = true) :
    ∃ rest', Spells (lead ++ items) ts rest' ∧ (rest' = [] ↔ rest = []) := by
  have hskip : skipBlanks (lead ++ items) = skipBlanks items := List.dropWhile_append_of_pos hlead
  cases h with
  | stop hnone =>
    refine ⟨lead ++ items, .stop (hskip.symm ▸ hnone), ?_⟩
    simp [hne]
  | next hread hrest => exact ⟨rest, .next (hskip.symm ▸ hread) hrest, Iff.rfl⟩

/-! ## Places -/

/-- A character further on in a text. -/
def shift (distance : Nat) (i : Located Char) : Located Char :=
  ⟨i.item, i.start + distance, i.stop + distance⟩

theorem locateFrom_shift (distance : Nat) (cs : List Char) :
    ∀ start, locateFrom (start + distance) cs = (locateFrom start cs).map (shift distance) := by
  induction cs with
  | nil => exact fun _ => rfl
  | cons c cs ih =>
    intro start
    rw [locateFrom, locateFrom, List.map_cons, ← ih, shift, Nat.add_right_comm start c.utf8Size]

/-- The text after another one lies at another place. -/
theorem exists_locateFrom_append (cs ds : List Char) :
    ∀ start, ∃ distance, locateFrom start (cs ++ ds) =
      locateFrom start cs ++ (locateFrom 0 ds).map (shift distance) := by
  induction cs with
  | nil =>
    intro start
    refine ⟨start, ?_⟩
    rw [← locateFrom_shift, Nat.zero_add]
    rfl
  | cons c cs ih =>
    intro start
    obtain ⟨distance, h⟩ := ih (start + c.utf8Size)
    refine ⟨distance, ?_⟩
    rw [List.cons_append, locateFrom, h]
    rfl

theorem map_item_locateFrom (cs : List Char) :
    ∀ start, (locateFrom start cs).map Located.item = cs := by
  induction cs with
  | nil => exact fun _ => rfl
  | cons c cs ih =>
    intro start
    rw [locateFrom, List.map_cons, ih]

theorem map_item_shift (distance : Nat) (items : List (Located Char)) :
    (items.map (shift distance)).map Located.item = items.map Located.item := by
  rw [List.map_map]
  rfl

/-- A text between two others is the text itself at another place. -/
theorem exists_locateFrom_between (lead core back : List Char) :
    ∃ (before after : List (Located Char)) (distance : Nat),
      locateFrom 0 (lead ++ core ++ back) =
        before ++ ((locateFrom 0 core).map (shift distance) ++ after) ∧
      before.map Located.item = lead ∧ after.map Located.item = back := by
  obtain ⟨distance, h⟩ := exists_locateFrom_append lead (core ++ back) 0
  obtain ⟨distance', h'⟩ := exists_locateFrom_append core back 0
  let after := ((locateFrom 0 back).map (shift distance')).map (shift distance)
  refine ⟨locateFrom 0 lead, after, distance, ?_, map_item_locateFrom lead 0, ?_⟩
  · rw [List.append_assoc, h, h', List.map_append]
  · rw [map_item_shift, map_item_shift, map_item_locateFrom]

theorem map_item_skipBlanks (items : List (Located Char)) :
    (skipBlanks items).map Located.item = (items.map Located.item).dropWhile Text.isBlank := by
  rw [List.dropWhile_map]
  rfl

theorem endsInked_trimChars {cs : List Char} (hne : Text.trimChars cs ≠ []) :
    EndsInked (locateFrom 0 (Text.trimChars cs)) := by
  have hitems := map_item_locateFrom (Text.trimChars cs) 0
  cases hlast : (locateFrom 0 (Text.trimChars cs)).getLast? with
  | none =>
    rw [List.getLast?_eq_none_iff.1 hlast] at hitems
    exact absurd hitems.symm hne
  | some last =>
    have hend : (Text.trimChars cs).getLast? = some last.item := by
      rw [← hitems, List.getLast?_map, hlast, Option.map_some]
    exact ⟨last, hlast, Text.getLast?_trimChars hend⟩

/-- A text that is not blank, trimmed and put between blanks and more text, spells the same
    tokens. -/
theorem exists_spells_between (lead back : List Char) {cs : List Char}
    (hne : Text.trimChars cs ≠ []) (hlead : ∀ c ∈ lead, Text.isBlank c = true)
    (hback : ∀ c ∈ (back.dropWhile Text.isBlank).head?, c = ';')
    (h : Spells (locateFrom 0 (Text.trimChars cs)) ts rest)
    (hquiet : rest = [] ∨ quoteMark ∉ back) :
    ∃ rest', Spells (locateFrom 0 (lead ++ Text.trimChars cs ++ back)) ts rest' ∧
      (rest' = [] ↔ rest = [] ∧ back.dropWhile Text.isBlank = []) := by
  obtain ⟨before, after, distance, hitems, rfl, rfl⟩ :=
    exists_locateFrom_between lead (Text.trimChars cs) back
  have hinked := endsInked_trimChars hne
  have hbreaks : Breaks after := by
    intro c hc
    refine hback c ?_
    rw [← map_item_skipBlanks, List.head?_map]
    exact hc
  have hquiet' : rest = [] ∨ ∀ i ∈ after, isInside i = true := by
    refine hquiet.imp_right fun hquote i hi => ?_
    cases hinside : isInside i with
    | true => rfl
    | false => exact absurd (isInside_eq_false.1 hinside ▸ List.mem_map_of_mem hi) hquote
  have hshift : ∀ i, (shift distance i).item = i.item := fun _ => rfl
  have happend := h.append hshift hbreaks hinked hquiet'
  have hfull : (locateFrom 0 (Text.trimChars cs)).map (shift distance) ++ after ≠ [] := by
    obtain ⟨last, hlast, -⟩ := hinked
    have hmem := List.mem_map_of_mem (f := shift distance) (List.mem_of_getLast? hlast)
    exact List.ne_nil_of_mem (List.mem_append_left after hmem)
  obtain ⟨rest', hspells, hrest⟩ :=
    happend.lead hfull fun i hi => hlead i.item (List.mem_map_of_mem hi)
  refine ⟨rest', hitems ▸ hspells, hrest.trans ?_⟩
  rw [← map_item_skipBlanks, List.map_eq_nil_iff]
  split
  · next hnil => simp [hnil]
  · next hnil => simp [hnil]

/-- Trimming does not change the tokens of a text. -/
theorem Spells.trim {cs : List Char} (h : Spells (locateFrom 0 cs) ts []) (hts : ts ≠ []) :
    Spells (locateFrom 0 (Text.trimChars cs)) ts [] := by
  obtain ⟨lead, tail, hcs, hlead, htail⟩ := Text.exists_trimChars cs
  have htail' : tail.dropWhile Text.isBlank = [] := List.dropWhile_eq_nil_iff.2 htail
  have hne : Text.trimChars cs ≠ [] := by
    intro hnil
    have hskip : skipBlanks (locateFrom 0 cs) = [] := by
      rw [← List.map_eq_nil_iff (f := Located.item), map_item_skipBlanks, map_item_locateFrom, hcs,
        hnil, List.append_nil, List.dropWhile_append_of_pos hlead, htail']
    have hstop : Spells (locateFrom 0 cs) [] (locateFrom 0 cs) := by
      refine .stop ?_
      rw [hskip]
      rfl
    exact hts (h.unique hstop).1
  have hquote : quoteMark ∉ tail := by
    intro hmem
    have hblank := htail _ hmem
    revert hblank
    decide
  obtain ⟨ts', rest, hcore⟩ := exists_spells (locateFrom 0 (Text.trimChars cs))
  obtain ⟨rest', hspells, hrest⟩ := exists_spells_between lead tail hne hlead
    (by rw [htail']; nofun) hcore (.inr hquote)
  rw [← hcs] at hspells
  obtain ⟨rfl, rfl⟩ := h.unique hspells
  obtain ⟨rfl, -⟩ := hrest.1 rfl
  exact hcore

/-- What stands before a semicolon in a text that has tokens to its end has none to its end. -/
theorem not_spells_of_semicolon {cs ds : List Char}
    (h : Spells (locateFrom 0 (Text.trimChars cs)) ts []) (hts : ts ≠ []) :
    ¬ Spells (locateFrom 0 (cs ++ ';' :: ds)) ts' [] := by
  intro hfull
  obtain ⟨lead, tail, hcs, hlead, htail⟩ := Text.exists_trimChars cs
  have hback : (tail ++ ';' :: ds).dropWhile Text.isBlank = ';' :: ds := by
    rw [List.dropWhile_append_of_pos htail]
    exact List.dropWhile_cons_of_neg (by decide)
  have hne : Text.trimChars cs ≠ [] := by
    intro hnil
    rw [hnil] at h
    exact hts (h.unique (.stop rfl)).1
  obtain ⟨rest', hspells, hrest⟩ := exists_spells_between lead (tail ++ ';' :: ds) hne hlead
    (by rw [hback]; rintro _ ⟨⟩; rfl) h (.inl rfl)
  rw [← List.append_assoc, ← hcs] at hspells
  obtain ⟨-, rfl⟩ := hfull.unique hspells
  obtain ⟨-, hnil⟩ := hrest.1 rfl
  rw [hback] at hnil
  cases hnil

end Lexer

/-! ## Actions -/

/-- A text is an action exactly when the tokens that it spells are. -/
theorem parseEventAction_iff_spells {source : String} {a : EventAction} :
    parseEventAction source = .ok a ↔
      ∃ ts, Lexer.Spells (Lexer.locateFrom 0 source.toList) ts [] ∧ Productions.IsAction ts a := by
  rw [parseEventAction_iff]
  constructor
  · rintro ⟨tokens, htokens, ha⟩
    exact ⟨_, Lexer.tokenize_iff.1 ⟨tokens, htokens, rfl⟩, ha⟩
  · rintro ⟨ts, hspells, ha⟩
    obtain ⟨tokens, htokens, rfl⟩ := Lexer.tokenize_iff.2 hspells
    exact ⟨tokens, htokens, ha⟩

/-- Trimming does not change an action. -/
theorem parseEventAction_trim {source : String} {a : EventAction}
    (h : parseEventAction source = .ok a) : parseEventAction (Text.trim source) = .ok a := by
  obtain ⟨ts, hspells, ha⟩ := parseEventAction_iff_spells.1 h
  refine parseEventAction_iff_spells.2 ⟨ts, ?_, ha⟩
  rw [Text.trim_eq]
  exact hspells.trim ha.ne_nil

/-- What stands before a semicolon in an action is none. -/
theorem parseEventAction_cut {cs ds : List Char} {a : EventAction}
    (h : parseEventAction (String.ofList (cs ++ ';' :: ds)) = .ok a) :
    ∃ e, parseEventAction (Text.trim (String.ofList cs)) = .error e := by
  obtain ⟨ts, hspells, -⟩ := parseEventAction_iff_spells.1 h
  cases hparse : parseEventAction (Text.trim (String.ofList cs)) with
  | error e => exact ⟨e, rfl⟩
  | ok b =>
    obtain ⟨ts', hspells', hb⟩ := parseEventAction_iff_spells.1 hparse
    rw [Text.trim_eq, String.toList_ofList] at hspells'
    rw [String.toList_ofList] at hspells
    exact absurd hspells (Lexer.not_spells_of_semicolon hspells' hb.ne_nil)

end ReactiveTemplate
