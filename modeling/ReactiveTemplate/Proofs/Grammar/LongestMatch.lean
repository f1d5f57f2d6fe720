import ReactiveTemplate.Proofs.Grammar.Lexemes
import ReactiveTemplate.Proofs.Grammar.Trimming

/-!
# Longest match

The lexer cuts a text into the words that are found by skipping white space and taking the longest
word, again and again up to the end. No character gets lost: what lies in no token is white space,
and each token is written by the characters of its place.

* `Lexer.LongestMatch`: the tokens of a text by longest match, with their places in bytes.
* `Lexer.paddedToken_locateFrom`: one token is one step of it.
* `Lexer.longestMatch_of_read`, `Lexer.LongestMatch.read`: the rule for a whole text.
* `Lexer.Lossless`: what the places of the tokens of a text are.
* `Lexer.tokenize_longestMatch`: the lexer.
-/

namespace ReactiveTemplate.Lexer

/-! ## Places -/

/-- The number of bytes that characters take. -/
def byteSize : List Char → Nat
  | [] => 0
  | c :: cs => c.utf8Size + byteSize cs

theorem byteSize_append (cs ds : List Char) : byteSize (cs ++ ds) = byteSize cs + byteSize ds := by
  induction cs with
  | nil => exact (Nat.zero_add _).symm
  | cons c cs ih => rw [List.cons_append, byteSize, byteSize, ih, Nat.add_assoc]

theorem utf8ByteSize_ofList (cs : List Char) : (String.ofList cs).utf8ByteSize = byteSize cs := by
  induction cs with
  | nil => rfl
  | cons c cs ih =>
    have hcons : String.ofList (c :: cs) = String.singleton c ++ String.ofList cs := by
      rw [← String.toList_inj]
      simp
    rw [hcons, String.utf8ByteSize_append, String.utf8ByteSize_singleton, ih, byteSize]

theorem byteSize_toList (text : String) : byteSize text.toList = text.utf8ByteSize := by
  rw [← utf8ByteSize_ofList, String.ofList_toList]

theorem byteSize_pos {cs : List Char} (hcs : cs ≠ []) : 0 < byteSize cs := by
  obtain ⟨c, cs, rfl⟩ := List.exists_cons_of_ne_nil hcs
  exact Nat.add_pos_left c.utf8Size_pos _

theorem locateFrom_append (cs ds : List Char) :
    ∀ place, locateFrom place (cs ++ ds) =
      locateFrom place cs ++ locateFrom (place + byteSize cs) ds := by
  induction cs with
  | nil => exact fun _ => rfl
  | cons c cs ih =>
    intro place
    rw [List.cons_append, locateFrom, ih, locateFrom, byteSize, Nat.add_assoc]
    rfl

/-- The last of some characters ends where all of them end. -/
theorem stop_getLast?_locateFrom (cs : List Char) :
    ∀ (c : Char) (place : Nat), (locateFrom place (c :: cs)).getLast?.map Located.stop =
      some (place + byteSize (c :: cs)) := by
  induction cs with
  | nil => exact fun c place => rfl
  | cons d cs ih =>
    intro c place
    have hlast := ih d (place + c.utf8Size)
    rw [byteSize, ← Nat.add_assoc, ← hlast, locateFrom, locateFrom, List.getLast?_cons_cons]

/-! ## Longest match -/

/-- Nothing but white space. -/
def Blank (cs : List Char) : Prop := ∀ c ∈ cs, Text.isBlank c = true

theorem blank_nil : Blank [] := nofun

/-- The tokens that are found from a place on by skipping white space and taking the longest word,
    up to the end of a text. -/
inductive LongestMatch : Nat → List Char → List (Located Token) → Prop
  | done {place : Nat} {blanks : List Char} : Blank blanks → LongestMatch place blanks []
  | next {place : Nat} {blanks word rest : List Char} {t : Token} {ts : List (Located Token)} :
    Blank blanks → IsLongest t word rest →
    LongestMatch (place + byteSize blanks + byteSize word) rest ts →
    LongestMatch place (blanks ++ (word ++ rest))
      (⟨t, place + byteSize blanks, place + byteSize blanks + byteSize word⟩ :: ts)

variable {place : Nat} {cs blanks word rest : List Char} {t : Token} {ts : List (Located Token)}

theorem Lexeme.ne_nil (h : Lexeme t word) : word ≠ [] := by
  obtain ⟨c, cs, rfl, -⟩ := h.opens
  exact List.cons_ne_nil c cs

theorem Lexeme.isLongest (h : Lexeme t word) : IsLongest t word [] :=
  ⟨h, fun _ _ _ hfront => by
    rw [List.append_nil] at hfront
    exact hfront.length_le⟩

theorem begins_locateFrom (place : Nat) (word rest : List Char) :
    Begins word (locateFrom place (word ++ rest)) (locateFrom (place + byteSize word) rest) :=
  ⟨locateFrom place word, locateFrom_append word rest place, map_item_locateFrom word place⟩

/-- No word begins with white space. -/
theorem Lexeme.head_not_blank (h : Lexeme t word) {c : Char} (hc : word.head? = some c) :
    Text.isBlank c = false := by
  obtain ⟨cs, rfl⟩ := List.head?_eq_some_iff.1 hc
  cases hblank : Text.isBlank c with
  | false => rfl
  | true =>
    have hread : token.read (locateFrom 0 (c :: cs)) = some (t, []) := by
      have hbegins := begins_locateFrom 0 (c :: cs) []
      rw [List.append_nil] at hbegins
      exact read_token_iff.2 ⟨_, hbegins, h.isLongest⟩
    have hborder : c.toNat ∈ borders := List.mem_cons_of_mem _ (List.contains_iff_mem.1 hblank)
    rw [locateFrom, token_eq_none_of_border hborder] at hread
    cases hread

theorem IsLongest.head_not_blank (h : IsLongest t word rest) {c : Char}
    (hc : (word ++ rest).head? = some c) : Text.isBlank c = false := by
  rw [List.head?_append_of_ne_nil _ h.lexeme.ne_nil] at hc
  exact h.lexeme.head_not_blank hc

theorem skipBlanks_locateFrom (place : Nat) (hblanks : Blank blanks)
    (hrest : ∀ c, rest.head? = some c → Text.isBlank c = false) :
    skipBlanks (locateFrom place (blanks ++ rest)) = locateFrom (place + byteSize blanks) rest := by
  have hfront : ∀ i ∈ locateFrom place blanks, Text.isBlank i.item = true := fun i hi => by
    refine hblanks i.item ?_
    rw [← map_item_locateFrom blanks place]
    exact List.mem_map_of_mem hi
  rw [locateFrom_append, skipBlanks, List.dropWhile_append_of_pos hfront]
  cases rest with
  | nil => rfl
  | cons c rest =>
    have hc := hrest c rfl
    exact List.dropWhile_cons_of_neg (by simp [hc])

/-- A text is white space and then a text that does not begin with any. -/
theorem exists_skipBlanks (place : Nat) (cs : List Char) :
    ∃ blanks rest, cs = blanks ++ rest ∧ Blank blanks ∧
      skipBlanks (locateFrom place cs) = locateFrom (place + byteSize blanks) rest := by
  have hcs : cs = cs.takeWhile Text.isBlank ++ cs.dropWhile Text.isBlank :=
    List.takeWhile_append_dropWhile.symm
  have hblank : Blank (cs.takeWhile Text.isBlank) := fun c hc => List.mem_takeWhile_imp hc
  have hinked : ∀ c, (cs.dropWhile Text.isBlank).head? = some c → Text.isBlank c = false :=
    fun c hc => by
      have hhead := List.head?_dropWhile_not Text.isBlank cs
      rw [hc] at hhead
      exact hhead
  have hskip := skipBlanks_locateFrom place hblank hinked
  rw [← hcs] at hskip
  exact ⟨_, _, hcs, hblank, hskip⟩

/-- A text without tokens. -/
theorem LongestMatch.blank_of_nil (h : LongestMatch place cs []) : Blank cs := by
  cases h with
  | done hblanks => exact hblanks

/-! ## One token -/

theorem read_located_token (place : Nat) (h : IsLongest t word rest) :
    (Rule.located token).read (locateFrom place (word ++ rest)) =
      some (⟨t, place, place + byteSize word⟩, locateFrom (place + byteSize word) rest) := by
  have hread : token.read (locateFrom place (word ++ rest)) =
      some (t, locateFrom (place + byteSize word) rest) := by
    refine read_token_iff.2 ⟨word, begins_locateFrom place word rest, ?_⟩
    rwa [map_item_locateFrom]
  have htaken : (locateFrom place (word ++ rest)).take ((locateFrom place (word ++ rest)).length -
      (locateFrom (place + byteSize word) rest).length) = locateFrom place word := by
    rw [locateFrom_append, List.length_append, Nat.add_sub_cancel, List.take_left]
  obtain ⟨c, cs, rfl, -⟩ := h.lexeme.opens
  have hstop := stop_getLast?_locateFrom cs c place
  rw [Rule.located]
  simp only [hread, htaken]
  cases hlast : (locateFrom place (c :: cs)).getLast? with
  | none =>
    rw [hlast] at hstop
    cases hstop
  | some last =>
    rw [hlast] at hstop
    have hplace : last.stop = place + byteSize (c :: cs) := Option.some.inj hstop
    simp only [Option.elim, hplace]
    rfl

theorem read_paddedToken_of_skipBlanks {items items' : List (Located Char)}
    (h : skipBlanks items = items') :
    paddedToken.read items =
      ((Rule.located token).read items').map fun r => (r.1, skipBlanks r.2) := by
  have hskip : ∀ items, (Rule.skip Text.isBlank).read items = some ((), skipBlanks items) :=
    fun _ => rfl
  rw [paddedToken, Rule.read_bind_of_eq_some (hskip items), h, Rule.read_bind]
  cases (Rule.located token).read items' <;> rfl

/-- One token of a text, with its place. -/
theorem paddedToken_locateFrom (place : Nat) (hblanks : Blank blanks) (h : IsLongest t word rest) :
    paddedToken.read (locateFrom place (blanks ++ (word ++ rest))) =
      some (⟨t, place + byteSize blanks, place + byteSize blanks + byteSize word⟩,
        skipBlanks (locateFrom (place + byteSize blanks + byteSize word) rest)) := by
  have hskip := skipBlanks_locateFrom place hblanks fun _ => h.head_not_blank
  rw [read_paddedToken_of_skipBlanks hskip, read_located_token _ h]
  rfl

/-- Where a token is read, a longest word follows some white space. -/
theorem exists_of_read_paddedToken {r : Located Token × List (Located Char)}
    (h : paddedToken.read (locateFrom place cs) = some r) :
    ∃ blanks word rest t, cs = blanks ++ (word ++ rest) ∧ Blank blanks ∧ IsLongest t word rest := by
  obtain ⟨blanks, core, rfl, hblanks, hskip⟩ := exists_skipBlanks place cs
  have hread := read_paddedToken (locateFrom place (blanks ++ core))
  rw [h, hskip] at hread
  obtain ⟨⟨t, mid⟩, htoken, -⟩ := Option.map_eq_some_iff.1 hread.symm
  obtain ⟨word, ⟨front, hitems, hword⟩, hlongest⟩ := read_token_iff.1 htoken
  refine ⟨blanks, word, mid.map Located.item, t, ?_, hblanks, hlongest⟩
  rw [← map_item_locateFrom core (place + byteSize blanks), hitems, List.map_append, hword]

/-! ## All tokens -/

/-- White space in front of a text does not matter, but for the places. -/
theorem LongestMatch.lead (hblanks : Blank blanks)
    (h : LongestMatch (place + byteSize blanks) cs ts) : LongestMatch place (blanks ++ cs) ts := by
  have happend : ∀ {more : List Char}, Blank more → Blank (blanks ++ more) := fun hmore c hc =>
    (List.mem_append.1 hc).elim (hblanks c) (hmore c)
  cases h with
  | done hmore => exact .done (happend hmore)
  | next hmore hlongest hrest =>
    rw [Nat.add_assoc place, ← byteSize_append] at hrest ⊢
    rw [← List.append_assoc]
    exact .next (happend hmore) hlongest hrest

theorem longestMatch_of_read (ts : List (Located Token)) :
    ∀ {place : Nat} {cs : List Char}, tokens.read (locateFrom place cs) = some (ts, []) →
      LongestMatch place cs ts := by
  induction ts with
  | nil =>
    intro place cs h
    rw [tokens, Rule.read_repeated progresses_paddedToken] at h
    cases hread : paddedToken.read (locateFrom place cs) with
    | none =>
      rw [hread] at h
      have hnil : locateFrom place cs = [] := (Prod.mk.inj (Option.some.inj h)).2
      rw [← map_item_locateFrom cs place, hnil]
      exact .done blank_nil
    | some r =>
      rw [hread] at h
      obtain ⟨_, -, hpair⟩ := Option.map_eq_some_iff.1 h
      cases (Prod.mk.inj hpair).1
  | cons i ts ih =>
    intro place cs h
    obtain ⟨mid, hread, hrest⟩ := Rule.read_repeated_cons progresses_paddedToken h
    obtain ⟨blanks, word, rest, t, rfl, hblanks, hlongest⟩ := exists_of_read_paddedToken hread
    rw [paddedToken_locateFrom place hblanks hlongest] at hread
    obtain ⟨rfl, rfl⟩ := Prod.mk.inj (Option.some.inj hread)
    obtain ⟨more, core, rfl, hmore, hskip⟩ :=
      exists_skipBlanks (place + byteSize blanks + byteSize word) rest
    rw [hskip] at hrest
    exact .next hblanks hlongest ((ih hrest).lead hmore)

theorem LongestMatch.read (h : LongestMatch place cs ts) :
    tokens.read (skipBlanks (locateFrom place cs)) = some (ts, []) := by
  induction h with
  | @done place blanks hblanks =>
    have hskip : skipBlanks (locateFrom place (blanks ++ [])) = [] :=
      skipBlanks_locateFrom place hblanks nofun
    rw [List.append_nil] at hskip
    rw [hskip]
    rfl
  | @next place blanks word rest t ts hblanks hlongest _ ih =>
    rw [skipBlanks_locateFrom place hblanks fun _ => hlongest.head_not_blank, tokens,
      Rule.read_repeated progresses_paddedToken]
    have hread := paddedToken_locateFrom (place + byteSize blanks) blank_nil hlongest
    rw [List.nil_append] at hread
    rw [hread]
    change Option.map _ (tokens.read _) = _
    rw [show byteSize [] = 0 from rfl, Nat.add_zero, ih]
    rfl

/-- White space in front of the first token does not matter. -/
theorem read_tokens_of_skipBlanks {items : List (Located Char)} {i : Located Token}
    (h : tokens.read (skipBlanks items) = some (i :: ts, [])) :
    tokens.read items = some (i :: ts, []) := by
  have hskip : skipBlanks (skipBlanks items) = skipBlanks items :=
    List.dropWhile_idempotent _ items
  have hpadded : paddedToken.read items = paddedToken.read (skipBlanks items) := by
    rw [read_paddedToken_of_skipBlanks (Eq.refl (skipBlanks items)),
      read_paddedToken_of_skipBlanks hskip]
  obtain ⟨mid, hread, hrest⟩ := Rule.read_repeated_cons progresses_paddedToken h
  rw [tokens, Rule.read_repeated progresses_paddedToken, hpadded, hread]
  change Option.map _ (tokens.read mid) = _
  rw [tokens, hrest]
  rfl

theorem tokenize_eq_ok {source : String} :
    tokenize source = .ok ts ↔ tokens.read (locateChars source) = some (ts, []) := by
  unfold tokenize
  rw [← Rule.parse_eq_ok_iff]
  cases tokens.parse (locateChars source) with
  | ok result => simp
  | error furthest => simp

/-! ## Where tokens lie -/

/-- Each token is written by the characters at its place. -/
theorem LongestMatch.spelled (h : LongestMatch place cs ts) :
    ∀ i ∈ ts, ∃ before word after, cs = before ++ (word ++ after) ∧ Lexeme i.item word ∧
      i.start = place + byteSize before ∧ i.stop = i.start + byteSize word := by
  induction h with
  | done => exact nofun
  | @next place blanks word rest t ts hblanks hlongest _ ih =>
    intro i hi
    rcases List.mem_cons.1 hi with rfl | hi
    · exact ⟨blanks, word, rest, rfl, hlongest.lexeme, rfl, rfl⟩
    · obtain ⟨before, word', after, rfl, hword', hstart, hstop⟩ := ih i hi
      refine ⟨blanks ++ (word ++ before), word', after, ?_, hword', ?_, hstop⟩
      · simp only [List.append_assoc]
      · rw [hstart, byteSize_append, byteSize_append]
        omega

/-- Each token ends before the next one begins. -/
theorem LongestMatch.ordered (h : LongestMatch place cs ts) :
    ts.Pairwise fun i j => i.stop ≤ j.start := by
  induction h with
  | done => exact .nil
  | next _ _ hrest ih =>
    refine .cons (fun j hj => ?_) ih
    obtain ⟨before, -, -, -, -, hstart, -⟩ := hrest.spelled j hj
    rw [hstart]
    exact Nat.le_add_right _ _

/-- A character that begins at the place of no token is white space. -/
theorem LongestMatch.blank_outside (h : LongestMatch place cs ts) :
    ∀ {before after : List Char} {c : Char}, cs = before ++ c :: after →
      (∀ i ∈ ts, place + byteSize before < i.start ∨ i.stop ≤ place + byteSize before) →
        Text.isBlank c = true := by
  induction h with
  | done hblanks =>
    rintro before after c rfl -
    exact hblanks c (by simp)
  | @next place blanks word rest t ts hblanks hlongest _ ih =>
    intro before after c hcs houtside
    have hinside : ∀ more tail, before = blanks ++ more → word ≠ more ++ c :: tail := by
      rintro more tail rfl rfl
      have hplace := houtside _ List.mem_cons_self
      have hsize := c.utf8Size_pos
      simp only [byteSize_append, byteSize] at hplace
      omega
    have hbehind : ∀ more, before = blanks ++ (word ++ more) → rest = more ++ c :: after →
        Text.isBlank c = true := by
      rintro more rfl hrest
      refine ih hrest fun i hi => ?_
      have hplace := houtside i (List.mem_cons_of_mem _ hi)
      rw [byteSize_append, byteSize_append] at hplace
      omega
    rcases List.append_eq_append_iff.1 hcs with ⟨more, hbefore, htail⟩ | ⟨more, rfl, htail⟩
    · rcases List.append_eq_append_iff.1 htail with ⟨more', rfl, hrest⟩ | ⟨more', hword, hrest⟩
      · exact hbehind more' hbefore hrest
      · cases more' with
        | nil =>
          rw [List.append_nil] at hword
          exact hbehind [] (by rw [hbefore, hword, List.append_nil]) hrest.symm
        | cons d tail =>
          obtain ⟨rfl, -⟩ := List.cons.inj hrest
          exact absurd hword (hinside more tail hbefore)
    · cases more with
      | nil =>
        obtain ⟨d, tail, rfl⟩ := List.exists_cons_of_ne_nil hlongest.lexeme.ne_nil
        obtain ⟨rfl, -⟩ := List.cons.inj htail
        exact absurd rfl (hinside [] tail (by simp))
      | cons d tail =>
        obtain ⟨rfl, -⟩ := List.cons.inj htail
        exact hblanks c (by simp)

/-- The places of the tokens of a text: a token is written by the characters between its start and
    its stop, which are numbers of bytes, the tokens are in order, and a character that no token
    spans is white space. -/
structure Lossless (source : String) (tokens : List (Located Token)) : Prop where
  spelled : ∀ i ∈ tokens, ∃ before word after : String, source = before ++ word ++ after ∧
    i.start = before.utf8ByteSize ∧ i.stop = before.utf8ByteSize + word.utf8ByteSize ∧
    i.start < i.stop ∧ Lexeme i.item word.toList
  ordered : tokens.Pairwise fun i j => i.stop ≤ j.start
  blank : ∀ (before : String) (c : Char) (after : String),
    source = before ++ String.singleton c ++ after →
    (∀ i ∈ tokens, before.utf8ByteSize < i.start ∨ i.stop ≤ before.utf8ByteSize) →
    Text.isBlank c = true

theorem LongestMatch.lossless {source : String} (h : LongestMatch 0 source.toList ts) :
    Lossless source ts := by
  refine ⟨fun i hi => ?_, h.ordered, fun before c after hsource houtside => ?_⟩
  · obtain ⟨before, word, after, hsource, hword, hstart, hstop⟩ := h.spelled i hi
    refine ⟨String.ofList before, String.ofList word, String.ofList after, ?_, ?_, ?_, ?_, ?_⟩
    · rw [← String.toList_inj, hsource]
      simp
    · rw [utf8ByteSize_ofList, hstart, Nat.zero_add]
    · rw [utf8ByteSize_ofList, utf8ByteSize_ofList, hstop, hstart, Nat.zero_add]
    · rw [hstop]
      exact Nat.lt_add_of_pos_right (byteSize_pos hword.ne_nil)
    · rwa [String.toList_ofList]
  · have hcs : source.toList = before.toList ++ c :: after.toList := by
      rw [hsource]
      simp
    refine h.blank_outside hcs fun i hi => ?_
    rw [byteSize_toList, Nat.zero_add]
    exact houtside i hi

/-- The lexer is a longest match that loses nothing. The tokens of a text have the places where they
    are written, and what lies between them is white space. A text that is not just white space has
    tokens exactly if skipping white space and taking the longest word, again and again, reaches its
    end, and these are its tokens. -/
theorem tokenize_longestMatch (source : String) :
    (∀ tokens, tokenize source = .ok tokens → Lossless source tokens) ∧
      (¬ Blank source.toList →
        ∀ tokens, tokenize source = .ok tokens ↔ LongestMatch 0 source.toList tokens) := by
  have hmatch : ∀ tokens, tokenize source = .ok tokens → LongestMatch 0 source.toList tokens :=
    fun tokens h => longestMatch_of_read tokens (tokenize_eq_ok.1 h)
  refine ⟨fun tokens h => (hmatch tokens h).lossless, fun hinked tokens => ⟨hmatch tokens, fun h => ?_⟩⟩
  rw [tokenize_eq_ok]
  have hread := h.read
  cases tokens with
  | nil => exact absurd h.blank_of_nil hinked
  | cons i tokens => exact read_tokens_of_skipBlanks hread

/-- A comparison with white space before and between its tokens. -/
theorem comparison_longestMatch :
    let tokens : List (Located Token) :=
      [⟨.identifier "a", 1, 2⟩, ⟨.sign .strictNotEqual, 2, 5⟩, ⟨.text "é", 6, 10⟩]
    tokenize " a!== 'é'" = .ok tokens ∧ ¬ Blank " a!== 'é'".toList ∧
      Lossless " a!== 'é'" tokens ∧ LongestMatch 0 " a!== 'é'".toList tokens := by
  intro tokens
  have hok : tokenize " a!== 'é'" = .ok tokens := rfl
  have hinked : ¬ Blank " a!== 'é'".toList := fun h => absurd (h 'a' (by decide)) (by decide)
  obtain ⟨hlossless, hmatch⟩ := tokenize_longestMatch " a!== 'é'"
  exact ⟨hok, hinked, hlossless tokens hok, (hmatch hinked tokens).1 hok⟩

end ReactiveTemplate.Lexer
