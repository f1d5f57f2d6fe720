import Mathlib.Data.List.DropRight
import ReactiveTemplate.Evaluation.Cache
import ReactiveTemplate.Proofs.Reporting.Buffers
import ReactiveTemplate.Proofs.State.Notes

/-!
# The life of an expression cache

What a cache has become is told here by the history of the keys it was asked for: it has an entry
for each distinct key, in the order of their first use, and a miss for each entry. So compiling
through the cache is compiling, entries are shared exactly between calls with one key, and a
rejected text is reported once.

* `ExpressionCache.Sound`: each entry is the compiled expression of its text.
* `ExpressionCache.compile_of_mem`, `ExpressionCache.compile_of_not_mem`: a hit and a miss.
* `ExpressionCache.Remembers`: what a cache owes to its history; `ExpressionCache.Remembers.compile`:
  every call keeps it, `ExpressionCache.served_remembers`: every sequence of calls.
* `ExpressionCache.compiles_transparently`: what calls give, count and report.
-/

namespace ReactiveTemplate

/-! ## White space -/

namespace Text

/-- White space that is gone at the front stays gone when the back is cut. -/
theorem dropWhile_rdropWhile {cs : List Char} (h : cs.dropWhile isBlank = cs) :
    (cs.rdropWhile isBlank).dropWhile isBlank = cs.rdropWhile isBlank := by
  have hfront := List.rdropWhile_prefix isBlank cs
  rw [List.dropWhile_eq_self_iff] at h ⊢
  intro hlength
  rw [hfront.getElem hlength]
  exact h (hlength.trans_le hfront.length_le)

theorem trimChars_trimChars (cs : List Char) : trimChars (trimChars cs) = trimChars cs := by
  have hback : ∀ cs, trimChars cs = (cs.dropWhile isBlank).rdropWhile isBlank := fun _ => rfl
  have hidem : (cs.dropWhile isBlank).dropWhile isBlank = cs.dropWhile isBlank :=
    List.dropWhile_idempotent isBlank cs
  rw [hback, hback, dropWhile_rdropWhile hidem, List.rdropWhile_idempotent]

theorem trim_trim (text : String) : trim (trim text) = trim text := by
  rw [trim, trim_eq, trimChars_trimChars]
  rfl

end Text

theorem CompiledExpression.compile_trim (text : String) :
    CompiledExpression.compile (Text.trim text) = CompiledExpression.compile text := by
  rw [compile, compile, Text.trim_trim]

/-! ## Hits and misses -/

/-- What is reported of a key that is compiled: the syntax error of its text, if it has one. -/
def CacheKey.rejection? (key : CacheKey) : Option Diagnostic :=
  let compiled := CompiledExpression.compile key.text
  compiled.error?.map (Diagnostic.ofSyntaxError .rejectedExpression compiled.source)

theorem CacheKey.kind_of_rejection? {key : CacheKey} {d : Diagnostic} (hd : key.rejection? = some d) :
    d.kind = .rejectedExpression := by
  rw [rejection?, Option.map_eq_some_iff] at hd
  obtain ⟨e, -, rfl⟩ := hd
  rfl

/-- A key is reported exactly if its text is rejected. -/
theorem CacheKey.isSome_rejection? (key : CacheKey) :
    key.rejection?.isSome = !(CompiledExpression.compile key.text).isAccepted := by
  rw [rejection?, Option.isSome_map, CompiledExpression.error?, CompiledExpression.isAccepted]
  cases (CompiledExpression.compile key.text).outcome <;> rfl

/-- The line of the log for a key that is compiled tells of no change. -/
theorem LogLine.isChange_compiled (text : String) (marker : ContextMarker) :
    isChange (.message .trace ("compiled '" ++ text ++ "' for " ++ marker.name)) = false := by
  rw [isChange, String.append_assoc, String.append_assoc, String.toList_append]
  rfl

/-- A call of the cache. -/
structure CompileCall where
  text : String
  marker : ContextMarker

/-- The key that a call asks for. -/
def CompileCall.key (c : CompileCall) : CacheKey := ⟨Text.trim c.text, c.marker⟩

namespace ExpressionCache

variable {cache : ExpressionCache} {asked : List CacheKey} {c : CompileCall}

/-- Each entry is the compiled expression of its text. -/
def Sound (cache : ExpressionCache) : Prop :=
  ∀ entry ∈ cache.entries, entry.2 = CompiledExpression.compile entry.1.text

theorem sound_empty : empty.Sound := nofun

/-- The keys of a cache, in the order of their first use. -/
def keys (cache : ExpressionCache) : List CacheKey := cache.entries.map Prod.fst

/-- A key that is there is found at its place. -/
theorem find?_of_mem {key : CacheKey} {entries : List (CacheKey × CompiledExpression)}
    (hsound : ∀ entry ∈ entries, entry.2 = CompiledExpression.compile entry.1.text)
    (hkey : key ∈ entries.map Prod.fst) (first : Nat) :
    find? key first entries =
      some (first + (entries.map Prod.fst).idxOf key, CompiledExpression.compile key.text) := by
  induction entries generalizing first with
  | nil => cases hkey
  | cons entry entries ih =>
    obtain ⟨other, compiled⟩ := entry
    rw [find?, List.map_cons]
    split
    · next heq =>
      rw [heq, List.idxOf_cons_self, ← heq, ← hsound _ List.mem_cons_self]
      rfl
    · next hne =>
      have hrest : key ∈ entries.map Prod.fst := List.mem_of_ne_of_mem (Ne.symm hne) hkey
      rw [ih (fun entry hentry => hsound entry (List.mem_cons_of_mem _ hentry)) hrest,
        List.idxOf_cons_ne _ hne, Nat.succ_eq_add_one, Nat.add_assoc, Nat.add_comm 1]

theorem find?_of_not_mem {key : CacheKey} {entries : List (CacheKey × CompiledExpression)}
    (hkey : key ∉ entries.map Prod.fst) (first : Nat) : find? key first entries = none := by
  induction entries generalizing first with
  | nil => rfl
  | cons entry entries ih =>
    obtain ⟨hne, hrest⟩ := not_or.1 (mt List.mem_cons.2 hkey)
    rw [find?, if_neg (Ne.symm hne)]
    exact ih hrest _

/-- A hit: the entry of the key is given again. -/
theorem compile_of_mem (hc : cache.Sound) (journal : Journal) (hkey : c.key ∈ cache.keys) :
    cache.compile journal c.text c.marker =
      { place := cache.keys.idxOf c.key
        compiled := .compile c.text
        cache := { cache with hits := cache.hits + 1 }
        journal := journal } := by
  have hfind : find? ⟨Text.trim c.text, c.marker⟩ 0 cache.entries = _ := find?_of_mem hc hkey 0
  simp only [compile, hfind, CompileCall.key, CompiledExpression.compile_trim, Nat.zero_add]
  rfl

/-- A miss: the text is compiled, and a new entry is made for it. -/
theorem compile_of_not_mem (journal : Journal) (hkey : c.key ∉ cache.keys) :
    cache.compile journal c.text c.marker =
      { place := cache.entries.length
        compiled := .compile c.text
        cache :=
          { cache with
            entries := cache.entries ++ [(c.key, .compile c.text)]
            misses := cache.misses + 1 }
        journal := (c.key.rejection?.elim journal journal.record).log .trace
          ("compiled '" ++ Text.trim c.text ++ "' for " ++ c.marker.name) } := by
  have hfind : find? ⟨Text.trim c.text, c.marker⟩ 0 cache.entries = none := find?_of_not_mem hkey 0
  simp only [compile, hfind, CompileCall.key, CacheKey.rejection?, CompiledExpression.compile_trim]
  cases (CompiledExpression.compile c.text).error? <;> rfl

theorem compile_spec (hc : cache.Sound) (journal : Journal) (text : String)
    (marker : ContextMarker) :
    (cache.compile journal text marker).compiled = CompiledExpression.compile text ∧
      (cache.compile journal text marker).cache.Sound := by
  let c : CompileCall := ⟨text, marker⟩
  change (cache.compile journal c.text c.marker).compiled = .compile c.text ∧
    (cache.compile journal c.text c.marker).cache.Sound
  by_cases hkey : c.key ∈ cache.keys
  · rw [compile_of_mem hc journal hkey]
    exact ⟨rfl, hc⟩
  · rw [compile_of_not_mem journal hkey]
    refine ⟨rfl, fun entry hentry => ?_⟩
    rcases List.mem_append.1 hentry with hentry | hentry
    · exact hc entry hentry
    · rw [List.mem_singleton.1 hentry]
      exact (CompiledExpression.compile_trim text).symm

/-- A journal grows by the report of a key that is new. -/
theorem grew_compile (hc : cache.Sound) (journal : Journal) (c : CompileCall) :
    journal.Grew (cache.compile journal c.text c.marker).journal
      (if c.key ∈ cache.keys then [] else c.key.rejection?.toList) [] := by
  have hline := LogLine.isChange_compiled (Text.trim c.text) c.marker
  by_cases hkey : c.key ∈ cache.keys
  · rw [compile_of_mem hc journal hkey, if_pos hkey]
    exact .refl journal
  · rw [compile_of_not_mem journal hkey, if_neg hkey]
    cases c.key.rejection? with
    | none => exact Journal.grew_log journal (by decide) hline
    | some d =>
      exact (Journal.grew_record journal d).trans (Journal.grew_log _ (by decide) hline)

/-! ## Sequences of calls -/

/-- What a cache owes to the keys it was asked for. -/
structure Remembers (asked : List CacheKey) (cache : ExpressionCache) : Prop where
  sound : cache.Sound
  keys : cache.keys = asked.eraseDups
  misses : cache.misses = cache.entries.length
  calls : cache.hits + cache.misses = asked.length

theorem remembers_empty : empty.Remembers [] where
  sound := sound_empty
  keys := rfl
  misses := rfl
  calls := rfl

/-- A call adds its key to the history. -/
theorem Remembers.compile (h : cache.Remembers asked) (journal : Journal) (c : CompileCall) :
    (cache.compile journal c.text c.marker).cache.Remembers (asked ++ [c.key]) := by
  have hsound := (compile_spec h.sound journal c.text c.marker).2
  refine { sound := hsound, keys := ?_, misses := ?_, calls := ?_ }
  all_goals by_cases hkey : c.key ∈ cache.keys
  · rw [compile_of_mem h.sound journal hkey, eraseDups_append_singleton, ← h.keys, if_pos hkey]
    rfl
  · rw [compile_of_not_mem journal hkey, eraseDups_append_singleton, ← h.keys, if_neg hkey]
    exact List.map_append
  · rw [compile_of_mem h.sound journal hkey]
    exact h.misses
  · rw [compile_of_not_mem journal hkey, List.length_append, ← h.misses]
    rfl
  · rw [compile_of_mem h.sound journal hkey, List.length_append, ← h.calls]
    exact Nat.add_right_comm _ _ _
  · rw [compile_of_not_mem journal hkey, List.length_append, ← h.calls]
    rfl

/-- The entry of a key that was asked for. -/
theorem Remembers.getElem?_entries (h : cache.Remembers asked) {key : CacheKey} (hkey : key ∈ asked) :
    cache.entries[asked.eraseDups.idxOf key]? = some (key, .compile key.text) := by
  have hmem : key ∈ cache.keys := by rwa [h.keys, List.mem_eraseDups]
  have hplace := List.getElem?_idxOf hmem
  rw [← h.keys]
  generalize cache.keys.idxOf key = place at hplace ⊢
  rw [ExpressionCache.keys, List.getElem?_map, Option.map_eq_some_iff] at hplace
  obtain ⟨⟨other, compiled⟩, hentry, rfl⟩ := hplace
  exact hentry.trans (congrArg (fun e => some (other, e)) (h.sound _ (List.mem_of_getElem? hentry)))

/-- The place of an answer is the place of the first use of its key. -/
theorem Remembers.place_compile (h : cache.Remembers asked) (journal : Journal) (c : CompileCall) :
    (cache.compile journal c.text c.marker).place = (asked ++ [c.key]).eraseDups.idxOf c.key := by
  rw [eraseDups_append_singleton, ← h.keys]
  by_cases hkey : c.key ∈ cache.keys
  · rw [compile_of_mem h.sound journal hkey, if_pos hkey]
  · rw [compile_of_not_mem journal hkey, if_neg hkey, List.idxOf_append, if_neg hkey,
      List.idxOf_cons_self, Nat.zero_add]
    exact (List.length_map _).symm

/-- The cache and the journal after a sequence of calls, of which the first meets an empty cache. -/
def served (journal : Journal) (calls : List CompileCall) : ExpressionCache × Journal :=
  calls.foldl (fun (cache, journal) c =>
    let result := cache.compile journal c.text c.marker
    (result.cache, result.journal)) (empty, journal)

/-- The answer to a call after others. -/
def answer (journal : Journal) (before : List CompileCall) (c : CompileCall) : Result :=
  (served journal before).1.compile (served journal before).2 c.text c.marker

theorem served_append_singleton (journal : Journal) (calls : List CompileCall) (c : CompileCall) :
    served journal (calls ++ [c]) = ((answer journal calls c).cache, (answer journal calls c).journal) :=
  List.foldl_append

theorem served_remembers (journal : Journal) (calls : List CompileCall) :
    (served journal calls).1.Remembers (calls.map CompileCall.key) := by
  induction calls using List.reverseRecOn with
  | nil => exact remembers_empty
  | append_singleton calls c ih =>
    rw [served_append_singleton, List.map_append]
    exact ih.compile _ c

/-- The journal has grown by the reports of the distinct keys, in the order of their first use. -/
theorem served_grew (journal : Journal) (calls : List CompileCall) :
    journal.Grew (served journal calls).2
      ((calls.map CompileCall.key).eraseDups.filterMap CacheKey.rejection?) [] := by
  induction calls using List.reverseRecOn with
  | nil => exact .refl journal
  | append_singleton calls c ih =>
    have h := served_remembers journal calls
    have hc := grew_compile h.sound (served journal calls).2 c
    rw [h.keys] at hc
    rw [served_append_singleton, List.map_append, List.map_singleton, eraseDups_append_singleton]
    by_cases hkey : c.key ∈ (calls.map CompileCall.key).eraseDups
    · rw [if_pos hkey] at hc ⊢
      rw [← List.append_nil (List.filterMap _ _)]
      exact ih.trans hc
    · rw [if_neg hkey] at hc ⊢
      rw [List.filterMap_append, List.filterMap_cons]
      cases hrejection : c.key.rejection? <;> rw [hrejection] at hc <;> exact ih.trans hc

/-- The answer to a call is at the first place of its key, and stays there. -/
theorem place_answer (journal : Journal) (before : List CompileCall) (c : CompileCall)
    (after : List CompileCall) :
    (answer journal before c).place =
      ((before ++ c :: after).map CompileCall.key).eraseDups.idxOf c.key := by
  have hsplit : (before ++ c :: after).map CompileCall.key =
      (before.map CompileCall.key ++ [c.key]) ++ after.map CompileCall.key := by
    rw [List.map_append, List.map_cons, List.append_assoc, List.singleton_append]
  have hmem : c.key ∈ (before.map CompileCall.key ++ [c.key]).eraseDups := by
    rw [List.mem_eraseDups]
    exact List.mem_append_right _ List.mem_cons_self
  rw [hsplit, List.eraseDups_append, List.idxOf_append_of_mem hmem]
  exact (served_remembers journal before).place_compile _ c

/-- An answer is the compiled expression of the text, and stays in the cache. -/
theorem answer_kept (journal : Journal) (before : List CompileCall) (c : CompileCall)
    (after : List CompileCall) :
    let given := answer journal before c
    given.compiled = CompiledExpression.compile c.text ∧
      (served journal (before ++ c :: after)).1.entries[given.place]? =
        some (c.key, given.compiled) := by
  have hbefore := served_remembers journal before
  have hcompiled := (compile_spec hbefore.sound (served journal before).2 c.text c.marker).1
  have hkey : c.key ∈ (before ++ c :: after).map CompileCall.key :=
    List.mem_map_of_mem (List.mem_append_right _ List.mem_cons_self)
  refine ⟨hcompiled, ?_⟩
  rw [place_answer journal before c after, (served_remembers journal _).getElem?_entries hkey]
  refine congrArg (fun compiled => some (c.key, compiled)) ?_
  exact (CompiledExpression.compile_trim c.text).trans hcompiled.symm

theorem place_answer_eq_iff (journal : Journal) (before : List CompileCall) (c : CompileCall)
    (between : List CompileCall) (d : CompileCall) :
    (answer journal before c).place = (answer journal (before ++ c :: between) d).place ↔
      c.key = d.key := by
  have hd := place_answer journal (before ++ c :: between) d []
  rw [List.append_assoc, List.cons_append] at hd
  rw [place_answer journal before c (between ++ [d]), hd]
  refine List.idxOf_inj ?_
  rw [List.mem_eraseDups, List.map_append, List.map_cons]
  exact List.mem_append_right _ List.mem_cons_self

/-- In an empty buffer the reports of the rejected keys count as far as there is room. -/
theorem count_served (calls : List CompileCall) (limit : Nat) :
    (served (.empty limit) calls).2.diagnostics.count .rejectedExpression =
      min limit ((calls.map CompileCall.key).eraseDups.countP fun key =>
        !(CompiledExpression.compile key.text).isAccepted) := by
  rw [(served_grew (.empty limit) calls).diagnostics]
  refine (Diagnostics.count_foldl_record (fun d hd => ?_) limit).trans ?_
  · obtain ⟨key, -, hkey⟩ := List.mem_filterMap.1 hd
    exact key.kind_of_rejection? hkey
  · rw [List.length_filterMap_eq_countP]
    simp only [CacheKey.isSome_rejection?]

/-- Calls of a cache, of which the first meets it empty. Each answer is the compiled expression of
    the text, and stays in the cache at its place. Two answers have one place exactly if their keys
    are the same: the trimmed text and the marker. A journal grows by the report of a rejected text
    in the first call with its key, and in no other. The hits and the misses are the calls, the
    misses are the entries and the distinct keys, and each rejected one is reported once. -/
theorem compiles_transparently (journal : Journal) :
    (∀ before c after,
      let given := answer journal before c
      given.compiled = CompiledExpression.compile c.text ∧
        (served journal (before ++ c :: after)).1.entries[given.place]? =
          some (c.key, given.compiled)) ∧
    (∀ before c between d,
      (answer journal before c).place = (answer journal (before ++ c :: between) d).place ↔
        c.key = d.key) ∧
    (∀ before (c : CompileCall) (kept : Journal),
      kept.Grew ((served journal before).1.compile kept c.text c.marker).journal
        (if c.key ∈ before.map CompileCall.key then [] else c.key.rejection?.toList) []) ∧
    (∀ calls,
      let cache := (served journal calls).1
      let distinct := (calls.map CompileCall.key).eraseDups
      cache.hits + cache.misses = calls.length ∧ cache.misses = cache.entries.length ∧
        cache.misses = distinct.length ∧
        journal.Grew (served journal calls).2 (distinct.filterMap CacheKey.rejection?) []) ∧
    ∀ calls limit,
      (served (.empty limit) calls).2.diagnostics.count .rejectedExpression =
        min limit ((calls.map CompileCall.key).eraseDups.countP fun key =>
          !(CompiledExpression.compile key.text).isAccepted) := by
  refine ⟨answer_kept journal, place_answer_eq_iff journal, fun before c kept => ?_,
    fun calls => ?_, count_served⟩
  · have h := served_remembers journal before
    have hgrew := grew_compile h.sound kept c
    simp only [h.keys, List.mem_eraseDups] at hgrew
    exact hgrew
  · have h := served_remembers journal calls
    refine ⟨h.calls.trans (List.length_map _), h.misses, ?_, served_grew journal calls⟩
    rw [h.misses, ← h.keys]
    exact (List.length_map _).symm

end ExpressionCache

end ReactiveTemplate
