import ReactiveTemplate.Proofs.Engine.Additions
import ReactiveTemplate.Proofs.Grammar.Names
import ReactiveTemplate.Proofs.State.Evolution

/-!
# Bindings that changes cannot affect

A binding that no pending path can affect shows the state after the changes if it showed the
state before them.

* `Branch.rendered_of_readsAlike`: copies of a template before and after the changes.
* `Page.Shows.kept`: what the binding shows.
-/

namespace ReactiveTemplate

variable {config : Config} {t₀ : HostTree Reaction} {b : Binding} {h h' : Heap} {scope scope' : Scope}

/-! ## Expressions -/

/-- The value of an attribute text whose paths read the same, and its text. -/
theorem sourceValue_of_readsAlike {source : String}
    (hpaths : ∀ p ∈ (CompiledExpression.compile source).paths, ReadsAlike h h' scope scope' p) :
    sourceValue h scope source = sourceValue h' scope' source ∧
      (sourceValue h scope source).textContent h =
        (sourceValue h' scope' source).textContent h' := by
  rw [sourceValue, sourceValue]
  obtain ⟨hvalue, hbelow⟩ := CompiledExpression.evaluate_of_readsAlike hpaths
  rw [← hvalue]
  exact ⟨rfl, hbelow.textContent⟩

/-- A copy of a template for an item, where all that its expressions read is the same. -/
theorem Branch.rendered_of_readsAlike {shape : Branch Figure}
    (hreads : ∀ f ∈ shape.labels, ∀ kind ∈ Page.templateKinds, ∀ source,
      f.source? (config.attributeName kind) = some source →
        ∀ p ∈ (CompiledExpression.compile source).paths, ReadsAlike h h' scope scope' p) :
    shape.rendered config h scope = shape.rendered config h' scope' := by
  refine shape.rewrite_congr (fun f hf => ?_) fun f hf => ?_
  · rw [Config.display, Config.display]
    cases hsource : f.source? (config.attributeName .visibility) with
    | none => rfl
    | some source =>
      have hkind : DirectiveKind.visibility ∈ Page.templateKinds :=
        List.mem_cons_of_mem _ List.mem_cons_self
      have hvalue := sourceValue_of_readsAlike (hreads f hf .visibility hkind source hsource)
      dsimp only
      rw [hvalue.1]
  · rw [Config.content?, Config.content?]
    cases hsource : f.source? (config.attributeName .bind) with
    | none => rw [Option.map_none, Option.map_none]
    | some source =>
      have hkind : DirectiveKind.bind ∈ Page.templateKinds := List.mem_cons_self
      have hvalue := sourceValue_of_readsAlike (hreads f hf .bind hkind source hsource)
      rw [Option.map_some, Option.map_some, hvalue.2]

/-! ## Bindings -/

/-- What a binding reads is not overlapped by changes that cannot affect it. -/
theorem Binding.Covers.not_overlap {paths changed : List String} (hcovers : b.Covers paths)
    (hb : b.isAffectedBy changed = false ∨ changed = []) :
    ∀ path ∈ paths, ∀ n ∈ changed, pathsOverlap path n ≠ true := by
  intro path hpath n hn hoverlap
  replace hb := hb.resolve_right (List.ne_nil_of_mem hn)
  rw [isAffectedBy] at hb
  cases hreads : b.reads with
  | none =>
    rw [hreads] at hb
    cases hb
  | some reads =>
    rw [hreads] at hb
    have hall := List.any_eq_false.1 hb path (hcovers reads hreads path hpath)
    exact hall (List.any_eq_true.2 ⟨n, hn, hoverlap⟩)

/-- What a covered expression has for its value. -/
theorem Binding.Covers.evaluate {s s' : State} {source : String}
    (hcovers : b.Covers (CompiledExpression.compile source).dependencies) (hs : s.Evolves s')
    (hb : b.isAffectedBy s'.scheduler.pending = false ∨ s'.scheduler.pending = []) :
    (CompiledExpression.compile source).evaluate s'.heap s'.scope =
        (CompiledExpression.compile source).evaluate s.heap s.scope ∧
      ((CompiledExpression.compile source).evaluate s.heap s.scope).textContent s'.heap =
        ((CompiledExpression.compile source).evaluate s.heap s.scope).textContent s.heap := by
  have hpaths : ∀ p ∈ (CompiledExpression.compile source).paths,
      ReadsSame s.heap s'.heap s.scope p := fun p hp =>
    hs.reads p (CompiledExpression.grammatical source p hp)
      (hcovers.not_overlap hb p.dotted (List.mem_map_of_mem hp))
  obtain ⟨hvalue, hbelow⟩ := CompiledExpression.evaluate_of_readsAlike fun p hp => (hpaths p hp).alike
  rw [hs.scope]
  exact ⟨hvalue.symm, hbelow.textContent.symm⟩

/-- A binding that no pending path can affect shows what it showed, and that is the state. So
    does every binding if there is no pending path. -/
theorem Page.Shows.kept {page page' : Page} (hshows : page.Shows t₀ b)
    (hasked : b.AskedFor page.config t₀) (hhost : page'.host = page.host)
    (hconfig : page'.config = page.config) (hs : page.state.Evolves page'.state)
    (hb : b.isAffectedBy page'.state.scheduler.pending = false ∨
      page'.state.scheduler.pending = []) : page'.Shows t₀ b := by
  unfold Shows textOf value at hshows ⊢
  unfold Binding.AskedFor at hasked
  rw [hhost]
  cases hdir : b.directive with
  | text e shown =>
    rw [hdir] at hshows hasked
    obtain ⟨rfl, hcovers⟩ := hasked
    obtain ⟨hvalue, htext⟩ := hcovers.evaluate hs hb
    dsimp only at hshows ⊢
    rw [hvalue, htext]
    exact hshows
  | visibility e =>
    rw [hdir] at hshows hasked
    obtain ⟨rfl, hcovers⟩ := hasked
    dsimp only at hshows ⊢
    rw [(hcovers.evaluate hs hb).1]
    exact hshows
  | presence e placeholder present =>
    rw [hdir] at hshows hasked
    obtain ⟨rfl, hcovers⟩ := hasked
    dsimp only at hshows ⊢
    rw [(hcovers.evaluate hs hb).1]
    exact hshows
  | repetition clause template placeholder rendered =>
    rw [hdir] at hshows hasked
    obtain ⟨hparse, hlist, hcovers⟩ := hasked
    dsimp only at hshows ⊢
    have hread := hs.reads clause.list (Path.grammatical_of_parseForClause hparse)
      (hlist.not_overlap hb _ (List.mem_singleton_self _))
    intro id hid
    rw [hs.scope, ← hread.value] at hid
    obtain ⟨shape, hshape, hcopies⟩ := hshows id hid
    have hbelow := hread.below _ hid
    have hitems : page'.state.heap.items id = page.state.heap.items id := by
      have hagree : page.state.heap.array id = page'.state.heap.array id := hbelow.self rfl
      rw [Heap.items, Heap.items, hagree]
    refine ⟨shape, hshape, ?_⟩
    rw [ShowsItems, hitems, hconfig, hs.scope, hhost]
    refine List.forall₂_iff_zip.2 ⟨hcopies.length_eq, fun {copy value} hmem => ?_⟩
    have hdrawn := (List.forall₂_iff_zip.1 hcopies).2 hmem
    obtain ⟨index, hindex⟩ := List.getElem?_of_mem (List.of_mem_zip hmem).2
    have hvalue : page.state.heap.AgreeBelow page'.state.heap value :=
      hbelow.child (c := .array id) rfl (show page.state.heap.child? (.array id) (.item index) = _
        from hindex)
    rw [← Branch.rendered_of_readsAlike]
    · exact hdrawn
    · intro f hf kind hkind source hsource p hp
      by_cases hroot : p.root = clause.item
      · exact ReadsAlike.item hvalue hroot
      · refine ReadsAlike.outside hroot ?_
        have hoverlap := (hcovers shape hshape f hf kind hkind source hsource).not_overlap hb p.dotted
        refine (hs.reads p (CompiledExpression.grammatical source p hp) (hoverlap ?_)).alike
        exact List.mem_map_of_mem (List.mem_filter.2 ⟨hp, by simpa using hroot⟩)
  | model e listener =>
    rw [hdir] at hshows hasked
    obtain ⟨rfl, hcovers⟩ := hasked
    obtain ⟨hvalue, htext⟩ := hcovers.evaluate hs hb
    dsimp only at hshows ⊢
    rw [hvalue, htext]
    exact hshows
  | events listeners => trivial

end ReactiveTemplate
