import ReactiveTemplate.Engine.Registration
import ReactiveTemplate.Proofs.Document.Branches
import ReactiveTemplate.Proofs.Evaluation.Caching

/-!
# Quiet steps of a page

Compiling and evaluating expressions, and everything else that a page does to its document,
leaves the state alone.

* `Page.Calm`: a step after which conventions, containers and pending paths are as before.
* `Page.compile_spec`, `Page.evaluate_spec`: what compiling and evaluating gives.
* `untilFailure_append`: steps in a row, in two parts.
* `Page.registerPresence_replaced`, `Page.registerRepetition_made`: the steps by which an element
  leaves its place, or becomes a list.
-/

namespace ReactiveTemplate

/-! ## Steps in a row -/

section Steps

variable {σ ε β : Type} {step : σ → β → Except ε Unit × σ}

theorem untilFailure_nil (s : σ) : untilFailure step [] s = (.ok (), s) := rfl

theorem untilFailure_append {xs ys : List β} {s s' : σ}
    (h : untilFailure step xs s = (.ok (), s')) :
    untilFailure step (xs ++ ys) s = untilFailure step ys s' := by
  induction xs generalizing s with
  | nil =>
    rw [untilFailure, Prod.mk.injEq] at h
    rw [List.nil_append, h.2]
  | cons x xs ih =>
    rw [untilFailure] at h
    rw [List.cons_append, untilFailure]
    cases hstep : step s x with
    | mk r s₁ =>
      rw [hstep] at h
      cases r with
      | error e => cases h
      | ok _ => exact ih h

theorem untilFailure_cons {x : β} {xs : List β} {s s' : σ} (h : step s x = (.ok (), s')) :
    untilFailure step (x :: xs) s = untilFailure step xs s' := by
  rw [untilFailure, h]

/-- What every step keeps, a row of steps keeps. -/
theorem untilFailure_keeps {Q : σ → Prop} {xs : List β} (hstep : ∀ x ∈ xs, ∀ s, Q s → Q (step s x).2) :
    ∀ s, Q s → Q (untilFailure step xs s).2 := by
  induction xs with
  | nil => exact fun _ h => h
  | cons x xs ih =>
    intro s h
    have hx := hstep x List.mem_cons_self s h
    rw [untilFailure]
    rcases hdone : step s x with ⟨_ | _, s'⟩
    · rw [hdone] at hx
      exact hx
    · rw [hdone] at hx
      exact ih (fun y hy => hstep y (List.mem_cons_of_mem _ hy)) s' hx

end Steps

/-! ## Pages -/

namespace Page

/-- A step after which the conventions of a page, the containers of its state and the pending
    paths are as before, and the cache is still sound. -/
structure Calm (page page' : Page) : Prop where
  config : page'.config = page.config
  store : page'.state.store = page.state.store
  scheduler : page'.state.scheduler = page.state.scheduler
  cache : page'.cache.Sound

variable {page page' page'' : Page}

theorem Calm.refl (hc : page.cache.Sound) : page.Calm page := ⟨rfl, rfl, rfl, hc⟩

theorem Calm.trans (h : page.Calm page') (h' : page'.Calm page'') : page.Calm page'' :=
  ⟨h'.config.trans h.config, h'.store.trans h.store, h'.scheduler.trans h.scheduler, h'.cache⟩

theorem Calm.heap (h : page.Calm page') : page'.state.heap = page.state.heap :=
  congrArg Store.heap h.store

theorem Calm.scope (h : page.Calm page') : page'.state.scope = page.state.scope := by
  rw [Tracked.scope, h.store, Tracked.scope]

theorem Calm.withHost (h : page.Calm page') (host : HostTree Reaction) :
    page.Calm { page' with host := host } :=
  ⟨h.config, h.store, h.scheduler, h.cache⟩

theorem Calm.afterHost {host : HostTree Reaction}
    (h : ({ page with host := host } : Page).Calm page') : page.Calm page' :=
  ⟨h.config, h.store, h.scheduler, h.cache⟩

theorem compile_spec (hc : page.cache.Sound) (text : String) (marker : ContextMarker) :
    ∃ page', page.compile text marker = (CompiledExpression.compile text, page') ∧
      page.Calm page' ∧ page'.host = page.host := by
  obtain ⟨hcompiled, hcache⟩ := ExpressionCache.compile_spec hc page.state.journal text marker
  refine ⟨(page.compile text marker).2, ?_, ⟨rfl, rfl, rfl, hcache⟩, rfl⟩
  rw [← hcompiled]
  rfl

theorem evaluate_spec (hc : page.cache.Sound) (expression : CompiledExpression) (scope : Scope) :
    ∃ page', page.evaluate expression scope =
        (expression.evaluate page.state.heap scope, page') ∧
      page.Calm page' ∧ page'.host = page.host := by
  rw [evaluate, CompiledExpression.evaluate]
  cases expression.eval? page.state.heap scope with
  | ok value => exact ⟨page, rfl, Calm.refl hc, rfl⟩
  | error e => exact ⟨_, rfl, ⟨rfl, rfl, rfl, hc⟩, rfl⟩

/-! ## The steps to a list -/

theorem registerRepetition_malformed {node : NodeId} {text : String} {e : SyntaxError}
    (hparse : parseForClause (Text.trim text) = .error e) :
    page.registerRepetition node text = (.ok none,
      { page with state := page.state.recordSyntax .malformedFor (Text.trim text) e }) := by
  unfold registerRepetition
  dsimp only
  rw [hparse]

theorem registerRepetition_uncopied {node : NodeId} {text : String} {clause : ForClause} {e : HostError}
    {t₁ : HostTree Reaction} (hparse : parseForClause (Text.trim text) = .ok clause)
    (hclone : page.host.cloneNode node = (.error e, t₁)) :
    page.registerRepetition node text = (.error e, { page with host := t₁ }) := by
  unfold registerRepetition
  dsimp only
  rw [hparse]
  dsimp only
  rw [editPartly, hclone]

section Presence

variable {e : CompiledExpression} {value : Value} {page₁ page₂ : Page} {node placeholder : NodeId}
  {text : String} {t₁ t₂ : HostTree Reaction}
  (hcompile : page.compile text .state = (e, page₁))
  (hcreate : page₁.host.createPlaceholder (page₁.attributeName .presence ++ " placeholder") =
    (placeholder, t₁))
  (hevaluate : ({ page₁ with host := t₁ } : Page).evaluate e page₁.state.scope = (value, page₂))

include hcompile hcreate hevaluate

theorem registerPresence_kept (htruthy : value.isTruthy = true) :
    page.registerPresence node text =
      (.ok ⟨.presence e placeholder true, e.dependencies⟩, page₂) := by
  rw [registerPresence, hcompile]
  dsimp only
  rw [hcreate]
  dsimp only
  rw [hevaluate]
  dsimp only
  rw [htruthy]
  rfl

theorem registerPresence_replaced (htruthy : value.isTruthy = false)
    (hreplace : page₂.host.replace node placeholder = (.ok (), t₂)) :
    page.registerPresence node text =
      (.ok ⟨.presence e placeholder false, e.dependencies⟩, { page₂ with host := t₂ }) := by
  rw [registerPresence, hcompile]
  dsimp only
  rw [hcreate]
  dsimp only
  rw [hevaluate]
  dsimp only
  rw [htruthy, hreplace]
  rfl

end Presence

section Repetition

variable {node template placeholder : NodeId} {text : String} {clause : ForClause}
  {t₁ t₂ t₃ : HostTree Reaction}
  (hparse : parseForClause (Text.trim text) = .ok clause)
  (hclone : page.host.cloneNode node = (.ok template, t₁))
  (hcreate : t₁.createPlaceholder (({ page with host := t₁ } : Page).repetitionLabel clause) =
    (placeholder, t₂))

include hparse hclone hcreate

theorem registerRepetition_failed {e : HostError}
    (hreplace : t₂.replace node placeholder = (.error e, t₃)) :
    page.registerRepetition node text = (.error e, { page with host := t₃ }) := by
  unfold registerRepetition
  dsimp only
  rw [hparse]
  dsimp only
  rw [editPartly, hclone]
  dsimp only
  rw [hcreate]
  dsimp only
  rw [editPartly, hreplace]

theorem registerRepetition_unread {e : HostError} {found : List String × Page}
    (hreplace : t₂.replace node placeholder = (.ok (), t₃))
    (hreads : ({ page with host := t₃ } : Page).templateReads clause.item template =
      (.error e, found)) :
    page.registerRepetition node text = (.error e, found.2) := by
  unfold registerRepetition
  dsimp only
  rw [hparse]
  dsimp only
  rw [editPartly, hclone]
  dsimp only
  rw [hcreate]
  dsimp only
  rw [editPartly, hreplace]
  dsimp only
  rw [hreads]

theorem registerRepetition_made {reads : List String} {page' : Page}
    (hreplace : t₂.replace node placeholder = (.ok (), t₃))
    (hreads : ({ page with host := t₃ } : Page).templateReads clause.item template =
      (.ok (), reads, page')) :
    page.registerRepetition node text = (.ok (some ⟨.repetition clause template placeholder [],
      (clause.list.dotted :: reads).eraseDups⟩), page') := by
  unfold registerRepetition
  dsimp only
  rw [hparse]
  dsimp only
  rw [editPartly, hclone]
  dsimp only
  rw [hcreate]
  dsimp only
  rw [editPartly, hreplace]
  dsimp only
  rw [hreads]

end Repetition

end Page

end ReactiveTemplate
