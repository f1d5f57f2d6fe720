import ReactiveTemplate.Proofs.Document.Counts
import ReactiveTemplate.Proofs.Engine.Runs
import ReactiveTemplate.Proofs.Engine.Zones

/-!
# How often slots are released

A slot that is released gets a new generation, so names of nodes can come round only after very many
releases. The updates of bindings are counted along a run, and what each of them keeps holds after
the run, with the count.

* `Page.releases`, `Engine.releases`: how often an update, and a whole run, release a slot.
* `Upheld`: what an update of a binding keeps.
* `Upheld.updateAll`, `Upheld.flushEach`, `Upheld.move`, `Upheld.run`: the steps of a run keep it.
-/

namespace ReactiveTemplate

/-! ## Counting -/

/-- How often an update of a binding releases a slot, at most. A text replaces one that stood there.
    A list gives up the old copies, renders each new one, and gives up one that it cannot place. -/
def Page.releases (page : Page) (b : Binding) : Nat :=
  match b.directive with
  | .text .. => 1
  | .repetition clause template _ _ =>
    match (page.listAt clause.list).1 with
    | some values => values.length * page.host.weight template + 2
    | none => 0
  | _ => 0

namespace Engine

/-- How often the updates of some bindings, one after the other, release a slot. -/
def releasesAll : List Binding → Engine → Nat
  | [], _ => 0
  | b :: bs, e => e.page.releases b + releasesAll bs (e.update b).2.2

/-- How often the updates of those bindings do that which changes at some paths can affect. -/
def releasesEach (changed : List String) : List Binding → Engine → Nat
  | [], _ => 0
  | b :: bs, e =>
    if b.isAffectedBy changed then
      e.page.releases b + releasesEach changed bs (e.update b).2.2
    else releasesEach changed bs e

/-- Of the steps of a run, only flushes update bindings. -/
def releasesMove (e : Engine) : Move → Nat
  | .flush =>
    let (changed, scheduler) := e.scheduler.takePending
    if changed = [] then 0
    else releasesEach changed e.bindings (e.withState (e.state.withScheduler scheduler))
  | _ => 0

/-- How often the steps of a run release a slot. -/
def releasesRun : Engine → List Move → Nat
  | _, [] => 0
  | e, step :: moves => e.releasesMove step + releasesRun (e.move step) moves

/-- While zones are mounted, their bindings are updated for the first time. -/
def releasesMount (e : Engine) (target : MountTarget) : Nat :=
  match zonesOf e.page target with
  | .error _ => 0
  | .ok zones =>
    let (bindings, page) := zones.foldl (Page.scanZone e.made) ([], e.page)
    releasesAll bindings { e with page := page, made := e.made + bindings.length }

/-- How often mounting a target and a run afterwards release a slot, at most. -/
def releases (e : Engine) (target : MountTarget) (moves : List Move) : Nat :=
  e.releasesMount target + (e.mount target).releasesRun moves

end Engine

/-! ## What updates keep -/

/-- A property of a number of releases, of bindings and of their document, which each update of a
    binding keeps. -/
def Upheld (Q : Nat → List Binding → HostTree Reaction → Prop) : Prop :=
  ∀ (n : Nat) (front : List Binding) (b : Binding) (back : List Binding) (page : Page),
    Q n (front ++ b :: back) page.host →
    Q (n + page.releases b) (front ++ (page.update b).2.1 :: back) (page.update b).2.2.host

namespace Upheld

variable {Q : Nat → List Binding → HostTree Reaction → Prop}

/-- Error handlers see an update only when the document is done. -/
theorem update {n : Nat} {front back : List Binding} {b : Binding} {e : Engine} (hQ : Upheld Q)
    (h : Q n (front ++ b :: back) e.page.host) :
    Q (n + e.page.releases b) (front ++ [(e.update b).2.1] ++ back) (e.update b).2.2.page.host := by
  obtain ⟨hbinding, hhost, -⟩ := e.update_eq b
  rw [hbinding, hhost, List.append_assoc]
  exact hQ n front b back e.page h

theorem updateAll (hQ : Upheld Q) (bs : List Binding) :
    ∀ {n : Nat} {front : List Binding} {e : Engine}, Q n (front ++ bs) e.page.host →
      Q (n + Engine.releasesAll bs e) (front ++ (Engine.updateAll bs e).1)
        (Engine.updateAll bs e).2.page.host := by
  induction bs with
  | nil => exact fun h => h
  | cons b bs ih =>
    intro n front e h
    have hrest := ih (hQ.update h)
    rwa [List.append_assoc, Nat.add_assoc] at hrest

theorem flushEach (hQ : Upheld Q) (changed : List String) (bs : List Binding) :
    ∀ {n : Nat} {front : List Binding} (r : FlushReport) {e : Engine},
      Q n (front ++ bs) e.page.host →
      Q (n + Engine.releasesEach changed bs e) (front ++ (Engine.flushEach changed bs r e).1)
        (Engine.flushEach changed bs r e).2.2.page.host := by
  induction bs with
  | nil => exact fun _ _ h => h
  | cons b bs ih =>
    intro n front r e h
    rw [Engine.flushEach, Engine.releasesEach]
    split
    · have hrest := fun report : FlushReport => ih report (hQ.update h)
      simp only [List.append_assoc, Nat.add_assoc] at hrest
      exact hrest _
    · rw [List.append_cons] at h
      have hrest := fun report : FlushReport => ih report h
      simp only [List.append_assoc] at hrest
      exact hrest _

/-- A step of a run changes the document by updates only. -/
theorem move (hQ : Upheld Q) {n : Nat} {e : Engine} (step : Move) (h : Q n e.bindings e.page.host) :
    Q (n + e.releasesMove step) (e.move step).bindings (e.move step).page.host := by
  cases step with
  | read | place | write | setPath => exact h
  | setState update =>
    rw [Engine.move, Engine.setState]
    dsimp only
    split <;> exact h
  | dispatch node event =>
    rw [Engine.move_dispatch]
    exact h
  | flush =>
    rw [Engine.move, Engine.flush, Engine.releasesMove]
    dsimp only
    split
    · exact h
    · have hall : ∀ state, Q n ([] ++ e.bindings) (e.withState state).page.host := fun _ => h
      exact hQ.flushEach _ e.bindings _ (hall _)

theorem run (hQ : Upheld Q) (moves : List Move) :
    ∀ {n : Nat} {e : Engine}, Q n e.bindings e.page.host →
      Q (n + e.releasesRun moves) (e.run moves).bindings (e.run moves).page.host := by
  induction moves with
  | nil => exact fun h => h
  | cons step moves ih =>
    intro n e h
    have hrest := ih (hQ.move step h)
    rwa [Nat.add_assoc] at hrest

end Upheld

end ReactiveTemplate
