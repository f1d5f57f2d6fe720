import Mathlib.Data.List.Induction
import ReactiveTemplate.Scheduler

/-!
# Windows of a scheduler

A window lasts from one removal of the pending paths to the next. What a scheduler does is told
here by the history of its notifications and removals, those included that the host makes
when it is asked for a frame.

* `SchedulerCall`, `Scheduler.run`: sequences of calls, and what happens in them.
* `Happening.window`: the paths notified in the last window.
* `Scheduler.Accounts`: what a scheduler owes to its history; `Scheduler.Accounts.call`: every
  single call keeps it.
* `scheduler_accounts_for_history`: every sequence of calls keeps it.
-/

namespace ReactiveTemplate

/-- A call of a scheduler. A notification comes with the paths that each requester would notify
    in turn if it were asked for a frame now. -/
inductive SchedulerCall (ρ : Type) where
  | notify (path : String) (answer : ρ → List String)
  | take
  | clear
  | install (requester : ρ)

/-- What happens to the pending paths. -/
inductive Happening where
  | notified (path : String)
  | removed (paths : List String)
  deriving DecidableEq, Repr

namespace Happening

/-- The paths notified since the last removal, repeated ones included. -/
def extend (noted : List String) : Happening → List String
  | notified path => noted ++ [path]
  | removed _ => []

/-- The paths notified in the last window of a history, in order. -/
def window (history : List Happening) : List String := history.foldl extend []

/-- Whether paths were removed, and some. -/
def removesSome : Happening → Bool
  | notified _ => false
  | removed paths => !paths.isEmpty

theorem window_append_singleton (history : List Happening) (h : Happening) :
    window (history ++ [h]) = extend (window history) h := by
  rw [window, List.foldl_append]
  rfl

end Happening

/-- A further member counts if it is new. -/
theorem eraseDups_append_singleton {α : Type} [BEq α] [LawfulBEq α] (xs : List α) (x : α) :
    (xs ++ [x]).eraseDups = if x ∈ xs.eraseDups then xs.eraseDups else xs.eraseDups ++ [x] := by
  rw [List.eraseDups_append, List.removeAll]
  by_cases h : x ∈ xs <;> simp [h, List.mem_eraseDups, List.eraseDups_cons]

namespace Scheduler

open Happening

variable {ρ : Type} {s : Scheduler ρ} {history : List Happening}

/-- The paths that a call notifies: its own, then those of the requester, if it is called. -/
def notifications (s : Scheduler ρ) (path : String) (answer : ρ → List String) : List String :=
  path :: (s.notify path).2.elim [] answer

/-- What happens in a call, and the scheduler after it. -/
def call (s : Scheduler ρ) : SchedulerCall ρ → List Happening × Scheduler ρ
  | .notify path answer =>
    let paths := s.notifications path answer
    (paths.map .notified, paths.foldl (fun s path => (s.notify path).1) s)
  | .take => ([.removed s.takePending.1], s.takePending.2)
  | .clear => ([.removed s.pending], s.clear)
  | .install requester => ([], s.setRequester requester)

/-- What happens in a sequence of calls, and the scheduler after it. -/
def run (calls : List (SchedulerCall ρ)) : List Happening × Scheduler ρ :=
  calls.foldl (fun (history, s) c => (history ++ (s.call c).1, (s.call c).2)) ([], .empty)

/-- A notification with a list as requester notifies the paths of the list in turn. -/
theorem notifyEchoing_eq_call (s : Scheduler (List String)) (path : String) :
    s.notifyEchoing path = (s.call (.notify path id)).2 := by
  rw [notifyEchoing, call, notifications]
  cases h : s.notify path with
  | mk s' called => cases called <;> simp [h]

/-- What a scheduler owes to its history. -/
structure Accounts (history : List Happening) (s : Scheduler ρ) : Prop where
  /-- A flush is scheduled exactly when something is pending. -/
  scheduled : s.scheduled = true ↔ s.pending ≠ []
  /-- The next removal gives the distinct paths of the window, by their first notification. -/
  pending : s.pending = (window history).eraseDups
  /-- So did every removal. -/
  removed : ∀ before paths after, history = before ++ .removed paths :: after →
    paths = (window before).eraseDups
  /-- A frame was asked for in each window that was removed with paths, and in the last one if it
      has paths. -/
  frames : s.framesRequested = history.countP removesSome + if s.scheduled then 1 else 0

/-! ## Single happenings -/

/-- The last thing that happened is a removal, or a removal happened before. -/
theorem removal_of_append_singleton {h : Happening} {before after : List Happening}
    {paths : List String} (heq : history ++ [h] = before ++ .removed paths :: after) :
    (h = .removed paths ∧ history = before) ∨
      ∃ after', history = before ++ .removed paths :: after' := by
  rcases List.eq_nil_or_concat after with rfl | ⟨after', last, rfl⟩
  · obtain ⟨hbefore, hlast⟩ := List.append_inj' heq rfl
    exact .inl ⟨List.singleton_inj.1 hlast, hbefore⟩
  · rw [List.concat_eq_append, ← List.cons_append, ← List.append_assoc] at heq
    exact .inr ⟨after', (List.append_inj' heq rfl).1⟩

theorem pending_notify (s : Scheduler ρ) (path : String) :
    (s.notify path).1.pending =
      if path ∈ s.pending then s.pending else s.pending ++ [path] := by
  rw [notify]
  split <;> rfl

theorem scheduled_notify (s : Scheduler ρ) (path : String) :
    (s.notify path).1.scheduled = true := by
  rw [notify]
  split
  · assumption
  · rfl

theorem framesRequested_notify (s : Scheduler ρ) (path : String) :
    (s.notify path).1.framesRequested = s.framesRequested + if s.scheduled then 0 else 1 := by
  rw [notify]
  split <;> rfl

theorem pending_notify_ne_nil (s : Scheduler ρ) (path : String) :
    (s.notify path).1.pending ≠ [] := by
  rw [pending_notify]
  split
  · next h => exact List.ne_nil_of_mem h
  · simp

theorem Accounts.notify (h : s.Accounts history) (path : String) :
    (s.notify path).1.Accounts (history ++ [.notified path]) where
  scheduled := ⟨fun _ => s.pending_notify_ne_nil path, fun _ => s.scheduled_notify path⟩
  pending := by
    rw [pending_notify, window_append_singleton, extend, eraseDups_append_singleton, ← h.pending]
  removed before paths after heq := by
    rcases removal_of_append_singleton heq with ⟨hlast, -⟩ | ⟨after', hhistory⟩
    · cases hlast
    · exact h.removed before paths after' hhistory
  frames := by
    rw [framesRequested_notify, scheduled_notify, h.frames, List.countP_append]
    cases s.scheduled <;> simp [removesSome]

theorem Accounts.remove (h : s.Accounts history) :
    s.takePending.2.Accounts (history ++ [.removed s.pending]) where
  scheduled := by simp [takePending]
  pending := by
    rw [window_append_singleton]
    rfl
  removed before paths after heq := by
    rcases removal_of_append_singleton heq with ⟨hlast, hhistory⟩ | ⟨after', hhistory⟩
    · rw [← hhistory, ← h.pending]
      exact (Happening.removed.inj hlast).symm
    · exact h.removed before paths after' hhistory
  frames := by
    have hscheduled : s.scheduled = !s.pending.isEmpty := by
      rw [Bool.eq_iff_iff, h.scheduled]
      simp
    show s.framesRequested = _ + if false = true then 1 else 0
    rw [h.frames, List.countP_append, hscheduled]
    simp [removesSome]

theorem Accounts.install (h : s.Accounts history) (requester : ρ) :
    (s.setRequester requester).Accounts history :=
  ⟨h.scheduled, h.pending, h.removed, h.frames⟩

/-! ## Calls -/

theorem Accounts.notifyAll (paths : List String) :
    ∀ {history : List Happening} {s : Scheduler ρ}, s.Accounts history →
      Accounts (history ++ paths.map .notified)
        (paths.foldl (fun s path => (s.notify path).1) s) := by
  induction paths with
  | nil =>
    intro history s h
    rwa [List.map_nil, List.append_nil]
  | cons path paths ih =>
    intro history s h
    rw [List.map_cons, List.append_cons]
    exact ih (h.notify path)

theorem Accounts.call (h : s.Accounts history) (c : SchedulerCall ρ) :
    (s.call c).2.Accounts (history ++ (s.call c).1) := by
  cases c with
  | notify path answer => exact h.notifyAll _
  | take => exact h.remove
  | clear => exact h.remove
  | install requester =>
    show Accounts (history ++ []) _
    rw [List.append_nil]
    exact h.install requester

theorem Accounts.empty : (Scheduler.empty : Scheduler ρ).Accounts [] where
  scheduled := by simp [Scheduler.empty]
  pending := rfl
  removed before paths after heq := by simp at heq
  frames := rfl

theorem run_append_singleton (calls : List (SchedulerCall ρ)) (c : SchedulerCall ρ) :
    run (calls ++ [c]) = ((run calls).1 ++ ((run calls).2.call c).1, ((run calls).2.call c).2) := by
  rw [run, List.foldl_append]
  rfl

/-- A path that was notified is still in the window until something is removed. -/
theorem mem_window {before between : List Happening} {path : String}
    (hnone : ∀ paths, .removed paths ∉ between) :
    path ∈ window (before ++ .notified path :: between) := by
  induction between using List.reverseRecOn with
  | nil =>
    rw [window_append_singleton, extend]
    simp
  | append_singleton between last ih =>
    rw [← List.cons_append, ← List.append_assoc, window_append_singleton]
    cases last with
    | notified other =>
      exact List.mem_append_left _ (ih fun paths hmem => hnone paths (by simp [hmem]))
    | removed paths => exact absurd (by simp) (hnone paths)

end Scheduler

/-- Every sequence of calls leaves a scheduler that accounts for what happened: each window is
    removed as a whole, and once. -/
theorem scheduler_accounts_for_history {ρ : Type} (calls : List (SchedulerCall ρ)) :
    (Scheduler.run calls).2.Accounts (Scheduler.run calls).1 ∧
      ∀ before path between paths after,
        (Scheduler.run calls).1 =
            before ++ .notified path :: between ++ .removed paths :: after →
          (∀ other, .removed other ∉ between) → path ∈ paths := by
  have haccounts : (Scheduler.run calls).2.Accounts (Scheduler.run calls).1 := by
    induction calls using List.reverseRecOn with
    | nil => exact Scheduler.Accounts.empty
    | append_singleton calls c ih =>
      rw [Scheduler.run_append_singleton]
      exact ih.call c
  refine ⟨haccounts, fun before path between paths after hhistory hnone => ?_⟩
  rw [haccounts.removed _ paths after hhistory, List.mem_eraseDups]
  exact Scheduler.mem_window hnone

end ReactiveTemplate
