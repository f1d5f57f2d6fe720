import Mathlib.Data.List.Induction
import ReactiveTemplate.Diagnostics

/-!
# Shared buffers of problems

A buffer has several holders. A clone of a holder is another one, with its own copy of the limit
and with the same entries behind it. What the holders of a buffer see is told here by the history of
the buffer: the problems since it was cleared last, as far as there is room for them.

* `Diagnostics.entries_foldl_record`: a buffer keeps the most recent problems.
* `SharedDiagnostics.call`, `SharedDiagnostics.run`: calls through holders, and what happens.
* `DiagnosticsEvent.recent`: the problems since a buffer was cleared last.
* `SharedDiagnostics.Recalls`: what buffers owe to their history; `SharedDiagnostics.Recalls.call`:
  every single call keeps it, `SharedDiagnostics.recalls_run`: every sequence of calls.
* `SharedDiagnostics.holders_see_recent_past`: the entries, their number and their counts, for all
  holders of a buffer.
-/

namespace ReactiveTemplate

/-! ## One buffer -/

namespace Diagnostics

theorem limit_record (ds : Diagnostics) (d : Diagnostic) : (ds.record d).limit = ds.limit := by
  unfold record
  split <;> rfl

theorem limit_foldl_record (problems : List Diagnostic) :
    ∀ ds : Diagnostics, (problems.foldl record ds).limit = ds.limit := by
  induction problems with
  | nil => exact fun _ => rfl
  | cons d problems ih => exact fun ds => (ih _).trans (ds.limit_record d)

/-- A buffer keeps the most recent problems. -/
theorem entries_foldl_record (limit : Nat) (problems : List Diagnostic) :
    (problems.foldl record (empty limit)).entries = problems.drop (problems.length - limit) := by
  induction problems using List.reverseRecOn with
  | nil => exact List.drop_nil.symm
  | append_singleton problems d ih =>
    have hlimit : (problems.foldl record (empty limit)).limit = limit := limit_foldl_record problems _
    rw [List.foldl_append, List.foldl_cons, List.foldl_nil, record, hlimit]
    by_cases hzero : limit = 0
    · rw [if_pos hzero, ih, hzero, Nat.sub_zero, Nat.sub_zero, List.drop_length, List.drop_length]
    · have hroom : problems.length + 1 - limit ≤ problems.length := by omega
      have hdrop : problems.length - limit +
          (problems.length - (problems.length - limit) + 1 - limit) =
          problems.length + 1 - limit := by omega
      rw [if_neg hzero]
      change List.drop _ (problems.foldl record (empty limit)).entries ++ [d] = _
      rw [ih, List.length_drop, List.drop_drop, hdrop, List.length_append, List.length_singleton,
        List.drop_append_of_le_length hroom]

/-- Problems of one kind count as far as there is room. -/
theorem count_foldl_record {kind : DiagnosticKind} {problems : List Diagnostic}
    (hkind : ∀ d ∈ problems, d.kind = kind) (limit : Nat) :
    (problems.foldl record (empty limit)).count kind = min limit problems.length := by
  have hall : ∀ d ∈ problems.drop (problems.length - limit), (d.kind == kind) = true := fun d hd =>
    beq_iff_eq.2 (hkind d (List.mem_of_mem_drop hd))
  rw [count, entries_foldl_record, List.countP_eq_length.2 hall, List.length_drop]
  omega

end Diagnostics

/-! ## Holders and calls -/

/-- A hold on a buffer: the number of the buffer, and a copy of its limit. -/
structure DiagnosticsHolder where
  buffer : Nat
  limit : Nat
  deriving DecidableEq

/-- The entries of some buffers, and the holders of the buffers in the order in which they were
    made. -/
structure SharedDiagnostics where
  buffers : List (List Diagnostic)
  holders : List DiagnosticsHolder

/-- A call. The holder that it goes through is given by its number. -/
inductive DiagnosticsCall where
  | create (limit : Nat)
  | clone (holder : Nat)
  | record (holder : Nat) (problem : Diagnostic)
  | clear (holder : Nat)

/-- What happens to a buffer. -/
inductive DiagnosticsEvent where
  | created (buffer limit : Nat)
  | recorded (buffer : Nat) (problem : Diagnostic)
  | cleared (buffer : Nat)
  deriving DecidableEq

namespace DiagnosticsEvent

/-- The buffer to which something happens. -/
def buffer : DiagnosticsEvent → Nat
  | created buffer _ | recorded buffer _ | cleared buffer => buffer

/-- The problems since a buffer was cleared last, after a further event. -/
def extend (buffer : Nat) (past : List Diagnostic) : DiagnosticsEvent → List Diagnostic
  | created .. => past
  | recorded other problem => if other = buffer then past ++ [problem] else past
  | cleared other => if other = buffer then [] else past

/-- The problems recorded in a buffer since it was cleared last, in order. -/
def recent (buffer : Nat) (history : List DiagnosticsEvent) : List Diagnostic :=
  history.foldl (extend buffer) []

theorem recent_append_singleton (buffer : Nat) (history : List DiagnosticsEvent)
    (event : DiagnosticsEvent) :
    recent buffer (history ++ [event]) = extend buffer (recent buffer history) event := by
  rw [recent, List.foldl_append]
  rfl

theorem extend_of_ne {buffer : Nat} {event : DiagnosticsEvent} (h : event.buffer ≠ buffer)
    (past : List Diagnostic) : extend buffer past event = past := by
  cases event with
  | created => rfl
  | recorded other problem => exact if_neg h
  | cleared other => exact if_neg h

/-- A buffer that nothing has happened to has no past. -/
theorem recent_eq_nil {buffer : Nat} {history : List DiagnosticsEvent}
    (h : ∀ event ∈ history, event.buffer ≠ buffer) : recent buffer history = [] := by
  induction history using List.reverseRecOn with
  | nil => rfl
  | append_singleton history event ih =>
    rw [recent_append_singleton, extend_of_ne (h event (by simp)),
      ih fun e he => h e (by simp [he])]

end DiagnosticsEvent

namespace SharedDiagnostics

open DiagnosticsEvent

/-- No buffers. -/
def empty : SharedDiagnostics := ⟨[], []⟩

/-- What a holder sees. -/
def view (s : SharedDiagnostics) (holder : DiagnosticsHolder) : Diagnostics :=
  ⟨holder.limit, (s.buffers[holder.buffer]?).getD []⟩

/-- Writes through a holder. -/
def update (s : SharedDiagnostics) (holder : DiagnosticsHolder) (ds : Diagnostics) :
    SharedDiagnostics :=
  { s with buffers := s.buffers.set holder.buffer ds.entries }

/-- What is done through a holder; nothing where there is no such holder. -/
def through (s : SharedDiagnostics) (number : Nat)
    (act : DiagnosticsHolder → List DiagnosticsEvent × SharedDiagnostics) :
    List DiagnosticsEvent × SharedDiagnostics :=
  (s.holders[number]?).elim ([], s) act

/-- What happens in a call, and the buffers after it. -/
def call (s : SharedDiagnostics) : DiagnosticsCall → List DiagnosticsEvent × SharedDiagnostics
  | .create limit =>
    ([.created s.buffers.length limit],
      ⟨s.buffers ++ [(Diagnostics.empty limit).entries], s.holders ++ [⟨s.buffers.length, limit⟩]⟩)
  | .clone number => s.through number fun h => ([], { s with holders := s.holders ++ [h] })
  | .record number problem => s.through number fun h =>
    ([.recorded h.buffer problem], s.update h ((s.view h).record problem))
  | .clear number => s.through number fun h =>
    ([.cleared h.buffer], s.update h (s.view h).clear)

/-- What happens in a sequence of calls, and the buffers after it. -/
def run (calls : List DiagnosticsCall) : List DiagnosticsEvent × SharedDiagnostics :=
  calls.foldl (fun (history, s) c => (history ++ (s.call c).1, (s.call c).2)) ([], .empty)

/-- What buffers owe to their history. -/
structure Recalls (history : List DiagnosticsEvent) (s : SharedDiagnostics) : Prop where
  /-- Events happen to existing buffers. -/
  existing : ∀ event ∈ history, event.buffer < s.buffers.length
  /-- A buffer is created once. -/
  once : ∀ {buffer limit limit' : Nat}, .created buffer limit ∈ history →
    .created buffer limit' ∈ history → limit = limit'
  /-- Holders have the limit that their buffer was created with. -/
  held : ∀ holder ∈ s.holders, .created holder.buffer holder.limit ∈ history
  /-- A buffer has become what recording the recent problems makes of an empty one. -/
  shown : ∀ {buffer limit : Nat}, .created buffer limit ∈ history →
    s.view ⟨buffer, limit⟩ = (recent buffer history).foldl Diagnostics.record (.empty limit)

variable {s : SharedDiagnostics} {history : List DiagnosticsEvent}

/-! ## Single calls -/

theorem view_update_self {holder : DiagnosticsHolder} (h : holder.buffer < s.buffers.length)
    {ds : Diagnostics} (hlimit : ds.limit = holder.limit) :
    (s.update holder ds).view holder = ds := by
  rw [view, update, List.getElem?_set_self h, ← hlimit]
  rfl

theorem view_update_of_ne {holder other : DiagnosticsHolder} (h : holder.buffer ≠ other.buffer)
    (ds : Diagnostics) : (s.update holder ds).view other = s.view other := by
  rw [view, view, update, List.getElem?_set_ne h]

/-- The next buffer has no history. -/
theorem Recalls.not_created (h : s.Recalls history) (limit : Nat) :
    .created s.buffers.length limit ∉ history := fun hmem =>
  Nat.lt_irrefl _ (h.existing _ hmem)

theorem Recalls.created (h : s.Recalls history) (limit : Nat) :
    Recalls (history ++ [.created s.buffers.length limit])
      ⟨s.buffers ++ [[]], s.holders ++ [⟨s.buffers.length, limit⟩]⟩ where
  existing := by
    rw [List.length_append, List.length_singleton, List.forall_mem_append,
      List.forall_mem_singleton]
    exact ⟨fun event hevent => Nat.lt_succ_of_lt (h.existing event hevent), Nat.lt_succ_self _⟩
  once {buffer limit₁ limit₂} h₁ h₂ := by
    simp only [List.mem_append, List.mem_singleton, created.injEq] at h₁ h₂
    rcases h₁ with h₁ | ⟨rfl, rfl⟩ <;> rcases h₂ with h₂ | ⟨hbuffer, rfl⟩
    · exact h.once h₁ h₂
    · exact absurd (hbuffer ▸ h₁) (h.not_created _)
    · exact absurd h₂ (h.not_created _)
    · rfl
  held := by
    rw [List.forall_mem_append, List.forall_mem_singleton]
    exact ⟨fun holder hholder => List.mem_append_left _ (h.held holder hholder),
      List.mem_append_right _ (List.mem_singleton.2 rfl)⟩
  shown {buffer limit'} hmem := by
    rw [recent_append_singleton, extend]
    rcases List.mem_append.1 hmem with hmem | hmem
    · have hlt : buffer < s.buffers.length := h.existing _ hmem
      rw [← h.shown hmem, view, view, List.getElem?_append_left hlt]
    · obtain ⟨rfl, rfl⟩ := created.inj (List.mem_singleton.1 hmem)
      rw [recent_eq_nil fun event hevent => Nat.ne_of_lt (h.existing event hevent), view,
        List.getElem?_append_right (Nat.le_refl _), Nat.sub_self]
      rfl

theorem Recalls.cloned (h : s.Recalls history) {holder : DiagnosticsHolder}
    (hholder : holder ∈ s.holders) :
    Recalls history { s with holders := s.holders ++ [holder] } where
  existing := h.existing
  once := h.once
  held := by
    rw [List.forall_mem_append, List.forall_mem_singleton]
    exact ⟨h.held, h.held holder hholder⟩
  shown := h.shown

/-- A write through a holder that makes of its view what the event makes of the past. -/
theorem Recalls.updated (h : s.Recalls history) {holder : DiagnosticsHolder}
    (hholder : holder ∈ s.holders) (event : DiagnosticsEvent)
    (hbuffer : event.buffer = holder.buffer)
    (hevent : ∀ buffer limit, event ≠ .created buffer limit) {ds : Diagnostics}
    (hds : ds = (recent holder.buffer (history ++ [event])).foldl Diagnostics.record
      (.empty holder.limit)) : Recalls (history ++ [event]) (s.update holder ds) := by
  have hmade := h.held holder hholder
  have hlt : holder.buffer < s.buffers.length := h.existing _ hmade
  have hold : ∀ {buffer limit}, .created buffer limit ∈ history ++ [event] →
      .created buffer limit ∈ history := fun hmem =>
    (List.mem_append.1 hmem).resolve_right fun hlast =>
      hevent _ _ (List.mem_singleton.1 hlast).symm
  refine ⟨?existing, fun h₁ h₂ => h.once (hold h₁) (hold h₂),
    fun other hother => List.mem_append_left _ (h.held other hother), ?shown⟩
  case existing =>
    rw [update, List.length_set, List.forall_mem_append, List.forall_mem_singleton, hbuffer]
    exact ⟨h.existing, hlt⟩
  case shown =>
    intro buffer limit hmem
    by_cases hsame : holder.buffer = buffer
    · subst hsame
      obtain rfl := h.once hmade (hold hmem)
      have hlimit : ds.limit = holder.limit := by
        rw [hds, Diagnostics.limit_foldl_record]
        rfl
      rw [← hds]
      exact view_update_self hlt hlimit
    -- Neither the write nor the event concerns another buffer.
    · rw [view_update_of_ne hsame, recent_append_singleton, extend_of_ne (hbuffer ▸ hsame),
        h.shown (hold hmem)]

theorem Recalls.call (h : s.Recalls history) (c : DiagnosticsCall) :
    Recalls (history ++ (s.call c).1) (s.call c).2 := by
  have hthrough : ∀ number act, (∀ holder ∈ s.holders,
      Recalls (history ++ (act holder).1) (act holder).2) →
      Recalls (history ++ (s.through number act).1) (s.through number act).2 := by
    intro number act hact
    rw [through]
    cases hholder : s.holders[number]? with
    | none =>
      rw [Option.elim, List.append_nil]
      exact h
    | some holder => exact hact holder (List.mem_of_getElem? hholder)
  cases c with
  | create limit => exact h.created limit
  | clone number =>
    refine hthrough number _ fun holder hholder => ?_
    rw [List.append_nil]
    exact h.cloned hholder
  | record number problem =>
    refine hthrough number _ fun holder hholder =>
      h.updated hholder (.recorded holder.buffer problem) rfl nofun ?_
    rw [recent_append_singleton, extend, if_pos rfl, List.foldl_append,
      ← h.shown (h.held holder hholder)]
    rfl
  | clear number =>
    refine hthrough number _ fun holder hholder =>
      h.updated hholder (.cleared holder.buffer) rfl nofun ?_
    rw [recent_append_singleton, extend, if_pos rfl]
    rfl

/-! ## Sequences of calls -/

theorem recalls_run (calls : List DiagnosticsCall) : (run calls).2.Recalls (run calls).1 := by
  induction calls using List.reverseRecOn with
  | nil => exact ⟨nofun, nofun, nofun, nofun⟩
  | append_singleton calls c ih =>
    rw [run, List.foldl_append]
    exact ih.call c

/-- After any sequence of calls each holder of a buffer sees the recent past of the buffer: of the
    problems recorded since the last clearing, through whichever holders, the last ones, at most as
    many as the limit. All holders of the buffer see the same. -/
theorem holders_see_recent_past (calls : List DiagnosticsCall) {buffer limit : Nat}
    (hmade : .created buffer limit ∈ (run calls).1) {holder : DiagnosticsHolder}
    (hholder : holder ∈ (run calls).2.holders) (hbuffer : holder.buffer = buffer) :
    let past := recent buffer (run calls).1
    let view := (run calls).2.view holder
    view.entries = past.drop (past.length - limit) ∧
      view.entries.length = min limit past.length ∧
      (∀ kind, view.count kind =
        (past.drop (past.length - limit)).countP fun d => d.kind == kind) ∧
      ∀ other ∈ (run calls).2.holders, other.buffer = buffer → (run calls).2.view other = view := by
  intro past view
  have hrecalls := recalls_run calls
  have hview : ∀ other ∈ (run calls).2.holders, other.buffer = buffer →
      (run calls).2.view other = past.foldl Diagnostics.record (.empty limit) := by
    rintro ⟨_, other⟩ hother rfl
    obtain rfl := hrecalls.once hmade (hrecalls.held _ hother)
    exact hrecalls.shown hmade
  have hentries : view.entries = past.drop (past.length - limit) :=
    (congrArg Diagnostics.entries (hview holder hholder hbuffer)).trans
      (Diagnostics.entries_foldl_record limit past)
  refine ⟨hentries, ?_, fun kind => ?_, fun other hother hbuffer' => ?_⟩
  · rw [hentries, List.length_drop]
    omega
  · rw [Diagnostics.count, hentries]
  · exact (hview other hother hbuffer').trans (hview holder hholder hbuffer).symm

/-- An entry of an event attribute without a code. -/
def missingCode (source : String) : Diagnostic := .plain .malformedEvent source "missing ':'"

/-- A buffer for two problems with two holders, which is cleared once. -/
def pairCalls : List DiagnosticsCall :=
  [.create 2, .record 0 (missingCode "a"), .clone 0, .clear 1, .record 0 (missingCode "b"),
    .record 1 (missingCode "c"), .record 0 (missingCode "d")]

/-- The oldest of the three problems since the clearing has made room for the others. -/
theorem pair_sees_recent_past :
    .created 0 2 ∈ (run pairCalls).1 ∧ ⟨0, 2⟩ ∈ (run pairCalls).2.holders ∧
      ((run pairCalls).2.view ⟨0, 2⟩).entries = [missingCode "c", missingCode "d"] ∧
      ((run pairCalls).2.view ⟨0, 2⟩).count .malformedEvent = 2 := by
  have hmade : .created 0 2 ∈ (run pairCalls).1 := by decide
  have hholder : ⟨0, 2⟩ ∈ (run pairCalls).2.holders := by decide
  have hpast : recent 0 (run pairCalls).1 =
      [missingCode "b", missingCode "c", missingCode "d"] := rfl
  obtain ⟨hentries, -, hcount, -⟩ := holders_see_recent_past pairCalls hmade hholder rfl
  rw [hentries, hcount, hpast]
  exact ⟨hmade, hholder, rfl, rfl⟩

end SharedDiagnostics

end ReactiveTemplate
