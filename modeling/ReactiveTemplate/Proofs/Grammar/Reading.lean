import Mathlib.Data.List.Forall2
import ReactiveTemplate.Grammar.Rule

/-!
# What a rule reads

The reading half of the grammar rules as statements about lists of items: which items a
rule takes from the front, and which it leaves.

* `Begins`: a list of located items begins with given items.
* `Rule.read_bind_eq_some`, `Rule.read_orElse_eq_some`: sequence and ordered choice.
* `Rule.read_repeated`: one turn of a repetition.
* `Rule.begins_of_repeated`: a repetition takes items in turn.
* `Rule.Exact`: a rule reads a language, and no items have two readings.
-/

namespace ReactiveTemplate

variable {σ α β : Type}

/-! ## Fronts of a list -/

/-- A list of located items begins with the items `ts`, and `rest` follows. -/
def Begins (ts : List σ) (items rest : List (Located σ)) : Prop :=
  ∃ front, items = front ++ rest ∧ front.map Located.item = ts

@[simp] theorem begins_nil {items rest : List (Located σ)} :
    Begins [] items rest ↔ items = rest := by
  simp [Begins]

theorem begins_cons {t : σ} {ts : List σ} {items rest : List (Located σ)} :
    Begins (t :: ts) items rest ↔ ∃ i tail, items = i :: tail ∧ i.item = t ∧ Begins ts tail rest := by
  constructor
  · rintro ⟨front, rfl, h⟩
    obtain ⟨i, tail, rfl, hi, ht⟩ := List.map_eq_cons_iff.1 h
    exact ⟨i, tail ++ rest, rfl, hi, tail, rfl, ht⟩
  · rintro ⟨i, tail, rfl, rfl, front, rfl, rfl⟩
    exact ⟨i :: front, rfl, rfl⟩

@[simp] theorem begins_singleton {t : σ} {items rest : List (Located σ)} :
    Begins [t] items rest ↔ ∃ i, items = i :: rest ∧ i.item = t := by
  simp only [begins_cons, begins_nil]
  constructor
  · rintro ⟨i, tail, rfl, hi, rfl⟩
    exact ⟨i, rfl, hi⟩
  · rintro ⟨i, rfl, hi⟩
    exact ⟨i, rest, rfl, hi, rfl⟩

theorem begins_append {ts us : List σ} {items rest : List (Located σ)} :
    Begins (ts ++ us) items rest ↔ ∃ mid, Begins ts items mid ∧ Begins us mid rest := by
  constructor
  · rintro ⟨front, rfl, h⟩
    obtain ⟨first, second, rfl, h₁, h₂⟩ := List.map_eq_append_iff.1 h
    exact ⟨second ++ rest, ⟨first, by simp, h₁⟩, second, rfl, h₂⟩
  · rintro ⟨mid, ⟨first, rfl, rfl⟩, second, rfl, rfl⟩
    exact ⟨first ++ second, by simp, by simp⟩

theorem begins_cons_iff {t : σ} {ts : List σ} {items rest : List (Located σ)} :
    Begins (t :: ts) items rest ↔ ∃ mid, Begins [t] items mid ∧ Begins ts mid rest := by
  rw [← List.singleton_append, begins_append]

theorem begins_all {ts : List σ} {items : List (Located σ)} :
    Begins ts items [] ↔ items.map Located.item = ts := by
  simp [Begins]

/-- The first item of a list. -/
def headItem? (items : List (Located σ)) : Option σ := items.head?.map Located.item

namespace Rule

/-! ## Single steps -/

@[simp] theorem read_pure (a : α) (items : List (Located σ)) :
    (pure a : Rule σ α).read items = some (a, items) := rfl

theorem read_bind (p : Rule σ α) (q : α → Rule σ β) (items : List (Located σ)) :
    (p >>= q).read items = (p.read items).bind fun r => (q r.1).read r.2 := by
  change (andThen p q).read items = _
  simp only [andThen]
  cases p.read items <;> rfl

theorem read_bind_eq_some {p : Rule σ α} {q : α → Rule σ β} {items rest : List (Located σ)}
    {b : β} :
    (p >>= q).read items = some (b, rest) ↔
      ∃ a mid, p.read items = some (a, mid) ∧ (q a).read mid = some (b, rest) := by
  simp only [read_bind, Option.bind_eq_some_iff, Prod.exists]

theorem read_bind_eq_none {p : Rule σ α} {q : α → Rule σ β} {items : List (Located σ)} :
    (p >>= q).read items = none ↔
      ∀ a mid, p.read items = some (a, mid) → (q a).read mid = none := by
  simp only [read_bind, Option.bind_eq_none_iff, Prod.forall]

theorem read_bind_of_eq_some {p : Rule σ α} {q : α → Rule σ β} {items mid : List (Located σ)}
    {a : α} (h : p.read items = some (a, mid)) : (p >>= q).read items = (q a).read mid := by
  rw [read_bind, h, Option.bind_some]

theorem read_map_eq_some {p : Rule σ α} {f : α → β} {items rest : List (Located σ)} {b : β} :
    (f <$> p).read items = some (b, rest) ↔ ∃ a, p.read items = some (a, rest) ∧ f a = b := by
  change (p >>= fun a => pure (f a)).read items = _ ↔ _
  simp [read_bind_eq_some]

theorem read_map_eq_none {p : Rule σ α} {f : α → β} {items : List (Located σ)} :
    (f <$> p).read items = none ↔ p.read items = none := by
  change (p >>= fun a => pure (f a)).read items = _ ↔ _
  rw [read_bind_eq_none]
  cases h : p.read items with
  | none => simp
  | some r =>
    obtain ⟨a, mid⟩ := r
    simp

theorem read_satisfy_eq_some {e e' : Expectation} {meaning : σ → Option α}
    {items rest : List (Located σ)} {a : α} :
    (satisfy e e' meaning).read items = some (a, rest) ↔
      ∃ t, meaning t = some a ∧ Begins [t] items rest := by
  cases items with
  | nil => simp [satisfy]
  | cons i tail =>
    simp only [satisfy, Option.map_eq_some_iff, Prod.mk.injEq, begins_singleton, List.cons.injEq]
    constructor
    · rintro ⟨b, hb, rfl, rfl⟩
      exact ⟨i.item, hb, i, ⟨rfl, rfl⟩, rfl⟩
    · rintro ⟨t, ht, j, ⟨rfl, rfl⟩, rfl⟩
      exact ⟨a, ht, rfl, rfl⟩

theorem read_satisfy_eq_none {e e' : Expectation} {meaning : σ → Option α}
    {items : List (Located σ)} :
    (satisfy e e' meaning).read items = none ↔ (headItem? items).bind meaning = none := by
  cases items <;> simp [satisfy, headItem?]

theorem read_orElse_eq_some {p q : Rule σ α} {items : List (Located σ)}
    {r : α × List (Located σ)} :
    (orElse p q).read items = some r ↔
      p.read items = some r ∨ p.read items = none ∧ q.read items = some r := by
  simp only [orElse]
  cases p.read items <;> simp

theorem read_orElse_eq_none {p q : Rule σ α} {items : List (Located σ)} :
    (orElse p q).read items = none ↔ p.read items = none ∧ q.read items = none := by
  simp only [orElse]
  cases p.read items <;> simp

theorem read_checked_eq_some {p : Rule σ α} {check : α → Bool} {items rest : List (Located σ)}
    {a : α} :
    (checked p check).read items = some (a, rest) ↔
      p.read items = some (a, rest) ∧ check a = true := by
  simp only [checked]
  cases h : p.read items with
  | none => simp
  | some r =>
    obtain ⟨b, mid⟩ := r
    by_cases hb : check b
    · simp only [hb, if_true, Option.some.injEq, Prod.mk.injEq]
      constructor
      · rintro ⟨rfl, rfl⟩
        exact ⟨⟨rfl, rfl⟩, hb⟩
      · exact And.left
    · simp only [hb, Option.some.injEq, Prod.mk.injEq, Bool.false_eq_true, if_false]
      constructor
      · exact fun h => absurd h (by simp)
      · rintro ⟨⟨rfl, rfl⟩, h⟩
        exact absurd h hb

theorem read_optional (p : Rule σ α) (items : List (Located σ)) :
    (optional p).read items =
      match p.read items with
      | some (a, rest) => some (some a, rest)
      | none => some (none, items) := rfl

/-! ## Repetition -/

/-- A rule takes at least one item whenever it reads something. -/
def Progresses (p : Rule σ α) : Prop :=
  ∀ items a rest, p.read items = some (a, rest) → rest.length < items.length

/-- Repetitions beyond the number of items change nothing. -/
theorem readUpTo_of_lt {p : Rule σ α} (hp : p.Progresses) :
    ∀ (n m : Nat) (items : List (Located σ)), items.length < n → items.length < m →
      readUpTo p n items = readUpTo p m items := by
  intro n
  induction n with
  | zero => intro m items h; omega
  | succ n ih =>
    intro m items hn hm
    obtain ⟨m, rfl⟩ : ∃ k, m = k + 1 := ⟨m - 1, by omega⟩
    simp only [readUpTo]
    cases h : p.read items with
    | none => rfl
    | some r =>
      have := hp items r.1 r.2 h
      simp only
      rw [ih m r.2 (by omega) (by omega)]

theorem read_repeated {p : Rule σ α} (hp : p.Progresses) (items : List (Located σ)) :
    (repeated p).read items =
      match p.read items with
      | none => some ([], items)
      | some (a, rest) => ((repeated p).read rest).map fun r => (a :: r.1, r.2) := by
  simp only [repeated, readUpTo]
  cases h : p.read items with
  | none => rfl
  | some r =>
    have := hp items r.1 r.2 h
    simp only [Option.map_some]
    rw [readUpTo_of_lt hp items.length (r.2.length + 1) r.2 (by omega) (by omega)]
    rfl

theorem read_repeated_cons {p : Rule σ α} (hp : p.Progresses) {items rest : List (Located σ)}
    {a : α} {as : List α} (h : (repeated p).read items = some (a :: as, rest)) :
    ∃ mid, p.read items = some (a, mid) ∧ (repeated p).read mid = some (as, rest) := by
  rw [read_repeated hp] at h
  cases hi : p.read items with
  | none => simp [hi] at h
  | some r =>
    simp only [hi, Option.map_eq_some_iff, Prod.exists, Prod.mk.injEq, List.cons.injEq] at h
    obtain ⟨as', rest', hrep, ⟨rfl, rfl⟩, rfl⟩ := h
    exact ⟨r.2, rfl, hrep⟩

theorem begins_of_repeated {p : Rule σ α} (hp : p.Progresses) {F : List σ → α → Prop}
    (hread : ∀ items a rest, p.read items = some (a, rest) → ∃ ts, F ts a ∧ Begins ts items rest) :
    ∀ (n : Nat) (items : List (Located σ)) (as : List α) (rest : List (Located σ)),
      items.length < n → (repeated p).read items = some (as, rest) →
      ∃ tss, List.Forall₂ F tss as ∧ Begins tss.flatten items rest := by
  intro n
  induction n with
  | zero => intro items as rest h; omega
  | succ n ih =>
    intro items as rest hn h
    rw [read_repeated hp] at h
    cases hi : p.read items with
    | none =>
      simp only [hi, Option.some.injEq, Prod.mk.injEq] at h
      obtain ⟨rfl, rfl⟩ := h
      exact ⟨[], .nil, by simp⟩
    | some r =>
      obtain ⟨a, mid⟩ := r
      simp only [hi, Option.map_eq_some_iff, Prod.exists, Prod.mk.injEq] at h
      obtain ⟨as', rest', hrep, rfl, rfl⟩ := h
      obtain ⟨ts, hF, hts⟩ := hread items a mid hi
      have := hp items a mid hi
      obtain ⟨tss, hall, htss⟩ := ih mid as' rest' (by omega) hrep
      exact ⟨ts :: tss, .cons hF hall, begins_append.2 ⟨mid, hts, htss⟩⟩

/-! ## Languages -/

/-- A rule reads exactly the language of a grammar. -/
structure Exact (rule : Rule σ α) (Derives : List σ → α → Prop) : Prop where
  accepts : ∀ items a, rule.parse items = .ok a ↔ Derives (items.map Located.item) a
  rejects : ∀ items,
    (∃ error, rule.parse items = .error error) ↔ ¬ ∃ a, Derives (items.map Located.item) a
  unique : ∀ ts a b, Derives ts a → Derives ts b → a = b

/-- What is read is derived, and what is derived is read up to the end: the rest follows, because
    reading is a function. -/
theorem Exact.of_sound_of_complete {rule : Rule σ α} {Derives : List σ → α → Prop}
    (sound : ∀ {items rest a}, rule.read items = some (a, rest) →
      ∃ ts, Derives ts a ∧ Begins ts items rest)
    (complete : ∀ {ts items a}, Derives ts a → Begins ts items [] → rule.read items = some (a, [])) :
    rule.Exact Derives := by
  have accepts : ∀ items a, rule.parse items = .ok a ↔ Derives (items.map Located.item) a := by
    intro items a
    rw [parse_eq_ok_iff]
    constructor
    · intro h
      obtain ⟨ts, hts, hb⟩ := sound h
      exact begins_all.1 hb ▸ hts
    · exact fun h => complete h (begins_all.2 rfl)
  refine ⟨accepts, fun items => ?_, fun ts a b ha hb => ?_⟩
  · constructor
    · rintro ⟨error, herror⟩ ⟨a, ha⟩
      rw [(accepts items a).2 ha] at herror
      cases herror
    · intro hnone
      cases hparse : rule.parse items with
      | error error => exact ⟨error, rfl⟩
      | ok a => exact absurd ⟨a, (accepts items a).1 hparse⟩ hnone
  · -- Places do not matter: the items are read with any.
    have hall : Begins ts (ts.map fun t => (⟨t, 0, 0⟩ : Located σ)) [] := by
      rw [begins_all, List.map_map]
      exact List.map_id ts
    exact (Prod.mk.inj (Option.some.inj ((complete ha hall).symm.trans (complete hb hall)))).1

end Rule

end ReactiveTemplate
