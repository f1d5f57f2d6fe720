import ReactiveTemplate.Proofs.State.Assignment
import ReactiveTemplate.Proofs.State.Notes
import ReactiveTemplate.Proofs.State.Reactions

/-!
# Event actions and their target

A step and an assignment touch no more than the place that their target names. They come to a
container that is being modified, they are refused with one problem, they leave everything as it
is, or they store one value there and notify the target.

* `Store.location`: the container and the key that a path of the grammar names.
* `Store.location_eq_ok`: it is a field of an object that is reached by fields only.
* `Tracked.Tree`: the states whose containers lie at one place each.
* `Heap.Barred`, `Tracked.Barred`: a container on the way is being modified.
* `Tracked.Idle`, `Tracked.Wrote`: a state left as it is, and one with a single write.
* `Tracked.Tree.assign_spec`, `Tracked.Tree.step_spec`: a write at a path of the grammar.
* `Tracked.act_spec`: an accepted step or assignment.
-/

namespace ReactiveTemplate

/-! ## Locations -/

/-- The segments of a path before the last one. -/
def Path.front (p : Path) : List String := p.segments.dropLast

/-- The last segment of a path. -/
def Path.last (p : Path) : String := p.segments.getLast (by simp [segments])

/-- The container and the key that a path names below the root, or what is wrong with the first
    segment that cannot be followed or, at the end, written. -/
def Store.location (s : Store) (p : Path) : Except Fault (Container × Key) :=
  s.heap.target (.object s.rootObject) p.front p.last

theorem Path.segments_eq (p : Path) : p.segments = p.front ++ [p.last] :=
  (List.dropLast_concat_getLast _).symm

namespace Path.Grammatical

variable {p : Path}

theorem front (hp : p.Grammatical) : ∀ name ∈ p.front, Lexer.IsIdentifier name := fun name hname =>
  hp name (List.dropLast_subset _ hname)

theorem last (hp : p.Grammatical) : Lexer.IsIdentifier p.last := hp p.last (by
  rw [p.segments_eq]
  simp)

theorem pathSegments_dotted (hp : p.Grammatical) : pathSegments p.dotted = p.front ++ [p.last] := by
  rw [Path.pathSegments_dotted hp, p.segments_eq]

theorem steps_dotted (hp : p.Grammatical) : Store.steps p.dotted = p.segments := by
  rw [Path.dotted_eq_pathOf hp, Store.steps_pathOf hp]

/-- Identifiers are not empty. -/
theorem filter_front (hp : p.Grammatical) : p.front.filter (· != "") = p.front := by
  rw [List.filter_eq_self]
  intro name hname
  simpa using (hp.front name hname).ne_empty

end Path.Grammatical

namespace Heap

variable {h : Heap} {value : Value} {c : Container} {key : Key} {name : String}

/-- An identifier is written at a field of an object. -/
theorem slot_of_isIdentifier (hname : Lexer.IsIdentifier name)
    (hslot : value.slot name = .ok (c, key)) : ∃ id, c = .object id ∧ key = .field name := by
  cases value with
  | object id =>
    obtain ⟨rfl, rfl⟩ := Prod.mk.inj (Except.ok.inj hslot)
    exact ⟨id, rfl, rfl⟩
  | array id =>
    rw [Value.slot, hname.arrayIndex?_eq_none] at hslot
    cases hslot
  | undefined | null | bool | number | text | function => cases hslot

/-- Identifiers that lead to a container are fields of objects all along. -/
theorem keysAlong_of_identifiers {names : List String}
    (hnames : ∀ name ∈ names, Lexer.IsIdentifier name) :
    ∀ {value : Value}, h.follow value names = .ok c.value →
      h.keysAlong value names = fieldKeys names := by
  induction names with
  | nil => exact fun _ => rfl
  | cons name rest ih =>
    intro value hfollow
    obtain ⟨next, hstep, hrest⟩ := follow_cons_eq_ok hfollow
    obtain ⟨d, rfl, hchild⟩ := child?_of_step hstep (container?_of_follow_ne_none hrest)
    cases d with
    | object id =>
      rw [keysAlong_cons, hchild, Option.getD_some,
        ih (fun n hn => hnames n (by simp [hn])) hrest]
      rfl
    | array id =>
      -- The only name below an array is that of its length, which is no container.
      refine absurd ?_ (container?_of_follow_ne_none hrest)
      rw [Container.value, step, (hnames name (by simp)).arrayIndex?_eq_none] at hstep
      split at hstep
      · rw [← Except.ok.inj hstep]
        rfl
      · cases hstep

/-- What cannot be followed at a segment cannot be written there, for the same reason. -/
theorem slot_of_fault {fault : Fault} (hstep : h.step value name = .error fault) :
    value.slot name = .error fault := by
  cases value with
  | object id => cases hstep
  | array id =>
    rw [step] at hstep
    rw [Value.slot]
    split at hstep
    · cases hstep
    · split at hstep
      · cases hstep
      · exact congrArg Except.error (Except.error.inj hstep)
  | undefined | null | bool | number | text | function =>
    exact congrArg Except.error (Except.error.inj hstep)

theorem target_of_fault {root : Value} {front : List String} {last : String} {fault : Fault}
    (hfollow : h.follow root (front ++ [last]) = .error fault) :
    h.target root front last = .error fault := by
  rw [follow_append] at hfollow
  rw [target]
  cases hfront : h.follow root front with
  | error stuck =>
    rw [hfront] at hfollow
    exact congrArg Except.error (Except.error.inj hfollow)
  | ok found =>
    rw [hfront] at hfollow
    change h.follow found [last] = _ at hfollow
    rw [follow_cons] at hfollow
    cases hstep : h.step found last with
    | error stuck =>
      rw [hstep] at hfollow
      exact (slot_of_fault hstep).trans (congrArg Except.error (Except.error.inj hfollow))
    | ok next =>
      rw [hstep] at hfollow
      change h.follow next [] = _ at hfollow
      rw [follow_nil] at hfollow
      cases hfollow

/-- A container that one comes to along some segments, before their end, is being modified. -/
def Barred (h : Heap) (value : Value) (segments : List String) : Prop :=
  ∃ front name back c, segments = front ++ name :: back ∧ h.follow value front = .ok c.value ∧
    h.isLocked c = true

theorem Barred.here {c : Container} (hlocked : h.isLocked c = true) (segment : String)
    (rest : List String) : h.Barred c.value (segment :: rest) :=
  ⟨[], segment, rest, c, rfl, rfl, hlocked⟩

theorem Barred.below {value next : Value} {segment : String} {rest : List String}
    (hbarred : h.Barred next rest) (hnext : h.step value segment = .ok next) :
    h.Barred value (segment :: rest) := by
  obtain ⟨front, name, back, c, rfl, hfollow, hlocked⟩ := hbarred
  refine ⟨segment :: front, name, back, c, rfl, ?_, hlocked⟩
  rw [follow_cons, hnext]
  exact hfollow

/-- What bars a walk is a container that the walk comes to before its end. -/
theorem barred_of_bars {writing : Bool} {segments : List String} :
    ∀ {value : Value}, h.bars writing value segments = true → h.Barred value segments := by
  induction segments with
  | nil =>
    intro value hbars
    cases value <;> cases hbars
  | cons segment rest ih =>
    intro value hbars
    cases value with
    | object id =>
      rw [bars, Bool.or_eq_true] at hbars
      rcases hbars with hlocked | hrest
      · exact .here (c := .object id) hlocked segment rest
      · exact (ih hrest).below rfl
    | array id =>
      rw [bars] at hbars
      split at hbars
      · exact .here (c := .array id) (Bool.and_eq_true_iff.1 hbars).1 segment rest
      · next hname =>
        obtain ⟨index, hindex, hbars⟩ := (Option.any_eq_true _ _).1 hbars
        rcases Bool.or_eq_true_iff.1 hbars with hlocked | hrest
        · exact .here (c := .array id) hlocked segment rest
        · refine (ih hrest).below ?_
          rw [step, if_neg hname, hindex]
    | undefined | null | bool | number | text | function => cases hbars

/-- What bars a write bars a read. -/
theorem bars_of_writing {segments : List String} :
    ∀ {value : Value}, h.bars true value segments = true → h.bars false value segments = true := by
  induction segments with
  | nil =>
    intro value hbars
    cases value <;> cases hbars
  | cons segment rest ih =>
    intro value hbars
    cases value with
    | object id =>
      rw [bars, Bool.or_eq_true] at hbars ⊢
      exact hbars.imp_right ih
    | array id =>
      rw [bars] at hbars ⊢
      split at hbars
      · next hname =>
        rw [if_pos hname, (Bool.and_eq_true_iff.1 hbars).1]
        rfl
      · next hname =>
        rw [if_neg hname]
        obtain ⟨index, hindex, hbars⟩ := (Option.any_eq_true _ _).1 hbars
        refine (Option.any_eq_true _ _).2 ⟨index, hindex, ?_⟩
        rw [Bool.or_eq_true] at hbars ⊢
        exact hbars.imp_right ih
    | undefined | null | bool | number | text | function => cases hbars

end Heap

namespace Store

variable {s : Store} {p : Path} {c : Container} {key : Key}

theorem barsRead_of_barsWrite {path : String} (hbars : s.barsWrite path = true) :
    s.barsRead path = true :=
  Heap.bars_of_writing (Bool.and_eq_true_iff.1 hbars).2

/-- A path of the grammar names a field of an object that lies at fields of objects. -/
theorem location_eq_ok (hp : p.Grammatical) (hlocation : s.location p = .ok (c, key)) :
    (∃ id, c = .object id) ∧ key = .field p.last ∧
      s.heap.follow (.object s.rootObject) p.front = .ok c.value ∧
      s.heap.containerAlong? (.object s.rootObject) (fieldKeys p.front) = some c := by
  obtain ⟨hfollow, hslot⟩ := Heap.target_eq_ok hlocation
  obtain ⟨id, rfl, rfl⟩ := Heap.slot_of_isIdentifier hp.last hslot
  refine ⟨⟨id, rfl⟩, rfl, hfollow, ?_⟩
  rw [← Heap.keysAlong_of_identifiers hp.front hfollow]
  exact Heap.containerAlong?_of_follow hfollow

end Store

/-! ## States and what becomes of them -/

namespace Tracked

/-- Every container below the root of a state exists, and lies at one place only. Some of them may
    be being modified; an action does not come back from those. -/
structure Tree (s : State) : Prop where
  sound : s.store.Sound
  known : ∀ keys c, s.heap.containerAlong? (.object s.store.rootObject) keys = some c →
    s.heap.Known c
  unshared : s.Unshared

/-- The states of an engine that share no container are such. -/
theorem Tree.of_invariant {s : State} (hs : s.store.Invariant) (hu : s.Unshared) : s.Tree := by
  refine ⟨hs.sound, fun keys c hc => hs.atRest.known_of_containerAlong? ?_ hc, hu⟩
  rintro _ ⟨⟩
  exact hs.rootKnown

variable {s : State}

/-- A container on the way to a target is being modified. -/
def Barred (s : State) (target : Path) : Prop :=
  s.heap.Barred (.object s.store.rootObject) target.segments

/-- No container was changed and no change was notified, although places may have been read. The
    problems were recorded. -/
structure Idle (s t : State) (problems : List Diagnostic) : Prop where
  extends' : s.store.Extends t.store
  noted : s.Noted t problems []

/-- Telling of a change notifies it first. If no one answers, that is all. -/
theorem announce_noted (s : State) (path : String) :
    ∃ changes, s.Noted (s.announce path) [] (path :: changes) ∧
      ((s.scheduler.notify path).2 = none →
        changes = [] ∧ (s.announce path).store = s.store) := by
  have hnoted := noted_react path s
  show ∃ changes, s.Noted ((Monitor.react path s.observer).2.elim _ _) [] (path :: changes) ∧
    ((Monitor.react path s.observer).2 = none → changes = [] ∧
      ((Monitor.react path s.observer).2.elim _ _ : State).store = s.store)
  cases (Monitor.react path s.observer).2 with
  | none => exact ⟨[], hnoted, fun _ => ⟨rfl, rfl⟩⟩
  | some script =>
    obtain ⟨changes, hscript⟩ := runScriptWith_notified (speaks_announceWithin 0) none script
      { s with observer := (Monitor.react path s.observer).1 }
    exact ⟨changes, hnoted.trans hscript, nofun⟩

/-- What lies at a path of a store is a value, or the same as it. -/
def Holds (store : Store) (p : Path) (value : Value) : Prop :=
  ∃ read store', store.getPath Store.root p.dotted = (.ok read, store') ∧
    (store'.readValue read).Same value

/-- A value was stored at the field that a path names, and nowhere else. The path was notified. If
    the host answers that with changes of its own, they come afterwards. -/
structure Wrote (s t : State) (target : Path) (id : ObjectId) (value : Value) (store : Store) :
    Prop where
  root : store.rootObject = s.store.rootObject
  stores : s.heap.Stores store.heap (.object id) (.field target.last) value
  holds : Holds store target value
  reads : ∀ q : Path, q.Grammatical → pathsOverlap q.dotted target.dotted = false →
    ReadsSame s.heap store.heap s.scope q
  told : t = announce target.dotted ⟨store, s.observer⟩
  noted : ∃ changes, s.Noted t [] (target.dotted :: changes) ∧
    ((s.scheduler.notify target.dotted).2 = none → changes = [] ∧ t.store = store)

/-- A field of an object holds a value: it was left as it was, or the value was stored there. -/
def Settled (s t : State) (target : Path) (id : ObjectId) (value : Value) : Prop :=
  (s.heap.Has (.object id) (.field target.last) value ∧ s.Idle t [] ∧
      Holds t.store target value) ∨
    (¬ s.heap.Has (.object id) (.field target.last) value ∧
      ∃ store, s.Wrote t target id value store)

/-! ## Writes at a path -/

/-- A write through the view that a path reaches leaves alone what its report does not overlap. -/
theorem Tree.readsSame (hs : s.Tree) {p : Path} (hp : p.Grammatical) {id : ObjectId}
    (hlocation : s.store.location p = .ok (.object id, .field p.last)) {s₁ : Store}
    {found : ViewId} (hreaches : s.store.Reaches s₁ found (.object id) p.front) {value : Value}
    {w : Written Unit} (hw : (ViewWrite.setField p.last value).apply s₁ found = some w)
    (hchanged : w.changed = some p.dotted) {q : Path} (hq : q.Grammatical)
    (hno : pathsOverlap q.dotted p.dotted = false) :
    ReadsSame s.heap w.store.heap s.scope q := by
  have hheap : s₁.heap = s.heap := hreaches.extends'.heap
  have hroot := hreaches.extends'.rootObject hs.sound
  obtain ⟨-, -, -, hfound⟩ := Store.location_eq_ok hp hlocation
  have hat : s₁.heap.OnlyAt (.object s₁.rootObject) (fieldKeys p.front) (s₁.container found) := by
    rw [hheap, hroot, hreaches.container]
    exact hs.unshared.onlyAt hfound
  have hpath : s₁.path found = pathOf ((fieldKeys p.front).map Key.name) := by
    rw [hreaches.path, map_name_fieldKeys]
  obtain ⟨hvalue, hbelow⟩ := ViewWrite.resolvePath_of_not_overlap hreaches.sound hreaches.known hat
    hpath hw hq (fun n hn => by
      obtain rfl := Option.some.inj (hchanged.symm.trans hn)
      rw [hno]
      exact Bool.false_ne_true)
    (fun names _ => by
      rintro ⟨index, other, array, hset, -⟩
      cases hset)
  rw [hheap, hroot] at hvalue hbelow
  exact ⟨hvalue, hbelow⟩

/-- A write through the view that a path reaches stores a value there and notifies the path. -/
theorem Tree.wrote (hs : s.Tree) {p : Path} (hp : p.Grammatical) {id : ObjectId}
    (hlocation : s.store.location p = .ok (.object id, .field p.last)) {s₁ : Store}
    {found : ViewId} (hreaches : s.store.Reaches s₁ found (.object id) p.front) {value : Value}
    {w : Written Unit} (hw : (ViewWrite.setField p.last value).apply s₁ found = some w)
    (hstores : s.store.heap.Stores w.store.heap (.object id) (.field p.last) value)
    (hchanged : w.changed = some p.dotted) :
    s.Wrote (announce p.dotted ⟨w.store, s.observer⟩) p id value w.store := by
  have hroot := hreaches.rootObject hs.sound hw
  have hsound := Store.sound_apply hreaches.sound hreaches.known hw
  have hwritten : w.store.heap.follow (.object w.store.rootObject) (Store.steps p.dotted) =
      .ok value := by
    rw [hroot, hp.steps_dotted, p.segments_eq]
    exact hstores.follow hs.unshared.loopless hlocation
  obtain ⟨changes, hnoted, hsilent⟩ := announce_noted ⟨w.store, s.observer⟩ p.dotted
  exact {
    root := hroot
    stores := hstores
    holds := Store.getPath_of_follow hsound hsound (.refl _) hwritten (Value.same_self value)
    reads := fun q hq hno => hs.readsSame hp hlocation hreaches hw hchanged hq hno
    told := rfl
    noted := ⟨changes, ⟨hnoted.scheduler, hnoted.journal⟩, hsilent⟩ }

theorem barred_of_bars {writing : Bool} {p : Path} (hp : p.Grammatical)
    (hbars : s.heap.bars writing (.object s.store.rootObject) (Store.steps p.dotted) = true) :
    s.Barred p := by
  rw [hp.steps_dotted] at hbars
  exact Heap.barred_of_bars hbars

/-- A write at a path of the grammar that nothing bars says what is wrong with the path, or settles
    a value at the field that the path names. -/
theorem Tree.assign_spec (hs : s.Tree) {p : Path} (hp : p.Grammatical) (source : String)
    (value : Value) (hbars : ¬ s.store.barsWrite p.dotted = true) :
    (∃ (fault : Fault) (e : StoreError), s.store.location p = .error fault ∧
        e.fault? = some fault ∧
        s.Idle (s.assign source p.dotted value) [.plain .invalidState source e.message]) ∨
      ∃ id, s.store.location p = .ok (.object id, .field p.last) ∧
        s.Settled (s.assign source p.dotted value) p id value := by
  have hlast := hp.last.ne_empty
  rw [assign, if_neg hbars]
  cases hlocation : s.store.location p with
  | error fault =>
    have htarget : s.store.heap.target (.object s.store.rootObject) (p.front.filter (· != ""))
        p.last = .error fault := by
      rw [hp.filter_front]
      exact hlocation
    obtain ⟨e, s₁, hset, hfault, hextends⟩ :=
      Store.setPath_fault hs.sound hp.pathSegments_dotted hlast value htarget
    refine .inl ⟨fault, e, rfl, hfault, ?_⟩
    rw [write, writeWith, hset]
    have hnoted := ((Noted.refl s).withStore s₁).trans
      (noted_record { s with store := s₁ } .invalidState source e.message)
    exact ⟨hextends, hnoted⟩
  | ok slot =>
    obtain ⟨c, key⟩ := slot
    obtain ⟨⟨id, rfl⟩, rfl, hfollow, hfound⟩ := Store.location_eq_ok hp hlocation
    have htarget : s.store.heap.target (.object s.store.rootObject) (p.front.filter (· != ""))
        p.last = .ok (.object id, .field p.last) := by
      rw [hp.filter_front]
      exact hlocation
    refine .inr ⟨id, rfl, ?_⟩
    rcases Store.setPath_written hs.sound hp.pathSegments_dotted hlast value htarget
        (hs.known _ _ hfound) with
      ⟨hhas, s₁, hextends, hsound, hset⟩ |
        ⟨hhas, s₁, found, w, hreaches, hw, hstores, hset, hreported⟩
    · obtain ⟨old, hold, hsame⟩ := hhas.follow hlocation
      rw [← p.segments_eq, ← hp.steps_dotted] at hold
      rw [write, writeWith, hset]
      exact .inl ⟨hhas, ⟨hextends, (Noted.refl s).withStore s₁⟩,
        Store.getPath_of_follow hs.sound hsound hextends hold hsame⟩
    · have hkeys := Heap.keysAlong_of_identifiers hp.front hfollow
      have hchanged : w.changed = some p.dotted := by
        rw [hreported, hp.steps_dotted, p.segments_eq, Heap.keysAlong_append _ hfollow, hkeys,
          List.map_append, map_name_fieldKeys, Path.dotted_eq_pathOf hp, p.segments_eq]
        rfl
      rw [hp.filter_front, hkeys, map_name_fieldKeys] at hreaches
      rw [write, writeWith, hset, hchanged]
      exact .inr ⟨hhas, w.store, hs.wrote hp hlocation hreaches hw hstores hchanged⟩

end Tracked

/-! ## Steps and assignments -/

/-- The value that a step or an assignment gives its target, where another one lies there now. -/
def EventAction.Gives (s : State) (old value : Value) : EventAction → Prop
  | .call _ => False
  | .step _ direction => value = .number (direction.apply (old.toNumber s.heap))
  | .assign _ operand => operand.eval s.heap s.scope = .ok value

/-- Why a step or an assignment is refused: its target cannot be written, or its operand cannot be
    read. -/
inductive EventAction.Refused (s : State) (event : HostEvent) (target : Path) :
    EventAction → Diagnostic → Prop
  | location {action : EventAction} {fault : Fault} {e : StoreError} :
    s.store.location target = .error fault → e.fault? = some fault →
      Refused s event target action (.plain .invalidState event.name e.message)
  | operand {p : Path} {e : EvalError} : resolvePath s.heap s.scope p = .error e →
    Refused s event target (.assign target (.path p)) (.plain .evaluationError p.dotted e.message)

namespace Tracked

variable {s : State}

/-- What lies at a field of an object, `undefined` if there is none of that name. -/
def stored (s : State) (id : ObjectId) (name : String) : Value :=
  ((s.heap.fields id).get? name).getD .undefined

/-- A state with further views is as good. -/
theorem Tree.extend (hs : s.Tree) {store : Store} (hextends : s.store.Extends store)
    (hsound : store.Sound) : Tree { s with store := store } := by
  have hheap : store.heap = s.heap := hextends.heap
  have hroot := hextends.rootObject hs.sound
  refine ⟨hsound, fun keys c hc => ?_, ?_⟩
  · rw [heap, hheap, hroot] at hc
    rw [heap, hheap]
    exact hs.known keys c hc
  · rw [Unshared, heap, hheap, hroot]
    exact hs.unshared

variable {store : Store} {t : State} {target : Path} {id : ObjectId} {value : Value}

theorem Idle.of_extends {problems : List Diagnostic} (hextends : s.store.Extends store)
    (h : Idle { s with store := store } t problems) : s.Idle t problems :=
  ⟨hextends.trans h.extends', h.noted.scheduler, h.noted.journal⟩

theorem Settled.of_extends (hs : s.store.Sound) (hextends : s.store.Extends store)
    (h : Settled { s with store := store } t target id value) : s.Settled t target id value := by
  have hheap : store.heap = s.heap := hextends.heap
  rw [Settled, heap, hheap] at h
  refine h.imp ?_ ?_
  · rintro ⟨hhas, hidle, hholds⟩
    exact ⟨hhas, hidle.of_extends hextends, hholds⟩
  · rintro ⟨hhas, written, hwrote⟩
    obtain ⟨changes, hnoted, hsilent⟩ := hwrote.noted
    have hroot := hextends.rootObject hs
    refine ⟨hhas, written, hwrote.root.trans hroot, ?_, hwrote.holds, fun q hq hno => ?_,
      hwrote.told, changes, ⟨hnoted.scheduler, hnoted.journal⟩, hsilent⟩
    · have hstores := hwrote.stores
      rwa [heap, hheap] at hstores
    · have hreads := hwrote.reads q hq hno
      rwa [heap, hheap, scope, hroot] at hreads

/-- A step that nothing bars says what is wrong with its target, or settles the number above or
    below the one that its target is converted to. -/
theorem Tree.step_spec (hs : s.Tree) (hp : target.Grammatical) (source : String)
    (direction : Direction) (hbars : ¬ s.store.barsRead target.dotted = true) :
    (∃ (fault : Fault) (e : StoreError), s.store.location target = .error fault ∧
        e.fault? = some fault ∧
        s.Idle (s.step source target.dotted direction) [.plain .invalidState source e.message]) ∨
      ∃ id, s.store.location target = .ok (.object id, .field target.last) ∧
        s.Settled (s.step source target.dotted direction) target id
          (.number (direction.apply ((s.stored id target.last).toNumber s.heap))) := by
  have hread := Store.getPath_follow hs.sound target.dotted
  rw [hp.steps_dotted, target.segments_eq] at hread
  rw [step, if_neg hbars]
  cases hget : s.store.getPath Store.root target.dotted with
  | mk outcome store =>
    rw [hget] at hread
    have hheap : store.heap = s.heap := hread.extends'.heap
    cases hfollow : s.store.heap.follow (.object s.store.rootObject)
      (target.front ++ [target.last]) with
    | error fault =>
      obtain ⟨e, rfl, hfault⟩ := hread.error fault hfollow
      have hnoted := ((Noted.refl s).withStore store).trans
        (noted_record { s with store := store } .invalidState source e.message)
      exact .inl ⟨fault, e, Heap.target_of_fault hfollow, hfault, hread.extends', hnoted⟩
    | ok found =>
      obtain ⟨read, rfl, hvalue, -⟩ := hread.ok found hfollow
      have hlocation : store.location target = s.store.location target := by
        rw [Store.location, hread.extends'.heap, hread.extends'.rootObject hs.sound]
        rfl
      have hwrite : ¬ store.barsWrite target.dotted = true := by
        rw [Store.barsWrite, hread.extends'.heap, hread.extends'.rootObject hs.sound]
        exact fun hbarred => hbars (Store.barsRead_of_barsWrite hbarred)
      let x := (store.readValue read).toNumber store.heap
      rcases (hs.extend hread.extends' hread.sound).assign_spec hp source
          (.number (direction.apply x)) hwrite with ⟨fault, e, hstuck, hfault, hidle⟩ | ⟨id, hfield, hsettled⟩
      · exact .inl ⟨fault, e, hlocation ▸ hstuck, hfault, hidle.of_extends hread.extends'⟩
      · have hfield' : s.store.location target = .ok (.object id, .field target.last) :=
          hlocation.symm.trans hfield
        -- What the step reads is what lies where it writes.
        have hstored : found = s.stored id target.last :=
          Except.ok.inj (hfollow.symm.trans (Heap.follow_target hfield'))
        have hx : x = (s.stored id target.last).toNumber s.heap := by
          rw [← hstored, ← hvalue, ← hheap]
        refine .inr ⟨id, hfield', ?_⟩
        rw [← hx]
        exact hsettled.of_extends hs.sound hread.extends'

/-- What an accepted step or assignment does to a state in which every container lies at one place
    only. It may come to a container on the way to its target that is being modified: then nothing
    is done. It may be refused: then one problem is recorded, nothing is changed and nothing is
    notified. Otherwise its target names a field of an object, and the field holds the number above
    or below the old one, or what the operand was in the old state. If it did not hold that
    already, this is the only change: what does not overlap the target reads as it did, and the
    target is what was notified. -/
theorem act_spec (hs : s.Tree) {text : String} {action : EventAction}
    (hparse : parseEventAction text = .ok action) (htarget : action.target? = some target)
    (event : HostEvent) :
    (s.Barred target ∧ s.act event action = s) ∨
      (∃ d, action.Refused s event target d ∧ s.Idle (s.act event action) [d]) ∨
      ∃ id value, s.store.location target = .ok (.object id, .field target.last) ∧
        action.Gives s (s.stored id target.last) value ∧
        s.Settled (s.act event action) target id value := by
  have hp := EventAction.grammatical_of_parse hparse
  cases action with
  | call name => cases htarget
  | step path direction =>
    obtain rfl := Option.some.inj htarget
    by_cases hbars : s.store.barsRead path.dotted = true
    · exact .inl ⟨barred_of_bars hp hbars, by rw [act, step, if_pos hbars]⟩
    rcases hs.step_spec hp event.name direction hbars with
      ⟨fault, e, hlocation, hfault, hidle⟩ | ⟨id, hlocation, hsettled⟩
    · exact .inr (.inl ⟨_, .location hlocation hfault, hidle⟩)
    · exact .inr (.inr ⟨id, _, hlocation, rfl, hsettled⟩)
  | assign path operand =>
    obtain rfl := Option.some.inj htarget
    have hassign : ∀ value, operand.eval s.heap s.scope = .ok value →
        s.act event (.assign path operand) = s.assign event.name path.dotted value →
        (s.Barred path ∧ s.act event (.assign path operand) = s) ∨
          (∃ d, (EventAction.assign path operand).Refused s event path d ∧
            s.Idle (s.act event (.assign path operand)) [d]) ∨
          ∃ id value, s.store.location path = .ok (.object id, .field path.last) ∧
            (EventAction.assign path operand).Gives s (s.stored id path.last) value ∧
            s.Settled (s.act event (.assign path operand)) path id value := by
      intro value hvalue hact
      rw [hact]
      by_cases hbars : s.store.barsWrite path.dotted = true
      · refine .inl ⟨barred_of_bars hp (Bool.and_eq_true_iff.1 hbars).2, ?_⟩
        rw [assign, if_pos hbars]
      rcases hs.assign_spec hp event.name value hbars with
        ⟨fault, e, hlocation, hfault, hidle⟩ | ⟨id, hlocation, hsettled⟩
      · exact .inr (.inl ⟨_, .location hlocation hfault, hidle⟩)
      · exact .inr (.inr ⟨id, value, hlocation, hvalue, hsettled⟩)
    cases operand with
    | literal l => exact hassign l.value rfl rfl
    | path p =>
      cases hresolve : resolvePath s.heap s.scope p with
      | ok value => exact hassign value hresolve (by rw [act, hresolve])
      | error e =>
        refine .inr (.inl ⟨_, .operand hresolve, ?_⟩)
        rw [act, hresolve]
        exact ⟨.refl _, noted_record s .evaluationError p.dotted e.message⟩

/-- A state with a text next to an object that has one. -/
def profile : State :=
  ⟨.wrap (Heap.empty.place (.object
    [("title", .text "Dr"), ("user", .object [("name", .text "Ada")])])).2 ⟨1⟩,
    ⟨.empty, .empty 8⟩⟩

/-- Assigning one text to the other changes and notifies the other only. -/
theorem profile_act_spec :
    profile.Tree ∧
      parseEventAction "user.name = title" =
        .ok (.assign ⟨"user", ["name"]⟩ (.path ⟨"title", []⟩)) ∧
      let t := profile.act ⟨"click", none⟩ (.assign ⟨"user", ["name"]⟩ (.path ⟨"title", []⟩))
      profile.Noted t [] ["user.name"] ∧ Holds t.store ⟨"user", ["name"]⟩ (.text "Dr") ∧
        ReadsSame profile.heap t.heap profile.scope ⟨"title", []⟩ := by
  have hd : (Datum.object [("title", .text "Dr"), ("user", .object [("name", .text "Ada")])]).Known
      .empty := ⟨trivial, ⟨trivial, trivial⟩, trivial⟩
  have hr : profile.heap.AtRest := (Heap.place_spec Heap.empty_atRest hd).atRest
  have hinvariant : profile.store.Invariant := ⟨Store.sound_wrap _ _, hr, by decide⟩
  have hs : profile.Tree :=
    .of_invariant hinvariant (Heap.place_fresh Heap.empty_atRest hd).unshared
  have hparse : parseEventAction "user.name = title" =
      .ok (.assign ⟨"user", ["name"]⟩ (.path ⟨"title", []⟩)) := rfl
  have hlocation : profile.store.location ⟨"user", ["name"]⟩ =
      .ok (.object ⟨0⟩, .field "name") := rfl
  have hresolve : resolvePath profile.heap profile.scope ⟨"title", []⟩ = .ok (.text "Dr") := rfl
  have htitle : (Path.mk "title" []).Grammatical := by
    intro name hname
    rw [List.mem_singleton.1 hname]
    exact ⟨'t', ['i', 't', 'l', 'e'], rfl, by decide, by decide⟩
  refine ⟨hs, hparse, ?_⟩
  rcases act_spec hs hparse rfl ⟨"click", none⟩ with
    ⟨⟨-, -, -, c, -, -, hlocked⟩, -⟩ | ⟨d, hrefused, -⟩ | ⟨id, value, hfield, hgives, hsettled⟩
  · rw [hr.unlocked c] at hlocked
    cases hlocked
  · cases hrefused with
    | location hstuck => cases hlocation.symm.trans hstuck
    | operand hstuck => cases hresolve.symm.trans hstuck
  · cases hlocation.symm.trans hfield
    cases hresolve.symm.trans hgives
    rcases hsettled with ⟨hhas, -⟩ | ⟨-, store, hwrote⟩
    · cases hhas
    · obtain ⟨changes, hnoted, hsilent⟩ := hwrote.noted
      obtain ⟨rfl, hstore⟩ := hsilent rfl
      have hreads := hwrote.reads ⟨"title", []⟩ htitle (by decide +kernel)
      rw [← hstore] at hreads
      exact ⟨hnoted, hstore ▸ hwrote.holds, hreads⟩

end Tracked

end ReactiveTemplate
