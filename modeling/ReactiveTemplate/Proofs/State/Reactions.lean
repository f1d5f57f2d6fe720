import ReactiveTemplate.Engine.Basic
import ReactiveTemplate.Proofs.Grammar.Names
import ReactiveTemplate.Proofs.State.Evolution

/-!
# Evolution under reactions

State functions, event actions and updates by the host are sequences of single writes. While
each of them leaves a tidy state behind, what no pending path overlaps reads as it did. The
targets of event actions are names all along, so such an action writes no item of an array.

* `Reaction.Grammatical`: the target of a reaction can be spelled.
* `Tracked.Tidy`: what a write may leave behind.
* `Tracked.CommandTidy`, `Tracked.ReactionTidy` and others: the same for all writes of a
  command, a script, a reaction, or several reactions.
* `Tracked.perform_evolves`, `Engine.setState_evolves`: they are evolutions then.
-/

namespace ReactiveTemplate

/-- The target of a reaction can be spelled. -/
def Reaction.Grammatical : Reaction → Prop
  | .note _ => True
  | .input path => ∃ p : Path, p.Grammatical ∧ path = p.dotted
  | .run action => action.Grammatical

namespace Tracked

/-! ## Tidy writes -/

/-- A write leaves every container on one path only, and no array longer than it was. -/
structure Tidy (s s' : State) : Prop where
  unshared : s'.Unshared
  lengths : s.KeepsLengths s'

/-- The write of a command leaves a tidy state. A push may make an array longer. -/
def CommandTidy (event : Option HostEvent) (s : State) (command : Command) : Prop :=
  match command with
  | .set _ value => value.Known s.heap ∧ s.Tidy (runCommand announce event s command)
  | .increment _ | .note _ => s.Tidy (runCommand announce event s command)
  | .push _ value => value.Known s.heap ∧ Unshared (runCommand announce event s command)

/-- Each command of a script leaves a tidy state. -/
def ScriptTidy (event : Option HostEvent) : State → Script → Prop
  | _, [] => True
  | s, command :: rest =>
    s.CommandTidy event command ∧ ScriptTidy event (runCommand announce event s command) rest

/-- Each write of an event action leaves a tidy state. No step or assignment makes an array
    longer. -/
def ActionTidy (event : HostEvent) (s : State) (action : EventAction) : Prop :=
  match action with
  | .call name =>
    let (read, store) := s.store.getField Store.root s.store.rootObject name
    ∀ id, read = .value (.function id) →
      ScriptTidy (some event) { s with store := store } (store.heap.script id)
  | .step .. | .assign .. => Unshared (s.act event action)

/-- Each write of a reaction leaves a tidy state. -/
def ReactionTidy (event : HostEvent) (s : State) (reaction : Reaction) : Prop :=
  match reaction with
  | .note _ => True
  | .input _ => Unshared (react event s reaction)
  | .run action => s.ActionTidy event action

/-- Each write of some reactions leaves a tidy state. -/
def PerformTidy (event : HostEvent) : State → List Reaction → Prop
  | _, [] => True
  | s, reaction :: rest =>
    s.ReactionTidy event reaction ∧ PerformTidy event (react event s reaction) rest

/-- Each write of some fields leaves every container on one path only. -/
def FieldsTidy : State → List (String × Value) → Prop
  | _, [] => True
  | s, entry :: rest => Unshared (Engine.setField s entry) ∧ FieldsTidy (Engine.setField s entry) rest

variable {s s' : State}

/-! ## Commands -/

/-- A write by path that may only fail to be recorded otherwise. -/
theorem Evolves.setPath_of_same (hs : s.Orderly) {path : String} {value : Value}
    (hvalue : value.Known s.heap)
    (hstore : s'.store = (s.write fun store => store.setPath Store.root path value).2.store)
    (hscheduler :
      s'.scheduler = (s.write fun store => store.setPath Store.root path value).2.scheduler)
    (hlengths : ∀ index, arrayIndex? (Store.splitLast path).2 = some index → s.KeepsLengths s')
    (h : s'.Unshared) : s.Evolves s' := by
  let written := (s.write fun store => store.setPath Store.root path value).2
  have hheap : s'.heap = written.heap := congrArg Store.heap hstore
  have hlengths' : ∀ index, arrayIndex? (Store.splitLast path).2 = some index →
      s.KeepsLengths written := fun index hindex id keys hfound => by
    rw [← hheap]
    exact hlengths index hindex id keys hfound
  have hunshared : written.Unshared := by
    rw [Unshared, ← hheap, ← hstore]
    exact h
  have hsound := hs.invariant.sound
  have hwritten : s.Evolves written :=
    Evolves.setPath hs (Store.Leads.refl hsound hsound.rootKnown) hvalue hlengths' hunshared
  exact hwritten.trans (Evolves.quiet hwritten.orderly hstore hscheduler)

theorem placeAt_evolves (hs : s.Orderly) {path : String} {d : Datum} (hd : d.Known s.heap)
    (h : s.Tidy (placeAt announce s path d)) : s.Evolves (placeAt announce s path d) := by
  have hplaced := Evolves.place hs hd
  have hvalue : (s.heap.place d).1.Known (s.placed d).heap :=
    (Heap.place_spec hs.invariant.atRest hd).known
  rw [placeAt] at h ⊢
  split
  · exact Evolves.refl hs
  · next hbars =>
    rw [if_neg hbars] at h
    exact hplaced.trans (Evolves.setPath_of_same hplaced.orderly hvalue rfl rfl
      (fun _ _ => h.lengths.of_placed hs hd) h.unshared)

theorem getPath_evolves (hs : s.Orderly) (path : String) :
    s.Evolves { s with store := (s.store.getPath Store.root path).2 } := by
  have hspec := Store.getPath_root_spec hs.invariant.sound path
  exact Evolves.extend hs hspec.extends' hspec.sound rfl

/-- Reading below a view adds views only, so writes after it are tidy as before. -/
theorem Tidy.of_extends {store : Store} (hs : s.Orderly) (hextends : s.store.Extends store)
    (h : s.Tidy s') : Tidy { s with store := store } s' :=
  ⟨h.unshared, h.lengths.of_extends hs hextends⟩

theorem increment_evolves (hs : s.Orderly) {event : Option HostEvent} {path : String}
    (h : s.Tidy (runCommand announce event s (.increment path))) :
    s.Evolves (runCommand announce event s (.increment path)) := by
  have hspec := Store.getPath_root_spec hs.invariant.sound path
  have hread := getPath_evolves hs path
  rw [runCommand, numberAt?] at h ⊢
  by_cases hbars : s.store.barsRead path = true
  · rw [if_pos hbars]
    exact Evolves.refl hs
  rw [if_neg hbars] at h ⊢
  cases hget : s.store.getPath Store.root path with
  | mk read store =>
    rw [hget] at hspec hread h
    cases read with
    | error e => exact hread
    | ok read =>
      exact hread.trans (placeAt_evolves hread.orderly trivial (h.of_extends hs hspec.extends'))

theorem push_evolves (hs : s.Orderly) {event : Option HostEvent} {path : String} {d : Datum}
    (hd : d.Known s.heap) (h : Unshared (runCommand announce event s (.push path d))) :
    s.Evolves (runCommand announce event s (.push path d)) := by
  have hspec := Store.getPath_root_spec hs.invariant.sound path
  have hread := getPath_evolves hs path
  rw [runCommand] at h ⊢
  by_cases hbars : s.store.barsRead path = true
  · rw [if_pos hbars]
    exact Evolves.refl hs
  rw [if_neg hbars] at h ⊢
  cases hget : s.store.getPath Store.root path with
  | mk read store =>
    rw [hget] at hspec hread h
    cases read with
    | error e => exact hread
    | ok read =>
      cases read with
      | value v => exact hread
      | view id =>
        dsimp only at h ⊢
        cases hc : store.container id with
        | object object => exact hread
        | array array =>
          rw [hc] at h
          dsimp only at h ⊢
          by_cases hlocked : (store.heap.array array).locked = true
          · rw [if_pos hlocked]
            exact hread
          rw [if_neg hlocked] at h ⊢
          let s₁ : State := { s with store := store }
          have hd₁ : d.Known s₁.heap := by
            have hheap : store.heap = s.heap := hspec.extends'.heap
            rw [Tracked.heap, hheap]
            exact hd
          have hplaced := Evolves.place hread.orderly hd₁
          have hleads := hspec.view id rfl
          have hagain := hleads.again hs.invariant.sound (hread.orderly.agreeBelow_placed hd₁)
          have hvalue : (s₁.heap.place d).1.Known (s₁.placed d).heap :=
            (Heap.place_spec hread.orderly.invariant.atRest hd₁).known
          let operation : ArrayEdit := .push (s₁.heap.place d).1
          let placed : Store := (s₁.placed d).store
          have hw : (ViewWrite.edit operation).apply placed id = some
              (placed.editItems id array fun items => (operation.items placed.heap items, ())) := by
            have hc' : placed.container id = .array array := hc
            simp only [ViewWrite.apply, hc']
            rfl
          have hpush : (s₁.placed d).Evolves ((s₁.placed d).write fun store =>
              store.editItems id array (Items.push (s₁.heap.place d).1)).2 :=
            Evolves.write hplaced.orderly hagain hw rfl rfl
              (fun value hmem => by rwa [List.mem_singleton.1 hmem]) (by simp) h
          exact hread.trans (hplaced.trans hpush)

theorem runCommand_evolves (hs : s.Orderly) {event : Option HostEvent} {command : Command}
    (h : s.CommandTidy event command) : s.Evolves (runCommand announce event s command) := by
  cases command with
  | set path d => exact placeAt_evolves hs h.1 h.2
  | increment path => exact increment_evolves hs h
  | push path d => exact push_evolves hs h.1 h.2
  | note path =>
    cases event with
    | none => exact Evolves.refl hs
    | some event =>
      have hplace : runCommand announce (some event) s (.note path) =
          placeAt announce s path (.text (eventNote event)) := rfl
      rw [CommandTidy, hplace] at h
      rw [hplace]
      exact placeAt_evolves hs trivial h

/-! ## Scripts and actions -/

theorem runScript_evolves {event : Option HostEvent} (script : Script) :
    ∀ {s : State}, s.Orderly → s.ScriptTidy event script → s.Evolves (s.runScript event script) := by
  induction script with
  | nil => exact fun hs _ => Evolves.refl hs
  | cons command rest ih =>
    intro s hs h
    have hfirst := runCommand_evolves hs h.1
    exact hfirst.trans (ih hfirst.orderly h.2)

/-- Reading a field of the root. -/
theorem getField_evolves (hs : s.Orderly) (name : String) :
    s.store.Extends (s.store.getField Store.root s.store.rootObject name).2 ∧
      s.Evolves { s with store := (s.store.getField Store.root s.store.rootObject name).2 } := by
  have hsound := hs.invariant.sound
  have hread : s.store.readKey Store.root (.field name) =
      s.store.getField Store.root s.store.rootObject name := by
    simp only [Store.readKey, hsound.rootContainer]
  have hspec := Store.readKey_spec hsound (show Store.root.index < s.store.views.size from
    hsound.rootKnown) (.field name)
  rw [hread] at hspec
  exact ⟨hspec.extends', Evolves.extend hs hspec.extends' hspec.sound rfl⟩

theorem call_evolves (hs : s.Orderly) {event : HostEvent} {name : String}
    (h : s.ActionTidy event (.call name)) : s.Evolves (s.call event name) := by
  obtain ⟨-, hfield⟩ := getField_evolves hs name
  rw [ActionTidy] at h
  rw [call]
  split
  · exact Evolves.refl hs
  cases hget : s.store.getField Store.root s.store.rootObject name with
  | mk read store =>
    rw [hget] at hfield h
    have hlogged : s.Evolves (log { s with store := store } .debug
        ("'" ++ name ++ "' is not a function in state")) :=
      hfield.trans (Evolves.quiet hfield.orderly rfl rfl)
    cases read with
    | view id => exact hlogged
    | value v =>
      cases v with
      | function id => exact hfield.trans (runScript_evolves _ hfield.orderly (h id rfl))
      | _ => exact hlogged

/-- An assignment at a path of an expression writes no item of an array. -/
theorem assign_evolves (hs : s.Orderly) {source : String} {p : Path} (hp : p.Grammatical)
    {value : Value} (hvalue : value.Known s.heap) (h : Unshared (s.assign source p.dotted value)) :
    s.Evolves (s.assign source p.dotted value) := by
  by_cases hbars : s.store.barsWrite p.dotted = true
  · rw [assign, if_pos hbars]
    exact Evolves.refl hs
  have hsame : (s.assign source p.dotted value).store =
        (s.write fun store => store.setPath Store.root p.dotted value).2.store ∧
      (s.assign source p.dotted value).scheduler =
        (s.write fun store => store.setPath Store.root p.dotted value).2.scheduler := by
    rw [assign, if_neg hbars]
    cases s.write fun store => store.setPath Store.root p.dotted value with
    | mk result written => cases result <;> exact ⟨rfl, rfl⟩
  refine Evolves.setPath_of_same hs hvalue hsame.1 hsame.2 (fun index hindex => ?_) h
  rw [(Path.isIdentifier_splitLast hp).arrayIndex?_eq_none] at hindex
  cases hindex

theorem known_of_plain {h : Heap} {value : Value} (hvalue : value.container? = none) :
    value.Known h := by
  intro c hc
  rw [hvalue] at hc
  cases hc

theorem step_evolves (hs : s.Orderly) {source : String} {p : Path} (hp : p.Grammatical)
    {direction : Direction} (h : Unshared (s.step source p.dotted direction)) :
    s.Evolves (s.step source p.dotted direction) := by
  have hread := getPath_evolves hs p.dotted
  rw [step] at h ⊢
  by_cases hbars : s.store.barsRead p.dotted = true
  · rw [if_pos hbars]
    exact Evolves.refl hs
  rw [if_neg hbars] at h ⊢
  cases hget : s.store.getPath Store.root p.dotted with
  | mk read store =>
    rw [hget] at hread h
    cases read with
    | error e => exact hread.trans (Evolves.quiet hread.orderly rfl rfl)
    | ok read => exact hread.trans (assign_evolves hread.orderly hp (known_of_plain rfl) h)

/-- What a path reads is known. -/
theorem Orderly.known_of_resolvePath (hs : s.Orderly) {p : Path} {value : Value}
    (h : resolvePath s.heap s.scope p = .ok value) : value.Known s.heap := by
  have hdescend : ∀ (names walked : List String) {value found : Value}, value.Known s.heap →
      descend s.heap walked value names = .ok found → found.Known s.heap := by
    intro names
    induction names with
    | nil =>
      intro walked value found hvalue hfound
      exact Except.ok.inj hfound ▸ hvalue
    | cons name names ih =>
      intro walked value found hvalue hfound
      rw [Heap.descend_cons] at hfound
      cases hp : property s.heap walked value name with
      | error e =>
        rw [hp] at hfound
        cases hfound
      | ok next =>
        rw [hp] at hfound
        refine ih _ ?_ hfound
        rcases Heap.property_eq_ok hp with ⟨c, -, hchild⟩ | hplain
        · exact hs.invariant.atRest.closed c _ _ hchild
        · exact known_of_plain hplain
  rw [Tracked.scope, resolvePath_object] at h
  cases hfound : descend s.heap [] (.object s.store.rootObject) p.segments with
  | error e =>
    rw [hfound] at h
    cases h
  | ok found =>
    rw [hfound] at h
    obtain rfl := Except.ok.inj h
    have hroot : (Value.object s.store.rootObject).Known s.heap := by
      rintro c ⟨⟩
      exact hs.invariant.rootKnown
    have hknown := hdescend _ _ hroot hfound
    cases found with
    | undefined => exact known_of_plain rfl
    | _ => exact hknown

theorem act_evolves (hs : s.Orderly) {event : HostEvent} {action : EventAction}
    (haction : action.Grammatical) (h : s.ActionTidy event action) :
    s.Evolves (s.act event action) := by
  cases action with
  | call name => exact call_evolves hs h
  | step target direction => exact step_evolves hs haction h
  | assign target source =>
    cases source with
    | literal l => exact assign_evolves hs haction (known_of_plain (container?_value_literal l)) h
    | path p =>
      have hunshared : Unshared (s.act event (.assign target (.path p))) := h
      rw [act] at hunshared ⊢
      cases hresolve : resolvePath s.heap s.scope p with
      | error e => exact Evolves.quiet hs rfl rfl
      | ok value =>
        rw [hresolve] at hunshared
        exact assign_evolves hs haction (hs.known_of_resolvePath hresolve) hunshared

/-! ## Events and updates -/

theorem react_evolves (hs : s.Orderly) {event : HostEvent} {reaction : Reaction}
    (hreaction : reaction.Grammatical) (h : s.ReactionTidy event reaction) :
    s.Evolves (react event s reaction) := by
  cases reaction with
  | note label => exact Evolves.refl hs
  | input path =>
    obtain ⟨p, hp, rfl⟩ := hreaction
    exact assign_evolves hs hp (known_of_plain rfl) h
  | run action => exact act_evolves hs hreaction h

theorem perform_evolves {event : HostEvent} (reactions : List Reaction) :
    ∀ {s : State}, s.Orderly → (∀ r ∈ reactions, r.Grammatical) → s.PerformTidy event reactions →
      s.Evolves (s.perform event reactions) := by
  induction reactions with
  | nil => exact fun hs _ _ => Evolves.refl hs
  | cons reaction rest ih =>
    intro s hs hreactions h
    have hfirst := react_evolves hs (hreactions reaction (by simp)) h.1
    exact hfirst.trans (ih hfirst.orderly (fun r hr => hreactions r (by simp [hr])) h.2)

theorem setField_evolves (hs : s.Orderly) {entry : String × Value}
    (hentry : entry.2.Known s.heap) (h : Unshared (Engine.setField s entry)) :
    s.Evolves (Engine.setField s entry) := by
  have hsound := hs.invariant.sound
  let w := s.store.setField Store.root s.store.rootObject entry.1 entry.2
  have hw : (ViewWrite.setField entry.1 entry.2).apply s.store Store.root =
      some ⟨w.store, (), w.changed⟩ := by
    simp only [ViewWrite.apply, hsound.rootContainer, w]
  exact Evolves.write hs (Store.Leads.refl hsound hsound.rootKnown) hw rfl rfl
    (fun value hmem => by rwa [List.mem_singleton.1 hmem]) (by simp) h

theorem setFields_evolves (entries : List (String × Value)) :
    ∀ {s : State}, s.Orderly → (∀ entry ∈ entries, entry.2.Known s.heap) → s.FieldsTidy entries →
      s.Evolves (entries.foldl Engine.setField s) := by
  induction entries with
  | nil => exact fun hs _ _ => Evolves.refl hs
  | cons entry rest ih =>
    intro s hs hentries h
    have hfirst := setField_evolves hs (hentries entry (by simp)) h.1
    refine hfirst.trans (ih hfirst.orderly (fun other hother c hc => ?_) h.2)
    exact hfirst.known c (hentries other (by simp [hother]) c hc)

end Tracked

end ReactiveTemplate
