import ReactiveTemplate.Proofs.State.Contents
import ReactiveTemplate.Proofs.State.Following
import ReactiveTemplate.Proofs.State.Notification

/-!
# The identity of views

A view keeps the views that were read through it under the names of their keys. A kept view is used
again only if its container is still the one that is found, so no read is stale. It is given up only
when a write through the same view changes its key or an operation runs through that view, so a
view that finds the same container again is the same one, whatever is read and written elsewhere.

* `Access`, `Store.after`, `Store.run`: histories of reads and writes through views, and of changes
  made without any.
* `Store.walk_run`, `Store.setPath_run`: reads and writes by a path are such histories.
* `Store.readKey_keeps`: a view that is read is one of the container that is found, and is kept.
* `Store.Keeps.after`, `Store.Keeps.run`: what one access, and a history, leave of a kept view.
* `Store.readKey_identity`: the same container is found again as the same view.
-/

namespace ReactiveTemplate

/-! ## Histories -/

/-- One access to a state: a read or a write through a view, or a change of the containers that is
    made without any view. -/
inductive Access where
  | read (id : ViewId) (key : Key)
  | set (id : ViewId) (key : Key) (value : Value)
  | edit (id : ViewId) (operation : ArrayEdit)
  | around (heap : Heap)

/-- An access that reads a key. -/
def Access.IsRead : Access → Prop
  | .read _ _ => True
  | _ => False

/-- The views that are accessed exist. -/
def Access.Through (s : Store) : Access → Prop
  | .read id _ | .set id _ _ | .edit id _ => id.index < s.views.size
  | .around _ => True

instance (s : Store) : (access : Access) → Decidable (access.Through s)
  | .read id _ | .set id _ _ | .edit id _ => inferInstanceAs (Decidable (id.index < s.views.size))
  | .around _ => inferInstanceAs (Decidable True)

namespace Store

/-- The store after an access. -/
def after (s : Store) : Access → Store
  | .read id key => (s.readKey id key).2
  | .set id key value => (s.setKey id key value).store
  | .edit id operation => (s.edit id operation).store
  | .around heap => { s with heap := heap }

/-- The store after a history. -/
def run (s : Store) (history : List Access) : Store := history.foldl after s

/-- Each access of a history finds a store at which it has some property. -/
def Along (P : Store → Access → Prop) : Store → List Access → Prop
  | _, [] => True
  | s, access :: history => P s access ∧ Along P (s.after access) history

variable {s : Store} {P Q : Store → Access → Prop}

theorem run_append (s : Store) (history history' : List Access) :
    s.run (history ++ history') = (s.run history).run history' := List.foldl_append

theorem along_append {history history' : List Access} :
    ∀ {s : Store}, s.Along P (history ++ history') ↔
      s.Along P history ∧ (s.run history).Along P history' := by
  induction history with
  | nil => simp [Along, run]
  | cons access history ih =>
    intro s
    rw [List.cons_append, Along, Along, ih, and_assoc]
    rfl

/-- What every access of some kind preserves, a history of them preserves. -/
theorem Along.preserves {I : Store → Prop} (hstep : ∀ s access, I s → P s access → I (s.after access))
    {history : List Access} : ∀ {s : Store}, I s → s.Along P history → I (s.run history) := by
  induction history with
  | nil => exact fun hs _ => hs
  | cons access history ih => exact fun hs h => ih (hstep _ access hs h.1) h.2

/-! ## Keys and names -/

end Store

/-- No two items have the same name. -/
theorem index_eq_of_repr {index index' : Nat} (h : Nat.repr index = Nat.repr index') :
    index = index' := by
  have hdigits : Nat.toDigits 10 index = Nat.toDigits 10 index' := by
    rw [← Nat.toList_repr, ← Nat.toList_repr, h]
  have hread : ∀ n, Nat.ofDigitChars 10 (Nat.toDigits 10 n) 0 = n := fun n =>
    Nat.ofDigitChars_toDigits (by decide) (by decide)
  rw [← hread index, hdigits, hread]

/-- The keys of one container have names of their own. -/
theorem Key.eq_of_name {key key' : Key} {c : Container} (hfits : key.Fits c) (hfits' : key'.Fits c)
    (hname : key.name = key'.name) : key = key' := by
  cases c with
  | object id =>
    cases key with
    | item index => cases hfits
    | field name =>
      cases key' with
      | item index => cases hfits'
      | field name' => exact congrArg Key.field hname
  | array id =>
    cases key with
    | field name => cases hfits
    | item index =>
      cases key' with
      | field name' => cases hfits'
      | item index' => exact congrArg Key.item (index_eq_of_repr hname)

namespace Store

variable {s : Store} {id other v : ViewId} {key : Key} {c : Container}

theorem readKey_of_fits (hfits : key.Fits (s.container id)) :
    s.readKey id key =
      s.readChild id key.name ((s.heap.child? (s.container id) key).getD .undefined) := by
  cases hc : s.container id with
  | object object =>
    cases key with
    | field name => simp only [readKey, hc, getField, Heap.child?, Key.name]
    | item index => simp [hc, Key.Fits] at hfits
  | array array =>
    cases key with
    | field name => simp [hc, Key.Fits] at hfits
    | item index => simp only [readKey, hc, getItem, Heap.child?, Key.name]

theorem readKey_of_not_fits (hfits : ¬ key.Fits (s.container id)) :
    s.readKey id key = (.value .undefined, s) := by
  cases hc : s.container id with
  | object object =>
    cases key with
    | field name => simp [hc, Key.Fits] at hfits
    | item index => simp only [readKey, hc]
  | array array =>
    cases key with
    | field name => simp only [readKey, hc]
    | item index => simp [hc, Key.Fits] at hfits

/-! ## What an access does to views -/

/-- An access keeps all views, with their containers and paths. -/
theorem after_extends (hs : s.Sound) {access : Access} (ha : access.Through s) :
    ({ s with heap := (s.after access).heap } : Store).Extends (s.after access) ∧
      (s.after access).Sound := by
  have happly : ∀ {id : ViewId} {write : ViewWrite} {w : Written Unit}, id.index < s.views.size →
      write.apply s id = some w →
        ({ s with heap := w.store.heap } : Store).Extends w.store ∧ w.store.Sound := by
    intro id write w hid hw
    rcases ViewWrite.apply_cases hs hid hw with ⟨hstore, -⟩ | he
    · rw [hstore]
      exact ⟨.refl s, hs⟩
    · exact ⟨he.views, he.sound⟩
  cases access with
  | read id key =>
    have hspec := readKey_spec hs ha key
    have hheap : (s.after (.read id key)).heap = s.heap := hspec.extends'.heap
    rw [hheap]
    exact ⟨hspec.extends', hspec.sound⟩
  | set id key value =>
    by_cases hfits : key.Fits (s.container id)
    · exact happly ha (setKey_apply hfits value)
    · rw [after, setKey_of_not_fits hfits]
      exact ⟨.refl s, hs⟩
  | edit id operation =>
    rw [after, edit]
    cases hw : (ViewWrite.edit operation).apply s id with
    | none => exact ⟨.refl s, hs⟩
    | some w => exact happly ha hw
  | around heap => exact ⟨.refl _, hs.withHeap heap⟩

theorem sound_run {history : List Access} (hs : s.Sound) (h : s.Along Access.Through history) :
    (s.run history).Sound :=
  Along.preserves (I := Sound) (fun _ _ hs ha => (after_extends hs ha).2) hs h

/-- The views that were read through a view. -/
def children (s : Store) (id : ViewId) : Fields ViewId := (s.view id).children

theorem children_setChildren (hid : id.index < s.views.size) (fields : Fields ViewId) :
    (s.setChildren other fields).children id = if other = id then fields else s.children id := by
  rw [children, view_setChildren hid]
  by_cases heq : other = id
  · rw [if_pos heq, if_pos (congrArg ViewId.index heq)]
  · have hne : other.index ≠ id.index := fun hindex => heq (by
      obtain ⟨i⟩ := other
      obtain ⟨j⟩ := id
      exact congrArg ViewId.mk hindex)
    rw [if_neg heq, if_neg hne]
    rfl

/-- A read at another name, or through another view. -/
theorem children_readChild (hid : id.index < s.views.size) {name name' : String} (value : Value)
    (hother : other = id → name' ≠ name) :
    ((s.readChild other name' value).2.children id).get? name = (s.children id).get? name := by
  rw [readChild]
  cases value.container? with
  | none => rfl
  | some found =>
    dsimp only
    split
    · rfl
    · let added : Store :=
        { s with views := s.views.push ⟨found, childPath (s.path other) name', .empty⟩ }
      have hadded : id.index < added.views.size := by
        simp only [added, Array.size_push]
        omega
      have hview : added.children id = s.children id := congrArg View.children (view_push hid)
      change ((added.setChildren other _).children id).get? name = _
      rw [children_setChildren hadded]
      by_cases heq : other = id
      · rw [if_pos heq, Fields.get?_insert, if_neg (Ne.symm (hother heq)), heq]
        rfl
      · rw [if_neg heq, hview]

/-- A write at another name, or through another view, or one that changes nothing. -/
theorem children_setKey (hid : id.index < s.views.size) {name : String} {key' : Key} (value : Value)
    (hother : other = id → key'.name ≠ name ∨ (s.setKey other key' value).result = false) :
    ((s.setKey other key' value).store.children id).get? name = (s.children id).get? name := by
  have herase : ∀ heap : Heap, (other = id → key'.name ≠ name) →
      ((({ s with heap := heap } : Store).setChildren other
        ((s.view other).children.erase key'.name)).children id).get? name =
          (s.children id).get? name := by
    intro heap hne
    rw [children_setChildren (s := { s with heap := heap }) hid]
    by_cases heq : other = id
    · rw [if_pos heq, Fields.get?_erase, if_neg (Ne.symm (hne heq)), heq]
      rfl
    · rw [if_neg heq]
      rfl
  cases hc : s.container other with
  | object object =>
    cases key' with
    | item index => simp only [setKey, hc]
    | field name' =>
      simp only [setKey, hc, setField] at hother ⊢
      by_cases hsame : isUnchanged ((s.heap.fields object).get? name') value = true
      · rw [if_pos hsame]
      · rw [if_neg hsame] at hother ⊢
        exact herase _ fun heq => (hother heq).resolve_right Bool.false_ne_true.symm
  | array array =>
    cases key' with
    | field name' => simp only [setKey, hc]
    | item index =>
      simp only [setKey, hc, setItem] at hother ⊢
      by_cases hsame : isUnchanged (s.heap.items array)[index]? value = true
      · rw [if_pos hsame]
      · rw [if_neg hsame] at hother ⊢
        exact herase _ fun heq => (hother heq).resolve_right Bool.false_ne_true.symm

/-- An operation through another view. -/
theorem children_edit (hid : id.index < s.views.size) (hother : other ≠ id)
    (operation : ArrayEdit) : (s.edit other operation).store.children id = s.children id := by
  have hset : ∀ heap : Heap,
      (({ s with heap := heap } : Store).setChildren other .empty).children id = s.children id := by
    intro heap
    rw [children_setChildren (s := { s with heap := heap }) hid, if_neg hother]
    rfl
  cases hc : s.container other with
  | object object => simp only [edit, ViewWrite.apply, hc, Option.getD_none]
  | array array =>
    simp only [edit, ViewWrite.apply, hc, Option.getD_some, editItems]
    exact hset _

/-! ## Accesses by path -/

/-- A walk is a history of reads. -/
theorem walk_run (segments : List String) :
    ∀ {s : Store} {current : Read} (walked : String), s.Sound → current.Stands s →
      ∃ history, (s.walk walked current segments).2 = s.run history ∧
        s.Along Access.Through history ∧ ∀ access ∈ history, access.IsRead := by
  induction segments with
  | nil => exact fun _ _ _ => ⟨[], rfl, trivial, nofun⟩
  | cons segment rest ih =>
    intro s current walked hs hcurrent
    rw [walk_cons]
    cases current with
    | value v => exact ⟨[], rfl, trivial, nofun⟩
    | view id =>
      rcases getSegment_cases s walked id segment with ⟨e, he⟩ | ⟨v, hv⟩ | hkey
      · rw [he]
        exact ⟨[], rfl, trivial, nofun⟩
      · rw [hv]
        dsimp only
        rw [(walk_value s _ v rest).1]
        exact ⟨[], rfl, trivial, nofun⟩
      · let key : Key := .ofSegment segment (s.container id)
        have hspec := readKey_spec hs hcurrent key
        obtain ⟨history, hrun, halong, hreads⟩ :=
          ih (childPath walked segment) hspec.sound hspec.stands
        rw [hkey]
        refine ⟨.read id key :: history, hrun, ⟨hcurrent, halong⟩, fun access haccess => ?_⟩
        rcases List.mem_cons.1 haccess with rfl | hrest
        · trivial
        · exact hreads access hrest

/-- A store is left by reads through views, and by at most one write after them. -/
def LeftBy (s s' : Store) (value : Value) : Prop :=
  ∃ reads writes, s' = s.run (reads ++ writes) ∧ s.Along Access.Through (reads ++ writes) ∧
    (∀ access ∈ reads, access.IsRead) ∧
    (writes = [] ∨ ∃ found key, writes = [.set found key value])

/-- A write by a path is a history of reads and at most one write at a key. -/
theorem setPath_run (hs : s.Sound) (hid : id.index < s.views.size) (path : String)
    (value : Value) : s.LeftBy (s.setPath id path value).store value := by
  obtain ⟨history, hrun, halong, hreads⟩ :=
    walk_run (steps (splitLast path).1) (s.path id) hs (show Read.Stands s (.view id) from hid)
  have hspec := getPath_spec hs hid (splitLast path).1
  change (s.getPath id (splitLast path).1).2 = _ at hrun
  rw [setPath]
  dsimp only
  split
  · exact ⟨[], [], rfl, trivial, by simp, .inl rfl⟩
  · cases hget : s.getPath id (splitLast path).1 with
    | mk outcome s₁ =>
      rw [hget] at hspec hrun
      have hfailed : s.LeftBy s₁ value := by
        refine ⟨history, [], ?_, ?_, hreads, .inl rfl⟩
        · rw [List.append_nil]
          exact hrun
        · rw [List.append_nil]
          exact halong
      cases outcome with
      | error e => exact hfailed
      | ok read =>
        cases read with
        | value v => exact hfailed
        | view found =>
          have hwritten : ∀ key : Key, s.LeftBy (s₁.setKey found key value).store value := by
            refine fun key =>
              ⟨history, [.set found key value], ?_, ?_, hreads, .inr ⟨found, key, rfl⟩⟩
            · rw [run_append, ← hrun]
              rfl
            · rw [along_append, ← hrun]
              exact ⟨halong, (hspec.view found rfl).known, trivial⟩
          dsimp only
          cases hc : s₁.container found with
          | object object =>
            have hset := hwritten (.field (splitLast path).2)
            simp only [setKey, hc] at hset
            exact hset
          | array array =>
            dsimp only
            cases hindex : s₁.indexInto found (splitLast path).2 with
            | error e => exact hfailed
            | ok index =>
              have hset := hwritten (.item index)
              simp only [setKey, hc] at hset
              exact hset

/-! ## Kept views -/

/-- A view is kept under a key of another one, and stands for a container. -/
structure Keeps (s : Store) (id : ViewId) (key : Key) (v : ViewId) (c : Container) : Prop where
  parent : id.index < s.views.size
  fits : key.Fits (s.container id)
  known : v.index < s.views.size
  container : s.container v = c
  kept : (s.children id).get? key.name = some v

end Store

/-- An access that gives no reason to give up the view of a container that was found at a key of
    a view: no write through that view changes the key, no operation runs through it, and no read of
    the key through it finds another container. -/
def Access.Respects (s : Store) (id : ViewId) (key : Key) (c : Container) : Access → Prop
  | .read other key' => other = id → key' = key →
    ∀ d, s.heap.child? (s.container id) key = some d.value → d = c
  | .set other key' value => other = id → key' = key → (s.setKey other key' value).result = false
  | .edit other _ => other ≠ id
  | .around _ => True

namespace Store

variable {s : Store} {id other v : ViewId} {key : Key} {c : Container}

/-- A kept view is used again where its container is found. -/
theorem Keeps.readKey (h : s.Keeps id key v c)
    (hfound : s.heap.child? (s.container id) key = some c.value) :
    s.readKey id key = (.view v, s) := by
  have hkept : (s.view id).children.get? key.name = some v := h.kept
  rw [readKey_of_fits h.fits, hfound, Option.getD_some, readChild, Container.container?_value]
  simp only [hkept, Option.filter_some, h.container, decide_true, if_true]

/-- A view that is read is one of the container that is found, and it is kept. -/
theorem readKey_keeps {s' : Store} (hs : s.Sound) (hid : id.index < s.views.size)
    (hread : s.readKey id key = (.view v, s')) :
    s.heap.child? (s.container id) key = some (s'.container v).value ∧
      s'.Keeps id key v (s'.container v) := by
  have hspec := readKey_spec hs hid key
  rw [hread] at hspec
  have hparent : id.index < s'.views.size := hid.trans_le hspec.extends'.size
  have hfits : key.Fits (s.container id) := by
    by_contra hfits
    rw [readKey_of_not_fits hfits] at hread
    cases hread
  have hvalue : (s'.container v).value = (s.heap.child? (s.container id) key).getD .undefined :=
    hspec.value
  have hchild : s.heap.child? (s.container id) key = some (s'.container v).value := by
    cases hchild : s.heap.child? (s.container id) key with
    | some found => rw [hvalue, hchild, Option.getD_some]
    | none =>
      rw [hchild, Option.getD_none] at hvalue
      cases hc : s'.container v <;> rw [hc] at hvalue <;> cases hvalue
  refine ⟨hchild, hparent, ?_, (hspec.view v rfl).1, rfl, ?_⟩
  · rw [hspec.extends'.container id hid]
    exact hfits
  · generalize s'.container v = found at hchild
    rw [readKey_of_fits hfits, hchild, Option.getD_some, readChild,
      Container.container?_value] at hread
    dsimp only at hread
    split at hread
    · next child hfilter =>
      cases hread
      exact (Option.filter_eq_some_iff.1 hfilter).1
    · cases hread
      rw [children_setChildren (by simp only [Array.size_push]; omega), if_pos rfl,
        Fields.get?_insert, if_pos rfl]

/-- A kept view stays so with an access that gives no reason to give it up. -/
theorem Keeps.after (hs : s.Sound) (h : s.Keeps id key v c) {access : Access}
    (ha : access.Through s) (hr : access.Respects s id key c) :
    (s.after access).Keeps id key v c := by
  obtain ⟨hextends, -⟩ := after_extends hs ha
  have hparent : (s.after access).container id = s.container id :=
    hextends.container id h.parent
  refine ⟨h.parent.trans_le hextends.size, hparent ▸ h.fits, h.known.trans_le hextends.size,
    (hextends.container v h.known).trans h.container, ?_⟩
  have hname : ∀ key' : Key, key'.Fits (s.container id) → key' ≠ key → key'.name ≠ key.name :=
    fun key' hfits hne hname => hne (Key.eq_of_name hfits h.fits hname)
  rw [← h.kept]
  cases access with
  | read other key' =>
    rw [Store.after]
    by_cases hfits : key'.Fits (s.container other)
    · by_cases hsame : other = id ∧ key' = key
      · obtain ⟨rfl, rfl⟩ := hsame
        cases hchild : s.heap.child? (s.container other) key' with
        | none =>
          rw [readKey_of_fits hfits, hchild]
          rfl
        | some value =>
          cases hvalue : value.container? with
          | none =>
            rw [readKey_of_fits hfits, hchild, Option.getD_some, readChild, hvalue]
          | some d =>
            obtain rfl := Container.value_of_container? hvalue
            obtain rfl := hr rfl rfl d hchild
            rw [h.readKey hchild]
      · rw [readKey_of_fits hfits]
        refine children_readChild h.parent _ fun heq => hname key' (heq ▸ hfits) fun hkey => ?_
        exact hsame ⟨heq, hkey⟩
    · rw [readKey_of_not_fits hfits]
  | set other key' value =>
    rw [Store.after]
    by_cases hfits : key'.Fits (s.container other)
    · refine children_setKey h.parent value fun heq => ?_
      by_cases hkey : key' = key
      · exact .inr (hr heq hkey)
      · exact .inl (hname key' (heq ▸ hfits) hkey)
    · rw [setKey_of_not_fits hfits]
  | edit other operation =>
    rw [Store.after, children_edit h.parent hr]
  | around heap => rfl

theorem Keeps.run {history : List Access} :
    ∀ {s : Store}, s.Sound → s.Keeps id key v c →
      s.Along (fun t access => access.Through t ∧ access.Respects t id key c) history →
        (s.run history).Keeps id key v c := by
  induction history with
  | nil => exact fun _ h _ => h
  | cons access history ih =>
    intro s hs h hhistory
    obtain ⟨⟨ha, hr⟩, hrest⟩ := hhistory
    exact ih (after_extends hs ha).2 (h.after hs ha hr) hrest

/-- After any history of reads and writes through views, and of changes made without any, a view
    that is read at a key is one of the container that lies there. If the same container is found
    again after more of such, and no write through the same view has changed the key, no operation
    has run through that view, and no other container was found by it there meanwhile, then it is
    read as the same view. Reads and writes by a path are histories too (`walk_run`,
    `setPath_run`). -/
theorem readKey_identity (heap : Heap) (object : ObjectId) {before : List Access}
    (hbefore : (wrap heap object).Along Access.Through before)
    (hid : id.index < ((wrap heap object).run before).views.size) {s' : Store}
    (hread : ((wrap heap object).run before).readKey id key = (.view v, s')) :
    let s := (wrap heap object).run before
    let c := s'.container v
    s.heap.child? (s.container id) key = some c.value ∧
      ∀ between, s'.Along (fun t access => access.Through t ∧ access.Respects t id key c) between →
        let t := s'.run between
        t.heap.child? (t.container id) key = some c.value → (t.readKey id key).1 = .view v := by
  have hs := sound_run (sound_wrap heap object) hbefore
  obtain ⟨hfound, hkeeps⟩ := readKey_keeps hs hid hread
  have hs' : s'.Sound := by
    have hspec := readKey_spec hs hid key
    rw [hread] at hspec
    exact hspec.sound
  refine ⟨hfound, fun between hbetween hagain => ?_⟩
  rw [(hkeeps.run hs' hbetween).readKey hagain]

/-- The list of the sample is put at another name as well, and its item is taken out by the view
    that is read there. -/
def aliased : List Access :=
  [.set root (.field "same") (.array ⟨0⟩), .read root (.field "same"), .edit ⟨2⟩ .pop]

/-- After that the list is read as the view that it was read as before. -/
theorem aliased_readKey_identity :
    let s' := (sample.readKey root (.field "items")).2
    (sample.readKey root (.field "items")).1 = .view ⟨1⟩ ∧
      s'.Along (fun t access => access.Through t ∧
        access.Respects t root (.field "items") (s'.container ⟨1⟩)) aliased ∧
      ((s'.run aliased).heap.items ⟨0⟩).length = 0 ∧
      ((s'.run aliased).readKey root (.field "items")).1 = .view ⟨1⟩ := by
  intro s'
  have hread : sample.readKey root (.field "items") = (.view ⟨1⟩, s') := rfl
  have hsame : Key.field "same" ≠ .field "items" := by decide
  have haliased : s'.Along (fun t access => access.Through t ∧
      access.Respects t root (.field "items") (s'.container ⟨1⟩)) aliased := by
    refine ⟨⟨?_, fun _ hkey => absurd hkey hsame⟩, ⟨?_, fun _ hkey => absurd hkey hsame⟩,
      ⟨?_, ?_⟩, trivial⟩
    · decide +kernel
    · decide +kernel
    · decide +kernel
    · show (⟨2⟩ : ViewId) ≠ root
      decide
  have hstart : (wrap sample.heap ⟨0⟩).Along Access.Through [] := trivial
  obtain ⟨-, hagain⟩ := readKey_identity sample.heap ⟨0⟩ hstart (by decide) hread
  have hfound : ((s'.run aliased).heap.child? ((s'.run aliased).container root)
      (.field "items")).bind Value.container? = some (s'.container ⟨1⟩) := by decide +kernel
  obtain ⟨value, hvalue, hc⟩ := Option.bind_eq_some_iff.1 hfound
  rw [← Container.value_of_container? hc] at hvalue
  exact ⟨rfl, haliased, by decide +kernel, hagain aliased haliased hvalue⟩

end Store

end ReactiveTemplate
