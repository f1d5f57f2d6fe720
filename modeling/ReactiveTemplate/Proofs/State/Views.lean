import Mathlib.Data.Nat.Basic
import Mathlib.Order.Basic
import ReactiveTemplate.Proofs.State.Paths
import ReactiveTemplate.Proofs.State.Places
import ReactiveTemplate.Store.PathAccess

/-!
# Views and places

A view that was read from the root knows where its container lies: its path is made of the
names of the steps to it.

* `Store.Sound`: a view read through another has its path below the path of the other.
* `Store.Extends`: a store with the same heap and further views.
* `Store.readAlong`: reading step by step; `Store.readAlong_view` says which view is read.
* `Store.walk_spec`, `Store.getPath_spec`: the same for dotted paths.
-/

namespace ReactiveTemplate

namespace Store

/-- The path of a view read through another one is the path of the other and its name. -/
structure Sound (s : Store) : Prop where
  rootKnown : 0 < s.views.size
  rootPath : s.path root = ""
  rootContainer : s.container root = .object s.rootObject
  child : ∀ id : ViewId, id.index < s.views.size → ∀ name child,
    (s.view id).children.get? name = some child →
      child.index < s.views.size ∧ s.path child = childPath (s.path id) name

/-- A store with the same heap, the views of another store, and maybe more of them. -/
structure Extends (s s' : Store) : Prop where
  heap : s'.heap = s.heap
  size : s.views.size ≤ s'.views.size
  container : ∀ id : ViewId, id.index < s.views.size → s'.container id = s.container id
  path : ∀ id : ViewId, id.index < s.views.size → s'.path id = s.path id

theorem Extends.refl (s : Store) : s.Extends s := ⟨rfl, le_rfl, fun _ _ => rfl, fun _ _ => rfl⟩

theorem Extends.trans {s s' s'' : Store} (h : s.Extends s') (h' : s'.Extends s'') :
    s.Extends s'' where
  heap := h'.heap.trans h.heap
  size := h.size.trans h'.size
  container id hid := (h'.container id (hid.trans_le h.size)).trans (h.container id hid)
  path id hid := (h'.path id (hid.trans_le h.size)).trans (h.path id hid)

theorem Extends.rootObject {s s' : Store} (hs : s.Sound) (h : s.Extends s') :
    s'.rootObject = s.rootObject := by
  rw [Store.rootObject, Store.rootObject, h.container root hs.rootKnown]

/-! ## Views in their array -/

theorem view_of_lt {s : Store} {id : ViewId} (hid : id.index < s.views.size) :
    s.view id = s.views[id.index] := by
  simp [view, Array.getD, hid]

theorem view_setChildren {s : Store} {id other : ViewId} {children : Fields ViewId}
    (hother : other.index < s.views.size) :
    (s.setChildren id children).view other =
      if id.index = other.index then { s.view other with children := children }
      else s.view other := by
  have hsize : other.index < (s.setChildren id children).views.size := by simpa [setChildren]
  rw [view_of_lt hsize, view_of_lt hother]
  simp [setChildren, Array.getElem_modify]

theorem size_setChildren (s : Store) (id : ViewId) (children : Fields ViewId) :
    (s.setChildren id children).views.size = s.views.size := by
  simp [setChildren]

theorem extends_setChildren (s : Store) (id : ViewId) (children : Fields ViewId) :
    s.Extends (s.setChildren id children) where
  heap := rfl
  size := (size_setChildren s id children).ge
  container other hother := by
    rw [Store.container, view_setChildren hother, Store.container]
    split <;> rfl
  path other hother := by
    rw [Store.path, view_setChildren hother, Store.path]
    split <;> rfl

/-- The views read through a view may be replaced by any that have the right paths. -/
theorem Sound.setChildren {s : Store} (hs : s.Sound) {id : ViewId} {children : Fields ViewId}
    (hchildren : ∀ name child, children.get? name = some child →
      child.index < s.views.size ∧ s.path child = childPath (s.path id) name) :
    (s.setChildren id children).Sound := by
  have he := extends_setChildren s id children
  have hsize := size_setChildren s id children
  refine ⟨hsize ▸ hs.rootKnown, ?_, ?_, ?_⟩
  · rw [he.path root hs.rootKnown, hs.rootPath]
  · rw [he.container root hs.rootKnown, he.rootObject hs, hs.rootContainer]
  · intro other hother name child hchild
    rw [hsize] at hother ⊢
    rw [view_setChildren hother] at hchild
    split at hchild
    · next heq =>
      obtain rfl : id = other := by
        obtain ⟨i⟩ := id
        obtain ⟨j⟩ := other
        exact congrArg ViewId.mk heq
      obtain ⟨hlt, hpath⟩ := hchildren name child hchild
      exact ⟨hlt, by rw [he.path child hlt, he.path id hother, hpath]⟩
    · obtain ⟨hlt, hpath⟩ := hs.child other hother name child hchild
      exact ⟨hlt, by rw [he.path child hlt, he.path other hother, hpath]⟩

/-- Soundness is about the views only. -/
theorem Sound.withHeap {s : Store} (hs : s.Sound) (heap : Heap) :
    ({ s with heap := heap } : Store).Sound :=
  ⟨hs.rootKnown, hs.rootPath, hs.rootContainer, hs.child⟩

theorem sound_wrap (heap : Heap) (id : ObjectId) : (wrap heap id).Sound := by
  refine ⟨by simp [wrap], rfl, rfl, ?_⟩
  intro other hother name child hchild
  obtain ⟨index⟩ := other
  obtain rfl : index = 0 := by simpa [wrap] using hother
  simp [wrap, view, Fields.empty, Fields.get?, findEntry] at hchild

/-! ## Single reads -/

theorem view_push {s : Store} {v : View} {id : ViewId} (hid : id.index < s.views.size) :
    ({ s with views := s.views.push v } : Store).view id = s.view id := by
  have hid' : id.index < ({ s with views := s.views.push v } : Store).views.size := by
    simp only [Array.size_push]
    omega
  rw [view_of_lt hid', view_of_lt hid]
  simp [Array.getElem_push, hid]

theorem view_push_self (s : Store) (v : View) :
    ({ s with views := s.views.push v } : Store).view ⟨s.views.size⟩ = v := by
  simp [view]

theorem extends_push (s : Store) (v : View) :
    s.Extends { s with views := s.views.push v } where
  heap := rfl
  size := by simp
  container id hid := by rw [container, view_push hid, container]
  path id hid := by rw [path, view_push hid, path]

theorem Sound.push {s : Store} (hs : s.Sound) {v : View} (hv : v.children = .empty) :
    ({ s with views := s.views.push v } : Store).Sound := by
  have he := extends_push s v
  refine ⟨?_, ?_, ?_, ?_⟩
  · simp
  · rw [he.path root hs.rootKnown, hs.rootPath]
  · rw [he.container root hs.rootKnown, he.rootObject hs, hs.rootContainer]
  · intro id hid name child hchild
    have hle : id.index < s.views.size ∨ id.index = s.views.size := by
      simp only [Array.size_push] at hid
      omega
    rcases hle with hlt | heq
    · rw [view_push hlt] at hchild
      obtain ⟨hc, hpath⟩ := hs.child id hlt name child hchild
      exact ⟨hc.trans_le he.size, by rw [he.path child hc, he.path id hlt, hpath]⟩
    · obtain ⟨index⟩ := id
      obtain rfl : index = s.views.size := heq
      rw [view_push_self, hv] at hchild
      simp [Fields.empty, Fields.get?, findEntry] at hchild

/-- What reading a value at a name through a view gives. -/
structure ReadSpec (s s' : Store) (path : String) (value : Value) (read : Read) : Prop where
  extends' : s.Extends s'
  sound : s'.Sound
  value : s'.readValue read = value
  plain : ∀ v, read = .value v → v.container? = none
  view : ∀ id, read = .view id → id.index < s'.views.size ∧ s'.path id = path

theorem readChild_spec {s : Store} (hs : s.Sound) {id : ViewId} (hid : id.index < s.views.size)
    (name : String) (value : Value) :
    ReadSpec s (s.readChild id name value).2 (childPath (s.path id) name) value
      (s.readChild id name value).1 := by
  rw [readChild]
  cases hvalue : value.container? with
  | none =>
    refine ⟨Extends.refl s, hs, rfl, ?_, nofun⟩
    rintro v ⟨⟩
    exact hvalue
  | some found =>
    have hfound : found.value = value := by
      cases value <;> simp [Value.container?] at hvalue <;> subst hvalue <;> rfl
    dsimp only
    split
    · next child hchild =>
      obtain ⟨hget, hsame⟩ := Option.filter_eq_some_iff.1 hchild
      obtain ⟨hlt, hpath⟩ := hs.child id hid name child hget
      refine ⟨Extends.refl s, hs, ?_, nofun, ?_⟩
      · rw [readValue, of_decide_eq_true hsame, hfound]
      · rintro _ ⟨⟩
        exact ⟨hlt, hpath⟩
    · next hnone =>
      let added : Store :=
        { s with views := s.views.push ⟨found, childPath (s.path id) name, .empty⟩ }
      let child : ViewId := ⟨s.views.size⟩
      let children := (s.view id).children.insert name child
      have hadded : s.Extends added := extends_push s _
      have hset : added.Extends (added.setChildren id children) := extends_setChildren added id _
      have hlt : child.index < added.views.size := by simp [child, added]
      have hchild : added.view child = ⟨found, childPath (s.path id) name, .empty⟩ :=
        view_push_self s _
      have hpath : added.path child = childPath (s.path id) name := by rw [path, hchild]
      refine ⟨hadded.trans hset, ?_, ?_, nofun, ?_⟩
      · refine Sound.setChildren (Sound.push hs rfl) ?_
        intro other grandchild hget
        rw [Fields.get?_insert] at hget
        split at hget
        · next heq =>
          obtain rfl := Option.some.inj hget
          refine ⟨hlt, ?_⟩
          rw [heq]
          exact hpath.trans (by rw [hadded.path id hid])
        · obtain ⟨hc, hp⟩ := hs.child id hid other grandchild hget
          refine ⟨hc.trans_le hadded.size, ?_⟩
          exact (hadded.path grandchild hc).trans (hp.trans (by rw [hadded.path id hid]))
      · change ((added.setChildren id children).container child).value = value
        rw [hset.container child hlt, container, hchild, hfound]
      · rintro _ ⟨⟩
        refine ⟨hlt.trans_le hset.size, ?_⟩
        change (added.setChildren id children).path child = _
        rw [hset.path child hlt, hpath]

/-! ## Reads in a row -/

/-- Reads what lies at a step through a view. -/
def readKey (s : Store) (id : ViewId) (key : Key) : Read × Store :=
  match s.container id, key with
  | .object object, .field name => s.getField id object name
  | .array array, .item index => s.getItem id array index
  | _, _ => (.value .undefined, s)

/-- Reads step by step. Nothing lies below a plain value. -/
def readAlong (s : Store) : Read → List Key → Read × Store
  | read, [] => (read, s)
  | .value _, _ :: _ => (.value .undefined, s)
  | .view id, key :: keys =>
    let (read, s) := s.readKey id key
    readAlong s read keys

/-- Reading below a view led to another one by the given steps. -/
structure Leads (s s' : Store) (id id' : ViewId) (keys : List Key) : Prop where
  extends' : s.Extends s'
  sound : s'.Sound
  known : id'.index < s'.views.size
  path : s'.path id' = (keys.map Key.name).foldl childPath (s.path id)
  place : s.heap.at? (s.container id).value keys = some (s'.container id').value

theorem Container.container?_value (c : Container) : c.value.container? = some c := by
  cases c <;> rfl

theorem Leads.refl {s : Store} (hs : s.Sound) {id : ViewId} (hid : id.index < s.views.size) :
    s.Leads s id id [] :=
  ⟨Extends.refl s, hs, hid, rfl, Heap.at?_nil _ _⟩

theorem Leads.trans {s s' s'' : Store} {id id' id'' : ViewId} {keys keys' : List Key}
    (h : s.Leads s' id id' keys) (h' : s'.Leads s'' id' id'' keys') :
    s.Leads s'' id id'' (keys ++ keys') := by
  refine ⟨h.extends'.trans h'.extends', h'.sound, h'.known, ?_, ?_⟩
  · rw [h'.path, h.path, List.map_append, List.foldl_append]
  · rw [Heap.at?_append, h.place, Option.bind_some, ← h.extends'.heap]
    exact h'.place

/-- A view leads to itself by the same steps, also with another heap that holds the same below
    the root. -/
theorem Leads.again {s s₁ : Store} {id : ViewId} {keys : List Key} (hs : s.Sound)
    (h : s.Leads s₁ root id keys) {heap : Heap}
    (hb : s₁.heap.AgreeBelow heap (.object s₁.rootObject)) :
    ({ s₁ with heap := heap } : Store).Leads { s₁ with heap := heap } root id keys := by
  refine ⟨Extends.refl _, h.sound.withHeap heap, h.known, ?_, ?_⟩
  · have hpath : s₁.path root = s.path root := h.extends'.path root hs.rootKnown
    exact h.path.trans (by rw [← hpath]; rfl)
  · have hplace := h.place
    rw [hs.rootContainer, ← h.extends'.heap, ← h.extends'.rootObject hs] at hplace
    have hroot : ({ s₁ with heap := heap } : Store).container root = .object s₁.rootObject :=
      h.sound.rootContainer
    rw [hroot]
    exact (hb.at? keys).symm.trans hplace

theorem readKey_spec {s : Store} (hs : s.Sound) {id : ViewId} (hid : id.index < s.views.size)
    (key : Key) :
    ReadSpec s (s.readKey id key).2 (childPath (s.path id) key.name)
      ((s.heap.child? (s.container id) key).getD .undefined) (s.readKey id key).1 := by
  have hmiss : ReadSpec s s (childPath (s.path id) key.name) .undefined (.value .undefined) := by
    refine ⟨Extends.refl s, hs, rfl, ?_, nofun⟩
    rintro v ⟨⟩
    rfl
  cases hc : s.container id with
  | object object =>
    cases key with
    | field name =>
      simp only [readKey, hc]
      exact readChild_spec hs hid name _
    | item index =>
      simp only [readKey, hc]
      exact hmiss
  | array array =>
    cases key with
    | field name =>
      simp only [readKey, hc]
      exact hmiss
    | item index =>
      simp only [readKey, hc]
      exact readChild_spec hs hid (Nat.repr index) _

/-- A view read at a step, and what it leads to. -/
theorem ReadSpec.leads {s s₁ s' : Store} {id id₁ id' : ViewId} {key : Key} {keys : List Key}
    (h : ReadSpec s s₁ (childPath (s.path id) key.name)
      ((s.heap.child? (s.container id) key).getD .undefined) (.view id₁))
    (h' : s₁.Leads s' id₁ id' keys) : s.Leads s' id id' (key :: keys) := by
  obtain ⟨-, hpath⟩ := h.view id₁ rfl
  refine ⟨h.extends'.trans h'.extends', h'.sound, h'.known, ?_, ?_⟩
  · rw [h'.path, hpath, List.map_cons, List.foldl_cons]
  · have hvalue : (s₁.container id₁).value =
        (s.heap.child? (s.container id) key).getD .undefined := h.value
    cases hchild : s.heap.child? (s.container id) key with
    | none =>
      rw [hchild, Option.getD_none] at hvalue
      cases hc : s₁.container id₁ <;> rw [hc] at hvalue <;> cases hvalue
    | some next =>
      rw [hchild, Option.getD_some] at hvalue
      rw [Heap.at?_cons, Container.container?_value, Option.bind_some, hchild, Option.bind_some,
        ← hvalue, ← h.extends'.heap]
      exact h'.place

/-- Reading step by step adds views only, and says where the view lies that it ends at. -/
theorem readAlong_spec {keys : List Key} :
    ∀ {s s' : Store} {id : ViewId} {read : Read}, s.Sound → id.index < s.views.size →
      s.readAlong (.view id) keys = (read, s') →
        s.Extends s' ∧ s'.Sound ∧ ∀ id', read = .view id' → s.Leads s' id id' keys := by
  induction keys with
  | nil =>
    intro s s' id read hs hid h
    obtain ⟨rfl, rfl⟩ := Prod.mk.inj h
    refine ⟨Extends.refl s, hs, ?_⟩
    rintro id' ⟨⟩
    exact Leads.refl hs hid
  | cons key keys ih =>
    intro s s' id read hs hid h
    have hspec := readKey_spec hs hid key
    rw [readAlong] at h
    cases hread : s.readKey id key with
    | mk next s₁ =>
      rw [hread] at h hspec
      cases next with
      | value v =>
        have hvalue : ∃ v', s₁.readAlong (.value v) keys = (.value v', s₁) := by
          cases keys <;> exact ⟨_, rfl⟩
        obtain ⟨v', hvalue⟩ := hvalue
        obtain ⟨rfl, rfl⟩ := Prod.mk.inj (hvalue.symm.trans h)
        exact ⟨hspec.extends', hspec.sound, nofun⟩
      | view id₁ =>
        obtain ⟨hextends, hsound, hleads⟩ := ih hspec.sound (hspec.view id₁ rfl).1 h
        exact ⟨hspec.extends'.trans hextends, hsound, fun id' hid' => hspec.leads (hleads id' hid')⟩

theorem readAlong_view {keys : List Key} {s s' : Store} {id id' : ViewId} (hs : s.Sound)
    (hid : id.index < s.views.size) (h : s.readAlong (.view id) keys = (.view id', s')) :
    s.Leads s' id id' keys :=
  (readAlong_spec hs hid h).2.2 id' rfl

/-! ## Dotted paths -/

end Store

/-- The step that a segment of a path spells below a container. -/
def Key.ofSegment (segment : String) : Container → Key
  | .object _ => .field segment
  | .array _ => .item ((arrayIndex? segment).getD 0)

/-- The steps that the segments of a path spell below a value. -/
def Heap.keysAlong (h : Heap) (value : Value) : List String → List Key
  | [] => []
  | segment :: rest =>
    match value.container? with
    | none => []
    | some c =>
      let key := Key.ofSegment segment c
      key :: h.keysAlong ((h.child? c key).getD .undefined) rest

theorem Heap.keysAlong_cons (h : Heap) (c : Container) (segment : String) (rest : List String) :
    h.keysAlong c.value (segment :: rest) =
      .ofSegment segment c ::
        h.keysAlong ((h.child? c (.ofSegment segment c)).getD .undefined) rest := by
  cases c <;> rfl

namespace Store

/-- What a walk leaves: no more than further views, and a view at the end of its steps where it
    says so. -/
structure WalkSpec (s s' : Store) (id : ViewId) (keys : List Key) (read : Except StoreError Read) :
    Prop where
  extends' : s.Extends s'
  sound : s'.Sound
  view : ∀ id', read = .ok (.view id') → s.Leads s' id id' keys

theorem walk_value (s : Store) (walked : String) (v : Value) (segments : List String) :
    (s.walk walked (.value v) segments).2 = s ∧
      ∀ id, (s.walk walked (.value v) segments).1 ≠ .ok (.view id) := by
  cases segments with
  | nil => exact ⟨rfl, nofun⟩
  | cons segment rest => exact ⟨rfl, nofun⟩

theorem walk_cons (s : Store) (walked : String) (current : Read) (segment : String)
    (rest : List String) :
    s.walk walked current (segment :: rest) =
      match s.getSegment walked current segment with
      | (.error e, s) => (.error e, s)
      | (.ok next, s) => s.walk (childPath walked segment) next rest := rfl

/-- One segment of a walk fails, reads a plain value, or is a step. -/
theorem getSegment_cases (s : Store) (walked : String) (id : ViewId) (segment : String) :
    (∃ e, s.getSegment walked (.view id) segment = (.error e, s)) ∨
      (∃ v, s.getSegment walked (.view id) segment = (.ok (.value v), s)) ∨
      s.getSegment walked (.view id) segment =
        (.ok (s.readKey id (.ofSegment segment (s.container id))).1,
          (s.readKey id (.ofSegment segment (s.container id))).2) := by
  rw [getSegment]
  cases hc : s.container id with
  | object object => exact .inr (.inr (by simp only [readKey, Key.ofSegment, hc]))
  | array array =>
    dsimp only
    split
    · exact .inr (.inl ⟨_, rfl⟩)
    · rw [indexInto]
      cases hindex : arrayIndex? segment with
      | none => exact .inl ⟨_, rfl⟩
      | some index =>
        exact .inr (.inr (by simp only [readKey, Key.ofSegment, hc, hindex, Option.getD_some]))

theorem walk_spec (segments : List String) :
    ∀ {s : Store} {id : ViewId} (walked : String), s.Sound → id.index < s.views.size →
      WalkSpec s (s.walk walked (.view id) segments).2 id
        (s.heap.keysAlong (s.container id).value segments)
        (s.walk walked (.view id) segments).1 := by
  induction segments with
  | nil =>
    intro s id walked hs hid
    refine ⟨Extends.refl s, hs, ?_⟩
    rintro id' ⟨⟩
    exact Leads.refl hs hid
  | cons segment rest ih =>
    intro s id walked hs hid
    rw [walk_cons]
    rcases getSegment_cases s walked id segment with ⟨e, he⟩ | ⟨v, hv⟩ | hkey
    · rw [he]
      exact ⟨Extends.refl s, hs, nofun⟩
    · rw [hv]
      obtain ⟨hstore, hview⟩ := walk_value s (childPath walked segment) v rest
      dsimp only
      rw [hstore]
      exact ⟨Extends.refl s, hs, fun id' h => absurd h (hview id')⟩
    · let key : Key := .ofSegment segment (s.container id)
      have hspec := readKey_spec hs hid key
      rw [hkey]
      dsimp only
      cases hread : (s.readKey id key).1 with
      | value v =>
        obtain ⟨hstore, hview⟩ := walk_value (s.readKey id key).2 (childPath walked segment) v rest
        rw [hstore]
        exact ⟨hspec.extends', hspec.sound, fun id' h => absurd h (hview id')⟩
      | view id₁ =>
        rw [hread] at hspec
        have hrest := ih (childPath walked segment) hspec.sound (hspec.view id₁ rfl).1
        refine ⟨hspec.extends'.trans hrest.extends', hrest.sound, fun id' h => ?_⟩
        have hleads := hrest.view id' h
        -- The steps go on below the value that was found at the first one.
        have hvalue : ((s.readKey id key).2.container id₁).value =
            (s.heap.child? (s.container id) key).getD .undefined := hspec.value
        rw [hvalue, hspec.extends'.heap] at hleads
        rw [Heap.keysAlong_cons]
        exact hspec.leads hleads

theorem getPath_spec {s : Store} (hs : s.Sound) {id : ViewId} (hid : id.index < s.views.size)
    (path : String) :
    WalkSpec s (s.getPath id path).2 id (s.heap.keysAlong (s.container id).value (steps path))
      (s.getPath id path).1 :=
  walk_spec (steps path) (s.path id) hs hid

theorem getPath_root_spec {s : Store} (hs : s.Sound) (path : String) :
    WalkSpec s (s.getPath root path).2 root
      (s.heap.keysAlong (s.container root).value (steps path)) (s.getPath root path).1 :=
  getPath_spec hs hs.rootKnown path

end Store

end ReactiveTemplate
