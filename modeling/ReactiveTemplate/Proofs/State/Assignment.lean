import ReactiveTemplate.Proofs.State.Following
import ReactiveTemplate.Proofs.State.Sessions

/-!
# Writing by a path and reading it back

A value that is written by a path is found by reading the same path, although a write cuts the path
at its last dot and a read leaves out its empty segments. A write that fails leaves everything as
it was.

* `Value.Same`: strictly equal, or both `NaN`.
* `Heap.Loopless`: no container lies below itself.
* `Store.setPath_target`: a write by a path is a write at the key that its segments lead to.
* `Heap.Stores.follow`, `Heap.Has.follow`: the segments lead to what was written.
* `Session.Kept.setPath_fault`, `Session.Kept.setPath_cases`: what a write in a session does.
* `Session.Reached.setPath_getPath`: writing and reading in a session.
-/

namespace ReactiveTemplate

/-! ## Equality -/

/-- Whether a value is `NaN`. -/
def Value.isNaN : Value → Bool
  | .number x => x.isNaN
  | _ => false

/-- Two values are strictly equal, or both are `NaN`. -/
def Value.Same (a b : Value) : Prop := a.strictEquals b = true ∨ (a.isNaN = true ∧ b.isNaN = true)

theorem unpacked_beq_self {x : Float.Model.UnpackedFloat} (hx : x ≠ .notANumber) :
    x.beq x = true := by
  cases x with
  | notANumber => exact absurd rfl hx
  | infinity sign | zero sign => cases sign <;> rfl
  | finite sign mantissa exponent =>
    have hself : (compare exponent exponent).then (compare mantissa mantissa) = .eq := by
      have hexponent : compare exponent exponent = .eq := Std.ReflOrd.compare_self
      have hmantissa : compare mantissa mantissa = .eq := Std.ReflOrd.compare_self
      rw [hexponent, hmantissa]
      rfl
    cases sign with
    | positive =>
      show (some ((compare exponent exponent).then (compare mantissa mantissa)) == some .eq) = true
      rw [hself]
      rfl
    | negative =>
      show (some ((compare exponent exponent).then (compare mantissa mantissa)).swap ==
        some .eq) = true
      rw [hself]
      rfl

/-- What is not equal to itself is `NaN`. -/
theorem isNaN_of_beq_self_eq_false {x : Float} (hx : (x == x) = false) : x.isNaN = true := by
  obtain ⟨model⟩ := x
  have hself : model.unpack.beq model.unpack = false := hx
  have hnan : model.unpack = .notANumber := by
    by_contra hne
    rw [unpacked_beq_self hne] at hself
    cases hself
  show model.unpack.isNaN = true
  rw [hnan]
  rfl

/-- Every value is the same as itself, `NaN` too. -/
theorem Value.same_self (value : Value) : value.Same value := by
  cases value with
  | number x =>
    cases hx : x == x with
    | true => exact .inl hx
    | false => exact .inr ⟨isNaN_of_beq_self_eq_false hx, isNaN_of_beq_self_eq_false hx⟩
  | undefined | null => exact .inl rfl
  | bool | text | object | array | function => exact .inl (by simp [strictEquals])

/-! ## Reading back -/

theorem Value.fits_of_slot {value : Value} {segment : String} {c : Container} {key : Key}
    (hslot : value.slot segment = .ok (c, key)) : key.Fits c := by
  cases value with
  | object id =>
    obtain ⟨rfl, rfl⟩ := Prod.mk.inj (Except.ok.inj hslot)
    exact trivial
  | array id =>
    rw [slot] at hslot
    split at hslot
    · obtain ⟨rfl, rfl⟩ := Prod.mk.inj (Except.ok.inj hslot)
      exact trivial
    · cases hslot
  | undefined | null | bool | number | text | function => cases hslot

namespace Heap

variable {h h' : Heap} {root value : Value} {c : Container} {key : Key} {front : List String}
  {last : String}

/-- No container lies below itself. -/
def Loopless (h : Heap) (root : Value) : Prop :=
  ∀ keys below c, h.containerAlong? root keys = some c → h.containerAlong? c.value below = some c →
    below = []

/-- Where every container lies at one place only, none lies below itself. -/
theorem Unshared.loopless (hunshared : h.Unshared root) : h.Loopless root := by
  intro keys below c hc hloop
  have hagain : h.containerAlong? root (keys ++ below) = some c := by
    rw [containerAlong?, Option.bind_eq_some_iff] at hc
    obtain ⟨found, hfound, hc⟩ := hc
    rw [containerAlong?_of_at? hfound, ← Container.value_of_container? hc]
    exact hloop
  exact List.append_right_eq_self.1 (hunshared _ _ c hagain hc)

theorem target_eq_ok (htarget : h.target root front last = .ok (c, key)) :
    h.follow root front = .ok c.value ∧ c.value.slot last = .ok (c, key) := by
  rw [target] at htarget
  cases hfollow : h.follow root front with
  | error fault =>
    rw [hfollow] at htarget
    cases htarget
  | ok found =>
    rw [hfollow] at htarget
    obtain ⟨rfl, -⟩ := Value.slot_eq_ok htarget
    exact ⟨rfl, htarget⟩

theorem follow_target (htarget : h.target root front last = .ok (c, key)) :
    h.follow root (front ++ [last]) = .ok ((h.child? c key).getD .undefined) := by
  obtain ⟨hfollow, hslot⟩ := target_eq_ok htarget
  rw [follow_append, hfollow]
  change h.follow c.value [last] = _
  rw [follow_cons, step_of_slot hslot]
  exact follow_nil h _

/-- A value that was stored at the end of a path is what the path leads to, unless the container
    that it was stored in lies below itself. -/
theorem Stores.follow (hstores : h.Stores h' c key value) (hloopless : h.Loopless root)
    (htarget : h.target root front last = .ok (c, key)) :
    h'.follow root (front ++ [last]) = .ok value := by
  obtain ⟨hfollow, hslot⟩ := target_eq_ok htarget
  have hloop : ∀ below, h.containerAlong? c.value below = some c → below = [] := fun below =>
    hloopless _ below c (containerAlong?_of_follow hfollow)
  rw [follow_append, follow_of_agreeOff hstores.elsewhere hloop hfollow]
  change h'.follow c.value [last] = _
  rw [follow_cons, step_of_slot hslot, hstores.stored]
  exact follow_nil h' value

/-- Where a value lies already, the path leads to the same one. -/
theorem Has.follow (hhas : h.Has c key value)
    (htarget : h.target root front last = .ok (c, key)) :
    ∃ old, h.follow root (front ++ [last]) = .ok old ∧ old.Same value := by
  refine ⟨_, follow_target htarget, ?_⟩
  rw [Has] at hhas
  cases hchild : h.child? c key with
  | none =>
    rw [hchild] at hhas
    exact hhas ▸ Value.same_self .undefined
  | some old =>
    rw [hchild] at hhas
    exact .inl hhas

end Heap

/-! ## Writing -/

namespace Store

variable {s : Store} {path last : String} {front : List String} {c : Container} {key : Key}

theorem root_value (hs : s.Sound) : (s.container root).value = .object s.rootObject := by
  rw [hs.rootContainer]
  rfl

/-- A write by a path whose last segment is empty does nothing. -/
theorem setPath_of_last_empty (hpath : pathSegments path = front ++ [""]) (value : Value) :
    s.setPath root path value = ⟨s, .error .emptyPath, none⟩ := by
  rw [setPath]
  exact if_pos (splitLast_spec hpath).1

/-- Where the segments of a path have a fault, a write by the path says so and does nothing but
    read. -/
theorem setPath_fault (hs : s.Sound) (hpath : pathSegments path = front ++ [last])
    (hlast : last ≠ "") (value : Value) {fault : Fault}
    (htarget : s.heap.target (.object s.rootObject) (front.filter (· != "")) last = .error fault) :
    ∃ e s₁, s.setPath root path value = ⟨s₁, .error e, none⟩ ∧ e.fault? = some fault ∧
      s.Extends s₁ := by
  obtain ⟨hsecond, hfirst⟩ := splitLast_spec hpath
  have hread := getPath_follow hs (splitLast path).1
  rw [hfirst] at hread
  rw [setPath]
  dsimp only
  rw [hsecond, if_neg hlast]
  cases hget : s.getPath root (splitLast path).1 with
  | mk outcome s₁ =>
    rw [hget] at hread
    rw [Heap.target] at htarget
    cases hfollow : s.heap.follow (.object s.rootObject) (front.filter (· != "")) with
    | error stuck =>
      rw [hfollow] at htarget
      obtain ⟨e, rfl, he⟩ := hread.error stuck hfollow
      exact ⟨e, s₁, rfl, he.trans (congrArg some (Except.error.inj htarget)), hread.extends'⟩
    | ok found =>
      rw [hfollow] at htarget
      obtain ⟨read, rfl, hvalue, hstands⟩ := hread.ok found hfollow
      subst hvalue
      cases read with
      | value v =>
        obtain rfl : Fault.notAContainer = fault := by
          cases v <;> first | exact Except.error.inj htarget | cases hstands
        exact ⟨_, s₁, rfl, rfl, hread.extends'⟩
      | view id =>
        change Value.slot (s₁.container id).value last = .error fault at htarget
        dsimp only
        cases hc : s₁.container id with
        | object object =>
          rw [hc] at htarget
          cases htarget
        | array array =>
          rw [hc, Container.value, Value.slot] at htarget
          rw [indexInto]
          cases hindex : arrayIndex? last with
          | some index =>
            rw [hindex] at htarget
            cases htarget
          | none =>
            rw [hindex] at htarget
            obtain rfl := Except.error.inj htarget
            exact ⟨_, s₁, rfl, rfl, hread.extends'⟩

/-- The view of the container that a path is written in, and its path. -/
structure Reaches (s s₁ : Store) (id : ViewId) (c : Container) (names : List String) : Prop where
  extends' : s.Extends s₁
  sound : s₁.Sound
  known : id.index < s₁.views.size
  container : s₁.container id = c
  path : s₁.path id = pathOf names

/-- A write by a path is a write at the key that its segments lead to. -/
theorem setPath_target (hs : s.Sound) (hpath : pathSegments path = front ++ [last])
    (hlast : last ≠ "") (value : Value)
    (htarget : s.heap.target (.object s.rootObject) (front.filter (· != "")) last =
      .ok (c, key)) :
    ∃ s₁ id, s.Reaches s₁ id c ((s.heap.keysAlong (.object s.rootObject)
        (front.filter (· != ""))).map Key.name) ∧
      s.setPath root path value = ⟨(s₁.setKey id key value).store,
        .ok (s₁.setKey id key value).result, (s₁.setKey id key value).changed⟩ := by
  obtain ⟨hsecond, hfirst⟩ := splitLast_spec hpath
  obtain ⟨hfollow, hslot⟩ := Heap.target_eq_ok htarget
  have hread := getPath_follow hs (splitLast path).1
  have hwalk := getPath_root_spec hs (splitLast path).1
  rw [hfirst, root_value hs] at hwalk
  rw [hfirst] at hread
  rw [setPath]
  dsimp only
  rw [hsecond, if_neg hlast]
  cases hget : s.getPath root (splitLast path).1 with
  | mk outcome s₁ =>
    rw [hget] at hread hwalk
    obtain ⟨read, rfl, hvalue, hstands⟩ := hread.ok _ hfollow
    cases read with
    | value v =>
      have hplain : v.container? = none := hstands
      rw [show v = c.value from hvalue, Container.container?_value] at hplain
      cases hplain
    | view id =>
      have hleads := hwalk.view id rfl
      have hc : s₁.container id = c := by
        have hvalues : (s₁.container id).value.container? = c.value.container? :=
          congrArg Value.container? hvalue
        rw [Container.container?_value, Container.container?_value] at hvalues
        exact Option.some.inj hvalues
      refine ⟨s₁, id, ⟨hread.extends', hread.sound, hleads.known, hc, ?_⟩, ?_⟩
      · rw [hleads.path, hs.rootPath, pathOf]
      · dsimp only
        cases c with
        | object object =>
          obtain ⟨-, rfl⟩ := Prod.mk.inj (Except.ok.inj hslot)
          simp only [setKey, hc]
        | array array =>
          rw [Container.value, Value.slot] at hslot
          cases hindex : arrayIndex? last with
          | none =>
            rw [hindex] at hslot
            cases hslot
          | some index =>
            rw [hindex] at hslot
            obtain ⟨-, rfl⟩ := Prod.mk.inj (Except.ok.inj hslot)
            simp only [setKey, hc, indexInto, hindex]

/-- A write through the view that a path reaches leaves the root where it is. -/
theorem Reaches.rootObject {s₁ : Store} {id : ViewId} {names : List String} (hs : s.Sound)
    (h : s.Reaches s₁ id c names) {write : ViewWrite} {w : Written Unit}
    (hw : write.apply s₁ id = some w) : w.store.rootObject = s.rootObject := by
  have hroot := h.extends'.rootObject hs
  rcases ViewWrite.apply_cases h.sound h.known hw with ⟨hstore, -⟩ | he
  · rw [hstore, hroot]
  · exact (he.rootObject h.sound).trans hroot

/-- Where a write by a path leads to a key, it does no more than read if the value lies there
    already. Otherwise it is a write through a view, which stores the value and reports the keys of
    the segments. -/
theorem setPath_written (hs : s.Sound) (hpath : pathSegments path = front ++ [last])
    (hlast : last ≠ "") (value : Value)
    (htarget : s.heap.target (.object s.rootObject) (front.filter (· != "")) last =
      .ok (c, key)) (hknown : s.heap.Known c) :
    (s.heap.Has c key value ∧ ∃ s₁, s.Extends s₁ ∧ s₁.Sound ∧
        s.setPath root path value = ⟨s₁, .ok false, none⟩) ∨
      (¬ s.heap.Has c key value ∧ ∃ s₁ id w,
        s.Reaches s₁ id c ((s.heap.keysAlong (.object s.rootObject)
          (front.filter (· != ""))).map Key.name) ∧
        (key.write value).apply s₁ id = some w ∧ s.heap.Stores w.store.heap c key value ∧
        s.setPath root path value = ⟨w.store, .ok true, w.changed⟩ ∧
        w.changed = some (pathOf ((s.heap.keysAlong (.object s.rootObject)
          (steps path)).map Key.name))) := by
  obtain ⟨hfollow, hslot⟩ := Heap.target_eq_ok htarget
  obtain ⟨s₁, id, hreaches, hset⟩ := setPath_target hs hpath hlast value htarget
  obtain rfl := hreaches.container
  have hfits := Value.fits_of_slot hslot
  obtain ⟨hkept, hstored⟩ :=
    setKey_cases hreaches.known (hreaches.extends'.heap ▸ hknown) hfits value
  rw [hreaches.extends'.heap] at hkept hstored
  by_cases hhas : s.heap.Has (s₁.container id) key value
  · refine .inl ⟨hhas, s₁, hreaches.extends', hreaches.sound, ?_⟩
    rw [hset, hkept hhas]
  · have hw := hstored hhas
    refine .inr ⟨hhas, s₁, id, _, hreaches, setKey_apply hfits value,
      hreaches.extends'.heap ▸ hw.stores, by rw [hset, hw.result], ?_⟩
    rw [hw.reported, hreaches.path, steps_eq hpath hlast, Heap.keysAlong_append last hfollow,
      List.map_append, List.map_singleton, pathOf_append_singleton, ← (Value.slot_eq_ok hslot).2]

/-- What the segments of a path lead to is read by the path, also once there are further views. -/
theorem getPath_of_follow {t : Store} (hs : s.Sound) (ht : t.Sound) (hextends : s.Extends t)
    {value found : Value} (hfollow : s.heap.follow (.object s.rootObject) (steps path) = .ok found)
    (hsame : found.Same value) :
    ∃ read t', t.getPath root path = (.ok read, t') ∧ (t'.readValue read).Same value := by
  rw [← hextends.heap, ← hextends.rootObject hs] at hfollow
  obtain ⟨read, hread, hvalue, -⟩ := (getPath_follow ht path).ok found hfollow
  exact ⟨read, _, Prod.ext hread rfl, hvalue ▸ hsame⟩

end Store

/-! ## Sessions -/

namespace Tracked

variable {ω : Type}

/-- Writes a value by a path below the root, and tells the change. -/
def setPath (announce : String → Tracked ω → Tracked ω) (t : Tracked ω) (path : String)
    (value : Value) : Except StoreError Bool × Tracked ω :=
  writeWith announce t fun s => s.setPath Store.root path value

/-- Nothing was written and nothing was told, although places may have been read. -/
structure Untouched (t t' : Tracked ω) : Prop where
  extends' : t.store.Extends t'.store
  observer : t'.observer = t.observer

end Tracked

open Tracked

namespace Session

variable {ω : Type} {calm : ω → Prop} {announce : String → Tracked ω → Tracked ω} {s : Session ω}
  {path last : String} {front : List String} {c : Container} {key : Key}

theorem setPath_of_last_empty (announce : String → Tracked ω → Tracked ω) (s : Session ω)
    (hpath : pathSegments path = front ++ [""]) (value : Value) :
    s.state.setPath announce path value = (.error .emptyPath, s.state) := by
  rw [Tracked.setPath, writeWith, Store.setPath_of_last_empty hpath]
  rfl

/-- Where the segments have a fault, a write by the path fails with it, and at most reads. -/
theorem Kept.setPath_fault (announce : String → Tracked ω → Tracked ω) (hs : s.Kept calm)
    (hpath : pathSegments path = front ++ [last]) (hlast : last ≠ "") (value : Value)
    {fault : Fault} (htarget : s.state.store.heap.target (.object s.state.store.rootObject)
      (front.filter (· != "")) last = .error fault) :
    ∃ e t, s.state.setPath announce path value = (.error e, t) ∧ e.fault? = some fault ∧
      s.state.Untouched t := by
  obtain ⟨e, s₁, hset, hfault, hextends⟩ :=
    Store.setPath_fault hs.invariant.sound hpath hlast value htarget
  refine ⟨e, ⟨s₁, s.state.observer⟩, ?_, hfault, hextends, rfl⟩
  rw [Tracked.setPath, writeWith, hset]
  rfl

/-- Where a write by a path leads to a key, it does nothing if the value lies there already, and
    otherwise it stores the value and tells of it once. -/
theorem Kept.setPath_cases (announce : String → Tracked ω → Tracked ω) (hs : s.Kept calm)
    (hpath : pathSegments path = front ++ [last]) (hlast : last ≠ "") (value : Value)
    (htarget : s.state.store.heap.target (.object s.state.store.rootObject)
      (front.filter (· != "")) last = .ok (c, key)) :
    (s.state.store.heap.Has c key value ∧ ∃ t, s.state.Untouched t ∧ t.store.Sound ∧
        s.state.setPath announce path value = (.ok false, t)) ∨
      ∃ store, s.state.store.heap.Stores store.heap c key value ∧ store.Sound ∧
        store.rootObject = s.state.store.rootObject ∧
        s.state.setPath announce path value =
          (.ok true, announce (pathOf ((s.state.store.heap.keysAlong
            (.object s.state.store.rootObject) (Store.steps path)).map Key.name))
            ⟨store, s.state.observer⟩) := by
  have hsound := hs.invariant.sound
  have hknown : s.state.store.heap.Known c := by
    refine hs.invariant.atRest.known_of_containerAlong? ?_
      (Heap.containerAlong?_of_follow (Heap.target_eq_ok htarget).1)
    rintro _ ⟨⟩
    exact hs.invariant.rootKnown
  rw [Tracked.setPath, writeWith]
  rcases Store.setPath_written hsound hpath hlast value htarget hknown with
    ⟨hhas, s₁, hextends, hsound₁, hset⟩ | ⟨-, s₁, id, w, hreaches, hw, hstores, hset, hreported⟩
  · refine .inl ⟨hhas, ⟨s₁, s.state.observer⟩, ⟨hextends, rfl⟩, hsound₁, ?_⟩
    rw [hset]
    rfl
  · refine .inr ⟨w.store, hstores, Store.sound_apply hreaches.sound hreaches.known hw,
      hreaches.rootObject hsound hw, ?_⟩
    rw [hset, hreported]
    rfl

/-- Where a write by a path leads to a key, a read by the path then finds the value. -/
theorem Kept.getPath_of_setPath (hquiet : Quiet calm announce) (hs : s.Kept calm)
    (hloopless : s.state.store.heap.Loopless (.object s.state.store.rootObject))
    (hpath : pathSegments path = front ++ [last]) (hlast : last ≠ "") (value : Value)
    (htarget : s.state.store.heap.target (.object s.state.store.rootObject)
      (front.filter (· != "")) last = .ok (c, key)) :
    ∃ read store, (s.state.setPath announce path value).2.store.getPath Store.root path =
      (.ok read, store) ∧ (store.readValue read).Same value := by
  have hsound := hs.invariant.sound
  have hsteps := Store.steps_eq hpath hlast
  rcases hs.setPath_cases announce hpath hlast value htarget with
    ⟨hhas, t, huntouched, hsound', hwritten⟩ | ⟨store, hstores, hsound', hroot, hwritten⟩
  · obtain ⟨old, hfollow, hsame⟩ := hhas.follow htarget
    rw [hwritten]
    exact Store.getPath_of_follow hsound hsound' huntouched.extends' (hsteps ▸ hfollow) hsame
  · have hfollow : store.heap.follow (.object store.rootObject) (Store.steps path) = .ok value := by
      rw [hroot, hsteps]
      exact hstores.follow hloopless htarget
    rw [hwritten]
    exact Store.getPath_of_follow hsound' (hquiet.sound _ ⟨store, _⟩ hsound' hs.calm)
      (hquiet.extends' _ ⟨store, _⟩ hsound' hs.calm) hfollow (Value.same_self value)

/-- A write by a path below the root of a state where no container lies below itself. If it fails,
    nothing is written and nothing is told, and the error names what is wrong with the first
    segment that cannot be followed or written, or says that the last one is empty. If it does
    not, a read by the path finds what was written, and the write is told once, under the keys of
    the segments, or not at all if it changed nothing. -/
theorem Reached.setPath_getPath (hquiet : Quiet calm announce) (hs : s.Reached calm announce)
    (hloopless : s.state.store.heap.Loopless (.object s.state.store.rootObject))
    (hpath : pathSegments path = front ++ [last]) (value : Value) :
    let root := Value.object s.state.store.rootObject
    let target := s.state.store.heap.target root (front.filter (· != "")) last
    let written := s.state.setPath announce path value
    (∀ e, written.1 = .error e → s.state.Untouched written.2 ∧ (e = .emptyPath ↔ last = "") ∧
        (last ≠ "" → ∃ fault, target = .error fault ∧ e.fault? = some fault)) ∧
      ∀ changed, written.1 = .ok changed →
        last ≠ "" ∧
        (∃ read store, written.2.store.getPath Store.root path = (.ok read, store) ∧
          (store.readValue read).Same value) ∧
        (changed = false → s.state.Untouched written.2) ∧
        (changed = true → ∃ c key store, target = .ok (c, key) ∧
          s.state.store.heap.Stores store.heap c key value ∧
          written.2 = announce (pathOf ((s.state.store.heap.keysAlong root
            (Store.steps path)).map Key.name)) ⟨store, s.state.observer⟩) := by
  have hkept := hs.kept hquiet
  dsimp only
  by_cases hlast : last = ""
  · subst hlast
    rw [setPath_of_last_empty announce s hpath]
    refine ⟨?_, fun _ hok => by cases hok⟩
    rintro _ ⟨⟩
    exact ⟨⟨Store.Extends.refl _, rfl⟩, ⟨fun _ => rfl, fun _ => rfl⟩, fun h => absurd rfl h⟩
  cases htarget : s.state.store.heap.target (.object s.state.store.rootObject)
    (front.filter (· != "")) last with
  | error fault =>
    obtain ⟨e, t, hfails, hfault, huntouched⟩ :=
      hkept.setPath_fault announce hpath hlast value htarget
    rw [hfails]
    refine ⟨?_, fun _ hok => by cases hok⟩
    rintro _ ⟨⟩
    refine ⟨huntouched, ⟨?_, fun h => absurd h hlast⟩, fun _ => ⟨fault, rfl, hfault⟩⟩
    rintro rfl
    cases hfault
  | ok slot =>
    obtain ⟨c, key⟩ := slot
    have hread := hkept.getPath_of_setPath hquiet hloopless hpath hlast value htarget
    rcases hkept.setPath_cases announce hpath hlast value htarget with
      ⟨-, t, huntouched, -, hwritten⟩ | ⟨store, hstores, -, -, hwritten⟩
    · rw [hwritten] at hread ⊢
      refine ⟨fun _ herror => (by cases herror), ?_⟩
      rintro _ ⟨⟩
      exact ⟨hlast, hread, fun _ => huntouched, fun htrue => (by cases htrue)⟩
    · rw [hwritten] at hread ⊢
      refine ⟨fun _ herror => (by cases herror), ?_⟩
      rintro _ ⟨⟩
      exact ⟨hlast, hread, fun hfalse => (by cases hfalse),
        fun _ => ⟨c, key, store, rfl, hstores, rfl⟩⟩

/-- The sample before anything was read. -/
def sampleStart : Session Recorder := start Store.sample.heap ⟨0⟩ ⟨#[], none⟩

/-- An item that is written with a doubled dot and a spelled out index is told under its own
    index, and read back as it was written. -/
theorem sampleStart_item_read_back :
    sampleStart.Reached Recorder.Silent Tracked.announce ∧
      sampleStart.state.store.heap.Loopless (.object sampleStart.state.store.rootObject) ∧
      pathSegments "items..+02" = ["items", ""] ++ ["+02"] ∧
      let written := sampleStart.state.setPath Tracked.announce "items..+02" (.text "last")
      written.1 = .ok true ∧ (∃ store, written.2 = Tracked.announce "items.2"
        ⟨store, sampleStart.state.observer⟩) ∧
      ∃ read store, written.2.store.getPath Store.root "items..+02" = (.ok read, store) ∧
        (store.readValue read).Same (.text "last") := by
  have hd : (Datum.object [("items", .array [.text "first"])]).Known .empty :=
    ⟨⟨trivial, trivial⟩, trivial⟩
  have hr : Store.sample.heap.AtRest := (Heap.place_spec Heap.empty_atRest hd).atRest
  have hs : sampleStart.Reached Recorder.Silent Tracked.announce := .start hr (by decide) rfl
  have hloopless : sampleStart.state.store.heap.Loopless
      (.object sampleStart.state.store.rootObject) :=
    (Heap.place_fresh Heap.empty_atRest hd).unshared.loopless
  have hpath : pathSegments "items..+02" = ["items", ""] ++ ["+02"] := by decide +kernel
  obtain ⟨-, hok⟩ := Reached.setPath_getPath Recorder.quiet hs hloopless hpath (.text "last")
  have hwritten : (sampleStart.state.setPath Tracked.announce "items..+02" (.text "last")).1 =
      .ok true := by decide +kernel
  obtain ⟨-, hread, -, htold⟩ := hok true hwritten
  obtain ⟨-, -, store, -, -, htold⟩ := htold rfl
  have htext : pathOf ((sampleStart.state.store.heap.keysAlong
      (.object sampleStart.state.store.rootObject) (Store.steps "items..+02")).map Key.name) =
      "items.2" := by decide +kernel
  rw [htext] at htold
  exact ⟨hs, hloopless, hpath, hwritten, ⟨store, htold⟩, hread⟩

end Session

end ReactiveTemplate
