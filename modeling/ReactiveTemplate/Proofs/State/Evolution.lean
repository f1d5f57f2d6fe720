import ReactiveTemplate.Engine.Reaction
import ReactiveTemplate.Proofs.Evaluation.Agreement
import ReactiveTemplate.Proofs.State.Notification

/-!
# Evolution of a state

While every container is on one path only, what no pending path overlaps reads as it did,
whatever was written.

* `Tracked.Orderly`: the invariant of states.
* `Tracked.Evolves`: what writes leave alone.
* `Tracked.Evolves.place`, `Tracked.Evolves.write`: placing a datum, and a single write.
* `Tracked.Evolves.setPath`: a write by path.
-/

namespace ReactiveTemplate

namespace Tracked

/-- Every container of a state is on one path only. -/
def Unshared (s : State) : Prop := s.heap.Unshared (.object s.store.rootObject)

/-- The arrays of a state are as long afterwards as they were. -/
def KeepsLengths (s s' : State) : Prop :=
  ∀ id keys, s.heap.containerAlong? (.object s.store.rootObject) keys = some (.array id) →
    (s'.heap.items id).length = (s.heap.items id).length

/-- A state in which every container is on one path only, and that asks nobody for frames. -/
structure Orderly (s : State) : Prop where
  invariant : s.store.Invariant
  unshared : s.Unshared
  requester : s.scheduler.requester = none

/-- What writes leave alone: all that no pending path overlaps. -/
structure Evolves (s s' : State) : Prop where
  orderly : s'.Orderly
  root : s'.store.rootObject = s.store.rootObject
  known : ∀ c, s.heap.Known c → s'.heap.Known c
  pending : s.scheduler.pending ⊆ s'.scheduler.pending
  reads : ∀ q : Path, q.Grammatical →
    (∀ n ∈ s'.scheduler.pending, pathsOverlap q.dotted n ≠ true) →
      ReadsSame s.heap s'.heap s.scope q

variable {s s' s'' : State}

theorem Evolves.scope (h : s.Evolves s') : s'.scope = s.scope := by
  rw [Tracked.scope, Tracked.scope, h.root]

theorem Evolves.trans (h : s.Evolves s') (h' : s'.Evolves s'') : s.Evolves s'' := by
  refine ⟨h'.orderly, h'.root.trans h.root, fun c hc => h'.known c (h.known c hc),
    fun n hn => h'.pending (h.pending hn), ?_⟩
  intro q hq hno
  have hlast := h'.reads q hq hno
  rw [h.scope] at hlast
  exact (h.reads q hq fun n hn => hno n (h'.pending hn)).trans hlast

/-! ## Steps without a write -/

/-- Steps that leave containers and pending paths alone, but for further views. -/
theorem Evolves.extend (hs : s.Orderly) (hextends : s.store.Extends s'.store)
    (hsound : s'.store.Sound) (hscheduler : s'.scheduler = s.scheduler) : s.Evolves s' := by
  have hroot := hextends.rootObject hs.invariant.sound
  have hheap : s'.heap = s.heap := hextends.heap
  have hinvariant : s'.store.Invariant := by
    refine ⟨hsound, ?_, ?_⟩
    · rw [hextends.heap]
      exact hs.invariant.atRest
    · rw [hextends.heap, hroot]
      exact hs.invariant.rootKnown
  refine ⟨⟨hinvariant, ?_, ?_⟩, hroot, ?_, ?_, fun q _ _ => ?_⟩
  · rw [Unshared, hheap, hroot]
    exact hs.unshared
  · rw [hscheduler]
    exact hs.requester
  · rw [hheap]
    exact fun _ hc => hc
  · rw [hscheduler]
    exact fun _ hn => hn
  · rw [hheap]
    exact ReadsSame.refl _ _ q

/-- Further views leave the arrays of the state alone. -/
theorem KeepsLengths.of_extends {store : Store} (hs : s.Orderly) (hextends : s.store.Extends store)
    (h : s.KeepsLengths s') : KeepsLengths { s with store := store } s' := by
  intro id keys hfound
  have hheap : store.heap = s.heap := hextends.heap
  rw [hextends.rootObject hs.invariant.sound, Tracked.heap, hheap] at hfound
  rw [Tracked.heap, Tracked.heap, hheap]
  exact h id keys hfound

theorem Evolves.quiet (hs : s.Orderly) (hstore : s'.store = s.store)
    (hscheduler : s'.scheduler = s.scheduler) : s.Evolves s' := by
  refine Evolves.extend hs ?_ ?_ hscheduler
  · rw [hstore]
    exact Store.Extends.refl _
  · rw [hstore]
    exact hs.invariant.sound

theorem Evolves.refl (hs : s.Orderly) : s.Evolves s := Evolves.quiet hs rfl rfl

/-- The state after placing a datum. -/
def placed (s : State) (d : Datum) : State :=
  { s with store := { s.store with heap := (s.heap.place d).2 } }

theorem Orderly.agreeBelow_placed (hs : s.Orderly) {d : Datum} (hd : d.Known s.heap) :
    s.heap.AgreeBelow (s.placed d).heap (.object s.store.rootObject) := by
  refine (Heap.place_spec hs.invariant.atRest hd).grows.agreeBelow hs.invariant.atRest ?_
  rintro c ⟨⟩
  exact hs.invariant.rootKnown

theorem Evolves.place (hs : s.Orderly) {d : Datum} (hd : d.Known s.heap) :
    s.Evolves (s.placed d) := by
  have hinv := hs.invariant
  have hroot := hs.agreeBelow_placed hd
  have hplaced := Heap.place_spec hinv.atRest hd
  exact ⟨⟨⟨hinv.sound.withHeap _, hplaced.atRest, hplaced.grows.known _ hinv.rootKnown⟩,
    hroot.unshared hs.unshared, hs.requester⟩, rfl, hplaced.grows.known, fun _ hn => hn,
    fun q _ _ => ReadsSame.of_agreeBelow hroot q⟩

/-- Placing a datum leaves the arrays of the state alone. -/
theorem KeepsLengths.of_placed (hs : s.Orderly) {d : Datum} (hd : d.Known s.heap)
    (h : s.KeepsLengths s') : (s.placed d).KeepsLengths s' := by
  have hroot := hs.agreeBelow_placed hd
  intro id keys hfound
  have hfound' : s.heap.containerAlong? (.object s.store.rootObject) keys = some (.array id) :=
    (hroot.containerAlong? keys).trans hfound
  have hagree : s.heap.array id = (s.placed d).heap.array id := hroot keys _ hfound'
  rw [h id keys hfound', Heap.items, Heap.items, hagree]

/-! ## Writes -/

/-- A change that asks nobody for a frame only joins the pending paths. -/
theorem announce_spec (hrequester : s.scheduler.requester = none) (path : String) :
    (s.announce path).store = s.store ∧ (s.announce path).scheduler.requester = none ∧
      path ∈ (s.announce path).scheduler.pending ∧
      s.scheduler.pending ⊆ (s.announce path).scheduler.pending := by
  have hscript : (Monitor.react path s.observer).2 = none := by
    rw [Monitor.react, Scheduler.notify]
    dsimp only
    split
    · rfl
    · exact hrequester
  have hannounce : s.announce path = { s with observer := (Monitor.react path s.observer).1 } := by
    show (Monitor.react path s.observer).2.elim _ _ = _
    rw [hscript]
    rfl
  have hpending : (s.announce path).scheduler.pending = (s.scheduler.join path).pending := by
    rw [hannounce]
    show (s.observer.scheduler.notify path).1.pending = _
    rw [Scheduler.notify]
    split <;> rfl
  refine ⟨by rw [hannounce], ?_, ?_, ?_⟩
  · rw [hannounce]
    show (s.observer.scheduler.notify path).1.requester = none
    rw [Scheduler.notify]
    split <;> exact hrequester
  · rw [hpending, Scheduler.join]
    dsimp only
    split
    · next hmem => exact hmem
    · simp
  · rw [hpending, Scheduler.join]
    dsimp only
    split
    · exact fun _ hn => hn
    · exact fun _ hn => List.mem_append_left _ hn

/-- A single write through a view that was just read from the root. -/
theorem Evolves.write {α : Type} (hs : s.Orderly) {f : Store → Written α} {s₁ : Store}
    {id : ViewId} {keys : List Key} {write : ViewWrite} {w : Written Unit}
    (hleads : s.store.Leads s₁ Store.root id keys) (hw : write.apply s₁ id = some w)
    (hstore : (f s.store).store = w.store) (hchanged : (f s.store).changed = w.changed)
    (hvalues : ∀ value ∈ write.values, value.Known s.heap)
    (hlengths : ∀ index value, write = .setItem index value → s.KeepsLengths (s.write f).2)
    (hunshared : (s.write f).2.Unshared) :
    s.Evolves (s.write f).2 := by
  have hinv := hs.invariant
  obtain ⟨hinv₁, hid, hpath, hat⟩ := hinv.onlyAt hs.unshared hleads
  have hheap : s₁.heap = s.heap := hleads.extends'.heap
  have hroot : s₁.rootObject = s.store.rootObject := hleads.extends'.rootObject hinv.sound
  rcases ViewWrite.apply_cases hinv₁.sound hid hw with ⟨hsame, hnone⟩ | he
  · -- Nothing was written, but the view was read.
    have hwrite : (s.write f).2 = { s with store := s₁ } := by
      rw [Tracked.write, writeWith, hchanged, hnone, hstore, hsame]
      rfl
    rw [hwrite]
    exact Evolves.extend hs hleads.extends' hleads.sound rfl
  · let n := (write.step.map Key.name).foldl childPath (s₁.path id)
    let t : State := { s with store := w.store }
    obtain ⟨hkept, hrequester, hmem, hsub⟩ := announce_spec (s := t) hs.requester n
    have hwrite : (s.write f).2 = t.announce n := by
      rw [Tracked.write, writeWith, hchanged, he.reported, hstore]
      rfl
    have hroot' : w.store.rootObject = s.store.rootObject :=
      (he.rootObject hinv₁.sound).trans hroot
    have hknown : ∀ value ∈ write.values, value.Known s₁.heap := by
      rw [hheap]
      exact hvalues
    have hinvariant : w.store.Invariant := by
      refine ⟨he.sound, he.atRest hinv₁.atRest hknown, ?_⟩
      rw [hroot', ← hroot]
      exact (he.known _).2 hinv₁.rootKnown
    have hheap' : (t.announce n).heap = w.store.heap := congrArg Store.heap hkept
    rw [hwrite] at hunshared hlengths ⊢
    refine ⟨⟨?_, hunshared, hrequester⟩, ?_, fun c hc => ?_, hsub, fun q hq hno => ?_⟩
    · rw [hkept]
      exact hinvariant
    · rw [hkept]
      exact hroot'
    · rw [hheap', he.known, hheap]
      exact hc
    · have hover : ∀ names, keys = fieldKeys names → ¬ write.Overruns s₁ id names q := by
        rintro names - ⟨index, value, array, rfl, hc, hle, -⟩
        have hc' : s₁.heap.Known (.array array) := by
          rw [← hc]
          refine hinv₁.atRest.known_of_containerAlong? (fun c hroot => ?_) hat.found
          obtain rfl := Option.some.inj hroot
          exact hinv₁.rootKnown
        have hchanged' : w.changed ≠ none := by
          rw [he.reported]
          exact nofun
        have hlength := ViewWrite.length_overrun hc hc' hle hw hchanged'
        have hfound := hat.found
        rw [hc, hheap, hroot] at hfound
        rw [← hheap', hlengths index value rfl array keys hfound, ← hheap] at hlength
        omega
      have hreported : ∀ m, w.changed = some m → pathsOverlap q.dotted m ≠ true := by
        intro m hm
        obtain rfl := Option.some.inj (he.reported.symm.trans hm)
        exact hno n hmem
      obtain ⟨hvalue, hbelow⟩ :=
        ViewWrite.resolvePath_of_not_overlap hinv₁.sound hid hat hpath hw hq hreported hover
      rw [hheap, hroot, ← hheap'] at hvalue hbelow
      exact ⟨hvalue, hbelow⟩

/-- A write by path below a view. One that writes an item leaves no array longer. -/
theorem Evolves.setPath (hs : s.Orderly) {id : ViewId} {keys : List Key}
    (hid : s.store.Leads s.store Store.root id keys) {path : String} {value : Value}
    (hvalue : value.Known s.heap)
    (hlengths : ∀ index, arrayIndex? (Store.splitLast path).2 = some index →
      s.KeepsLengths (s.write fun store => store.setPath id path value).2)
    (hunshared : (s.write fun store => store.setPath id path value).2.Unshared) :
    s.Evolves (s.write fun store => store.setPath id path value).2 := by
  rcases Store.setPath_cases hs.invariant.sound hid.known path value with
    ⟨hextends, hsound, hnone⟩ |
      ⟨s₁, found, below, write, w, hleads, hw, hvalues, hindex, hstore, hchanged⟩
  · have hwrite : (s.write fun store => store.setPath id path value).2 =
        { s with store := (s.store.setPath id path value).store } := by
      rw [Tracked.write, writeWith, hnone]
      rfl
    rw [hwrite]
    exact Evolves.extend hs hextends hsound rfl
  · refine Evolves.write hs (hid.trans hleads) hw hstore hchanged ?_
      (fun index other hset => hlengths index (hindex index other hset)) hunshared
    rw [hvalues]
    intro other hother
    rw [List.mem_singleton.1 hother]
    exact hvalue

end Tracked

end ReactiveTemplate
