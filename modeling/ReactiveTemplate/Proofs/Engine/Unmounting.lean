import ReactiveTemplate.Proofs.Document.Numbering
import ReactiveTemplate.Proofs.Engine.Displays
import ReactiveTemplate.Proofs.Engine.Generations
import ReactiveTemplate.Proofs.Engine.Upkeep

/-!
# Undoing bindings

Whatever happens between mounting and unmounting, the nodes outside of the elements that show a text
can be put back into their places, with the listeners they had.

* `Binding.cleanup_restores`: a binding is undone.
* `Undoable`: the invariant of runs; `upheld_undoable`: updates keep it.
* `Engine.mount_enrols`, `Engine.mount_undoable`: mounting establishes it.
* `Engine.unmountAll_undoable`: all bindings are undone.
-/

namespace ReactiveTemplate

variable {t₀ t t' : HostTree Reaction} {shows P : NodeId → Prop} {bs bs' front back : List Binding}
  {b : Binding} {x y p q o node placeholder : NodeId}

/-! ## Taking listeners away -/

namespace HostTree

/-- The first listener behind some others is taken away. -/
theorem removeListener_first {earlier later : List (Listener Reaction)} {l : Listener Reaction}
    (h : t.Sound) (hx : t.Live x) (hlist : t.listenersOf x = earlier ++ l :: later)
    (hother : ∀ l' ∈ earlier, l'.id ≠ l.id) :
    ∃ t', t.removeListener x l.id = .ok t' ∧ t.KeepsPlaces t' ∧
      t'.listenersOf x = earlier ++ later ∧ ∀ y, y ≠ x → t'.listenersOf y = t.listenersOf y := by
  obtain ⟨n, hn⟩ := hx
  rw [listenersOf, hn] at hlist
  have hlisteners : n.listeners = earlier ++ l :: later := hlist
  let change : Node Reaction → Node Reaction := fun n =>
    { n with listeners := n.listeners.eraseP fun l' => l'.id = l.id }
  have hany : (n.listeners.any fun l' => l'.id = l.id) = true := by
    rw [hlisteners]
    simp
  refine ⟨t.modify x change, ?_, .modify h x (fun _ => rfl) (fun _ => rfl) fun _ => rfl, ?_,
    fun y hy => ?_⟩
  · rw [removeListener, get_of_node? hn]
    exact if_pos hany
  · have hchange : (change n).listeners = earlier ++ later := by
      show n.listeners.eraseP _ = _
      rw [hlisteners, List.eraseP_append_right _ fun l' hl' => by simpa using hother l' hl']
      rw [List.eraseP_cons_of_pos (by simp)]
    rw [listenersOf, node?_modify_self, hn]
    exact hchange
  · rw [listenersOf, node?_modify_of_ne hy, listenersOf]

/-- The first of the listeners that were added are taken away one after the other. -/
theorem release_listeners {earlier : List (Listener Reaction)} {rest : List Nat} (hooks : List Nat)
    (hother : ∀ l ∈ earlier, l.id ∉ hooks) :
    ∀ {t : HostTree Reaction}, t.Sound → t.Live x →
      (∃ ls, t.listenersOf x = earlier ++ ls ∧ ls.map Listener.id = hooks ++ rest) →
      ∃ t', despiteFailures (fun t l => removeListener t x l) hooks t = (none, t') ∧
        t.KeepsPlaces t' ∧
        (∃ ls, t'.listenersOf x = earlier ++ ls ∧ ls.map Listener.id = rest) ∧
        ∀ y, y ≠ x → t'.listenersOf y = t.listenersOf y := by
  induction hooks with
  | nil => exact fun {t} h _ hlist => ⟨t, rfl, .refl h, hlist, fun _ _ => rfl⟩
  | cons hook hooks ih =>
    rintro t h hx ⟨ls, hlist, hids⟩
    obtain ⟨l, later, rfl, rfl, hlater⟩ := List.map_eq_cons_iff.1 hids
    obtain ⟨t₁, hremove, hkeeps, hlist₁, hsame₁⟩ := removeListener_first h hx hlist
      fun l' hl' heq => hother l' hl' (heq ▸ List.mem_cons_self)
    obtain ⟨t₂, hrest, hkeeps', hlist₂, hsame₂⟩ :=
      ih (fun l' hl' hmem => hother l' hl' (List.mem_cons_of_mem _ hmem)) hkeeps.sound
        (hkeeps.live x hx) ⟨later, hlist₁, hlater⟩
    refine ⟨t₂, ?_, hkeeps.trans hkeeps', hlist₂, fun y hy => (hsame₂ y hy).trans (hsame₁ y hy)⟩
    rw [despiteFailures, hremove]
    exact hrest

end HostTree

namespace Attended

theorem tail (h : Attended t₀ P (b :: bs) t) (hhooks : b.hooks = []) : Attended t₀ P bs t where
  added x hx := by
    have hadded := h.added x hx
    rwa [hooksOf, List.flatMap_cons, hhooks, ite_self, List.nil_append] at hadded
  later c hc := h.later c (List.mem_cons_of_mem _ hc)
  distinct := (List.nodup_append.1 h.distinct).2.1

end Attended

/-! ## Undoing a binding -/

/-- A binding that has only added listeners takes them away again. -/
theorem Restorable.release (h : Restorable t₀ shows (b :: bs) t) (ht : t₀.Tree)
    (hnumbered : t₀.Numbered) (hattended : Attended t₀ (t₀.Safe shows) (b :: bs) t)
    (hown : b.own = []) :
    ∃ t', despiteFailures (fun t l => HostTree.removeListener t b.node l) b.hooks t = (none, t') ∧
      Restorable t₀ shows bs t' ∧ Attended t₀ (t₀.Safe shows) bs t' := by
  have hsafe := h.safe b List.mem_cons_self
  obtain ⟨ls, hlist, hids⟩ := hattended.added b.node hsafe
  rw [hooksOf, List.flatMap_cons, if_pos rfl] at hids
  obtain ⟨t', hremove, hkeeps, hlist', hsame⟩ := HostTree.release_listeners b.hooks
    (fun l hl hmem => Nat.not_lt.2 (hattended.later b List.mem_cons_self l.id hmem)
      (hnumbered b.node l hl)) h.sound (h.stays b.node hsafe) ⟨ls, hlist, hids⟩
  refine ⟨t', hremove, ?_, ?_⟩
  · have hfirst : Restorable t₀ shows ([] ++ b :: bs) t := h
    exact (hfirst.drop (.inl (Binding.standIn?_of_own hown))).keepsPlaces ht hkeeps
  · constructor
    case added =>
      intro x hx
      by_cases hne : x = b.node
      · rw [hne]
        exact hlist'
      · obtain ⟨ls, hlist, hids⟩ := hattended.added x hx
        rw [hooksOf, List.flatMap_cons, if_neg (Ne.symm hne), List.nil_append] at hids
        exact ⟨ls, (hsame x hne).trans hlist, hids⟩
    case later => exact fun c hc => hattended.later c (List.mem_cons_of_mem _ hc)
    case distinct => exact (List.nodup_append.1 hattended.distinct).2.1

/-- The node of a binding goes back into its slot; where the slot is gone, it does not matter to
    the nodes that are known to be back. -/
theorem Restorable.vacate (h : Restorable t₀ shows (b :: bs) t) (ht : t₀.Tree)
    (hout : b.standIn? = some [placeholder]) :
    Restorable t₀ shows bs (t.replace placeholder b.node).2 ∧
      t₀.KeepsHeard shows t (t.replace placeholder b.node).2 := by
  have hfirst : Restorable t₀ shows ([] ++ b :: bs) t := h
  obtain ⟨t', hreplace, h', hswap, -⟩ | ⟨hfree, e, hreplace⟩ := hfirst.comeBack ht hout
  · rw [hreplace]
    exact ⟨h', .of_content hswap.content⟩
  · rw [hreplace]
    refine ⟨hfirst.drop (.inr fun q hq hshows hmem => ?_), .refl⟩
    have hothers := hfirst.standIn?_others (by rw [hout]; exact nofun)
    have hslot : placeholder ∈ t.children q := by
      rw [h.slots q hq hshows]
      refine List.mem_flatMap.2 ⟨b.node, hmem, ?_⟩
      rw [← List.nil_append (b :: bs), standIns_self hout hothers]
      exact List.mem_singleton_self _
    rw [h.sound.tree.linked.child hslot] at hfree
    cases hfree

/-- Undoing a binding leaves what the others have done. -/
theorem Binding.cleanup_restores (ht : t₀.Tree) (hnumbered : t₀.Numbered)
    (h : Restorable t₀ shows (b :: bs) t)
    (hattended : Attended t₀ (t₀.Safe shows) (b :: bs) t) :
    Restorable t₀ shows bs (b.cleanup t).2 ∧ Attended t₀ (t₀.Safe shows) bs (b.cleanup t).2 := by
  have hfirst : Restorable t₀ shows ([] ++ b :: bs) t := h
  obtain ⟨id, node, source, directive, reads⟩ := b
  -- Putting a node back hears nothing, so only the listeners of the binding itself matter.
  have hback : ∀ {d : Directive} {placeholder : NodeId} {t' : HostTree Reaction},
      Restorable t₀ shows (⟨id, node, source, d, reads⟩ :: bs) t' →
      Binding.standIn? ⟨id, node, source, d, reads⟩ = some [placeholder] →
      Attended t₀ (t₀.Safe shows) bs t' →
        Restorable t₀ shows bs (t'.replace placeholder node).2 ∧
          Attended t₀ (t₀.Safe shows) bs (t'.replace placeholder node).2 := by
    intro d placeholder t' h' hout hattended'
    obtain ⟨hrestored, hheard⟩ := h'.vacate ht hout
    exact ⟨hrestored, hattended'.same hheard⟩
  cases directive with
  | text expression shown => exact ⟨hfirst.drop (.inl rfl), hattended.tail rfl⟩
  | visibility expression => exact ⟨hfirst.drop (.inl rfl), hattended.tail rfl⟩
  | presence expression placeholder present =>
    cases present with
    | true => exact ⟨hfirst.drop (.inl rfl), hattended.tail rfl⟩
    | false =>
      have hdone := hback h rfl (hattended.tail rfl)
      rw [cleanup]
      dsimp only
      generalize t.replace placeholder node = replaced at hdone
      obtain ⟨_ | _, t'⟩ := replaced <;> exact hdone
  | repetition clause template placeholder rendered =>
    obtain ⟨t₁, hremove, h₁, hheard⟩ := Page.removeAll_restorable ht
      (b := ⟨id, node, source, .repetition clause template placeholder rendered, reads⟩) hfirst
    have hdone := hback h₁ rfl ((hattended.tail rfl).same hheard)
    rw [cleanup]
    simp only [hremove]
    generalize t₁.replace placeholder node = replaced at hdone
    obtain ⟨_ | _, t'⟩ := replaced <;> exact hdone
  | model expression listener =>
    obtain ⟨t', hremove, hdone⟩ := h.release ht hnumbered hattended rfl
    have hclean : cleanup ⟨id, node, source, .model expression listener, reads⟩ t = (none, t') := hremove
    rw [hclean]
    exact hdone
  | events listeners =>
    obtain ⟨t', hremove, hdone⟩ := h.release ht hnumbered hattended rfl
    have hclean : cleanup ⟨id, node, source, .events listeners, reads⟩ t = (none, t') := hremove
    rw [hclean]
    exact hdone

/-! ## Runs -/

/-- What bindings have done to a document can be undone, listeners included. -/
structure Undoable (t₀ : HostTree Reaction) (shows : NodeId → Prop) (bs : List Binding)
    (t : HostTree Reaction) : Prop where
  restorable : Restorable t₀ shows bs t
  attended : Attended t₀ (t₀.Safe shows) bs t
  shown : ∀ b ∈ bs, b.kind = .bind → shows b.node

/-- The listeners of a binding are part of what it was declared as. -/
theorem Binding.hooks_forget (b : Binding) : b.forget.hooks = b.hooks := by
  obtain ⟨id, node, source, directive, reads⟩ := b
  cases directive <;> rfl

theorem hooksOf_forget (bs : List Binding) (x : NodeId) :
    hooksOf (bs.map Binding.forget) x = hooksOf bs x := by
  rw [hooksOf, List.flatMap_map, hooksOf]
  refine List.flatMap_congr fun b _ => ?_
  rw [b.hooks_forget]
  rfl

namespace Attended

theorem forget : Attended t₀ P (bs.map Binding.forget) t ↔ Attended t₀ P bs t := by
  have hflat : (bs.map Binding.forget).flatMap Binding.hooks = bs.flatMap Binding.hooks := by
    rw [List.flatMap_map]
    exact List.flatMap_congr fun b _ => b.hooks_forget
  have hlater : (∀ b ∈ bs.map Binding.forget, ∀ l ∈ b.hooks, t₀.nextListener ≤ l) ↔
      ∀ b ∈ bs, ∀ l ∈ b.hooks, t₀.nextListener ≤ l := by
    simp only [List.forall_mem_map, Binding.hooks_forget]
  constructor
  · intro h
    refine ⟨fun x hx => ?_, hlater.1 h.later, hflat ▸ h.distinct⟩
    have hadded := h.added x hx
    rwa [hooksOf_forget] at hadded
  · intro h
    refine ⟨fun x hx => ?_, hlater.2 h.later, hflat.symm ▸ h.distinct⟩
    rw [hooksOf_forget]
    exact h.added x hx

end Attended

/-- Only the bindings of a node itself add listeners to it. -/
theorem hooksOf_sheltered (hx : t₀.Safe shows x) : hooksOf (sheltered t₀ shows bs) x = hooksOf bs x := by
  rw [hooksOf, hooksOf]
  induction bs with
  | nil => rfl
  | cons b bs ih =>
    by_cases hb : t₀.Safe shows b.node
    · rw [sheltered_cons hb, List.flatMap_cons, List.flatMap_cons, ih]
    · have hne : b.node ≠ x := by
        rintro rfl
        exact hb hx
      rw [sheltered_cons_of_not hb, List.flatMap_cons, if_neg hne, List.nil_append, ih]

/-- While no binding has done more than to take its node out, all those of safe nodes can be undone. -/
theorem Enrolled.undoable (h : Enrolled t₀ bs t) (ht : t₀.Tree)
    (hshown : ∀ b ∈ bs, b.kind = .bind → shows b.node) :
    Undoable t₀ shows (sheltered t₀ shows bs) t where
  restorable := h.restorable.weaken ht
  attended := by
    refine ⟨fun x hx => ?_, fun b hb => h.attended.later b (mem_sheltered.1 hb).1,
      h.attended.distinct.sublist ((sheltered_sublist bs).flatMap _)⟩
    rw [hooksOf_sheltered hx]
    exact h.attended.added x hx.live
  shown b hb := hshown b (mem_sheltered.1 hb).1

/-- A property of the nodes and kinds of bindings does not depend on what they have done. -/
theorem forall_of_forget {Q : NodeId → DirectiveKind → Prop}
    (h : bs'.map Binding.forget = bs.map Binding.forget) (hbs : ∀ b ∈ bs', Q b.node b.kind) :
    ∀ b ∈ bs, Q b.node b.kind := by
  intro b hb
  obtain ⟨b', hb', hpair⟩ := List.mem_map.1 (Engine.map_pair_of_forget h ▸
    List.mem_map_of_mem (f := fun b : Binding => (b.node, b.kind)) hb)
  obtain ⟨hnode, hkind⟩ := Prod.mk.inj hpair
  rw [← hnode, ← hkind]
  exact hbs b' hb'

/-- An update of a binding can be undone. -/
theorem upheld_undoable (ht : t₀.Tree) : Upheld fun _ bs t => Undoable t₀ shows bs t := by
  intro _ front b back page h
  obtain ⟨hrestorable, hheard⟩ := Page.update_restorable ht h.restorable
    (h.shown b (mem_insert.2 (.inl rfl)))
  have hforget : (front ++ (page.update b).2.1 :: back).map Binding.forget =
      (front ++ b :: back).map Binding.forget := by
    rw [List.map_append, List.map_cons, page.update_forget, List.map_append, List.map_cons]
  refine ⟨hrestorable, ?_,
    forall_of_forget (Q := fun node kind => kind = .bind → shows node) hforget.symm h.shown⟩
  rw [← Attended.forget, hforget, Attended.forget]
  exact h.attended.same hheard

/-- Undoing the first binding leaves what the others have done. -/
theorem Undoable.cleanup (ht : t₀.Tree) (hnumbered : t₀.Numbered) (h : Undoable t₀ shows (b :: bs) t) :
    Undoable t₀ shows bs (b.cleanup t).2 := by
  obtain ⟨hrestorable, hattended⟩ := b.cleanup_restores ht hnumbered h.restorable h.attended
  exact ⟨hrestorable, hattended, fun c hc => h.shown c (List.mem_cons_of_mem _ hc)⟩

namespace Engine

variable {e : Engine}

/-! ## Mounting -/

/-- A zone that is not there gives no bindings. -/
theorem scanZone_dead {page : Page} {z : NodeId} (hz : page.host.node? z = none) (first : Nat)
    (bs : List Binding) :
    ∃ page', Page.scanZone first (bs, page) z = (bs, page') ∧ page'.host = page.host := by
  have hof : ∀ kind, page.declarationsOf z kind = .error (.unknownNode z.index) := fun kind => by
    rw [Page.declarationsOf, HostTree.withAttribute, HostTree.get_dead hz]
    rfl
  have hdeclarations : page.declarations z = .error (.unknownNode z.index) := by
    rw [Page.declarations, DirectiveKind.scanOrder, List.mapM_cons, hof]
    rfl
  rw [Page.scanZone]
  dsimp only
  rw [hdeclarations]
  exact ⟨_, rfl, rfl⟩

/-- The bindings that the zones of a target give. -/
theorem scan_target {page page₀ : Page} (h : page.host.Sound) (hhost : page₀.host = page.host)
    {target : MountTarget} {zones : List NodeId} (hzones : zonesOf page target = .ok zones)
    (first : Nat) :
    ∃ made page', zones.foldl (Page.scanZone first) ([], page₀) = (made, page') ∧
      Enrolled page.host made page'.host := by
  have hstart : Enrolled page.host [] page₀.host := by
    rw [hhost]
    exact .start h
  have hfound : ∀ selector, page.host.queryAll selector = .ok zones →
      ∀ z ∈ zones, page.host.Live z := by
    intro selector hquery z hz
    obtain ⟨p, hp⟩ := (h.tree.queryAll hquery).2 z hz
    exact h.tree.linked.live hp
  by_cases hlive : ∀ z ∈ zones, page.host.Live z
  · obtain ⟨made, page', hscan, hmade, -⟩ := Page.scanZones_enrols h first zones hstart hlive
    exact ⟨made, page', hscan, hmade⟩
  · cases target with
    | zones => exact absurd (hfound _ hzones) hlive
    | selector text => exact absurd (hfound _ hzones) hlive
    | zone node =>
      obtain rfl : [node] = zones := Except.ok.inj hzones
      have hdead : page₀.host.node? node = none := by
        rw [hhost]
        refine Option.eq_none_iff_forall_ne_some.2 fun n hn => hlive fun z hz => ?_
        exact List.mem_singleton.1 hz ▸ ⟨n, hn⟩
      obtain ⟨page', hscan, hsame⟩ := scanZone_dead hdead first []
      refine ⟨[], page', hscan, ?_⟩
      rw [hsame]
      exact hstart

/-- Mounting makes the bindings of the zones and updates them once. -/
theorem mount_enrols (h : e.page.host.Sound) (hfresh : e.bindings = []) (target : MountTarget) :
    ∃ made e₁, Enrolled e.page.host made e₁.page.host ∧
      (e.mount target).bindings = (updateAll made e₁).1 ∧
      (e.mount target).page.host = (updateAll made e₁).2.page.host ∧
      e.releasesMount target = releasesAll made e₁ := by
  cases hzones : zonesOf e.page target with
  | error error =>
    refine ⟨[], e.mount target, ?_, ?_, rfl, ?_⟩
    · rw [mount, hzones]
      exact Enrolled.start h
    · rw [mount, hzones]
      exact hfresh
    · rw [releasesMount, hzones]
      rfl
  | ok zones =>
    obtain ⟨made, page', hscan, hmade⟩ := scan_target h rfl hzones e.made
    rw [releasesMount, hzones, mount, hzones]
    cases zones with
    | nil => exact ⟨[], e, .start h, (List.append_nil _).trans hfresh, rfl, rfl⟩
    | cons z zones =>
      let e₁ : Engine := { e with page := page', made := e.made + made.length }
      obtain ⟨-, hold⟩ := updateAll_forget made e₁
      refine ⟨made, e₁, hmade, ?_, ?_, ?_⟩
      · dsimp only
        rw [mountZones, hscan]
        show (updateAll made e₁).2.bindings ++ _ = _
        rw [hold]
        exact congrArg (· ++ _) hfresh
      · dsimp only
        rw [mountZones, hscan]
        rfl
      · dsimp only
        rw [hscan]

/-- What mounting does can be undone, whatever the target is. -/
theorem mount_undoable (h : e.page.host.Sound) (hfresh : e.bindings = []) (target : MountTarget)
    (hsafe : ∀ b ∈ (e.mount target).bindings, e.page.host.Safe shows b.node)
    (hshown : ∀ b ∈ (e.mount target).bindings, b.kind = .bind → shows b.node) :
    Undoable e.page.host shows (e.mount target).bindings (e.mount target).page.host := by
  obtain ⟨made, e₁, hmade, hbindings, hhost, -⟩ := mount_enrols h hfresh target
  obtain ⟨hforget, -⟩ := updateAll_forget made e₁
  rw [hbindings] at hsafe hshown ⊢
  rw [hhost]
  have hall : Undoable e.page.host shows ([] ++ made) e₁.page.host := by
    have hundoable := hmade.undoable h.tree
      (forall_of_forget (Q := fun node kind => kind = .bind → shows node) hforget hshown)
    rwa [sheltered_eq_self (forall_of_forget (Q := fun node _ => e.page.host.Safe shows node) hforget
      hsafe)] at hundoable
  exact (upheld_undoable h.tree).updateAll made (n := 0) hall

/-! ## Unmounting -/

theorem unmountBinding_apart (e : Engine) (b : Binding) :
    (e.unmountBinding b).page.host = (b.cleanup e.page.host).2 := by
  rw [unmountBinding]
  generalize b.cleanup e.page.host = cleaned
  obtain ⟨_ | error, host⟩ := cleaned
  · rfl
  · exact (capture_apart _ _).1

/-- Undoing all bindings leaves nothing of them. -/
theorem unmountAll_undoable (ht : t₀.Tree) (hnumbered : t₀.Numbered) (bs : List Binding) :
    ∀ {e : Engine}, Undoable t₀ shows bs e.page.host →
      Undoable t₀ shows [] (bs.foldl unmountBinding e).page.host := by
  induction bs with
  | nil => exact fun h => h
  | cons b bs ih =>
    intro e h
    have hrest := h.cleanup ht hnumbered
    rw [← unmountBinding_apart] at hrest
    exact ih hrest

/-- The element of a binding that shows a text. -/
def ShowsText (e : Engine) (x : NodeId) : Prop := ∃ b ∈ e.bindings, b.kind = .bind ∧ b.node = x

/-- Where no text has anything below it, all nodes are safe. -/
theorem safe_of_textless {t : HostTree Reaction} (htextless : ∀ y ∈ t.ids, (t.figure y).kind ≠ .text)
    (hx : t.Live x) : t.Safe shows x where
  live := hx
  clear y hbelow hkind _ := by
    have hy : t.Live y := by
      rcases Relation.ReflTransGen.cases_head hbelow with rfl | ⟨z, hz, -⟩
      · exact hx
      · exact HostTree.live_of_mem_children hz
    exact htextless y (HostTree.mem_ids_iff.2 hy) hkind

end Engine

end ReactiveTemplate
