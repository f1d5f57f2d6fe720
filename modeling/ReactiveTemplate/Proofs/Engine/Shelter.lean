import ReactiveTemplate.Proofs.Engine.Housekeeping
import ReactiveTemplate.Proofs.Engine.Unmounting

/-!
# Unmounting

Bindings inside a text go with it when the element around the text shows another one. From then on
their nodes are strangers to the document, but the bindings go on. They have nothing to do with the
nodes that stay, so unmounting gives back each node that is not inside an element that shows a text.

* `Tended`: the safe nodes, and what their bindings have made.
* `Sheltered`: the invariant of runs, for all bindings; `upheld_sheltered`: updates keep it.
* `Sheltered.cleanup`, `Engine.unmountAll_sheltered`: undoing bindings keeps it.
* `Engine.unmount_restores`: unmounting gives the document back.
-/

namespace ReactiveTemplate

variable {t₀ t t' : HostTree Reaction} {shows : NodeId → Prop} {bs front back : List Binding}
  {b : Binding} {x p : NodeId} {n : Nat}

/-! ## Nodes that are looked after -/

/-- A safe node, or one that bindings have made. -/
def Tended (t₀ : HostTree Reaction) (shows : NodeId → Prop) (bs : List Binding) (x : NodeId) : Prop :=
  t₀.Safe shows x ∨ ∃ b ∈ bs, x ∈ b.own

namespace Restorable

theorem guarded (h : Restorable t₀ shows bs t) (ht : t₀.Tree) : t.Guarded (Tended t₀ shows bs) where
  live y hy := by
    rcases hy with hsafe | ⟨b, hb, ho⟩
    · exact h.stays y hsafe
    · exact (h.made b hb y ho).live
  above y q hy hq := by
    rcases hy with hsafe | ⟨b, hb, ho⟩
    · exact .inl (hsafe.parent ht (h.parent_of_safe hsafe hq))
    · exact .inl ((h.safe b hb).parent ht (h.parent_of_own hb ho hq))

/-- What is known of a document depends on the nodes that are looked after only. -/
theorem beside (h : Restorable t₀ shows bs t) (ht : t₀.Tree)
    (hbeside : HostTree.Beside (Tended t₀ shows bs) t t') : Restorable t₀ shows bs t' := by
  have hsafe : ∀ x, t₀.Safe shows x → t'.node? x = t.node? x := fun x hx => hbeside.same x (.inl hx)
  have hown : ∀ b ∈ bs, ∀ o ∈ b.own, t'.node? o = t.node? o := fun b hb o ho =>
    hbeside.same o (.inr ⟨b, hb, ho⟩)
  constructor
  case sound => exact hbeside.sound
  case stays => exact fun x hx => (h.stays x hx).of_node? (hsafe x hx)
  case kind =>
    intro x hx
    rw [HostTree.figure_eq_of_node?_eq (hsafe x hx)]
    exact h.kind x hx
  case above =>
    intro x hx
    rw [HostTree.parent?_eq_of_node?_eq (hsafe x hx)]
    exact h.above x hx
  case safe => exact h.safe
  case made =>
    intro b hb o ho
    obtain ⟨hlive, hnew, hkind⟩ := h.made b hb o ho
    have hsame := hown b hb o ho
    exact ⟨hlive.of_node? hsame, hnew, by rwa [HostTree.figure_eq_of_node?_eq hsame]⟩
  case ownAbove =>
    intro b hb o ho
    rw [HostTree.parent?_eq_of_node?_eq (hown b hb o ho)]
    exact h.ownAbove b hb o ho
  case distinct => exact h.distinct
  case aside =>
    intro b hb o ho
    have hsame : t'.node? o = t.node? o := by
      rcases (Binding.mem_of_mem_aside ho).2 with rfl | hob
      · exact hsafe _ (h.safe b hb)
      · exact hown b hb o hob
    rw [HostTree.parent?_eq_of_node?_eq hsame]
    exact h.aside b hb o ho
  case out =>
    intro b hb hout
    rw [HostTree.parent?_eq_of_node?_eq (hsafe _ (h.safe b hb))]
    exact h.out b hb hout
  case once => exact h.once
  case slots =>
    intro q hq hshows
    rw [HostTree.children_eq_of_node?_eq (hsafe q (hq.safe ht))]
    exact h.slots q hq hshows

end Restorable

theorem Undoable.beside (h : Undoable t₀ shows bs t) (ht : t₀.Tree)
    (hbeside : HostTree.Beside (Tended t₀ shows bs) t t') : Undoable t₀ shows bs t' where
  restorable := h.restorable.beside ht hbeside
  attended := h.attended.same fun x hx => by
    rw [HostTree.listenersOf, HostTree.listenersOf, hbeside.same x (.inl hx)]
  shown := h.shown

/-! ## All bindings -/

/-- The bindings of safe nodes can be undone, and all bindings keep to their homes. -/
structure Sheltered (t₀ : HostTree Reaction) (shows : NodeId → Prop) (bs : List Binding)
    (t : HostTree Reaction) : Prop where
  undoable : Undoable t₀ shows (sheltered t₀ shows bs) t
  homed : Homed t₀ bs t
  elements : ∀ b ∈ bs, (t₀.figure b.node).kind ≠ .text

/-- Below a safe node only texts can be lost. -/
theorem HostTree.Safe.child (ht : t₀.Tree) (hp : t₀.parent? x = some p) (hsafe : t₀.Safe shows p)
    (hkind : (t₀.figure x).kind ≠ .text) : t₀.Safe shows x := by
  refine ⟨HostTree.live_of_parent? hp, fun y hy htext => ?_⟩
  have hne : y ≠ x := by
    rintro rfl
    exact hkind htext
  obtain ⟨q, hq, hyq⟩ := ht.linked.below_parent hy hne.symm
  obtain rfl : p = q := Option.some.inj (hp.symm.trans hq)
  exact hsafe.clear y hyq htext

namespace Sheltered

/-- A binding that went with a text has nothing to do with the nodes that are looked after. -/
theorem apartFrom (h : Sheltered t₀ shows bs t) (ht : t₀.Tree) (hb : b ∈ bs)
    (hlost : ¬ t₀.Safe shows b.node) :
    ApartFrom t₀ (Tended t₀ shows (sheltered t₀ shows bs)) b := by
  have hold : ∀ y, t₀.Live y → ¬ t₀.Safe shows y → ¬ Tended t₀ shows (sheltered t₀ shows bs) y := by
    rintro y hy hnot (hsafe | ⟨c, hc, hyc⟩)
    · exact hnot hsafe
    · exact h.homed.new c (mem_sheltered.1 hc).1 y hyc hy
  constructor
  case node => exact hold _ (h.homed.nodes b hb) hlost
  case own =>
    rintro o ho (hsafe | ⟨c, hc, hoc⟩)
    · exact h.homed.new b hb o ho hsafe.live
    · obtain ⟨hc, hsafe⟩ := mem_sheltered.1 hc
      obtain rfl : b = c := own_unique h.homed.distinct hb hc ho hoc
      exact hlost hsafe
  case home =>
    exact fun p hp => hold p (ht.live_parent hp) fun hsafe =>
      hlost (hsafe.child ht hp (h.elements b hb))

/-- An update of a binding, whatever became of its element. -/
theorem update {page : Page} (h : Sheltered t₀ shows (front ++ b :: back) page.host) (ht : t₀.Tree)
    (hnames : NamesLast t₀ (front ++ b :: back) n page.host)
    (hfew : n + page.releases b < UInt32.size) :
    Sheltered t₀ shows (front ++ (page.update b).2.1 :: back) (page.update b).2.2.host ∧
      NamesLast t₀ (front ++ (page.update b).2.1 :: back) (n + page.releases b)
        (page.update b).2.2.host := by
  have hb : b ∈ front ++ b :: back := mem_insert.2 (.inl rfl)
  have hsettled : Settled t₀ (front ++ b :: back) n page.host := ⟨h.homed, hnames⟩
  let b' : Binding := (page.update b).2.1
  have hnode : b'.node = b.node := rfl
  have helements : ∀ c ∈ front ++ b' :: back, (t₀.figure c.node).kind ≠ .text := by
    intro c hc
    rcases mem_insert.1 hc with rfl | hc
    · exact hnode ▸ h.elements b hb
    · exact h.elements c (mem_insert.2 (.inr hc))
  by_cases hsafe : t₀.Safe shows b.node
  · have hundoable := h.undoable
    rw [sheltered_append, sheltered_cons hsafe] at hundoable
    have hafter := upheld_undoable ht 0 _ b _ page hundoable
    rw [← sheltered_cons (b := b') hsafe, ← sheltered_append] at hafter
    obtain ⟨hsettled', -⟩ := Page.update_settled ht hsettled guarded_none apartFrom_none hfew
    exact ⟨⟨hafter, hsettled'.homed, helements⟩, hsettled'.names⟩
  · obtain ⟨hsettled', hbeside⟩ := Page.update_settled ht hsettled (h.undoable.restorable.guarded ht)
      (h.apartFrom ht hb hsafe) hfew
    have hafter := h.undoable.beside ht hbeside
    rw [sheltered_append, sheltered_cons_of_not hsafe, ← sheltered_cons_of_not (b := b') hsafe back,
      ← sheltered_append] at hafter
    exact ⟨⟨hafter, hsettled'.homed, helements⟩, hsettled'.names⟩

/-- Undoing a binding, whatever became of its element. -/
theorem cleanup (h : Sheltered t₀ shows (b :: bs) t) (ht : t₀.Tree) (hnumbered : t₀.Numbered) :
    Sheltered t₀ shows bs (b.cleanup t).2 := by
  have helements : ∀ c ∈ bs, (t₀.figure c.node).kind ≠ .text := fun c hc =>
    h.elements c (List.mem_cons_of_mem _ hc)
  by_cases hsafe : t₀.Safe shows b.node
  · have hundoable := h.undoable
    rw [sheltered_cons hsafe] at hundoable
    obtain ⟨hhomed, -⟩ := Binding.cleanup_homed ht h.homed guarded_none apartFrom_none
    exact ⟨hundoable.cleanup ht hnumbered, hhomed, helements⟩
  · obtain ⟨hhomed, hbeside⟩ := Binding.cleanup_homed ht h.homed (h.undoable.restorable.guarded ht)
      (h.apartFrom ht List.mem_cons_self hsafe)
    have hafter := h.undoable.beside ht hbeside
    rw [sheltered_cons_of_not hsafe] at hafter
    exact ⟨hafter, hhomed, helements⟩

end Sheltered

/-- As long as no slot can have come round its generations, updates keep what is known. -/
theorem upheld_sheltered (ht : t₀.Tree) : Upheld fun n bs t => n < UInt32.size →
    Sheltered t₀ shows bs t ∧ NamesLast t₀ bs n t := by
  intro n front b back page h hfew
  obtain ⟨hsheltered, hnames⟩ := h (Nat.lt_of_le_of_lt (Nat.le_add_right _ _) hfew)
  exact hsheltered.update ht hnames hfew

/-- While bindings are made, no name is given up. -/
theorem Enrolled.sheltered (h : Enrolled t₀ bs t) (ht : t₀.Tree)
    (hshown : ∀ b ∈ bs, b.kind = .bind → shows b.node) :
    Sheltered t₀ shows bs t ∧ NamesLast t₀ bs 0 t := by
  have hr := h.restorable
  refine ⟨⟨h.undoable ht hshown, ?_, h.elements⟩, fun x hx => .inl ?_⟩
  · exact ⟨hr.sound, fun b hb => (hr.safe b hb).live,
      fun b hb o ho hlive => (hr.made b hb o ho).new hlive.safe, hr.distinct,
      fun x p hx => hr.parent_of_safe hx.safe, fun b hb o ho p => hr.parent_of_own hb ho⟩
  · rcases hx with hlive | ⟨b, hb, ho⟩
    · exact hr.stays x hlive.safe
    · exact (hr.made b hb x ho).live

namespace Engine

variable {e : Engine}

/-! ## Runs -/

/-- After mounting and a run, whatever the target is. -/
theorem run_sheltered {target : MountTarget} (h : e.page.host.Sound) (hfresh : e.bindings = [])
    (moves : List Move) (hfew : e.releases target moves < UInt32.size) :
    let e' := (e.mount target).run moves
    Sheltered e.page.host (e.mount target).ShowsText e'.bindings e'.page.host := by
  have hshown : ∀ b ∈ (e.mount target).bindings, b.kind = .bind → (e.mount target).ShowsText b.node :=
    fun b hb hkind => ⟨b, hb, hkind, rfl⟩
  obtain ⟨made, e₁, hmade, hbindings, hhost, hreleases⟩ := mount_enrols h hfresh target
  obtain ⟨hforget, -⟩ := updateAll_forget made e₁
  generalize (e.mount target).ShowsText = shows at hshown ⊢
  have hupheld : Upheld fun n bs t => n < UInt32.size →
      Sheltered e.page.host shows bs t ∧ NamesLast e.page.host bs n t := upheld_sheltered h.tree
  have hstart : 0 < UInt32.size → Sheltered e.page.host shows ([] ++ made) e₁.page.host ∧
      NamesLast e.page.host ([] ++ made) 0 e₁.page.host := fun _ => hmade.sheltered h.tree
    (forall_of_forget (Q := fun node kind => kind = .bind → shows node) hforget (hbindings ▸ hshown))
  have hmounted := hupheld.updateAll made hstart
  rw [List.nil_append, ← hbindings, ← hhost, ← hreleases, Nat.zero_add] at hmounted
  exact (hupheld.run moves hmounted hfew).1

theorem unmountAll_sheltered (ht : t₀.Tree) (hnumbered : t₀.Numbered) (bs : List Binding) :
    ∀ {e : Engine}, Sheltered t₀ shows bs e.page.host →
      Sheltered t₀ shows [] (bs.foldl unmountBinding e).page.host := by
  induction bs with
  | nil => exact fun h => h
  | cons b bs ih =>
    intro e h
    have hrest := h.cleanup ht hnumbered
    rw [← unmountBinding_apart] at hrest
    exact ih hrest

/-- Whatever happens after mounting, unmounting gives back each node that is not inside an element
    that shows a text: it is there with its parent, its listeners and, unless it shows a text itself,
    its children. A document is sound and numbered after every history (`HostTree.Sound.run`,
    `HostTree.numbered_run`). Where a binding lies inside a text it may go with that, and its name
    would come round only after a slot has been released as often as there are generations. -/
theorem unmount_restores {target : MountTarget} (h : e.page.host.Sound)
    (hnumbered : e.page.host.Numbered) (hfresh : e.bindings = []) (moves : List Move)
    (hfew : (∀ b ∈ (e.mount target).bindings,
        e.page.host.Safe (e.mount target).ShowsText b.node) ∨
      e.releases target moves < UInt32.size) :
    let e' := ((e.mount target).run moves).unmount
    (∀ x, e.page.host.Live x → ¬ e.page.host.Inside (e.mount target).ShowsText x →
      e'.page.host.Live x ∧ e'.page.host.parent? x = e.page.host.parent? x ∧
        (¬ (e.mount target).ShowsText x →
          e'.page.host.children x = e.page.host.children x) ∧
        e'.page.host.listenersOf x = e.page.host.listenersOf x) ∧
      e'.bindings = [] ∧ e'.scheduler.pending = [] := by
  have ht := h.tree
  have hdone : Undoable e.page.host (e.mount target).ShowsText []
      ((e.mount target).run moves).unmount.page.host := by
    rcases hfew with hsafe | hfew
    · have hmounted := mount_undoable h hfresh target hsafe fun b hb hkind => ⟨b, hb, hkind, rfl⟩
      exact unmountAll_undoable ht hnumbered _ ((upheld_undoable ht).run moves (n := 0) hmounted)
    · exact (unmountAll_sheltered ht hnumbered _ (run_sheltered h hfresh moves hfew)).undoable
  refine ⟨fun x hlive hout => ?_, rfl, rfl⟩
  have hx : e.page.host.Outside (e.mount target).ShowsText x := ⟨hlive, hout⟩
  obtain ⟨hlive', hparent, hchildren⟩ := hdone.restorable.nothing_left ht hx
  obtain ⟨ls, hlisteners, hnone⟩ := hdone.attended.added x (hx.safe ht)
  obtain rfl : ls = [] := List.map_eq_nil_iff.1 hnone
  rw [List.append_nil] at hlisteners
  exact ⟨hlive', hparent, hchildren, hlisteners⟩

/-- An element that comes and goes, a list, a text around another element that comes and goes, and a
    button. -/
def stagedPage : HostTree Reaction :=
  let page := zonePage [("p", "vx-if", "open"), ("li", "vx-for", "name in names"),
    ("p", "vx-bind", "title"), ("button", "vx-on", "click: open = false")]
  let named := (page.appendText ⟨4, 0⟩ "Title").2
  (named.appendElement ⟨6, 0⟩ "em" [("vx-if", "open")]).2

/-- The engine of that page, with two names. -/
def stagedEngine : Engine :=
  create stagedPage (.object [("open", .bool true), ("names", .array [.text "Ann", .text "Bob"]),
    ("title", .text "Names")]) .standard

/-- A click takes the first element out; the one in the text went when the page was mounted. -/
def stagedMoves : List Move := [.dispatch ⟨5, 0⟩ ⟨"click", none⟩, .flush]

theorem sound_stagedPage : stagedPage.Sound :=
  ((sound_zonePage _).append ⟨_, rfl⟩ rfl).append ⟨_, rfl⟩ rfl

/-- After the click the zone holds placeholders and copies; unmounting gives back what it held. -/
theorem unmount_restores_stagedPage :
    stagedEngine.page.host.Sound ∧ stagedEngine.page.host.Numbered ∧ stagedEngine.bindings = [] ∧
      stagedEngine.releases .zones stagedMoves < UInt32.size ∧
      (stagedEngine.mount .zones).bindings.map Binding.node =
        [⟨4, 0⟩, ⟨2, 0⟩, ⟨7, 0⟩, ⟨3, 0⟩, ⟨5, 0⟩] ∧
      ⟨7, 0⟩ ∉ ((stagedEngine.mount .zones).run stagedMoves).page.host.ids ∧
      ((stagedEngine.mount .zones).run stagedMoves).page.host.children ⟨1, 0⟩ =
        [⟨8, 0⟩, ⟨11, 0⟩, ⟨6, 1⟩, ⟨12, 0⟩, ⟨4, 0⟩, ⟨5, 0⟩] ∧
      (((stagedEngine.mount .zones).run stagedMoves).page.host.listenersOf ⟨5, 0⟩).length = 1 ∧
      ((stagedEngine.mount .zones).run stagedMoves).unmount.page.host.children ⟨1, 0⟩ =
        [⟨2, 0⟩, ⟨3, 0⟩, ⟨4, 0⟩, ⟨5, 0⟩] ∧
      ((stagedEngine.mount .zones).run stagedMoves).unmount.page.host.listenersOf ⟨5, 0⟩ = [] ∧
      ((stagedEngine.mount .zones).run stagedMoves).unmount.bindings = [] ∧
      ((stagedEngine.mount .zones).run stagedMoves).unmount.scheduler.pending = [] := by
  have hsound : stagedEngine.page.host.Sound := sound_stagedPage
  have hfresh : stagedEngine.bindings = [] := List.isEmpty_iff.1 (by decide +kernel)
  have hdeaf : ∀ x, stagedEngine.page.host.listenersOf x = [] :=
    HostTree.listenersOf_eq_nil (by decide +kernel)
  have hnumbered : stagedEngine.page.host.Numbered := by
    intro x l hl
    rw [hdeaf] at hl
    cases hl
  have hfew : stagedEngine.releases .zones stagedMoves < UInt32.size := by decide +kernel
  have hids : ∀ x ∈ [⟨1, 0⟩, ⟨4, 0⟩, ⟨5, 0⟩], x ∈ stagedEngine.page.host.ids := by decide +kernel
  have hlive : ∀ x ∈ [⟨1, 0⟩, ⟨4, 0⟩, ⟨5, 0⟩], stagedEngine.page.host.Live x :=
    fun x hx => HostTree.mem_ids_iff.1 (hids x hx)
  have hshows : ∀ x, (stagedEngine.mount .zones).ShowsText x → x = ⟨4, 0⟩ := by
    rintro x ⟨b, hb, hkind, rfl⟩
    have hbound : ((stagedEngine.mount .zones).bindings.filter fun b => b.kind == .bind).map
        Binding.node = [⟨4, 0⟩] := by decide +kernel
    rw [← List.mem_singleton, ← hbound]
    exact List.mem_map_of_mem (List.mem_filter.2 ⟨hb, beq_iff_eq.2 hkind⟩)
  have hinner : stagedEngine.page.host.preorder ⟨4, 0⟩ = [⟨4, 0⟩, ⟨6, 0⟩, ⟨7, 0⟩] := by decide +kernel
  have hout : ∀ x, x ∉ [(⟨4, 0⟩ : NodeId), ⟨6, 0⟩, ⟨7, 0⟩] →
      ¬ stagedEngine.page.host.Inside (stagedEngine.mount .zones).ShowsText x := by
    rintro x hx ⟨y, hy, -, hbelow⟩
    rw [hshows y hy] at hbelow
    exact hx (hinner ▸ (hsound.mem_preorder (hlive _ (by simp))).2 hbelow)
  obtain ⟨hback, hdone⟩ := unmount_restores hsound hnumbered hfresh stagedMoves (.inr hfew)
  have hzone := hback ⟨1, 0⟩ (hlive _ (by simp)) (hout _ (by decide))
  have hbutton := hback ⟨5, 0⟩ (hlive _ (by simp)) (hout _ (by decide))
  have hbefore : stagedEngine.page.host.children ⟨1, 0⟩ = [⟨2, 0⟩, ⟨3, 0⟩, ⟨4, 0⟩, ⟨5, 0⟩] := by
    decide +kernel
  refine ⟨hsound, hnumbered, hfresh, hfew, by decide +kernel, by decide +kernel, by decide +kernel,
    by decide +kernel, ?_, ?_, ?_, ?_⟩
  · exact (hzone.2.2.1 fun hshown => absurd (hshows _ hshown) (by decide)).trans hbefore
  · exact hbutton.2.2.2.trans (hdeaf ⟨5, 0⟩)
  · exact hdone.1
  · exact hdone.2

end Engine

end ReactiveTemplate
