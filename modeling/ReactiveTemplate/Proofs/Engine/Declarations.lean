import ReactiveTemplate.Proofs.Document.Histories
import ReactiveTemplate.Proofs.Document.Queries
import ReactiveTemplate.Proofs.Engine.Scanning

/-!
# The declarations that count

An attribute counts where no element above repeats its element, and on a repeated element nothing
but the repetition counts. A scan finds the attributes that count in a zone and no other ones.

* `HostTree.Tree.closestAncestor?_eq_none_iff`: when the search above a node finds nothing.
* `Page.Counts`: the declarations that count.
* `Page.declarations_exact`: they are what a scan finds, each once and in order.
-/

namespace ReactiveTemplate

/-! ## Elements above a node -/

namespace HostTree

variable {α : Type} {t : HostTree α} {x p : NodeId} {name : String}

/-- What the search above a node finds lies above its parent, and carries the attribute. -/
theorem Tree.closestWithin_eq_some (ht : t.Tree) (fuel : Nat) :
    ∀ {x : NodeId}, t.closestWithin name fuel x = some p →
      ∃ q, t.parent? x = some q ∧ t.Below p q ∧ (t.attribute? p name).isSome := by
  induction fuel with
  | zero => exact fun h => by cases h
  | succ fuel ih =>
    intro x h
    cases hq : t.parent? x with
    | none =>
      rw [closestWithin, hq] at h
      cases h
    | some q =>
      rw [closestWithin_succ t name fuel hq] at h
      refine ⟨q, rfl, ?_⟩
      split at h
      · next hcarries =>
        cases h
        exact ⟨Below.refl t _, hcarries⟩
      · obtain ⟨r, hr, hbelow, hcarries⟩ := ih h
        exact ⟨hbelow.tail (ht.listed hr), hcarries⟩

/-- The search above a node finds nothing exactly when no node above it carries the attribute. -/
theorem Tree.closestAncestor?_eq_none_iff (ht : t.Tree) :
    t.closestAncestor? x name = none ↔
      ∀ p, t.Below p x → p ≠ x → t.attribute? p name = none := by
  constructor
  · intro hnone p hbelow hne
    by_contra hcarries
    have hp : t.Live p := by
      by_contra hdead
      rw [attribute?, not_live_iff.1 hdead] at hcarries
      exact hcarries rfl
    obtain ⟨b, rfl, hb⟩ := exists_holds ht.linked ht.acyclic hp
    have hfound := hb.closest ht.linked (hb.mem_labels_iff.2 hbelow) hne.symm
      (Option.isSome_iff_ne_none.2 hcarries)
    rw [hnone] at hfound
    cases hfound
  · intro hfree
    by_contra hfound
    obtain ⟨p, hp⟩ := Option.ne_none_iff_exists'.1 hfound
    obtain ⟨q, hq, hbelow, hcarries⟩ := ht.closestWithin_eq_some _ hp
    have hchild := ht.listed hq
    have hne : p ≠ x := fun heq => ht.acyclic.not_below hchild (heq ▸ hbelow)
    rw [hfree p (hbelow.tail hchild) hne] at hcarries
    cases hcarries

end HostTree

/-! ## Scanning -/

namespace Page

/-- An attribute in a zone that counts: no element above repeats its element, and unless it is
    about a repetition, its element is not repeated either. -/
structure Counts (page : Page) (zone : NodeId) (d : Declaration) : Prop where
  inside : page.host.Below zone d.node
  carries : (page.host.figure d.node).source? (page.attributeName d.kind) = some d.text
  free : ∀ p, page.host.Below p d.node → p ≠ d.node →
    page.host.attribute? p (page.attributeName .repetition) = none
  alone : d.kind ≠ .repetition →
    page.host.attribute? d.node (page.attributeName .repetition) = none

theorem mem_scan_iff {page : Page} {d : Declaration} {b : Branch NodeId} (ht : page.host.Tree)
    (hb : page.host.Holds b) :
    d ∈ DirectiveKind.scanOrder.flatMap (page.declaredOn b.labels) ↔ page.Counts b.label d := by
  have hscan : ∀ kind, kind ∈ DirectiveKind.scanOrder := fun kind => by cases kind <;> decide
  rw [List.mem_flatMap]
  constructor
  · rintro ⟨kind, -, hd⟩
    obtain ⟨rfl, hmem, hsource, hclosest, halone⟩ := mem_declaredOn.1 hd
    exact ⟨hb.mem_labels_iff.1 hmem, hsource, ht.closestAncestor?_eq_none_iff.1 hclosest,
      halone.resolve_left⟩
  · intro h
    exact ⟨d.kind, hscan d.kind, mem_declaredOn.2 ⟨rfl, hb.mem_labels_iff.2 h.inside, h.carries,
      ht.closestAncestor?_eq_none_iff.2 h.free, or_iff_not_imp_left.2 h.alone⟩⟩

/-- A scan finds exactly the declarations that count: kind by kind, within a kind in document order,
    and each once. -/
theorem declarations_exact {page : Page} {zone : NodeId} (ht : page.host.Tree)
    (hzone : page.host.Live zone) :
    ∃ ds, page.declarations zone = .ok ds ∧ (∀ d, d ∈ ds ↔ page.Counts zone d) ∧
      (ds.map fun d => (d.kind, d.node)).Nodup ∧
      (ds.map fun d => (d.kind, d.node)).Sublist
        (DirectiveKind.scanOrder ×ˢ page.host.documentOrder page.host.slots.size zone) := by
  obtain ⟨b, rfl, hb⟩ := HostTree.exists_holds ht.linked ht.acyclic hzone
  have hscan : DirectiveKind.scanOrder.Nodup := by decide
  have hsub := page.declaredOn_product b.labels
  refine ⟨_, declarations_eq ht.linked hb, fun d => mem_scan_iff ht hb,
    (hscan.product (hb.nodup ht.linked)).sublist hsub, ?_⟩
  rw [hb.documentOrder_size ht.linked]
  exact hsub

/-- A zone with an element that shows a text and may be hidden, and with a list whose items show
    texts. -/
def listedPage : Page :=
  let host := (HostTree.empty.appendElement HostTree.root "div" [("vx-zone", "")]).2
  let host := (host.appendElement ⟨1, 0⟩ "p" [("vx-show", "open"), ("vx-bind", "title")]).2
  let host := (host.appendElement ⟨1, 0⟩ "li" [("vx-bind", "x"), ("vx-for", "x in xs")]).2
  let host := (host.appendElement ⟨3, 0⟩ "b" [("vx-bind", "x.name")]).2
  let (root, h) := Heap.empty.addObject .empty
  ⟨host, .standard, ⟨.wrap h root, ⟨.empty, .empty 10⟩⟩, .empty⟩

theorem tree_listedPage : listedPage.host.Tree :=
  ((((HostTree.sound_empty.append ⟨_, rfl⟩ rfl).append ⟨_, rfl⟩ rfl).append ⟨_, rfl⟩ rfl).append
    ⟨_, rfl⟩ rfl).tree

/-- What the items of the list show does not count, and what the first element shows comes before
    what hides it. -/
theorem listedPage_declarations_exact :
    let ds : List Declaration :=
      [⟨.bind, ⟨2, 0⟩, "title"⟩, ⟨.visibility, ⟨2, 0⟩, "open"⟩, ⟨.repetition, ⟨3, 0⟩, "x in xs"⟩]
    listedPage.host.Tree ∧ listedPage.host.Live ⟨1, 0⟩ ∧
      listedPage.declarations ⟨1, 0⟩ = .ok ds ∧ (∀ d, d ∈ ds ↔ listedPage.Counts ⟨1, 0⟩ d) ∧
      listedPage.host.attribute? ⟨4, 0⟩ "vx-bind" = some "x.name" ∧
      ¬ listedPage.Counts ⟨1, 0⟩ ⟨.bind, ⟨4, 0⟩, "x.name"⟩ := by
  intro ds
  have hlive : listedPage.host.Live ⟨1, 0⟩ := ⟨_, rfl⟩
  have hds : listedPage.declarations ⟨1, 0⟩ = .ok ds := by decide +kernel
  obtain ⟨found, hfound, hexact, -, -⟩ := declarations_exact tree_listedPage hlive
  rw [hds] at hfound
  cases hfound
  exact ⟨tree_listedPage, hlive, hds, hexact, by decide +kernel, fun h =>
    absurd ((hexact _).2 h) (by decide)⟩

end Page

end ReactiveTemplate
