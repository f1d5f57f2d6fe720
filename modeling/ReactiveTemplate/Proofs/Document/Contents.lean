import ReactiveTemplate.Proofs.Document.Clearing
import ReactiveTemplate.Proofs.Document.Counts
import ReactiveTemplate.Proofs.Document.Queries

/-!
# Contents of elements

The text of a node is what the texts below it say, in document order. A new text for an element
takes the place of all that lay below it: elsewhere in the document nothing changes, so the text of
a node above is the old one but for that place.

* `HostTree.wording`, `HostTree.Tree.text_eq_wording`: what the texts among some nodes say.
* `HostTree.Holds.replaced`: another subtree in the place of one.
* `HostTree.textReplaced_above`: another text in the place of one.
* `HostTree.Rewritten`: new content, and nothing else.
* `HostTree.setText_gone`, `HostTree.setText_casts`: what becomes of the former children.
* `HostTree.setText_rewrites`: what a new text for an element does.
-/

namespace ReactiveTemplate.HostTree

variable {α : Type} {t t' : HostTree α} {id p c x y : NodeId} {b d d' : Branch NodeId}
  {ids ids' : List NodeId}

/-! ## Texts in document order -/

/-- What a node says on its own. -/
def utterance (t : HostTree α) (id : NodeId) : String :=
  if (t.figure id).kind = .text then (t.figure id).data else ""

/-- What some nodes say, one after the other. -/
def wording (t : HostTree α) (ids : List NodeId) : String := String.join (ids.map t.utterance)

/-- Only elements and the document node have children. -/
def Leafy (t : HostTree α) : Prop :=
  ∀ y, (t.figure y).kind = .text ∨ (t.figure y).kind = .placeholder → t.children y = []

theorem Leafy.of_ids
    (h : ∀ y ∈ t.ids, (t.figure y).kind = .text ∨ (t.figure y).kind = .placeholder →
      t.children y = []) : t.Leafy := by
  intro y hy
  by_cases hlive : t.Live y
  · exact h y (mem_ids_iff.2 hlive) hy
  · exact children_of_node?_none (not_live_iff.1 hlive)

theorem wording_cons : t.wording (x :: ids) = t.utterance x ++ t.wording ids := by
  rw [wording, List.map_cons, String.join_cons, wording]

theorem wording_append : t.wording (ids ++ ids') = t.wording ids ++ t.wording ids' := by
  rw [wording, List.map_append, String.join_append, wording, wording]

theorem wording_flatMap {β : Type} (f : β → List NodeId) (xs : List β) :
    t.wording (xs.flatMap f) = String.join (xs.map fun x => t.wording (f x)) := by
  induction xs with
  | nil => rfl
  | cons x xs ih => rw [List.flatMap_cons, wording_append, List.map_cons, String.join_cons, ih]

theorem wording_congr (h : ∀ y ∈ ids, t'.figure y = t.figure y) :
    t'.wording ids = t.wording ids := by
  rw [wording, wording]
  congr 1
  exact List.map_congr_left fun y hy => by rw [utterance, utterance, h y hy]

/-- The text of a subtree is what its nodes say in their order. -/
theorem Holds.text_eq_wording (hleafy : t.Leafy) (h : t.Holds b) :
    (b.map t.figure).text = t.wording b.labels := by
  induction h with
  | @node id bs _ hchildren _ ih =>
    have hparts : String.join ((bs.map (Branch.map t.figure)).map Branch.text) =
        t.wording (bs.flatMap Branch.labels) := by
      rw [wording_flatMap, List.map_map]
      exact congrArg String.join (List.map_congr_left ih)
    have hleaf : (t.figure id).kind = .text ∨ (t.figure id).kind = .placeholder → bs = [] := by
      intro hkind
      rw [hleafy id hkind, eq_comm, List.map_eq_nil_iff] at hchildren
      exact hchildren
    rw [Branch.map_node, Branch.text_node, Branch.labels_node, wording_cons, utterance, hparts]
    cases hkind : (t.figure id).kind with
    | text =>
      rw [hleaf (.inl hkind)]
      simp [wording]
    | placeholder =>
      rw [hleaf (.inr hkind)]
      simp [wording]
    | document | element => simp

theorem Tree.text_eq_wording (ht : t.Tree) (hleafy : t.Leafy) (hid : t.Live id) :
    t.text id = .ok (t.wording (t.documentOrder t.slots.size id)) := by
  obtain ⟨b, rfl, hb⟩ := exists_holds ht.linked ht.acyclic hid
  have hdraws : t.Draws b.label (b.map t.figure) := ⟨b, hb, rfl, rfl⟩
  rw [hdraws.text_eq ht.linked, hb.text_eq_wording hleafy, hb.documentOrder_size ht.linked]

/-! ## Another subtree in the place of one -/

/-- What lies below one of several branches is apart from the other ones. -/
theorem Holds.apart (ht : t.Tree) {before after : List (Branch NodeId)} {e f : Branch NodeId}
    (h : t.Holds (.node x (before ++ e :: after))) (hf : f ∈ before ++ after)
    (hp : t.Below e.label p) (hy : y ∈ f.labels) : ¬ t.Below p y := by
  obtain @⟨_, _, -, hchildren, hbelow⟩ := h
  have hfmem : f ∈ before ++ e :: after := by
    rcases List.mem_append.1 hf with hf | hf
    · exact List.mem_append_left _ hf
    · exact List.mem_append_right _ (List.mem_cons_of_mem _ hf)
  have hchild : ∀ g ∈ before ++ e :: after, g.label ∈ t.children x := fun g hg =>
    hchildren ▸ List.mem_map_of_mem hg
  have hne : f.label ≠ e.label := by
    have hnodup := ht.linked.nodup x
    rw [hchildren, List.map_append, List.map_cons, List.nodup_middle, ← List.map_append,
      List.nodup_cons] at hnodup
    exact fun heq => hnodup.1 (heq ▸ List.mem_map_of_mem hf)
  intro hpy
  refine hne (ht.eq_of_below_siblings (hchild f hfmem) (hchild e (by simp)) ?_ (hp.trans hpy))
  exact (hbelow f hfmem).mem_labels_iff.1 hy

/-- Where the nodes outside one subtree keep their children, and there is another subtree of the
    same top, a subtree that contains the first one contains the other one in its place. -/
theorem Holds.replaced (ht : t.Tree) (hd : t.Holds d) (hd' : t'.Holds d')
    (htop : d'.label = d.label) (hlive : ∀ y, t.Live y → ¬ t.Below d.label y → t'.Live y)
    (hsame : ∀ y, t.Live y → ¬ t.Below d.label y → t'.children y = t.children y) (h : t.Holds b) :
    d.label ∈ b.labels → ∃ b' front back, b'.label = b.label ∧ t'.Holds b' ∧
      b.labels = front ++ d.labels ++ back ∧ b'.labels = front ++ d'.labels ++ back := by
  have hb := h
  induction h with
  | @node x bs hx hchildren hbelow ih =>
    intro hmem
    by_cases heq : d.label = x
    · obtain rfl := hd.unique hb heq
      exact ⟨d', [], [], htop, hd', by simp, by simp⟩
    · rw [Branch.labels_node] at hmem
      obtain ⟨e, he, hde⟩ := List.mem_flatMap.1 ((List.mem_cons.1 hmem).resolve_left heq)
      obtain ⟨e', front, back, hlabel, he', hold, hnew⟩ := ih e he (hbelow e he) hde
      have hunder : t.Below e.label d.label := (hbelow e he).mem_labels_iff.1 hde
      have hxout : ¬ t.Below d.label x := fun hdx =>
        ht.acyclic.not_below (hchildren ▸ List.mem_map_of_mem he) (hunder.trans hdx)
      obtain ⟨before, after, rfl⟩ := List.append_of_mem he
      have hother : ∀ f ∈ before ++ e :: after, f ∈ before ++ after → t'.Holds f := by
        intro f hf hother
        have hout : ∀ y ∈ f.labels, ¬ t.Below d.label y := fun y => hb.apart ht hother hunder
        have hliving : ∀ y ∈ f.labels, t.Live y := fun y => (hbelow f hf).live
        exact (hbelow f hf).of_children (fun y hy => hlive y (hliving y hy) (hout y hy))
          fun y hy => hsame y (hliving y hy) (hout y hy)
      refine ⟨.node x (before ++ e' :: after), x :: before.flatMap Branch.labels ++ front,
        back ++ after.flatMap Branch.labels, rfl, .node (hlive x hx hxout) ?_ fun f hf => ?_,
        ?_, ?_⟩
      · rw [hsame x hx hxout, hchildren]
        simp [hlabel]
      · rcases List.mem_append.1 hf with hf | hf
        · exact hother f (List.mem_append_left _ hf) (List.mem_append_left _ hf)
        · rcases List.mem_cons.1 hf with rfl | hf
          · exact he'
          · exact hother f (List.mem_append_right _ (List.mem_cons_of_mem _ hf))
              (List.mem_append_right _ hf)
      · rw [Branch.labels_node, List.flatMap_append, List.flatMap_cons, hold]
        simp only [List.append_assoc, List.cons_append]
      · rw [Branch.labels_node, List.flatMap_append, List.flatMap_cons, hnew]
        simp only [List.append_assoc, List.cons_append]

/-- The nodes before and after a subtree in document order are not in it. -/
theorem Holds.around (hl : t.Linked) (hb : t.Holds b) (hd : t.Holds d) {front back : List NodeId}
    (horder : b.labels = front ++ d.labels ++ back) (hy : y ∈ front ∨ y ∈ back) :
    t.Live y ∧ ¬ t.Below d.label y := by
  have hnodup := hb.nodup hl
  rw [horder, List.nodup_append, List.nodup_append] at hnodup
  obtain ⟨⟨-, -, hfront⟩, -, hback⟩ := hnodup
  have hmem : y ∈ b.labels := by
    rw [horder]
    rcases hy with hy | hy <;> simp [hy]
  refine ⟨hb.live hmem, fun hbelow => ?_⟩
  have hin := hd.mem_labels_iff.2 hbelow
  rcases hy with hy | hy
  · exact hfront y hy y hin rfl
  · exact hback y (List.mem_append_right _ hin) y hy rfl

/-- The text of a node has a new text in the place of the subtree of another node, and is the old
    one before and after it. -/
def TextReplaced (t t' : HostTree α) (a id : NodeId) (text : String) : Prop :=
  ∃ front back own,
    t.documentOrder t.slots.size a = front ++ t.documentOrder t.slots.size id ++ back ∧
      t'.documentOrder t'.slots.size a = front ++ t'.documentOrder t'.slots.size id ++ back ∧
      t.text id = .ok own ∧ t.text a = .ok (t.wording front ++ own ++ t.wording back) ∧
      t'.text a = .ok (t.wording front ++ text ++ t.wording back)

/-- Where only a subtree has changed, the text of a node above it changes in the place of the
    subtree. -/
theorem textReplaced_above (ht : t.Tree) (ht' : t'.Tree) (hleafy : t.Leafy) (hleafy' : t'.Leafy)
    (hid : t.Live id) (hid' : t'.Live id)
    (hkept : ∀ y, t.Live y → ¬ t.Below id y → t'.node? y = t.node? y) {text : String}
    (htext : t'.text id = .ok text) {a : NodeId} (ha : t.Below a id) :
    t.TextReplaced t' a id text := by
  have hl := ht.linked
  have hl' := ht'.linked
  have hlive : ∀ y, t.Live y → ¬ t.Below id y → t'.Live y := fun y hy hout =>
    hy.of_node? (hkept y hy hout)
  obtain ⟨b, rfl, hb⟩ := exists_holds hl ht.acyclic (ha.live_above hid)
  obtain ⟨d, rfl, hd⟩ := exists_holds hl ht.acyclic hid
  obtain ⟨d', htop, hd'⟩ := exists_holds hl' ht'.acyclic hid'
  obtain ⟨b', front, back, hlabel, hb', hold, hnew⟩ := hd.replaced ht hd' htop hlive
    (fun y hy hout => children_eq_of_node?_eq (hkept y hy hout)) hb (hb.mem_labels_iff.2 ha)
  have hsame : ∀ y, y ∈ front ∨ y ∈ back → t'.figure y = t.figure y := by
    intro y hy
    obtain ⟨hy, hout⟩ := hb.around hl hd hold hy
    exact figure_eq_of_node?_eq (hkept y hy hout)
  have hfront : t'.wording front = t.wording front := wording_congr fun y hy => hsame y (.inl hy)
  have hback : t'.wording back = t.wording back := wording_congr fun y hy => hsame y (.inr hy)
  have hown : t'.wording d'.labels = text := by
    have hown := ht'.text_eq_wording hleafy' hid'
    rw [htext, ← htop, hd'.documentOrder_size hl', Except.ok.injEq] at hown
    exact hown.symm
  refine ⟨front, back, t.wording d.labels, ?_, ?_, ?_, ?_, ?_⟩
  · rw [hb.documentOrder_size hl, hd.documentOrder_size hl, hold]
  · rw [← hlabel, ← htop, hb'.documentOrder_size hl', hd'.documentOrder_size hl', hnew]
  · rw [ht.text_eq_wording hleafy hid, hd.documentOrder_size hl]
  · rw [ht.text_eq_wording hleafy hb.live_label, hb.documentOrder_size hl, hold]
    simp only [wording_append]
  · rw [← hlabel, ht'.text_eq_wording hleafy' hb'.live_label, hb'.documentOrder_size hl', hnew]
    simp only [wording_append, hfront, hown, hback]

/-! ## New content -/

/-- What lay below a former child that is a text is gone. -/
theorem setText_gone (h : t.Sound) {n : Node α} (hn : t.node? id = some n)
    (hkind : n.kind ≠ .text ∧ n.kind ≠ .placeholder) {text : String}
    (hset : t.setText id text = .ok t') (hc : c ∈ t.children id)
    (htext : (t.figure c).kind = .text) (hy : t.Below c y) : ¬ t'.Live y := by
  have hl := h.tree.linked
  have hstrip := h.strip ⟨n, hn⟩
  have hgone := hstrip.gone y ((not_clearOf_iff hl).2 ⟨c, mem_texts.2 ⟨hc, htext⟩, hy⟩)
  have hslots : EachSlot SlotEmptied t
      ((t.children id).foldl dropChild (t.relist id fun _ => [])) :=
    EachSlot.empty (touched_modify t id _).emptied (emptied_dropAll _)
  rw [setText_eq hn hkind, Except.ok.injEq] at hset
  subst hset
  split
  · exact hgone
  · obtain ⟨leaf, ha⟩ := appendText_spec hstrip.sound.tree.linked hstrip.live hstrip.empty text
    intro hlive
    by_cases hleaf : y = leaf
    · -- The new text may have the slot of an old one, but not its name.
      refine not_live_of_dead hslots (filled_append _ id _) ha.fresh ⟨_, ha.added⟩ ?_
      exact hleaf ▸ hy.live hl (hl.live hc)
    · exact hgone (hlive.of_content (ha.content y hleaf).symm)

/-- An element that shows a text contains no other node. -/
theorem ShowsText.parent?_ne {text : String} (h : t.ShowsText id text) (ht : t.Tree)
    (hkind : (t.figure c).kind ≠ .text) : t.parent? c ≠ some id := by
  intro hparent
  have hmem := ht.listed hparent
  rcases h with ⟨-, hempty⟩ | ⟨-, leaf, hchildren, hleaf⟩
  · rw [hempty] at hmem
    cases hmem
  · rw [hchildren, List.mem_singleton] at hmem
    rw [hmem, figure_of_node? hleaf] at hkind
    exact hkind rfl

/-- Below a child that is not a text there is nothing of the texts. -/
theorem Tree.clearOf_texts (ht : t.Tree) (hc : c ∈ t.children id) {n : Node α}
    (hn : t.node? c = some n) (hkind : n.kind ≠ .text) (hy : t.Below c y) :
    t.ClearOf (t.children id) y := by
  intro e he m hm htext hey
  obtain rfl := ht.eq_of_below_siblings he hc hey hy
  exact hkind (Option.some.inj (hn.symm.trans hm) ▸ htext)

/-- A former child that is not a text has no parent any more, and its subtree is as it was. -/
theorem setText_casts (h : t.Sound) {text : String} (hset : t.setText id text = .ok t')
    (hshows : t'.ShowsText id text) (hc : c ∈ t.children id) {n : Node α}
    (hn : t.node? c = some n) (hkind : n.kind ≠ .text) :
    t'.node? c = some { n with parent := none } ∧
      ∀ y, t.Below c y → y ≠ c → t'.node? y = t.node? y := by
  have ht := h.tree
  have hl := ht.linked
  have ht' := (h.setText hset).tree
  have hrefill := setText_refills h hset
  have hclear : ∀ y, t.Below c y → t.ClearOf (t.children id) y := fun y =>
    ht.clearOf_texts hc hn hkind
  have hsame : ∀ y, t.Below c y → t'.content y = t.content y ∧ t'.children y = t.children y := by
    intro y hy
    have hlive := hy.live hl ⟨n, hn⟩
    refine hrefill.same y hlive (hrefill.live y hlive (hclear y hy)) ?_
    rintro rfl
    exact ht.acyclic.not_below hc hy
  obtain ⟨hcontent, hchildren⟩ := hsame c (Below.refl t c)
  refine ⟨?_, fun y hy hne => ?_⟩
  · have hkind' : (t'.figure c).kind ≠ .text := by
      rwa [figure_eq_of_content_eq hcontent, figure_of_node? hn]
    have hparent : t'.parent? c = none := by
      refine (setText_keeps h hset ⟨n, hn⟩ (hclear c (Below.refl t c))).1.parent.resolve_right ?_
      rw [hl.child hc]
      exact hshows.parent?_ne ht' hkind'
    rw [node?_of_content hn hcontent, hparent, hchildren, children_of_node? hn]
  · obtain ⟨hcontent, hchildren⟩ := hsame y hy
    obtain ⟨q, hq, hcq⟩ := hl.below_parent hy hne
    refine node?_eq_of_content_eq hcontent ?_ hchildren
    rw [hq]
    exact ht'.linked.child ((hsame q hcq).2 ▸ ht.listed hq)

/-- The content of an element was replaced by a text, and nothing else was changed. -/
structure Rewritten (t t' : HostTree α) (id : NodeId) (text : String) : Prop where
  sound : t'.Sound
  own : t'.text id = .ok text
  shows : t'.ShowsText id text
  element : ∀ n, t.node? id = some n → t'.node? id = some { n with children := t'.children id }
  gone : ∀ c ∈ t.children id, (t.figure c).kind = .text → ∀ y, t.Below c y → ¬ t'.Live y
  cast : ∀ c ∈ t.children id, ∀ n, t.node? c = some n → n.kind ≠ .text →
    t'.node? c = some { n with parent := none } ∧
      ∀ y, t.Below c y → y ≠ c → t'.node? y = t.node? y
  kept : ∀ y, t.Live y → ¬ t.Below id y → t'.node? y = t.node? y
  whole : ∀ y, t'.Live y → t.Live y ∨ y ∈ t'.children id
  above : ∀ a, t.Below a id → t.TextReplaced t' a id text

/-- New texts have no children. -/
theorem Leafy.refilled (hleafy : t.Leafy) (h : t.Refilled t' id)
    (hkind : (t.figure id).kind ≠ .text ∧ (t.figure id).kind ≠ .placeholder) : t'.Leafy := by
  intro y hy
  by_cases hy' : t'.Live y
  · by_cases hlive : t.Live y
    · by_cases hne : y = id
      · rw [hne, h.kind] at hy
        exact absurd hy (not_or.2 hkind)
      · obtain ⟨hcontent, hchildren⟩ := h.same y hlive hy' hne
        rw [figure_eq_of_content_eq hcontent] at hy
        rw [hchildren]
        exact hleafy y hy
    · exact (h.new y hy' hlive).2.1
  · exact children_of_node?_none (not_live_iff.1 hy')

/-- A new text for an element replaces its content, and nothing else. -/
theorem setText_rewrites (h : t.Sound) (hleafy : t.Leafy) {n : Node α} (hn : t.node? id = some n)
    (helement : n.isElement = true) (text : String) :
    ∃ t', t.setText id text = .ok t' ∧ t.Rewritten t' id text := by
  have ht := h.tree
  have hkind := kind_ne_of_isElement helement
  obtain ⟨t', hset, htext⟩ :=
    setText_spec ht.linked hn hkind (fun c hc => ht.acyclic.not_below hc) text
  have h' := h.setText hset
  have hrefill := setText_refills h hset
  have helem : t'.node? id = some { n with children := t'.children id } :=
    node?_of_content_eq hn htext.content htext.parent
  have hself : t'.text id = .ok text := htext.shows.text_eq helem helement
  have hkept : ∀ y, t.Live y → ¬ t.Below id y → t'.node? y = t.node? y := fun y hy hout =>
    htext.kept y hy (fun heq => hout (heq ▸ Below.refl t y)) fun c hc hcy =>
      hout (Relation.ReflTransGen.head hc hcy)
  refine ⟨t', hset, ?_⟩
  constructor
  case sound => exact h'
  case own => exact hself
  case shows => exact htext.shows
  case element => exact fun m hm => Option.some.inj (hn.symm.trans hm) ▸ helem
  case gone => exact fun c hc hc' y => setText_gone h hn hkind hset hc hc'
  case cast => exact fun c hc m hm => setText_casts h hset htext.shows hc hm
  case kept => exact hkept
  case whole => exact fun y hy => or_iff_not_imp_left.2 fun hnew => (hrefill.new y hy hnew).1
  case above =>
    have hfigure : t.figure id = n.figure := figure_of_node? hn
    have hleafy' : t'.Leafy := hleafy.refilled hrefill (hfigure ▸ hkind)
    exact fun a ha => textReplaced_above ht h'.tree hleafy hleafy' ⟨n, hn⟩ ⟨_, helem⟩ hkept hself ha

/-- A list with texts around an item, which contains a text and an element with a text. -/
def verseHistory : List (HostOperation Unit) :=
  let list : NodeId := ⟨1, 0⟩
  let item : NodeId := ⟨3, 0⟩
  [.appendElement root "ul" [], .appendText list "a", .appendElement list "li" [],
    .appendText item "b", .appendElement item "em" [], .appendText ⟨5, 0⟩ "c", .appendText list "d"]

theorem verseHistory_permits : (empty : HostTree Unit).RunPermits verseHistory := by
  refine ⟨⟨fun p hp => ?_, nofun⟩, ⟨fun p hp => ?_, nofun⟩, ⟨fun p hp => ?_, nofun⟩,
    ⟨fun p hp => ?_, nofun⟩, ⟨fun p hp => ?_, nofun⟩, ⟨fun p hp => ?_, nofun⟩,
    ⟨fun p hp => ?_, nofun⟩, trivial⟩
  all_goals exact Option.some.inj hp ▸ ⟨_, rfl⟩

/-- The new text of the item has the slot of the old one, and the element that was in the item is
    on its own. -/
theorem verseHistory_rewrites :
    let t := (empty : HostTree Unit).run verseHistory
    t.Sound ∧ t.Leafy ∧ t.text ⟨1, 0⟩ = .ok "abcd" ∧
      ∃ t', t.setText ⟨3, 0⟩ "new" = .ok t' ∧ t.Rewritten t' ⟨3, 0⟩ "new" ∧
        t'.text ⟨1, 0⟩ = .ok "anewd" ∧ t'.children ⟨3, 0⟩ = [⟨4, 1⟩] ∧ ¬ t'.Live ⟨4, 0⟩ ∧
        t'.parent? ⟨5, 0⟩ = none ∧ t'.text ⟨5, 0⟩ = .ok "c" := by
  intro t
  have h : t.Sound := sound_empty.run verseHistory_permits
  have hleafy : t.Leafy := .of_ids (by decide +kernel)
  obtain ⟨t', hset, hrewritten⟩ := setText_rewrites h hleafy (show t.node? ⟨3, 0⟩ = some _ from rfl)
    rfl "new"
  have hgone := hrewritten.gone ⟨4, 0⟩ (by decide +kernel) (by decide +kernel) _ (Below.refl t _)
  have ht' : (t.setText ⟨3, 0⟩ "new").toOption.getD empty = t' := by
    rw [hset]
    rfl
  refine ⟨h, hleafy, by decide +kernel, t', hset, hrewritten, ?_, ?_, hgone, ?_, ?_⟩
  all_goals
    rw [← ht']
    decide +kernel

end ReactiveTemplate.HostTree
