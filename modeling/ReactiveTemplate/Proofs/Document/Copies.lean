import ReactiveTemplate.Proofs.Document.Moves

/-!
# Copies of subtrees

Copying a subtree leaves all nodes of the document as they are, and adds a subtree of the
same shape whose nodes are new.

* `HostTree.Copied`: what a copy adds.
* `HostTree.cloneNode_spec`: copying succeeds, with enough levels for any subtree.
-/

namespace ReactiveTemplate.HostTree

variable {α : Type} {t t' : HostTree α} {parent : NodeId} {b c : Branch NodeId}

/-- What copying a subtree does. -/
structure Copied (t t' : HostTree α) (b c : Branch NodeId) : Prop where
  linked : t'.Linked
  kept : ∀ y, t.Live y → t'.node? y = t.node? y
  holds : t'.Holds c
  shape : c.map t'.figure = b.map t.figure
  loose : t'.parent? c.label = none
  fresh : ∀ y ∈ c.labels, ¬ t.Live y
  rest : ∀ y n, t'.node? y = some n → t.node? y = some n ∨ n.listeners = []
  whole : ∀ y, t'.Live y → t.Live y ∨ y ∈ c.labels

/-- What copying several subtrees into a parent does. -/
structure CopiedInto (t t' : HostTree α) (parent : NodeId) (bs cs : List (Branch NodeId)) :
    Prop where
  linked : t'.Linked
  kept : ∀ y, t.Live y → y ≠ parent → t'.node? y = t.node? y
  content : t'.content parent = t.content parent
  above : t'.parent? parent = t.parent? parent
  children : t'.children parent = t.children parent ++ cs.map Branch.label
  holds : ∀ c ∈ cs, t'.Holds c
  shape : cs.map (Branch.map t'.figure) = bs.map (Branch.map t.figure)
  fresh : ∀ c ∈ cs, ∀ y ∈ c.labels, ¬ t.Live y
  rest : ∀ y n, t'.node? y = some n → y ≠ parent → t.content y = t'.content y ∨ n.listeners = []
  whole : ∀ y, t'.Live y → t.Live y ∨ y ∈ cs.flatMap Branch.labels

/-- A copy among the children of a parent. -/
theorem Copied.adopt (hl : t.Linked) (h : t.Copied t' b c) (hparent : t.Live parent) :
    t.CopiedInto ((t'.reparent c.label (some parent)).relist parent fun ids => ids ++ [c.label])
      parent [b] [c] := by
  have hp : t'.Live parent := hparent.of_node? (h.kept parent hparent)
  have hne : ∀ y, t.Live y → y ≠ c.label := fun y hy heq =>
    h.fresh c.label c.label_mem_labels (heq ▸ hy)
  have hc := h.holds.live_label
  have hp₁ : (t'.reparent c.label (some parent)).Live parent := live_reparent hp _ _
  have hchildren : ∀ q, ((t'.reparent c.label (some parent)).relist parent fun ids =>
      ids ++ [c.label]).children q =
        if q = parent then t.children parent ++ [c.label] else t'.children q := by
    intro q
    rw [children_relist hp₁, children_reparent, children_reparent]
    split
    · rw [children_eq_of_node?_eq (h.kept parent hparent)]
    · rfl
  have hparent' : ∀ y, ((t'.reparent c.label (some parent)).relist parent fun ids =>
      ids ++ [c.label]).parent? y = if y = c.label then some parent else t'.parent? y := by
    intro y
    rw [parent?_relist, parent?_reparent hc]
  have hcontent : ∀ y, ((t'.reparent c.label (some parent)).relist parent fun ids =>
      ids ++ [c.label]).content y = t'.content y := by
    intro y
    rw [content_relist, content_reparent]
  have hroot : c.label ≠ root := (hne root hl.rooted).symm
  refine ⟨?_, fun y hy hyp => ?_, ?_, ?_, ?_, ?_, ?_, ?_, fun y n hn _ => ?_, fun y hy => ?_⟩
  · refine h.linked.link hroot h.loose (h.linked.rooted.of_content (hcontent root))
      ((h.linked.free.modify c.label _).modify parent _) hparent' (fun q hq => ?_) ?_
    · rw [hchildren, if_neg hq]
    · rw [hchildren, if_pos rfl, children_eq_of_node?_eq (h.kept parent hparent)]
      exact List.perm_append_singleton _ _
  · rw [← h.kept y hy]
    refine node?_eq_of_content_eq (hcontent y) ?_ ?_
    · rw [hparent', if_neg (hne y hy)]
    · rw [hchildren, if_neg hyp]
  · rw [hcontent, content_eq_of_node?_eq (h.kept parent hparent)]
  · rw [hparent', if_neg (hne parent hparent), parent?_eq_of_node?_eq (h.kept parent hparent)]
  · rw [hchildren, if_pos rfl]
    rfl
  · intro d hd
    rw [List.mem_singleton.1 hd]
    have hout : ∀ y ∈ c.labels, y ≠ parent := fun y hy heq => h.fresh y hy (heq ▸ hparent)
    refine h.holds.of_children (fun y hy => (h.holds.live hy).of_content (hcontent y)) fun y hy => ?_
    rw [hchildren, if_neg (hout y hy)]
  · rw [List.map_singleton, List.map_singleton, ← h.shape]
    congr 1
    exact c.map_congr fun y _ => figure_eq_of_content_eq (hcontent y)
  · intro d hd
    rw [List.mem_singleton.1 hd]
    exact h.fresh
  · have hy := hcontent y
    rw [content_of_node? hn] at hy
    cases hm : t'.node? y with
    | none =>
      rw [content, hm] at hy
      cases hy
    | some m =>
      rcases h.rest y m hm with heq | hempty
      · left
        rw [hcontent, content_of_node? hm, content_of_node? heq]
      · right
        rw [content_of_node? hm, Option.some.injEq] at hy
        exact (congrArg Node.listeners hy).trans hempty
  · rw [List.flatMap_singleton]
    exact h.whole y (hy.of_content (hcontent y).symm)

theorem CopiedInto.live {bs cs : List (Branch NodeId)} (h : t.CopiedInto t' parent bs cs)
    (hparent : t.Live parent) {y : NodeId} (hy : t.Live y) : t'.Live y := by
  by_cases hne : y = parent
  · exact hne ▸ hparent.of_content h.content
  · exact hy.of_node? (h.kept y hy hne)

/-- Copies of one subtree and of further ones. -/
theorem CopiedInto.cons {t₁ : HostTree α} {bs cs : List (Branch NodeId)}
    (h : t.CopiedInto t₁ parent [b] [c]) (h' : t₁.CopiedInto t' parent bs cs)
    (hparent : t.Live parent) (hbs : ∀ d ∈ bs, t.Holds d ∧ parent ∉ d.labels) :
    t.CopiedInto t' parent (b :: bs) (c :: cs) := by
  have hnew : ∀ y ∈ c.labels, t₁.Live y ∧ y ≠ parent := by
    intro y hy
    refine ⟨(h.holds c (by simp)).live hy, ?_⟩
    rintro rfl
    exact h.fresh c (by simp) y hy hparent
  refine ⟨h'.linked, fun y hy hne => ?_, ?_, ?_, ?_, fun d hd => ?_, ?_, fun d hd y hy => ?_,
    fun y n hn hne => ?_, fun y hy => ?_⟩
  · rw [h'.kept y (h.live hparent hy) hne, h.kept y hy hne]
  · rw [h'.content, h.content]
  · rw [h'.above, h.above]
  · rw [h'.children, h.children, List.map_singleton, List.append_assoc]
    rfl
  · rcases List.mem_cons.1 hd with rfl | hd
    · exact (h.holds d (by simp)).frame fun y hy => h'.kept y (hnew y hy).1 (hnew y hy).2
    · exact h'.holds d hd
  · have hfirst := h.shape
    rw [List.map_singleton, List.map_singleton, List.cons.injEq] at hfirst
    have hsame : ∀ y ∈ c.labels, t'.figure y = t₁.figure y := fun y hy =>
      figure_eq_of_node?_eq (h'.kept y (hnew y hy).1 (hnew y hy).2)
    rw [List.map_cons, List.map_cons, c.map_congr hsame, hfirst.1, h'.shape]
    congr 1
    refine List.map_congr_left fun d hd => d.map_congr fun y hy => ?_
    obtain ⟨hholds, hnot⟩ := hbs d hd
    refine figure_eq_of_node?_eq (h.kept y (hholds.live hy) ?_)
    rintro rfl
    exact hnot hy
  · rcases List.mem_cons.1 hd with rfl | hd
    · exact h.fresh d (by simp) y hy
    · exact fun hlive => h'.fresh d hd y hy (h.live hparent hlive)
  · rcases h'.rest y n hn hne with heq | hempty
    · have hy : t₁.Live y := Live.of_content ⟨n, hn⟩ heq
      obtain ⟨m, hm⟩ := hy
      rcases h.rest y m hm hne with heq' | hempty
      · exact .inl (heq'.trans heq)
      · right
        rw [content_of_node? hm, content_of_node? hn, Option.some.injEq] at heq
        exact (congrArg Node.listeners heq).symm.trans hempty
    · exact .inr hempty
  · rw [List.flatMap_cons, List.mem_append]
    rcases h'.whole y hy with hy | hy
    · exact (h.whole y hy).imp_right fun hmem => .inl (by rwa [List.flatMap_singleton] at hmem)
    · exact .inr (.inr hy)

/-- Copying subtrees one after the other, where each can be copied on its own. -/
theorem cloneEach_spec (clone : HostTree α → NodeId → Except HostError NodeId × HostTree α)
    {bs : List (Branch NodeId)}
    (hclone : ∀ b ∈ bs, ∀ t : HostTree α, t.Linked → t.Holds b →
      ∃ c t', clone t b.label = (.ok c.label, t') ∧ t.Copied t' b c) :
    ∀ {t : HostTree α}, t.Linked → t.Live parent →
      (∀ b ∈ bs, t.Holds b ∧ parent ∉ b.labels) →
        ∃ cs t', cloneEach clone parent (bs.map Branch.label) t = (.ok (), t') ∧
          t.CopiedInto t' parent bs cs := by
  induction bs with
  | nil =>
    intro t hl _ _
    refine ⟨[], t, rfl, hl, fun _ _ _ => rfl, rfl, rfl, ?_, nofun, rfl, nofun,
      fun _ _ _ _ => .inl rfl, fun _ hy => .inl hy⟩
    rw [List.map_nil, List.append_nil]
  | cons b bs ih =>
    intro t hl hparent hbs
    obtain ⟨c, t₁, hcopy, h₁⟩ := hclone b (by simp) t hl (hbs b (by simp)).1
    have hadopted := h₁.adopt hl hparent
    have hbs' : ∀ d ∈ bs, t.Holds d ∧ parent ∉ d.labels := fun d hd =>
      hbs d (List.mem_cons_of_mem _ hd)
    obtain ⟨cs, t', heach, h'⟩ := ih (fun d hd => hclone d (List.mem_cons_of_mem _ hd))
      hadopted.linked (hadopted.live hparent hparent) fun d hd => by
        obtain ⟨hholds, hnot⟩ := hbs' d hd
        refine ⟨hholds.frame fun y hy => hadopted.kept y (hholds.live hy) ?_, hnot⟩
        rintro rfl
        exact hnot hy
    refine ⟨c :: cs, t', ?_, hadopted.cons h' hparent hbs'⟩
    rw [List.map_cons, cloneEach, hcopy]
    exact heach

section Top

variable {id : NodeId} {n node : Node α} {bs : List (Branch NodeId)}

theorem live_allocate (hl : t.Linked) (node : Node α) {y : NodeId} (hy : t.Live y) :
    y ≠ (t.allocate node).1 ∧ (t.allocate node).2.node? y = t.node? y := by
  have hne : y ≠ (t.allocate node).1 := by
    rintro rfl
    obtain ⟨m, hm⟩ := hy
    rw [node?_allocate_fresh hl.free node] at hm
    cases hm
  exact ⟨hne, by rw [node?_allocate hl.free node, if_neg hne]⟩

/-- A new node like another one, and copies of what lies below the other, are a copy of it. -/
theorem CopiedInto.top {cs : List (Branch NodeId)} (hl : t.Linked) (hn : t.node? id = some n)
    (hbs : ∀ d ∈ bs, t.Holds d) (hfigure : node.figure = n.figure) (hparent : node.parent = none)
    (hchildren : node.children = []) (hlisteners : node.listeners = [])
    (h : (t.allocate node).2.CopiedInto t' (t.allocate node).1 bs cs) :
    t.Copied t' (.node id bs) (.node (t.allocate node).1 cs) := by
  let copy := (t.allocate node).1
  let t₁ := (t.allocate node).2
  have hnode : ∀ y, t₁.node? y = if y = copy then some node else t.node? y :=
    node?_allocate hl.free node
  have hcopy : t₁.node? copy = some node := by rw [hnode, if_pos rfl]
  have hne : ∀ y, t.Live y → y ≠ copy := fun y hy => (live_allocate hl node hy).1
  have hsame : ∀ y, t.Live y → t₁.node? y = t.node? y := fun y hy => (live_allocate hl node hy).2
  have hlive₁ : ∀ y, t.Live y → t₁.Live y := fun y hy => hy.of_node? (hsame y hy)
  constructor
  case linked => exact h.linked
  case kept =>
    intro y hy
    rw [h.kept y (hlive₁ y hy) (hne y hy), hsame y hy]
  case holds =>
    refine .node (h.live ⟨node, hcopy⟩ ⟨node, hcopy⟩) ?_ h.holds
    rw [h.children, children_of_node? hcopy, hchildren, List.nil_append]
  case shape =>
    have htop : t'.figure copy = t.figure id := by
      rw [figure_eq_of_content_eq h.content, figure_of_node? hcopy, figure_of_node? hn, hfigure]
    rw [Branch.map_node, Branch.map_node, htop, h.shape]
    congr 1
    exact List.map_congr_left fun d hd => d.map_congr fun y hy =>
      figure_eq_of_node?_eq (hsame y ((hbs d hd).live hy))
  case loose => rw [Branch.label, h.above, parent?_of_node? hcopy, hparent]
  case fresh =>
    intro y hy hylive
    rw [Branch.labels_node] at hy
    rcases List.mem_cons.1 hy with rfl | hy
    · exact hne _ hylive rfl
    · obtain ⟨d, hd, hy⟩ := List.mem_flatMap.1 hy
      exact h.fresh d hd y hy (hlive₁ y hylive)
  case rest =>
    intro y m hm
    by_cases hy : t.Live y
    · left
      rw [← hsame y hy, ← h.kept y (hlive₁ y hy) (hne y hy), hm]
    · right
      by_cases hyc : y = copy
      · have hcontent := h.content
        rw [hyc] at hm
        rw [content_of_node? hm, content_of_node? hcopy, Option.some.injEq] at hcontent
        exact (congrArg Node.listeners hcontent).trans hlisteners
      · rcases h.rest y m hm hyc with heq | hempty
        · obtain ⟨k, hk⟩ : t₁.Live y := Live.of_content ⟨m, hm⟩ heq
          rw [hnode, if_neg hyc] at hk
          exact absurd ⟨k, hk⟩ hy
        · exact hempty
  case whole =>
    intro y hy
    rw [Branch.labels_node, List.mem_cons]
    rcases h.whole y hy with ⟨m, hm⟩ | hmem
    · rw [hnode] at hm
      split at hm
      · next heq => exact .inr (.inl heq)
      · exact .inl ⟨m, hm⟩
    · exact .inr (.inr hmem)

end Top

theorem cloneWithin_spec (depth : Nat) :
    ∀ {t : HostTree α} {b : Branch NodeId}, t.Linked → t.Holds b → b.labels.length ≤ depth →
      ∃ c t', cloneWithin depth t b.label = (.ok c.label, t') ∧ t.Copied t' b c := by
  induction depth with
  | zero =>
    intro t b _ _ hlength
    have hmem := b.label_mem_labels
    rw [List.eq_nil_of_length_eq_zero (Nat.le_zero.1 hlength)] at hmem
    cases hmem
  | succ depth ih =>
    intro t b hl hb hlength
    cases hb with
    | @node id bs hlive hchildren hbelow =>
      obtain ⟨n, hn⟩ := hlive
      let node : Node α := { n with parent := none, children := [], listeners := [] }
      have hcopy : (t.allocate node).2.Live (t.allocate node).1 :=
        ⟨node, by rw [node?_allocate hl.free node, if_pos rfl]⟩
      have hshorter : ∀ d ∈ bs, d.labels.length ≤ depth := by
        intro d hd
        have hlt := Branch.length_labels_lt (b := id) hd
        omega
      obtain ⟨cs, t', heach, h'⟩ := cloneEach_spec (cloneWithin depth)
        (fun d hd t ht hdt => ih ht hdt (hshorter d hd)) (hl.allocate rfl) hcopy fun d hd =>
          ⟨(hbelow d hd).frame fun y hy => (live_allocate hl node ((hbelow d hd).live hy)).2,
            fun hmem => (live_allocate hl node ((hbelow d hd).live hmem)).1 rfl⟩
      refine ⟨.node (t.allocate node).1 cs, t', ?_, h'.top hl hn hbelow rfl rfl rfl rfl⟩
      have hcs : n.children = bs.map Branch.label := by rw [← children_of_node? hn, hchildren]
      rw [Branch.label, cloneWithin, get_of_node? hn]
      dsimp only
      rw [hcs, heach]
      rfl

/-- Copying a subtree gives a new one of the same shape. -/
theorem cloneNode_spec (hl : t.Linked) (hb : t.Holds b) :
    ∃ c t', t.cloneNode b.label = (.ok c.label, t') ∧ t.Copied t' b c :=
  cloneWithin_spec _ hl hb ((hb.length_le hl).trans (Nat.le_succ _))

end ReactiveTemplate.HostTree
