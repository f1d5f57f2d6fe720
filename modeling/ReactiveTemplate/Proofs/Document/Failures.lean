import ReactiveTemplate.Proofs.Document.Lifetimes

/-!
# Failed operations

What an operation leaves behind when it fails. Almost all of them look at everything they need
before they change anything. Moving a node takes it out of its parent first and looks for its new
place then, and is left half done where that place is not there any more.

* `HostTree.Strays`: the moves that lose their place on the way.
* `HostTree.Strays.detaches`: they fail, and the node is left without a parent.
* `HostTree.keeps_of_error`: every other operation that fails leaves the document as it was.
* `HostTree.failure_keeps_document_or_strays`: both together.
-/

namespace ReactiveTemplate.HostTree

variable {α : Type} {t t' : HostTree α} {id p c old new anchor reference : NodeId} {e : HostError}

/-! ## Moves that lose their place -/

/-- An operation that takes a node out of its parent and then finds no place for it. -/
inductive Strays (t : HostTree α) : HostOperation α → NodeId → Prop
  /-- The node goes before one that is not among the other children of the parent. -/
  | before {p c reference : NodeId} (hp : t.Live p)
      (hplace : reference = c ∨ reference ∉ t.children p) :
      Strays t (.insertBefore p c (some reference)) c
  /-- The node goes after one that it comes right after already. -/
  | after {anchor c : NodeId} (hnext : t.nextSibling? anchor = some c) :
      Strays t (.insertAfter anchor c) c
  /-- The node goes into its own place. -/
  | itself {c : NodeId} : Strays t (.replace c c) c

theorem mem_of_following {ids : List NodeId} (h : following id ids = some c) : c ∈ ids := by
  induction ids with
  | nil => cases h
  | cons x ids ih =>
    rw [following] at h
    split at h
    · exact List.mem_cons_of_mem _ (List.mem_of_mem_head? h)
    · exact List.mem_cons_of_mem _ (ih h)

/-- The node after another is a child of the same parent. -/
theorem mem_of_nextSibling? (h : t.nextSibling? anchor = some c) :
    ∃ p, t.parent? anchor = some p ∧ c ∈ t.children p := by
  obtain ⟨p, hp, hnext⟩ := Option.bind_eq_some_iff.1 h
  exact ⟨p, hp, mem_of_following hnext⟩

theorem insertBefore_strays (h : t.Sound) (hp : t.Live p) (hc : t.Live c)
    (hplace : reference = c ∨ reference ∉ t.children p) :
    ∃ e t', t.insertBefore p c (some reference) = (.error e, t') ∧ t.Detached t' c := by
  obtain ⟨t', hdetach, hd⟩ := detach_spec h hc
  refine ⟨.notAChild (t'.describe p) (t'.describe reference), t', ?_, hd⟩
  rw [insertBefore_reference hp hdetach, hd.idxOf?_eq_none.2 hplace]

theorem replace_self_strays (h : t.Sound) (hparent : t.parent? c = some p) :
    ∃ e t', t.replace c c = (.error e, t') ∧ t.Detached t' c := by
  obtain ⟨t', hdetach, hd⟩ := detach_spec h (live_of_parent? hparent)
  obtain ⟨n, hn⟩ := live_of_parent? hparent
  obtain ⟨q, hq⟩ := hd.live (h.tree.live_parent hparent)
  have hidx : q.children.idxOf? c = none := by
    rw [← children_of_node? hq]
    exact hd.idxOf?_eq_none.2 (.inl rfl)
  rw [parent?_of_node? hn] at hparent
  refine ⟨.detached (t'.describe c), t', ?_, hd⟩
  simp only [HostTree.replace, get_of_node? hn, hparent, hdetach, get_of_node? hq, hidx]

/-- A move that loses its place fails, and all it has done is to take the node out. -/
theorem Strays.detaches (h : t.Sound) {op : HostOperation α} (hop : t.Strays op c)
    (hparent : t.parent? c = some p) :
    ∃ e t', t.perform op = (.error e, t') ∧ t.Detached t' c := by
  have hc := live_of_parent? hparent
  cases hop with
  | before hlive hplace => exact insertBefore_strays h hlive hc hplace
  | @after anchor _ hnext =>
    obtain ⟨q, hq, hmem⟩ := mem_of_nextSibling? hnext
    have hafter : t.insertAfter anchor c = t.insertBefore q c (some c) := by
      rw [insertAfter, hq, hnext]
    rw [perform, hafter]
    exact insertBefore_strays h (live_of_mem_children hmem) hc (.inl rfl)
  | itself => exact replace_self_strays h hparent

/-! ## All other failures -/

theorem settle_of_error {outcome : Except HostError (HostTree α)}
    (hfail : (t.settle outcome).1 = .error e) : (t.settle outcome).2 = t := by
  cases outcome with
  | error _ => rfl
  | ok _ => cases hfail

/-- A copy fails only where there is nothing to copy. -/
theorem cloneNode_of_error (h : t.Sound) (hfail : (t.cloneNode id).1.map (fun _ => ()) = .error e) :
    (t.cloneNode id).2 = t := by
  cases hid : t.node? id with
  | none => rw [HostTree.cloneNode, HostTree.cloneWithin, get_dead hid]
  | some n =>
    obtain ⟨b, rfl, hb⟩ := exists_holds h.tree.linked h.tree.acyclic ⟨n, hid⟩
    obtain ⟨copy, t', hclone, -⟩ := cloneNode_spec h.tree.linked hb
    rw [hclone] at hfail
    cases hfail

/-- An insertion that fails has found one of the nodes missing, or loses its place. -/
theorem insertBefore_of_error (h : t.Sound) {before : Option NodeId}
    (hfail : (t.insertBefore p c before).1 = .error e)
    (hplace : ∀ reference, before = some reference → t.Live p →
      reference = c ∨ reference ∉ t.children p → t.parent? c = none) :
    (t.insertBefore p c before).2 = t := by
  cases hp : t.node? p with
  | none => rw [insertBefore, get_dead hp]
  | some n =>
    cases hc : t.node? c with
    | none => rw [insertBefore, get_of_node? hp, detach_dead hc]
    | some m =>
      obtain ⟨t', hdetach, hd⟩ := detach_spec h ⟨m, hc⟩
      cases before with
      | none =>
        rw [insertBefore, get_of_node? hp, hdetach] at hfail
        cases hfail
      | some reference =>
        rw [insertBefore_reference ⟨n, hp⟩ hdetach] at hfail ⊢
        cases hidx : (t'.children p).idxOf? reference with
        | some position =>
          rw [hidx] at hfail
          cases hfail
        | none =>
          -- A node without a parent is taken out of nothing.
          have hfree := hplace reference rfl ⟨n, hp⟩ (hd.idxOf?_eq_none.1 hidx)
          rw [detach_of_parent?_none ⟨m, hc⟩ hfree] at hdetach
          exact (Except.ok.inj hdetach).symm

theorem insertAfter_of_error (h : t.Sound) (hfail : (t.insertAfter anchor c).1 = .error e)
    (hplace : t.nextSibling? anchor = some c → t.parent? c = none) :
    (t.insertAfter anchor c).2 = t := by
  cases hp : t.parent? anchor with
  | none => rw [insertAfter, hp]
  | some p =>
    rw [insertAfter, hp] at hfail ⊢
    refine insertBefore_of_error h hfail fun reference hnext _ hor => ?_
    obtain ⟨q, hq, hmem⟩ := mem_of_nextSibling? hnext
    obtain rfl : p = q := Option.some.inj (hp.symm.trans hq)
    obtain rfl : reference = c := hor.resolve_right (not_not.2 hmem)
    exact hplace hnext

theorem replace_of_error (h : t.Sound) (hfail : (t.replace old new).1 = .error e)
    (hplace : old = new → t.parent? old = none) : (t.replace old new).2 = t := by
  cases hold : t.node? old with
  | none => rw [HostTree.replace, get_dead hold]
  | some n =>
    cases hparent : t.parent? old with
    | none =>
      rw [parent?_of_node? hold] at hparent
      simp only [HostTree.replace, get_of_node? hold, hparent]
    | some p =>
      have hne : old ≠ new := by
        intro heq
        rw [hplace heq] at hparent
        cases hparent
      rw [parent?_of_node? hold] at hparent
      cases hnew : t.node? new with
      | none => simp only [HostTree.replace, get_of_node? hold, hparent, detach_dead hnew]
      | some m =>
        obtain ⟨t', hdetach, hd⟩ := detach_spec h ⟨m, hnew⟩
        have hlisted := h.tree.listed ((parent?_of_node? hold).trans hparent)
        obtain ⟨q, hq⟩ := hd.live (live_of_mem_children hlisted)
        have hidx : q.children.idxOf? old ≠ none := by
          rw [← children_of_node? hq, Ne, hd.idxOf?_eq_none]
          exact not_or.2 ⟨hne, not_not.2 hlisted⟩
        obtain ⟨position, hposition⟩ := Option.ne_none_iff_exists'.1 hidx
        simp only [HostTree.replace, get_of_node? hold, hparent, hdetach, get_of_node? hq,
          hposition] at hfail
        cases hfail

/-- An operation that fails, and does not lose its place on the way, changes nothing. -/
theorem keeps_of_error (h : t.Sound) {op : HostOperation α} (hfail : (t.perform op).1 = .error e)
    (hplace : ∀ c, t.Strays op c → t.parent? c = none) : (t.perform op).2 = t := by
  cases op with
  | appendElement | appendText | createPlaceholder => cases hfail
  | cloneNode id => exact cloneNode_of_error h hfail
  | insertBefore p c before =>
    refine insertBefore_of_error h hfail fun reference hbefore hp hor => hplace c ?_
    exact hbefore ▸ .before hp hor
  | insertAfter anchor c => exact insertAfter_of_error h hfail fun hnext => hplace c (.after hnext)
  | replace old new =>
    refine replace_of_error h hfail fun heq => hplace old ?_
    exact heq ▸ .itself
  | remove | discard | destroy | setText | setAttribute | setStyle | setValue | addListener
  | removeListener => exact settle_of_error hfail

/-- An operation that fails leaves the whole document as it was, with one exception: a move that
    loses its place leaves the node that it took out of its parent without one. -/
theorem failure_keeps_document_or_strays (h : t.Sound) (op : HostOperation α) :
    (∀ e, (t.perform op).1 = .error e → (∀ c, t.Strays op c → t.parent? c = none) →
      (t.perform op).2 = t) ∧
    ∀ c p, t.Strays op c → t.parent? c = some p →
      ∃ e t', t.perform op = (.error e, t') ∧ t.Detached t' c :=
  ⟨fun _ hfail hplace => keeps_of_error h hfail hplace, fun _ _ hop hparent => hop.detaches h hparent⟩

/-- A placeholder below a list is to go before itself at the top of the document, and is lost; the
    document node cannot be destroyed, and nothing is lost. -/
theorem gap_strays_and_root_stays :
    let t := (empty : HostTree Unit).run (listHistory.take 3)
    let gap : NodeId := ⟨2, 0⟩
    (∃ e t', t.perform (.insertBefore root gap (some gap)) = (.error e, t') ∧ t.Detached t' gap) ∧
      (t.perform (.destroy root)).2 = t := by
  intro t gap
  have hpermits : (empty : HostTree Unit).RunPermits (listHistory.take 3 ++ listHistory.drop 3) :=
    listHistory_permits
  have h : t.Sound := sound_empty.run hpermits.append.1
  refine ⟨(failure_keeps_document_or_strays h _).2 gap ⟨1, 0⟩ ?_ rfl,
    (failure_keeps_document_or_strays h _).1 _ rfl nofun⟩
  exact .before ⟨_, rfl⟩ (.inl rfl)

end ReactiveTemplate.HostTree
