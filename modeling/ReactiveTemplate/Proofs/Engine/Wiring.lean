import Mathlib.Data.List.Forall2
import ReactiveTemplate.Engine.Registration
import ReactiveTemplate.Proofs.Document.Nodes
import ReactiveTemplate.Proofs.Engine.Pages
import ReactiveTemplate.Proofs.Grammar.Trimming

/-!
# Wiring of events

What an attribute for events does whose text was put together from events and actions. It is
taken apart again, one listener for each pair, as long as no action holds a semicolon. The
entries are cut at each semicolon, also at one in a quoted text, and what such an action is
cut to is reported.

* `eventEntries_eventText`: the entries of a text that was put together.
* `Page.registerEntry_journal`, `Page.registerEntries_journal`: what is reported on the way.
* `Page.registerEntries_wires`: listeners in the order of the pairs.
* `Page.register_events_wires`: both cases.
-/

namespace ReactiveTemplate

/-! ## White space -/

namespace Text

theorem dropWhile_of_trimmed {cs : List Char} (h : trimChars cs = cs) :
    cs.dropWhile isBlank = cs := by
  have hback : trimChars cs <+: cs.dropWhile isBlank := List.rdropWhile_prefix isBlank _
  rw [h] at hback
  exact (List.dropWhile_suffix isBlank).eq_of_length_le hback.length_le

theorem trimChars_cons_of_blank {c : Char} (hc : isBlank c = true) (cs : List Char) :
    trimChars (c :: cs) = trimChars cs := by
  rw [trimChars, List.dropWhile_cons_of_pos hc]
  rfl

theorem trimChars_append_of_blank (cs : List Char) {tail : List Char}
    (htail : ∀ c ∈ tail, isBlank c = true) : trimChars (cs ++ tail) = trimChars cs := by
  have hrev : ∀ c ∈ tail.reverse, isBlank c = true := fun c hc => htail c (List.mem_reverse.1 hc)
  rw [trimChars, trimChars, List.dropWhile_append]
  split
  · next hempty => rw [List.isEmpty_iff.1 hempty, List.dropWhile_eq_nil_iff.2 htail]
  · rw [List.reverse_append, List.dropWhile_append_of_pos hrev]

/-- Blanks are cut off the end of what stands behind a character that is none. -/
theorem trimChars_append_cons {front : List Char} (hfront : trimChars front = front)
    (hne : front ≠ []) {c : Char} (hc : isBlank c = false) (back : List Char) :
    trimChars (front ++ c :: back) = front ++ c :: back.rdropWhile isBlank := by
  have hdrop : (front ++ c :: back).dropWhile isBlank = front ++ c :: back := by
    rw [List.dropWhile_append, dropWhile_of_trimmed hfront]
    exact if_neg (by simpa using hne)
  have hend : (c :: front.reverse).dropWhile isBlank = c :: front.reverse :=
    List.dropWhile_cons_of_neg (by simp [hc])
  have hback : (back.reverse ++ (c :: front.reverse)).dropWhile isBlank =
      back.reverse.dropWhile isBlank ++ (c :: front.reverse) := by
    rw [List.dropWhile_append, hend]
    split
    · next hempty => rw [List.isEmpty_iff.1 hempty, List.nil_append]
    · rfl
  have hreverse : (front ++ c :: back).reverse = back.reverse ++ (c :: front.reverse) := by simp
  rw [trimChars, hdrop, hreverse, hback]
  simp [List.rdropWhile]

theorem trimChars_rdropWhile (cs : List Char) :
    trimChars (cs.rdropWhile isBlank) = trimChars cs := by
  have htail : ∀ c ∈ cs.rtakeWhile isBlank, isBlank c = true := fun c hc =>
    List.mem_rtakeWhile_imp hc
  have h := trimChars_append_of_blank (cs.rdropWhile isBlank) htail
  rw [List.rdropWhile_append_rtakeWhile] at h
  exact h.symm

theorem cutAtFirst?_append {separator : Char} {before : List Char} (hbefore : separator ∉ before)
    (after : List Char) :
    cutAtFirst? separator (before ++ separator :: after) = some (before, after) := by
  induction before with
  | nil => exact if_pos rfl
  | cons c cs ih =>
    rw [List.mem_cons, not_or] at hbefore
    rw [List.cons_append, cutAtFirst?, if_neg (Ne.symm hbefore.1), ih hbefore.2]
    rfl

end Text

/-! ## Entries -/

/-- A name that can stand before the colon of an entry. -/
structure IsEventName (event : String) : Prop where
  ne_empty : event ≠ ""
  trimmed : Text.trim event = event
  colon : ':' ∉ event.toList
  semicolon : ';' ∉ event.toList

/-- The entry that asks for an action on an event. -/
def eventEntry (pair : String × String) : String := pair.1 ++ ": " ++ pair.2

/-- The text that asks for actions on events, each event with the text of its action. -/
def eventText (pairs : List (String × String)) : String := "; ".intercalate (pairs.map eventEntry)

theorem eventEntries_append_semicolon (a b : String) :
    eventEntries (a ++ ";" ++ b) = eventEntries a ++ eventEntries b := by
  have hlist : (a ++ ";" ++ b).toList = a.toList ++ ';' :: b.toList := by simp
  simp only [eventEntries, hlist, Text.pieces_append_separator, List.map_cons, List.map_append]
  rw [← List.filter_append, List.cons_append]

theorem eventEntries_append_blank (b : String) : eventEntries (" " ++ b) = eventEntries b := by
  have hlist : (" " ++ b).toList = ' ' :: b.toList := by simp
  have htrim : ∀ cs : List Char, Text.trim (String.ofList (' ' :: cs)) =
      Text.trim (String.ofList cs) := by
    intro cs
    rw [Text.trim, Text.trim, String.toList_ofList, String.toList_ofList,
      Text.trimChars_cons_of_blank (by decide)]
  have hblank : ' ' ≠ ';' := by decide
  simp only [eventEntries, hlist, Text.pieces, if_neg hblank, List.map_cons, htrim]

/-- The entries of a text that was put together are those of its parts. -/
theorem eventEntries_eventText (pairs : List (String × String)) :
    eventEntries (eventText pairs) = pairs.flatMap fun pair => eventEntries (eventEntry pair) := by
  induction pairs with
  | nil => decide
  | cons pair rest ih =>
    cases rest with
    | nil => simp [eventText]
    | cons other rest =>
      have hjoin : eventText (pair :: other :: rest) =
          eventEntry pair ++ ";" ++ (" " ++ eventText (other :: rest)) := by
        have hseparator : "; " = ";" ++ " " := rfl
        rw [eventText, List.map_cons, List.map_cons, String.intercalate_cons_cons, eventText,
          List.map_cons]
        generalize "; ".intercalate (eventEntry other :: rest.map eventEntry) = back
        rw [hseparator]
        simp only [String.append_assoc]
      rw [List.flatMap_cons, ← ih, hjoin, eventEntries_append_semicolon, eventEntries_append_blank]

theorem eventEntries_of_not_mem {text : String} (h : ';' ∉ text.toList)
    (hne : Text.trim text ≠ "") : eventEntries text = [Text.trim text] := by
  rw [eventEntries, Text.pieces_of_not_mem h]
  simp [hne]

variable {event code : String}

theorem trim_eventEntry (hevent : IsEventName event) (code : String) :
    (Text.trim (eventEntry (event, code))).toList =
      event.toList ++ ':' :: (' ' :: code.toList).rdropWhile Text.isBlank := by
  have hlist : (eventEntry (event, code)).toList = event.toList ++ ':' :: ' ' :: code.toList := by
    simp [eventEntry]
  have htrimmed : Text.trimChars event.toList = event.toList := by
    rw [← Text.trim_eq, hevent.trimmed]
  have hne : event.toList ≠ [] := by simpa using hevent.ne_empty
  rw [Text.trim_eq, hlist, Text.trimChars_append_cons htrimmed hne (by decide)]

/-- An entry is taken apart into the event and the action, without white space around it. -/
theorem splitEntry?_trim (hevent : IsEventName event) (code : String) :
    splitEntry? (Text.trim (eventEntry (event, code))) = some (event, Text.trim code) := by
  have hcode : Text.trim (String.ofList ((' ' :: code.toList).rdropWhile Text.isBlank)) =
      Text.trim code := by
    rw [Text.trim, String.toList_ofList, Text.trimChars_rdropWhile,
      Text.trimChars_cons_of_blank (by decide), Text.trim]
  unfold splitEntry?
  rw [trim_eventEntry hevent, Text.cutAtFirst?_append hevent.colon]
  dsimp only
  rw [String.ofList_toList, hevent.trimmed, if_neg hevent.ne_empty, hcode]

/-- Without a semicolon in the action there is one entry. -/
theorem eventEntries_eventEntry (hevent : IsEventName event) (hcode : ';' ∉ code.toList) :
    eventEntries (eventEntry (event, code)) = [Text.trim (eventEntry (event, code))] := by
  refine eventEntries_of_not_mem ?_ ?_
  · have hsemicolon := hevent.semicolon
    simp [eventEntry, hsemicolon, hcode]
  · intro hempty
    have hlist := trim_eventEntry hevent code
    rw [hempty] at hlist
    simp at hlist

/-! ## Listeners -/

/-- A node has further listeners behind those it had, and nothing else has changed. -/
structure HostTree.Hears {α : Type} (t t' : HostTree α) (node : NodeId)
    (added : List (Listener α)) : Prop where
  self : t'.node? node = (t.node? node).map fun n => { n with listeners := n.listeners ++ added }
  others : ∀ x, x ≠ node → t'.node? x = t.node? x

namespace HostTree

variable {α : Type} {t t' t'' : HostTree α} {node : NodeId} {added added' : List (Listener α)}

theorem Hears.refl (t : HostTree α) (node : NodeId) : t.Hears t node [] := by
  refine ⟨?_, fun _ _ => rfl⟩
  cases t.node? node <;> simp

theorem Hears.trans (h : t.Hears t' node added) (h' : t'.Hears t'' node added') :
    t.Hears t'' node (added ++ added') := by
  refine ⟨?_, fun x hx => (h'.others x hx).trans (h.others x hx)⟩
  rw [h'.self, h.self, Option.map_map]
  refine congrArg (fun change => (t.node? node).map change) (funext fun n => ?_)
  show { n with listeners := n.listeners ++ added ++ added' } = _
  rw [List.append_assoc]

theorem Hears.live (h : t.Hears t' node added) (hnode : t.Live node) : t'.Live node := by
  obtain ⟨n, hn⟩ := hnode
  exact ⟨_, by rw [h.self, hn]; rfl⟩

theorem addListener_hears (hnode : t.Live node) (event : String) (action : α) :
    ∃ listener t', t.addListener node event action = .ok (listener, t') ∧
      t.Hears t' node [⟨listener, event, action⟩] := by
  obtain ⟨n, hn⟩ := hnode
  let change : Node α → Node α := fun n =>
    { n with listeners := n.listeners ++ [⟨t.nextListener, event, action⟩] }
  let t' : HostTree α := { t.modify node change with nextListener := t.nextListener + 1 }
  refine ⟨t.nextListener, t', ?_, node?_modify_self t node change, fun x hx =>
    node?_modify_of_ne hx change⟩
  rw [addListener, update, get_of_node? hn]
  rfl

end HostTree

/-- A listener answers to the event of a pair with its action. -/
def Answers (pair : String × String) (listener : Listener Reaction) : Prop :=
  listener.event = pair.1 ∧
    ∃ action, parseEventAction pair.2 = .ok action ∧ listener.action = .run action

namespace Page

variable {page : Page} {node : NodeId} {listeners : List Nat} {pairs : List (String × String)}

theorem registerEntry_wires (hnode : page.host.Live node) (hevent : IsEventName event)
    {action : EventAction} (hcode : parseEventAction code = .ok action) (listeners : List Nat) :
    ∃ listener host', registerEntry node (listeners, page) (Text.trim (eventEntry (event, code))) =
        (.ok (), listeners ++ [listener.id], { page with host := host' }) ∧
      page.host.Hears host' node [listener] ∧ Answers (event, code) listener := by
  obtain ⟨listener, host', hadd, hhears⟩ :=
    HostTree.addListener_hears hnode event (Reaction.run action)
  refine ⟨⟨listener, event, .run action⟩, host', ?_, hhears, rfl, action, hcode, rfl⟩
  simp only [registerEntry, splitEntry?_trim hevent, parseEventAction_trim hcode, hadd]

/-- Each pair without a semicolon in its action gives one listener, in the order of the pairs. -/
theorem registerEntries_wires (hevents : ∀ pair ∈ pairs, IsEventName pair.1)
    (hcodes : ∀ pair ∈ pairs, ∃ action, parseEventAction pair.2 = .ok action) :
    ∀ (page : Page) (listeners : List Nat), page.host.Live node → ∃ added host',
      untilFailure (registerEntry node) (pairs.map fun pair => Text.trim (eventEntry pair))
          (listeners, page) =
        (.ok (), listeners ++ added.map Listener.id, { page with host := host' }) ∧
      page.host.Hears host' node added ∧ List.Forall₂ Answers pairs added := by
  induction pairs with
  | nil =>
    intro page listeners _
    refine ⟨[], page.host, ?_, .refl page.host node, .nil⟩
    rw [List.map_nil, List.map_nil, List.append_nil]
    rfl
  | cons pair rest ih =>
    intro page listeners hnode
    obtain ⟨action, hcode⟩ := hcodes pair List.mem_cons_self
    obtain ⟨listener, host₁, hentry, hhears₁, hanswers⟩ := registerEntry_wires hnode
      (hevents pair List.mem_cons_self) hcode listeners
    obtain ⟨added, host', hentries, hhears, hall⟩ :=
      ih (fun p hp => hevents p (List.mem_cons_of_mem _ hp))
        (fun p hp => hcodes p (List.mem_cons_of_mem _ hp)) { page with host := host₁ }
        (listeners ++ [listener.id]) (hhears₁.live hnode)
    refine ⟨listener :: added, host', ?_, hhears₁.trans hhears, .cons hanswers hall⟩
    rw [List.map_cons, untilFailure_cons hentry, hentries]
    simp

/-! ## Reports -/

/-- An entry records no problem or one, and one if its action is not accepted. -/
theorem registerEntry_journal (hnode : page.host.Live node) (listeners : List Nat)
    (entry : String) :
    ∃ (listeners' : List Nat) (page' : Page) (recorded : List Diagnostic),
      registerEntry node (listeners, page) entry = (.ok (), listeners', page') ∧
      page'.host.Live node ∧
      page'.state.journal = recorded.foldl Journal.record page.state.journal ∧
      ∀ event code e, splitEntry? entry = some (event, code) → parseEventAction code = .error e →
        .ofSyntaxError .unsupportedEventCode code e ∈ recorded := by
  cases hsplit : splitEntry? entry with
  | none =>
    refine ⟨listeners, page.record .malformedEvent entry "expected `event: code`",
      [.plain .malformedEvent entry "expected `event: code`"], ?_, hnode, rfl, nofun⟩
    simp only [registerEntry, hsplit]
  | some found =>
    obtain ⟨event, code⟩ := found
    cases hparse : parseEventAction code with
    | error e =>
      let recorded := Diagnostic.ofSyntaxError .unsupportedEventCode code e
      refine ⟨listeners, { page with
        state := page.state.recordSyntax .unsupportedEventCode code e }, [recorded], ?_, hnode,
        rfl, ?_⟩
      · simp only [registerEntry, hsplit, hparse]
      · rintro _ _ e' ⟨⟩ herror
        obtain rfl := Except.error.inj (hparse.symm.trans herror)
        exact List.mem_singleton.2 rfl
    | ok action =>
      obtain ⟨listener, host', hadd, hhears⟩ :=
        HostTree.addListener_hears hnode event (Reaction.run action)
      refine ⟨listeners ++ [listener], { page with host := host' }, [], ?_, hhears.live hnode, rfl,
        ?_⟩
      · simp only [registerEntry, hsplit, hparse, hadd]
      · rintro _ _ e' ⟨⟩ herror
        rw [hparse] at herror
        cases herror

theorem registerEntries_journal (entries : List String) :
    ∀ {page : Page} (listeners : List Nat), page.host.Live node →
      ∃ (listeners' : List Nat) (page' : Page) (recorded : List Diagnostic),
        untilFailure (registerEntry node) entries (listeners, page) =
          (.ok (), listeners', page') ∧
        page'.state.journal = recorded.foldl Journal.record page.state.journal ∧
        ∀ entry ∈ entries, ∀ event code e, splitEntry? entry = some (event, code) →
          parseEventAction code = .error e →
            .ofSyntaxError .unsupportedEventCode code e ∈ recorded := by
  induction entries with
  | nil =>
    intro page listeners _
    exact ⟨listeners, page, [], rfl, rfl, nofun⟩
  | cons entry entries ih =>
    intro page listeners hnode
    obtain ⟨listeners₁, page₁, first, hentry, hnode₁, hjournal₁, hfirst⟩ :=
      registerEntry_journal hnode listeners entry
    obtain ⟨listeners', page', others, hentries, hjournal, hothers⟩ := ih listeners₁ hnode₁
    refine ⟨listeners', page', first ++ others, (untilFailure_cons hentry).trans hentries, ?_, ?_⟩
    · rw [List.foldl_append, ← hjournal₁, hjournal]
    · intro other hother event code e hsplit herror
      rcases List.mem_cons.1 hother with rfl | hmem
      · exact List.mem_append_left _ (hfirst event code e hsplit herror)
      · exact List.mem_append_right _ (hothers other hmem event code e hsplit herror)

/-- What stands before the first semicolon of an action is an entry of its own. -/
theorem exists_entry_of_semicolon {pair : String × String} (hpair : pair ∈ pairs)
    (hevent : IsEventName pair.1) {action : EventAction}
    (haction : parseEventAction pair.2 = .ok action) (hsemicolon : ';' ∈ pair.2.toList) :
    ∃ entry ∈ eventEntries (eventText pairs), ∃ code e,
      splitEntry? entry = some (pair.1, code) ∧ parseEventAction code = .error e := by
  obtain ⟨event, source⟩ := pair
  obtain ⟨front, back, hsource, hfront⟩ := List.eq_append_cons_of_mem hsemicolon
  have hentry : eventEntry (event, source) =
      eventEntry (event, String.ofList front) ++ ";" ++ String.ofList back := by
    apply String.toList_injective
    simp only [eventEntry, String.toList_append, hsource, String.toList_ofList]
    simp
  have hwhole : parseEventAction (String.ofList (front ++ ';' :: back)) = .ok action := by
    rwa [← hsource, String.ofList_toList]
  obtain ⟨e, herror⟩ := parseEventAction_cut hwhole
  have hsplit := splitEntry?_trim hevent (String.ofList front)
  refine ⟨_, ?_, _, e, hsplit, herror⟩
  rw [eventEntries_eventText]
  refine List.mem_flatMap.2 ⟨(event, source), hpair, ?_⟩
  rw [hentry, eventEntries_append_semicolon, eventEntries_eventEntry hevent (by simpa using hfront)]
  exact List.mem_append_left _ (List.mem_singleton.2 rfl)

/-- Registers a text that was put together from events and accepted actions. If no action holds a
    semicolon, nothing is reported, and the node gets one listener for each pair, for its event
    and with its action, in the order of the pairs. If one does, it is cut there, and what stands
    before the semicolon is reported as no action. -/
theorem register_events_wires (id : Nat) (hnode : page.host.Live node) (hpairs : pairs ≠ [])
    (hevents : ∀ pair ∈ pairs, IsEventName pair.1)
    (hcodes : ∀ pair ∈ pairs, ∃ action, parseEventAction pair.2 = .ok action) :
    ((∀ pair ∈ pairs, ';' ∉ pair.2.toList) → ∃ added host',
        page.register id .events node (eventText pairs) =
          (.ok (some ⟨id, node, eventText pairs, .events (added.map Listener.id),
            if page.config.trackDependencies then some [] else none⟩),
            { page with host := host' }) ∧
        page.host.Hears host' node added ∧ List.Forall₂ Answers pairs added) ∧
      ((∃ pair ∈ pairs, ';' ∈ pair.2.toList) →
        ∃ (made : Option Binding) (page' : Page) (recorded : List Diagnostic) (code : String)
          (e : SyntaxError),
        page.register id .events node (eventText pairs) = (.ok made, page') ∧
        page'.state.journal = recorded.foldl Journal.record page.state.journal ∧
        Diagnostic.ofSyntaxError .unsupportedEventCode code e ∈ recorded) := by
  constructor
  · intro hplain
    have hentries : eventEntries (eventText pairs) =
        pairs.map fun pair => Text.trim (eventEntry pair) := by
      rw [eventEntries_eventText, List.map_eq_flatMap]
      exact List.flatMap_congr fun pair hpair =>
        eventEntries_eventEntry (hevents pair hpair) (hplain pair hpair)
    obtain ⟨added, host', hregister, hhears, hall⟩ :=
      registerEntries_wires hevents hcodes page [] hnode
    refine ⟨added, host', ?_, hhears, hall⟩
    rw [register, draft, registerEvents, hentries, hregister]
    cases hall with
    | nil => exact absurd rfl hpairs
    | cons _ _ => rfl
  · rintro ⟨pair, hpair, hsemicolon⟩
    obtain ⟨action, haction⟩ := hcodes pair hpair
    obtain ⟨entry, hentry, code, e, hsplit, herror⟩ :=
      exists_entry_of_semicolon hpair (hevents pair hpair) haction hsemicolon
    obtain ⟨listeners, page', recorded, hentries, hjournal, hrecorded⟩ :=
      registerEntries_journal (eventEntries (eventText pairs)) [] hnode
    have hmem := hrecorded entry hentry pair.1 code e hsplit herror
    rw [register, draft, registerEvents, hentries]
    cases listeners with
    | nil => exact ⟨none, page', recorded, code, e, rfl, hjournal, hmem⟩
    | cons listener listeners => exact ⟨some _, page', recorded, code, e, rfl, hjournal, hmem⟩

/-- A page with a button that is not wired yet, over an empty state. -/
def buttonPage : Page :=
  let (root, heap) := Heap.empty.addObject .empty
  ⟨(HostTree.empty.appendElement HostTree.root "button" []).2, .standard,
    ⟨.wrap heap root, ⟨.empty, .empty 10⟩⟩, .empty⟩

/-- The pairs that the button is wired with. -/
def buttonPairs : List (String × String) := [("click", "count++"), ("keyup", " name = 'a: b'")]

/-- A pair whose text holds a semicolon. -/
def semicolonPairs : List (String × String) := [("click", "name = 'x;y'")]

theorem buttonPairs_accepted : ∀ pair ∈ buttonPairs ++ semicolonPairs,
    IsEventName pair.1 ∧ ∃ action, parseEventAction pair.2 = .ok action := by
  have hnames : ∀ event ∈ ["click", "keyup"], IsEventName event := by
    intro event hevent
    rcases List.mem_pair.1 hevent with rfl | rfl <;>
      exact ⟨by decide +kernel, by decide +kernel, by decide +kernel, by decide +kernel⟩
  have haccepted : ∀ source ∈ ["count++", " name = 'a: b'", "name = 'x;y'"],
      (parseEventAction source).isOk = true := by decide +kernel
  have hok : ∀ source, (parseEventAction source).isOk = true →
      ∃ action, parseEventAction source = .ok action := by
    intro source hsource
    cases hparse : parseEventAction source with
    | ok action => exact ⟨action, rfl⟩
    | error e =>
      rw [hparse] at hsource
      cases hsource
  intro pair hpair
  have hmem : pair.1 ∈ ["click", "keyup"] ∧
      pair.2 ∈ ["count++", " name = 'a: b'", "name = 'x;y'"] := by
    revert pair
    decide
  exact ⟨hnames _ hmem.1, hok _ (haccepted _ hmem.2)⟩

/-- The button gets two listeners for the first pairs, and the quoted semicolon is reported. -/
theorem buttonPage_wires_and_reports : buttonPage.host.Live ⟨1, 0⟩ ∧
    buttonPairs ≠ [] ∧ semicolonPairs ≠ [] ∧
    (∃ added host', buttonPage.register 0 .events ⟨1, 0⟩ "click: count++; keyup:  name = 'a: b'" =
        (.ok (some ⟨0, ⟨1, 0⟩, "click: count++; keyup:  name = 'a: b'",
          .events (added.map Listener.id), some []⟩), { buttonPage with host := host' }) ∧
      buttonPage.host.Hears host' ⟨1, 0⟩ added ∧ List.Forall₂ Answers buttonPairs added) ∧
    ∃ (made : Option Binding) (page' : Page) (recorded : List Diagnostic) (code : String)
      (e : SyntaxError),
      buttonPage.register 0 .events ⟨1, 0⟩ "click: name = 'x;y'" = (.ok made, page') ∧
      page'.state.journal = recorded.foldl Journal.record buttonPage.state.journal ∧
      Diagnostic.ofSyntaxError .unsupportedEventCode code e ∈ recorded := by
  have hnode : buttonPage.host.Live ⟨1, 0⟩ := ⟨_, rfl⟩
  have hwired : eventText buttonPairs = "click: count++; keyup:  name = 'a: b'" := by
    decide +kernel
  have hcut : eventText semicolonPairs = "click: name = 'x;y'" := by decide +kernel
  obtain ⟨hwires, -⟩ := register_events_wires 0 hnode (show buttonPairs ≠ [] by decide)
    (fun pair hpair => (buttonPairs_accepted pair (List.mem_append_left _ hpair)).1)
    (fun pair hpair => (buttonPairs_accepted pair (List.mem_append_left _ hpair)).2)
  obtain ⟨-, hreports⟩ := register_events_wires 0 hnode
    (show semicolonPairs ≠ [] by decide)
    (fun pair hpair => (buttonPairs_accepted pair (List.mem_append_right _ hpair)).1)
    (fun pair hpair => (buttonPairs_accepted pair (List.mem_append_right _ hpair)).2)
  rw [hwired] at hwires
  rw [hcut] at hreports
  exact ⟨hnode, by decide, by decide, hwires (by decide), hreports (by decide)⟩

end Page

end ReactiveTemplate
