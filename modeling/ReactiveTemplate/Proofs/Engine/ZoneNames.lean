import ReactiveTemplate.Proofs.Document.Queries
import ReactiveTemplate.Proofs.Engine.Zones

/-!
# Names of zones

A configuration names the attribute that marks zones, and mounting looks for the zones by a selector
of this attribute. Configurations and selectors have rules of their own for names. They differ in
the colon: it may stand in the name of an attribute, and no selector may hold it.

* `Config.isName_selector`: which configured names are names for selectors.
* `Config.zoneSelector_parse`: when the selector of the zones is one.
* `Engine.mount_zones_of_valid`: what mounting finds with an accepted configuration.
-/

namespace ReactiveTemplate

namespace Config

variable {config : Config}

/-- A configured name is a name for selectors, unless it holds a colon. -/
theorem isName_selector {name : String} (h : isName name = true) :
    Selector.isName name.toList = true ↔ ':' ∉ name.toList := by
  rw [isName, Bool.and_eq_true, bne_iff_ne, List.all_eq_true] at h
  obtain ⟨hne, hcharacters⟩ := h
  rw [Selector.isName, Bool.and_eq_true, bne_iff_ne, List.all_eq_true]
  constructor
  · rintro ⟨-, hnames⟩ hcolon
    exact absurd (hnames ':' hcolon) (by decide)
  · intro hcolon
    refine ⟨fun hempty => hne (String.toList_inj.1 hempty), fun c hc => ?_⟩
    have hcharacter : (Selector.isNameCharacter c || c == ':') = true := hcharacters c hc
    have hother : (c == ':') = false := beq_eq_false_iff_ne.2 fun heq => hcolon (heq ▸ hc)
    rwa [hother, Bool.or_false] at hcharacter

theorem isName_of_validate (h : config.validate = .ok ()) : isName config.zoneAttribute = true := by
  rw [validate] at h
  split at h
  · cases h
  · split at h
    · cases h
    · next hzone => simpa using hzone

/-- The selector of the zones is a selector of their attribute, unless its name holds a colon. -/
theorem zoneSelector_parse (h : config.validate = .ok ()) :
    Selector.parse config.zoneSelector =
      if ':' ∈ config.zoneAttribute.toList then .error (.unsupportedSelector config.zoneSelector)
      else .ok (.attribute config.zoneAttribute) := by
  rw [zoneSelector, Selector.parse_brackets]
  have hname := isName_selector (isName_of_validate h)
  by_cases hcolon : ':' ∈ config.zoneAttribute.toList
  · rw [if_pos hcolon, if_neg fun hselector => hname.1 hselector hcolon]
  · rw [if_neg hcolon, if_pos (hname.2 hcolon)]

end Config

namespace Engine

/-- With an accepted configuration mounting finds the elements of the document that carry the zone
    attribute, in document order, unless the name of the attribute holds a colon. With a colon the
    selector is refused, and all that mounting does is to record this. -/
theorem mount_zones_of_valid {e : Engine} (ht : e.page.host.Tree)
    (hvalid : e.page.config.validate = .ok ()) :
    let name := e.page.config.zoneAttribute
    let selector := e.page.config.zoneSelector
    (':' ∉ name.toList →
      Selector.parse selector = .ok (.attribute name) ∧
      e.page.host.queryAll selector = .ok (e.page.host.carriers name) ∧
      (∀ x, x ∈ e.page.host.carriers name ↔ e.page.host.Below HostTree.root x ∧
        x ≠ HostTree.root ∧ ((e.page.host.figure x).source? name).isSome) ∧
      ∃ e₀ : Engine, e₀.page.host = e.page.host ∧ e₀.bindings = e.bindings ∧
        e.mount .zones = e₀.mountZones (e.page.host.carriers name)) ∧
    (':' ∈ name.toList →
      e.page.host.queryAll selector = .error (.unsupportedSelector selector) ∧
      e.mount .zones =
        { e with
          page := e.page.record .bindingUpdateError "mount"
            (HostError.unsupportedSelector selector).message }) := by
  have hparse := Config.zoneSelector_parse hvalid
  refine ⟨fun hcolon => ?_, fun hcolon => ?_⟩
  · rw [if_neg hcolon] at hparse
    have hquery := ht.queryAll_attribute hparse
    exact ⟨hparse, hquery, fun x => ht.mem_carriers, mount_of_zonesOf hquery⟩
  · rw [if_pos hcolon] at hparse
    have hquery : e.page.host.queryAll e.page.config.zoneSelector =
        .error (.unsupportedSelector e.page.config.zoneSelector) := by
      rw [HostTree.queryAll, hparse]
      rfl
    refine ⟨hquery, ?_⟩
    rw [mount, zonesOf, hquery]

/-- A configuration whose zones carry an attribute with a colon in its name. -/
def colonConfig : Config := { Config.standard with zoneAttribute := "app:zone" }

/-- A page with a text in a zone of this configuration. -/
def colonPage : HostTree Reaction :=
  let zone := (HostTree.empty.appendElement HostTree.root "div" [("app:zone", "")]).2
  (zone.appendElement ⟨1, 0⟩ "span" [("vx-bind", "count")]).2

theorem sound_colonPage : colonPage.Sound :=
  (HostTree.sound_empty.append ⟨_, rfl⟩ rfl).append ⟨_, rfl⟩ rfl

/-- The configuration is accepted and the page has a zone, but mounting finds none. -/
theorem colon_zone_is_not_found :
    let e := create colonPage (.object []) colonConfig
    colonConfig.validate = .ok () ∧ e.page.host.carriers "app:zone" = [⟨1, 0⟩] ∧
      e.mount .zones =
        { e with
          page := e.page.record .bindingUpdateError "mount"
            "unsupported selector '[app:zone]'" } ∧
      (e.mount .zones).bindings = [] := by
  intro e
  have hvalid : colonConfig.validate = .ok () := by
    rw [Config.validate, if_neg (by decide), if_neg (by decide)]
  have hmount := ((mount_zones_of_valid (e := e) sound_colonPage.tree hvalid).2 (by decide)).2
  refine ⟨hvalid, by decide, hmount, ?_⟩
  rw [hmount]
  rfl

end Engine

end ReactiveTemplate
