import Mathlib.Data.Finset.Card
import Mathlib.Data.List.Nodup

/-!
# Survivable failures

The fragments of an asset lie on holders, and holders lie in racks, zones and regions. Both fabrics
report how many failures an asset survives: they count the distinct domains of its healthy
fragments and take off as many as a reconstruction needs. The distributed fabric counts the
domains of the configured scope, or of a coarser one. The embedded fabric counts nodes whatever
scope it is configured with, so that its report is right for the scope of nodes only
(`survivable_sound_iff`).
-/

namespace Kivi.Redundancy

abbrev NodeId := UInt64

inductive FailureScope where
  | node | rack | zone | region
  deriving DecidableEq

/-- The keys of domains, which the source tells apart by the beginnings of their texts. -/
inductive DomainKey where
  | unknown
  | node (id : NodeId)
  | rack (label : String)
  | zone (label : String)
  | region (label : String)
  deriving DecidableEq

structure FailureDomain where
  node : NodeId
  rack : String
  zone : String
  region : String

/-- Unknown labels share one key. -/
def FailureDomain.independenceKey (domain : FailureDomain) : FailureScope → DomainKey
  | .node => .node domain.node
  | .rack => if domain.rack.isEmpty then .unknown else .rack domain.rack
  | .zone => if domain.zone.isEmpty then .unknown else .zone domain.zone
  | .region => if domain.region.isEmpty then .unknown else .region domain.region

/-- A descriptor is made with the domain of its own node. -/
structure NodeDescriptor where
  id : NodeId
  domain : FailureDomain
  own : domain.node = id

inductive SchemeParams where
  | replication (copies : Nat)
  | reedSolomon (data parity : Nat)

namespace SchemeParams

def tolerance : SchemeParams → Nat
  | .replication copies => copies - 1
  | .reedSolomon _ parity => parity

def requiredPieces : SchemeParams → Nat
  | .replication _ => 1
  | .reedSolomon data _ => data

end SchemeParams

structure FragmentRecord where
  index : Nat
  node : NodeId

/-- Layouts are checked when they are made. -/
structure RedundancyLayout where
  params : SchemeParams
  fragments : List FragmentRecord
  indexed : fragments.map FragmentRecord.index = List.range fragments.length

structure FragmentPlacement where
  index : Nat
  node : NodeId
  domainKey : DomainKey

structure DesiredPlacement where
  scope : FailureScope
  fragments : List FragmentPlacement

/-- The last descriptor of a node counts. -/
def byId (view : List NodeDescriptor) (node : NodeId) : Option NodeDescriptor :=
  view.reverse.find? fun descriptor ↦ descriptor.id == node

/-- The domains of the healthy fragments. -/
def DesiredPlacement.keys (placement : DesiredPlacement) (healthyIndexes : List Nat)
    (nodesById : NodeId → Option NodeDescriptor) : List DomainKey :=
  healthyIndexes.filterMap fun index ↦
    (placement.fragments.find? fun slot ↦ slot.index == index).map fun slot ↦
      ((nodesById slot.node).map (·.domain.independenceKey placement.scope)).getD slot.domainKey

/-- The source drops its scope in favour of that of the placement. -/
def independentSurvivable (params : SchemeParams) (_scope : FailureScope)
    (placement : DesiredPlacement) (healthyIndexes : List Nat)
    (nodesById : NodeId → Option NodeDescriptor) : Nat :=
  min ((placement.keys healthyIndexes nodesById).dedup.length - params.requiredPieces)
    params.tolerance

def desiredFromLayout (layout : RedundancyLayout) (scope : FailureScope) : DesiredPlacement :=
  ⟨scope, layout.fragments.map fun record ↦ ⟨record.index, record.node, .node record.node⟩⟩

def placementOf (layout : RedundancyLayout) : DesiredPlacement := desiredFromLayout layout .node

/-- Racks count as soon as one is named. -/
def effectiveScope (scope : FailureScope) (view : List NodeDescriptor) : FailureScope :=
  if scope ≠ .node then scope
  else if view.any fun descriptor ↦ !descriptor.domain.rack.isEmpty then .rack else .node

section

variable (scope : FailureScope) (layout : RedundancyLayout) (view : List NodeDescriptor)
  (usable : FragmentRecord → Bool)

def healthyIndexes : List Nat := (layout.fragments.filter usable).map FragmentRecord.index

/-- What the embedded fabric reports. `usable` is the verdict on a fragment. -/
def assessAsset : Nat :=
  independentSurvivable layout.params scope (placementOf layout) (healthyIndexes layout usable)
    (byId view)

/-- What the distributed fabric reports. `usable` is what the probe of a fragment says. -/
def assessWithMode : Nat :=
  let scope := effectiveScope scope view
  independentSurvivable layout.params scope (desiredFromLayout layout scope)
    (healthyIndexes layout usable) (byId view)

/-! ### What the reports are worth -/

/-- The domain of a holder. -/
def domainOf (node : NodeId) : DomainKey :=
  ((byId view node).map (·.domain.independenceKey scope)).getD (.node node)

/-- Whatever domains are lost, up to a number of them, the healthy fragments in the others are
enough. -/
def Survives (count : Nat) : Prop :=
  0 < count → ∀ lost : List DomainKey, lost.length ≤ count →
    layout.params.requiredPieces ≤ (layout.fragments.filter fun record ↦
      usable record && !lost.contains (domainOf scope view record.node)).length

def KnowsHolders : Prop :=
  ∀ record ∈ layout.fragments, ∃ descriptor ∈ view, descriptor.id = record.node

variable {scope layout view usable}

/-- Distinct images are lost with the domains they come from, or are left. -/
theorem length_dedup_le {α δ κ : Type} [DecidableEq δ] [DecidableEq κ] (items : List α)
    (domain : α → δ) (image : δ → κ) (lost : List δ) :
    (items.map (image ∘ domain)).dedup.length ≤
      lost.length + (items.filter fun item ↦ !lost.contains (domain item)).length := by
  set left := items.filter fun item ↦ !lost.contains (domain item) with hleft
  have hcover : (items.map (image ∘ domain)).toFinset ⊆
      (lost.map image ++ left.map (image ∘ domain)).toFinset := by
    intro key hkey
    obtain ⟨item, hitem, rfl⟩ := List.mem_map.mp (List.mem_toFinset.mp hkey)
    rw [List.mem_toFinset, List.mem_append]
    by_cases hlost : domain item ∈ lost
    · exact Or.inl (List.mem_map_of_mem hlost)
    · exact Or.inr (List.mem_map_of_mem (by simp [hleft, hitem, hlost]))
  have hcard := (Finset.card_le_card hcover).trans (List.toFinset_card_le _)
  rwa [List.card_toFinset, List.length_append, List.length_map, List.length_map] at hcard

/-- A count of domains that the configured ones refine is sound. -/
theorem survives_of_image (asked counted : FailureScope) (image : DomainKey → DomainKey)
    (himage : ∀ node, domainOf counted view node = image (domainOf scope view node)) :
    Survives scope layout view usable (independentSurvivable layout.params asked
      (desiredFromLayout layout counted) (healthyIndexes layout usable) (byId view)) := by
  have hkeys : (desiredFromLayout layout counted).keys (healthyIndexes layout usable) (byId view) =
      (layout.fragments.filter usable).map
        (image ∘ fun record ↦ domainOf scope view record.node) := by
    rw [DesiredPlacement.keys, healthyIndexes, List.filterMap_map, ← List.filterMap_eq_map]
    refine List.filterMap_congr fun record hmem ↦ ?_
    simp only [Function.comp_def, desiredFromLayout, List.find?_map, ← himage]
    cases hfind : layout.fragments.find? fun slot ↦ slot.index == record.index with
    | none =>
      have hnone := List.find?_eq_none.mp hfind record (List.mem_of_mem_filter hmem)
      exact absurd (beq_self_eq_true _) hnone
    | some other =>
      have hindex := List.find?_some hfind
      obtain rfl := List.inj_on_of_nodup_map (layout.indexed ▸ List.nodup_range)
        (List.mem_of_find?_eq_some hfind) (List.mem_of_mem_filter hmem) (eq_of_beq hindex)
      rfl
  intro hpos lost hlost
  have hcount := length_dedup_le (layout.fragments.filter usable)
    (fun record ↦ domainOf scope view record.node) image lost
  simp only [← hkeys, List.filter_filter, Bool.and_comm] at hcount
  rw [independentSurvivable] at hpos hlost
  omega

/-- The node of a node's key. -/
def DomainKey.id : DomainKey → NodeId
  | .node id => id
  | _ => 0

theorem domainOf_node (node : NodeId) : domainOf .node view node = .node node := by
  unfold domainOf
  cases hfind : byId view node with
  | none => rfl
  | some descriptor =>
    have hid := List.find?_some hfind
    exact congrArg DomainKey.node (descriptor.own.trans (eq_of_beq hid))

theorem survives_assessWithMode :
    Survives scope layout view usable (assessWithMode scope layout view usable) := by
  by_cases hscope : scope = .node
  · -- Nodes refine whatever is counted in their place.
    subst hscope
    set counted := effectiveScope .node view
    refine survives_of_image counted counted (domainOf counted view ∘ DomainKey.id) fun node ↦ ?_
    rw [domainOf_node]
    rfl
  · rw [assessWithMode, effectiveScope, if_pos hscope]
    exact survives_of_image _ _ id fun _ ↦ rfl

/-- Two copies on two nodes of one rack, zone and region. -/
def sharedRack : RedundancyLayout × List NodeDescriptor :=
  (⟨.replication 2, [⟨0, 1⟩, ⟨1, 2⟩], rfl⟩,
    [⟨1, ⟨1, "r", "z", "g"⟩, rfl⟩, ⟨2, ⟨2, "r", "z", "g"⟩, rfl⟩])

/-- The distributed report is right in every scope, and the embedded one in that of nodes only. -/
theorem survivable_sound_iff (scope : FailureScope) :
    (∀ layout view usable, KnowsHolders layout view →
      Survives scope layout view usable (assessWithMode scope layout view usable)) ∧
    ((∀ layout view usable, KnowsHolders layout view →
        Survives scope layout view usable (assessAsset scope layout view usable) ∧
          Survives scope layout view usable (assessWithMode scope layout view usable)) ↔
      scope = .node) := by
  refine ⟨fun _ _ _ _ ↦ survives_assessWithMode, fun h ↦ ?_, ?_⟩
  · have hshared := (h sharedRack.1 sharedRack.2 (fun _ ↦ true) (by
      simp [KnowsHolders, sharedRack])).1
    cases scope with
    | node => rfl
    | rack => exact absurd (hshared (by decide) [.rack "r"] (by decide)) (by decide)
    | zone => exact absurd (hshared (by decide) [.zone "z"] (by decide)) (by decide)
    | region => exact absurd (hshared (by decide) [.region "g"] (by decide)) (by decide)
  · rintro rfl layout view usable -
    exact ⟨survives_of_image _ _ id fun _ ↦ rfl, survives_assessWithMode⟩

end

/-- The rack of both copies is one domain, and its loss leaves nothing. -/
theorem shared_rack_not_survived :
    KnowsHolders sharedRack.1 sharedRack.2 ∧
      assessAsset .rack sharedRack.1 sharedRack.2 (fun _ ↦ true) = 1 ∧
      ¬Survives .rack sharedRack.1 sharedRack.2 (fun _ ↦ true) 1 := by
  refine ⟨by simp [KnowsHolders, sharedRack], by decide, fun h ↦ ?_⟩
  exact absurd (h (by decide) [.rack "r"] (by decide)) (by decide)

end Kivi.Redundancy
