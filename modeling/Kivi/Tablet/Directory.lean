import Kivi.Consensus.Tablet
import Kivi.Library.Fallible
import Kivi.Library.Runs
import Kivi.Tablet.Range

/-!
# The directory of a namespace

A snapshot lists the tablets of a namespace with their ranges and their states, and every
transition builds the next snapshot, checks it and bumps the version. Between two snapshots a
tablet keeps its place, its identity, its range and its generations, and its state only moves
forward; what the check accepts gives each hash and each key one active tablet at most.
-/

namespace Kivi.Tablet

open Library.Fallible Library.Runs State Consensus

inductive TabletState where
  | allocated
  | inactive
  | active
  | fenced
  | tombstone
deriving DecidableEq

/-- The tablets that own the range of a retired one. -/
structure Redirect where
  successors : List TabletId
deriving DecidableEq

structure TabletDescriptor where
  id : TabletId
  range : PartitionRange
  state : TabletState
  epoch : UInt64
  guard : UInt64
  redirect : Option Redirect
deriving DecidableEq

inductive DirectoryError where
  | duplicateTabletId (tablet : TabletId)
  | unknownTablet (tablet : TabletId)
  | invalidRange (error : RangeError)
  | invalidEpoch (epoch : UInt64)
  | invalidGuard (guard : UInt64)
  | invalidVersion
  | versionExhausted
  | overlappingActiveAuthority (first second : TabletId)
  | mixedActiveLayouts
  | illegalTransition (tablet : TabletId) (state : TabletState) (action : String)
  | successorNotActive (successor : TabletId)
  | emptyRedirect
  | redirectMissing (tablet : TabletId)
  | unexpectedRedirect (tablet : TabletId)
deriving DecidableEq

structure DirectorySnapshot where
  version : UInt64
  namespaceId : NamespaceId
  tablets : List TabletDescriptor
deriving DecidableEq

/-! ### Validation -/

/-- The redirect of a tablet stands exactly on a tombstone. -/
def TabletDescriptor.checkRedirect (tablet : TabletDescriptor) : Except DirectoryError Unit :=
  match tablet.state, tablet.redirect with
  | .tombstone, none => .error (.redirectMissing tablet.id)
  | .tombstone, some _ => .ok ()
  | _, none => .ok ()
  | _, some _ => .error (.unexpectedRedirect tablet.id)

/-- Each tablet after those in `before`. -/
def checkDescriptors : List TabletDescriptor → List TabletDescriptor → Except DirectoryError Unit
  | _, [] => .ok ()
  | before, tablet :: rest => do
    ensure (∀ other ∈ before, other.id ≠ tablet.id) (.duplicateTabletId tablet.id)
    tablet.range.check.mapError .invalidRange
    ensure (tablet.epoch ≠ 0) (.invalidEpoch tablet.epoch)
    ensure (tablet.guard ≠ 0) (.invalidGuard tablet.guard)
    tablet.checkRedirect
    checkDescriptors (before ++ [tablet]) rest

/-- The ranges of all tablets are of one kind. -/
def checkLayouts : Option PartitionKind → List TabletDescriptor → Except DirectoryError Unit
  | _, [] => .ok ()
  | none, tablet :: rest => checkLayouts (some tablet.range.kind) rest
  | some kind, tablet :: rest =>
    if kind = tablet.range.kind then checkLayouts (some kind) rest
    else .error .mixedActiveLayouts

/-- No active tablet overlaps an active tablet after it. -/
def checkOverlaps : List TabletDescriptor → Except DirectoryError Unit
  | [] => .ok ()
  | first :: rest =>
    if first.state = .active then
      match rest.find? fun second ↦
          decide (second.state = .active) && first.range.overlaps second.range with
      | some second => .error (.overlappingActiveAuthority first.id second.id)
      | none => checkOverlaps rest
    else checkOverlaps rest

/-- A version follows unless the last one is reached. -/
def nextVersion (version : UInt64) : Except DirectoryError UInt64 :=
  if version.toNat + 1 < 2 ^ 64 then .ok (version + 1) else .error .versionExhausted

def checkGenerations (epoch guard : UInt64) : Except DirectoryError Unit := do
  ensure (epoch ≠ 0) (.invalidEpoch epoch)
  ensure (guard ≠ 0) (.invalidGuard guard)

/-- The tablet in another state. -/
def TabletDescriptor.moveTo (state : TabletState) (redirect : Option Redirect)
    (tablet : TabletDescriptor) : TabletDescriptor :=
  { tablet with state := state, redirect := redirect }

namespace DirectorySnapshot

variable (snapshot : DirectorySnapshot)

def validate : Except DirectoryError Unit := do
  ensure (snapshot.version ≠ 0) .invalidVersion
  checkDescriptors [] snapshot.tablets
  checkLayouts none (snapshot.tablets.filter fun tablet ↦ tablet.state = .active)
  checkOverlaps snapshot.tablets

/-! ### Transitions -/

def bootstrap (namespaceId : NamespaceId) (tablet : TabletId) (range : PartitionRange)
    (epoch guard : UInt64) : Except DirectoryError DirectorySnapshot := do
  range.check.mapError .invalidRange
  checkGenerations epoch guard
  let snapshot : DirectorySnapshot :=
    ⟨1, namespaceId, [⟨tablet, range, .allocated, epoch, guard, none⟩]⟩
  snapshot.validate
  pure snapshot

/-- The next snapshot with these tablets. -/
def advance (tablets : List TabletDescriptor) : Except DirectoryError DirectorySnapshot := do
  let version ← nextVersion snapshot.version
  let next : DirectorySnapshot := ⟨version, snapshot.namespaceId, tablets⟩
  next.validate
  pure next

def indexOf (tablet : TabletId) : Except DirectoryError (Fin snapshot.tablets.length) :=
  match snapshot.tablets.findFinIdx? fun descriptor ↦ descriptor.id == tablet with
  | some index => .ok index
  | none => .error (.unknownTablet tablet)

/-- The state of the tablet at `index` is one that the action starts from. -/
def expect (tablet : TabletId) (index : Fin snapshot.tablets.length)
    (allowed : List TabletState) (action : String) :
    Except DirectoryError Unit :=
  ensure ((snapshot.tablets.get index).state ∈ allowed)
    (.illegalTransition tablet (snapshot.tablets.get index).state action)

def replace (tablet : TabletId) (allowed : List TabletState) (target : TabletState)
    (redirect : Option Redirect) (action : String) :
    Except DirectoryError DirectorySnapshot := do
  let index ← snapshot.indexOf tablet
  snapshot.expect tablet index allowed action
  snapshot.advance (snapshot.tablets.modify index (.moveTo target redirect))

def allocate (tablet : TabletId) (range : PartitionRange) (epoch guard : UInt64) :
    Except DirectoryError DirectorySnapshot := do
  ensure (∀ other ∈ snapshot.tablets, other.id ≠ tablet) (.duplicateTabletId tablet)
  range.check.mapError .invalidRange
  checkGenerations epoch guard
  snapshot.advance (snapshot.tablets ++ [⟨tablet, range, .allocated, epoch, guard, none⟩])

def stage (tablet : TabletId) : Except DirectoryError DirectorySnapshot :=
  snapshot.replace tablet [.allocated] .inactive none "stage"

def activate (tablet : TabletId) : Except DirectoryError DirectorySnapshot := do
  let index ← snapshot.indexOf tablet
  let candidate := snapshot.tablets.get index
  snapshot.expect tablet index [.inactive] "activate"
  match snapshot.tablets.find? fun other ↦ decide (other.id ≠ tablet) &&
      decide (other.state = .active) && candidate.range.overlaps other.range with
  | some other => .error (.overlappingActiveAuthority tablet other.id)
  | none => snapshot.replace tablet [.inactive] .active none "activate"

def sealTablet (tablet : TabletId) : Except DirectoryError DirectorySnapshot :=
  snapshot.replace tablet [.active] .fenced none "seal"

/-- Every successor is there and active. -/
def checkSuccessors (snapshot : DirectorySnapshot) :
    List TabletId → Except DirectoryError Unit
  | [] => .ok ()
  | successor :: rest =>
    match snapshot.tablets.find? fun tablet ↦ tablet.id == successor with
    | none => .error (.unknownTablet successor)
    | some target =>
      if target.state = .active then snapshot.checkSuccessors rest
      else .error (.successorNotActive successor)

def retire (tablet : TabletId) (redirect : Redirect) : Except DirectoryError DirectorySnapshot := do
  ensure (redirect.successors ≠ []) .emptyRedirect
  snapshot.checkSuccessors redirect.successors
  snapshot.replace tablet [.fenced, .inactive] .tombstone (some redirect) "retire"

def cutoverSplit (parent left right : TabletId) : Except DirectoryError DirectorySnapshot := do
  let parentIndex ← snapshot.indexOf parent
  let leftIndex ← snapshot.indexOf left
  let rightIndex ← snapshot.indexOf right
  snapshot.expect parent parentIndex [.fenced] "cutover_split (parent must be fenced)"
  snapshot.expect left leftIndex [.inactive] "cutover_split (children must be inactive)"
  snapshot.expect right rightIndex [.inactive] "cutover_split (children must be inactive)"
  let tablets := snapshot.tablets.modify parentIndex (.moveTo .tombstone (some ⟨[left, right]⟩))
  let tablets := tablets.modify leftIndex (.moveTo .active none)
  let tablets := tablets.modify rightIndex (.moveTo .active none)
  snapshot.advance tablets

def cutoverMerge (left right merged : TabletId) : Except DirectoryError DirectorySnapshot := do
  let leftIndex ← snapshot.indexOf left
  let rightIndex ← snapshot.indexOf right
  let mergedIndex ← snapshot.indexOf merged
  snapshot.expect left leftIndex [.fenced] "cutover_merge (parents must be fenced)"
  snapshot.expect right rightIndex [.fenced] "cutover_merge (parents must be fenced)"
  snapshot.expect merged mergedIndex [.inactive] "cutover_merge (merged must be inactive)"
  let tablets := snapshot.tablets.modify leftIndex (.moveTo .tombstone (some ⟨[merged]⟩))
  let tablets := tablets.modify rightIndex (.moveTo .tombstone (some ⟨[merged]⟩))
  let tablets := tablets.modify mergedIndex (.moveTo .active none)
  snapshot.advance tablets

/-! ### Routing -/

def lookupByHash (hash : PartitionHash) : Option TabletId :=
  ((snapshot.tablets.filter fun tablet ↦ tablet.state = .active).find? fun tablet ↦
    tablet.range.containsHash hash).map TabletDescriptor.id

def lookupByKey (key : Key) : Option TabletId :=
  ((snapshot.tablets.filter fun tablet ↦ tablet.state = .active).find? fun tablet ↦
    tablet.range.containsKey key).map TabletDescriptor.id

end DirectorySnapshot

/-! ### What the check accepts -/

/-- Identities are distinct, and active ranges are apart. -/
structure Valid (tablets : List TabletDescriptor) : Prop where
  distinct : tablets.Pairwise fun first second ↦ first.id ≠ second.id
  apart : tablets.Pairwise fun first second ↦ first.state = .active → second.state = .active →
    first.range.overlaps second.range = false

variable {tablets : List TabletDescriptor}

theorem distinct_of_checkDescriptors {before : List TabletDescriptor}
    (h : checkDescriptors before tablets = .ok ()) :
    (∀ tablet ∈ tablets, ∀ other ∈ before, other.id ≠ tablet.id) ∧
      tablets.Pairwise fun first second ↦ first.id ≠ second.id := by
  induction tablets generalizing before with
  | nil => exact ⟨(fun _ h ↦ nomatch h), List.Pairwise.nil⟩
  | cons tablet rest ih =>
    simp only [checkDescriptors, bind_eq_ok_iff, Unique.exists_iff, ensure_eq_ok_iff] at h
    obtain ⟨hfresh, -, -, -, -, hrest⟩ := h
    obtain ⟨hbefore, hpairwise⟩ := ih hrest
    constructor
    · intro later hlater other hother
      rcases List.mem_cons.mp hlater with rfl | hlater
      · exact hfresh other hother
      · exact hbefore later hlater other (List.mem_append_left _ hother)
    · refine List.pairwise_cons.mpr ⟨fun later hlater ↦ ?_, hpairwise⟩
      exact hbefore later hlater tablet (List.mem_append_right _ List.mem_cons_self)

theorem apart_of_checkOverlaps (h : checkOverlaps tablets = .ok ()) :
    tablets.Pairwise fun first second ↦ first.state = .active → second.state = .active →
      first.range.overlaps second.range = false := by
  induction tablets with
  | nil => exact List.Pairwise.nil
  | cons first rest ih =>
    rw [checkOverlaps] at h
    split at h
    · cases hfind : rest.find? fun second ↦
          decide (second.state = .active) && first.range.overlaps second.range with
      | some second =>
        rw [hfind] at h
        cases h
      | none =>
        rw [hfind] at h
        refine List.pairwise_cons.mpr ⟨fun second hmem _ hsecond ↦ ?_, ih h⟩
        have hclear := List.find?_eq_none.mp hfind second hmem
        simpa [hsecond] using hclear
    next hinactive =>
      exact List.pairwise_cons.mpr ⟨fun _ _ hfirst ↦ absurd hfirst hinactive, ih h⟩

theorem DirectorySnapshot.valid_of_validate {snapshot : DirectorySnapshot}
    (h : snapshot.validate = .ok ()) : Valid snapshot.tablets := by
  simp only [validate, bind_eq_ok_iff, Unique.exists_iff, ensure_eq_ok_iff] at h
  obtain ⟨-, hdescriptors, -, hoverlaps⟩ := h
  exact ⟨(distinct_of_checkDescriptors hdescriptors).2, apart_of_checkOverlaps hoverlaps⟩

variable {first : TabletDescriptor}

section

variable (h : Valid tablets) {second : TabletDescriptor} (hfirst : first ∈ tablets)
  (hsecond : second ∈ tablets)

include h hfirst hsecond

theorem Valid.eq_of_overlaps (hactive : first.state = .active) (hactive' : second.state = .active)
    (hoverlaps : first.range.overlaps second.range = true) : first = second := by
  by_contra hne
  have hsymm : Std.Symm fun first second : TabletDescriptor ↦ first.state = .active →
      second.state = .active → first.range.overlaps second.range = false :=
    ⟨fun one other hclear hother hone ↦ by
      rw [PartitionRange.overlaps_comm]
      exact hclear hone hother⟩
  have hclear := h.apart.forall hfirst hsecond hne hactive hactive'
  rw [hoverlaps] at hclear
  cases hclear

/-- Two descriptors with one identity are one. -/
theorem Valid.eq_of_id_eq (hid : first.id = second.id) : first = second := by
  by_contra hne
  have hsymm : Std.Symm fun first second : TabletDescriptor ↦ first.id ≠ second.id :=
    ⟨fun _ _ ↦ Ne.symm⟩
  exact h.distinct.forall hfirst hsecond hne hid

end

/-! ### What a transition leaves -/

/-- How far a tablet has come. -/
def TabletState.rank : TabletState → Nat
  | .allocated => 0
  | .inactive => 1
  | .active => 2
  | .fenced => 3
  | .tombstone => 4

/-- The same tablet, at least as far. -/
structure TabletDescriptor.Follows (later earlier : TabletDescriptor) : Prop where
  id : later.id = earlier.id
  range : later.range = earlier.range
  epoch : later.epoch = earlier.epoch
  guard : later.guard = earlier.guard
  rank : earlier.state.rank ≤ later.state.rank

theorem TabletDescriptor.Follows.refl (tablet : TabletDescriptor) : tablet.Follows tablet :=
  ⟨rfl, rfl, rfl, rfl, le_rfl⟩

theorem TabletDescriptor.Follows.trans {middle last : TabletDescriptor}
    (hlast : last.Follows middle) (hfirst : middle.Follows first) : last.Follows first where
  id := hlast.id.trans hfirst.id
  range := hlast.range.trans hfirst.range
  epoch := hlast.epoch.trans hfirst.epoch
  guard := hlast.guard.trans hfirst.guard
  rank := hfirst.rank.trans hlast.rank

variable {target : TabletState}

/-- Every tablet is still in its place. -/
def Evolves (earlier later : List TabletDescriptor) : Prop :=
  ∀ (index : Nat) (tablet : TabletDescriptor), earlier[index]? = some tablet →
    ∃ next, later[index]? = some next ∧ next.Follows tablet

theorem Evolves.refl (tablets : List TabletDescriptor) : Evolves tablets tablets :=
  fun _ tablet h ↦ ⟨tablet, h, .refl tablet⟩

theorem Evolves.trans {first middle last : List TabletDescriptor} (hfirst : Evolves first middle)
    (hlast : Evolves middle last) : Evolves first last := by
  intro index tablet h
  obtain ⟨next, hnext, hfollows⟩ := hfirst index tablet h
  obtain ⟨final, hfinal, hfollows'⟩ := hlast index next hnext
  exact ⟨final, hfinal, hfollows'.trans hfollows⟩

theorem evolves_append (tablets added : List TabletDescriptor) :
    Evolves tablets (tablets ++ added) := by
  intro index tablet h
  obtain ⟨hlt, -⟩ := List.getElem?_eq_some_iff.mp h
  exact ⟨tablet, by rwa [List.getElem?_append_left hlt], .refl tablet⟩

theorem evolves_modify {index : Nat}
    (h : ∀ tablet ∈ tablets[index]?, tablet.state.rank ≤ target.rank) (redirect : Option Redirect) :
    Evolves tablets (tablets.modify index (.moveTo target redirect)) := by
  intro place tablet hplace
  by_cases hsame : index = place
  · subst hsame
    refine ⟨tablet.moveTo target redirect, ?_, rfl, rfl, rfl, rfl, h tablet hplace⟩
    rw [List.getElem?_modify_eq, hplace]
    rfl
  · exact ⟨tablet, by rwa [List.getElem?_modify_ne _ _ hsame], .refl tablet⟩

variable {redirect : Option Redirect}

/-- A tablet that has been moved is where it was moved to, and others are where they were. -/
theorem rank_of_mem_modify {index place : Nat} {bound : Nat}
    (htarget : index = place → target.rank ≤ bound)
    (h : index ≠ place → ∀ tablet ∈ tablets[place]?, tablet.state.rank ≤ bound) :
    ∀ tablet ∈ (tablets.modify index (.moveTo target redirect))[place]?,
      tablet.state.rank ≤ bound := by
  intro tablet hmem
  by_cases hsame : index = place
  · rw [hsame, List.getElem?_modify_eq] at hmem
    obtain ⟨old, -, rfl⟩ := Option.map_eq_some_iff.mp hmem
    exact htarget hsame
  · rw [List.getElem?_modify_ne _ _ hsame] at hmem
    exact h hsame tablet hmem

/-- Three tablets move one after the other. -/
theorem evolves_modify_thrice {first second third : Nat} {target' target'' : TabletState}
    {redirect' redirect'' : Option Redirect}
    (hfirst : ∀ tablet ∈ tablets[first]?, tablet.state.rank ≤ target.rank)
    (hsecond : ∀ tablet ∈ tablets[second]?, tablet.state.rank ≤ target'.rank)
    (hthird : ∀ tablet ∈ tablets[third]?, tablet.state.rank ≤ target''.rank)
    (hover : first = second → target.rank ≤ target'.rank)
    (hover' : first = third → target.rank ≤ target''.rank)
    (hover'' : second = third → target'.rank ≤ target''.rank) :
    Evolves tablets (((tablets.modify first (.moveTo target redirect)).modify second
      (.moveTo target' redirect')).modify third (.moveTo target'' redirect'')) := by
  refine (evolves_modify hfirst redirect).trans ((evolves_modify ?_ redirect').trans
    (evolves_modify ?_ redirect''))
  · exact rank_of_mem_modify hover fun _ ↦ hsecond
  · exact rank_of_mem_modify hover'' fun _ ↦ rank_of_mem_modify hover' fun _ ↦ hthird

variable {tablet : TabletId}

namespace DirectorySnapshot

variable {snapshot next : DirectorySnapshot}

variable {index : Fin snapshot.tablets.length} {allowed : List TabletState} {action : String}

theorem expect_eq_ok (h : snapshot.expect tablet index allowed action = .ok ()) :
    ∀ descriptor ∈ snapshot.tablets[index.val]?, descriptor.state ∈ allowed := by
  intro descriptor hdescriptor
  rw [List.getElem?_eq_getElem index.isLt] at hdescriptor
  cases hdescriptor
  exact ensure_eq_ok_iff.mp h

/-- Tablets in different states stand at different places. -/
theorem ne_of_expect {tablet' : TabletId} {index' : Fin snapshot.tablets.length}
    {state state' : TabletState} {action' : String} (hne : state ≠ state')
    (h : snapshot.expect tablet index [state] action = .ok ())
    (h' : snapshot.expect tablet' index' [state'] action' = .ok ()) : index.val ≠ index'.val := by
  intro hsame
  obtain rfl := Fin.ext hsame
  have hget := List.getElem?_eq_getElem index.isLt
  have hstate := List.mem_singleton.mp (expect_eq_ok h _ hget)
  have hstate' := List.mem_singleton.mp (expect_eq_ok h' _ hget)
  exact hne (hstate.symm.trans hstate')

theorem rank_of_expect (hforward : ∀ state ∈ allowed, state.rank ≤ target.rank)
    (h : snapshot.expect tablet index allowed action = .ok ()) :
    ∀ descriptor ∈ snapshot.tablets[index.val]?, descriptor.state.rank ≤ target.rank :=
  fun descriptor hdescriptor ↦ hforward _ (expect_eq_ok h descriptor hdescriptor)

/-- What every transition does. -/
structure Succeeds (snapshot next : DirectorySnapshot) : Prop where
  evolves : Evolves snapshot.tablets next.tablets
  valid : Valid next.tablets

theorem advance_succeeds (hevolves : Evolves snapshot.tablets tablets)
    (h : snapshot.advance tablets = .ok next) : snapshot.Succeeds next := by
  simp only [advance, bind_eq_ok_iff, Unique.exists_iff] at h
  obtain ⟨version, -, hvalid, heq⟩ := h
  cases heq
  exact ⟨hevolves, valid_of_validate hvalid⟩

theorem replace_succeeds (hforward : ∀ state ∈ allowed, state.rank ≤ target.rank)
    (h : snapshot.replace tablet allowed target redirect action = .ok next) :
    snapshot.Succeeds next := by
  simp only [replace, bind_eq_ok_iff, Unique.exists_iff] at h
  obtain ⟨index, -, hexpect, hadvance⟩ := h
  exact advance_succeeds (evolves_modify (rank_of_expect hforward hexpect) redirect) hadvance

theorem allocate_succeeds {range : PartitionRange} {epoch guard : UInt64}
    (h : snapshot.allocate tablet range epoch guard = .ok next) : snapshot.Succeeds next := by
  simp only [allocate, bind_eq_ok_iff, Unique.exists_iff] at h
  obtain ⟨-, -, -, hadvance⟩ := h
  exact advance_succeeds (evolves_append _ _) hadvance

theorem activate_succeeds (h : snapshot.activate tablet = .ok next) : snapshot.Succeeds next := by
  simp only [activate, bind_eq_ok_iff, Unique.exists_iff] at h
  obtain ⟨index, -, -, hfind⟩ := h
  cases hother : snapshot.tablets.find? fun other ↦ decide (other.id ≠ tablet) &&
      decide (other.state = .active) &&
        (snapshot.tablets.get index).range.overlaps other.range with
  | some other =>
    rw [hother] at hfind
    cases hfind
  | none =>
    rw [hother] at hfind
    exact replace_succeeds (by decide) hfind

theorem retire_succeeds {redirect : Redirect} (h : snapshot.retire tablet redirect = .ok next) :
    snapshot.Succeeds next := by
  simp only [retire, bind_eq_ok_iff, Unique.exists_iff] at h
  obtain ⟨-, -, hreplace⟩ := h
  exact replace_succeeds (by decide) hreplace

theorem cutoverSplit_succeeds {parent left right : TabletId}
    (h : snapshot.cutoverSplit parent left right = .ok next) : snapshot.Succeeds next := by
  simp only [cutoverSplit, bind_eq_ok_iff, Unique.exists_iff] at h
  obtain ⟨parentIndex, -, leftIndex, -, rightIndex, -, hparent, hleft, hright, hadvance⟩ := h
  have hneleft := ne_of_expect (by decide) hparent hleft
  have hneright := ne_of_expect (by decide) hparent hright
  refine advance_succeeds (evolves_modify_thrice (rank_of_expect (by decide) hparent)
    (rank_of_expect (by decide) hleft) (rank_of_expect (by decide) hright) ?_ ?_ ?_) hadvance
  · exact fun hsame ↦ absurd hsame hneleft
  · exact fun hsame ↦ absurd hsame hneright
  · exact fun _ ↦ le_rfl

theorem cutoverMerge_succeeds {left right merged : TabletId}
    (h : snapshot.cutoverMerge left right merged = .ok next) : snapshot.Succeeds next := by
  simp only [cutoverMerge, bind_eq_ok_iff, Unique.exists_iff] at h
  obtain ⟨leftIndex, -, rightIndex, -, mergedIndex, -, hleft, hright, hmerged, hadvance⟩ := h
  have hneleft := ne_of_expect (by decide) hleft hmerged
  have hneright := ne_of_expect (by decide) hright hmerged
  refine advance_succeeds (evolves_modify_thrice (rank_of_expect (by decide) hleft)
    (rank_of_expect (by decide) hright) (rank_of_expect (by decide) hmerged) ?_ ?_ ?_) hadvance
  · exact fun _ ↦ le_rfl
  · exact fun hsame ↦ absurd hsame hneleft
  · exact fun hsame ↦ absurd hsame hneright

end DirectorySnapshot

/-! ### Runs of a directory -/

inductive DirectoryCommand where
  | allocate (tablet : TabletId) (range : PartitionRange) (epoch guard : UInt64)
  | stage (tablet : TabletId)
  | activate (tablet : TabletId)
  | sealTablet (tablet : TabletId)
  | retire (tablet : TabletId) (redirect : Redirect)
  | cutoverSplit (parent left right : TabletId)
  | cutoverMerge (left right merged : TabletId)

namespace DirectorySnapshot

def transition (snapshot : DirectorySnapshot) :
    DirectoryCommand → Except DirectoryError DirectorySnapshot
  | .allocate tablet range epoch guard => snapshot.allocate tablet range epoch guard
  | .stage tablet => snapshot.stage tablet
  | .activate tablet => snapshot.activate tablet
  | .sealTablet tablet => snapshot.sealTablet tablet
  | .retire tablet redirect => snapshot.retire tablet redirect
  | .cutoverSplit parent left right => snapshot.cutoverSplit parent left right
  | .cutoverMerge left right merged => snapshot.cutoverMerge left right merged

/-- A command that fails leaves the directory as it is. -/
def step (snapshot : DirectorySnapshot) (command : DirectoryCommand) : DirectorySnapshot :=
  match snapshot.transition command with
  | .ok next => next
  | .error _ => snapshot

variable {snapshot next : DirectorySnapshot}

theorem transition_succeeds {command : DirectoryCommand}
    (h : snapshot.transition command = .ok next) : snapshot.Succeeds next := by
  cases command with
  | allocate tablet range epoch guard => exact allocate_succeeds h
  | stage tablet => exact replace_succeeds (by decide) h
  | activate tablet => exact activate_succeeds h
  | sealTablet tablet => exact replace_succeeds (by decide) h
  | retire tablet redirect => exact retire_succeeds h
  | cutoverSplit parent left right => exact cutoverSplit_succeeds h
  | cutoverMerge left right merged => exact cutoverMerge_succeeds h

theorem valid_step (h : Valid snapshot.tablets) (command : DirectoryCommand) :
    Valid (snapshot.step command).tablets := by
  rw [step]
  cases htransition : snapshot.transition command with
  | ok next => exact (transition_succeeds htransition).valid
  | error error => exact h

theorem evolves_run (snapshot : DirectorySnapshot) (commands : List DirectoryCommand) :
    Evolves snapshot.tablets (run step snapshot commands).tablets := by
  have halong : Along step (fun _ _ ↦ True) snapshot commands :=
    along_of_forall snapshot fun _ _ ↦ trivial
  refine run_relation (R := fun first last ↦ Evolves first.tablets last.tablets)
    (fun _ ↦ .refl _) Evolves.trans (fun snapshot command _ ↦ ?_) halong
  rw [step]
  cases htransition : snapshot.transition command with
  | ok next => exact (transition_succeeds htransition).evolves
  | error error => exact .refl _

/-! ### Versions -/

theorem advance_version {tablets : List TabletDescriptor}
    (h : snapshot.advance tablets = .ok next) : snapshot.version < next.version := by
  simp only [advance, bind_eq_ok_iff, Unique.exists_iff] at h
  obtain ⟨version, hversion, -, heq⟩ := h
  cases heq
  rw [nextVersion] at hversion
  split_ifs at hversion with hroom
  cases hversion
  rw [UInt64.lt_iff_toNat_lt, UInt64.toNat_add]
  exact (Nat.lt_succ_self _).trans_eq (Nat.mod_eq_of_lt hroom).symm

/-- Every command that succeeds raises the version. -/
theorem transition_version {command : DirectoryCommand}
    (h : snapshot.transition command = .ok next) : snapshot.version < next.version := by
  cases command with
  | activate tablet =>
    simp only [transition, activate, replace, bind_eq_ok_iff, Unique.exists_iff] at h
    obtain ⟨index, -, -, h⟩ := h
    split at h
    · cases h
    · simp only [bind_eq_ok_iff, Unique.exists_iff] at h
      grind [advance_version]
  | _ =>
    simp only [transition, allocate, stage, sealTablet, retire, replace, cutoverSplit,
      cutoverMerge, bind_eq_ok_iff, Unique.exists_iff] at h
    grind [advance_version]

/-- Whatever commands follow, the version never falls, and while it stays the directory stays. -/
theorem version_identifies_snapshot (snapshot : DirectorySnapshot)
    (commands : List DirectoryCommand) :
    let last := run step snapshot commands
    snapshot.version ≤ last.version ∧ (last.version = snapshot.version ↔ last = snapshot) := by
  have hgrows : run step snapshot commands = snapshot ∨
      snapshot.version < (run step snapshot commands).version := by
    refine run_invariant (P := fun last : DirectorySnapshot ↦
      last = snapshot ∨ snapshot.version < last.version) (fun last command hlast ↦ ?_)
      (Or.inl rfl) commands
    rw [step]
    split
    next next hnext =>
      have hversion := transition_version hnext
      grind
    · exact hlast
  grind

end DirectorySnapshot

/-- In every snapshot a directory reaches, a hash or a key has at most one active tablet, a
tablet that is fenced or retired is not active in any later snapshot, and an identity once given
out stays with its tablet. The overlap test says exactly that two ranges share a point. -/
theorem single_authority :
    (∀ first second : PartitionRange, first.overlaps second = true ↔
      (∃ hash, first.containsHash hash = true ∧ second.containsHash hash = true) ∨
        ∃ key, first.containsKey key = true ∧ second.containsKey key = true) ∧
    ∀ (namespaceId : NamespaceId) (tablet : TabletId) (range : PartitionRange)
      (epoch guard : UInt64) (genesis : DirectorySnapshot),
      DirectorySnapshot.bootstrap namespaceId tablet range epoch guard = .ok genesis →
      ∀ commands : List DirectoryCommand,
        (∀ first ∈ (run DirectorySnapshot.step genesis commands).tablets,
          ∀ second ∈ (run DirectorySnapshot.step genesis commands).tablets,
          first.state = .active → second.state = .active →
          (∀ hash, first.range.containsHash hash = true → second.range.containsHash hash = true →
            first = second) ∧
          (∀ key, first.range.containsKey key = true → second.range.containsKey key = true →
            first = second)) ∧
        ((run DirectorySnapshot.step genesis commands).tablets.map TabletDescriptor.id).Nodup ∧
        ∀ (more : List DirectoryCommand),
          ∀ earlier ∈ (run DirectorySnapshot.step genesis commands).tablets,
          (∃ later ∈ (run DirectorySnapshot.step genesis (commands ++ more)).tablets,
            later.id = earlier.id ∧ later.range = earlier.range ∧ later.epoch = earlier.epoch ∧
              later.guard = earlier.guard) ∧
          (∀ later ∈ (run DirectorySnapshot.step genesis (commands ++ more)).tablets,
            later.id = earlier.id → earlier.state = .fenced ∨ earlier.state = .tombstone →
            later.state ≠ .active) ∧
          ∀ range epoch guard, (run DirectorySnapshot.step genesis (commands ++ more)).allocate
            earlier.id range epoch guard = .error (.duplicateTabletId earlier.id) := by
  refine ⟨PartitionRange.overlaps_iff_exists, ?_⟩
  intro namespaceId tablet range epoch guard genesis hgenesis commands
  have hvalid : ∀ inputs, Valid (run DirectorySnapshot.step genesis inputs).tablets := by
    refine run_invariant (P := fun snapshot : DirectorySnapshot ↦ Valid snapshot.tablets)
      (fun _ command h ↦ DirectorySnapshot.valid_step h command) ?_
    simp only [DirectorySnapshot.bootstrap, bind_eq_ok_iff, Unique.exists_iff] at hgenesis
    obtain ⟨-, -, hvalid, heq⟩ := hgenesis
    cases heq
    exact DirectorySnapshot.valid_of_validate hvalid
  refine ⟨?_, List.pairwise_map.mpr (hvalid commands).distinct, ?_⟩
  · intro first hfirst second hsecond hactive hactive'
    have hsame (hshared) := (hvalid commands).eq_of_overlaps hfirst hsecond hactive hactive'
      ((PartitionRange.overlaps_iff_exists _ _).mpr hshared)
    exact ⟨fun hash hin hin' ↦ hsame (Or.inl ⟨hash, hin, hin'⟩),
      fun key hin hin' ↦ hsame (Or.inr ⟨key, hin, hin'⟩)⟩
  · intro more earlier hearlier
    obtain ⟨index, hindex⟩ := List.getElem?_of_mem hearlier
    have hevolves :=
      DirectorySnapshot.evolves_run (run DirectorySnapshot.step genesis commands) more
    rw [← run_append] at hevolves
    obtain ⟨later, hlater, hfollows⟩ := hevolves index earlier hindex
    have hmem := List.mem_of_getElem? hlater
    refine ⟨⟨later, hmem, hfollows.id, hfollows.range, hfollows.epoch, hfollows.guard⟩, ?_, ?_⟩
    · intro other hother hid hdone hactive
      obtain rfl := (hvalid _).eq_of_id_eq hother hmem (hid.trans hfollows.id.symm)
      have hrank := hfollows.rank
      rw [hactive] at hrank
      rcases hdone with hdone | hdone <;> rw [hdone] at hrank <;> exact absurd hrank (by decide)
    · intro range epoch guard
      rw [← hfollows.id, DirectorySnapshot.allocate, ensure,
        if_neg fun h ↦ h later hmem rfl]
      rfl

/-- All hashes. -/
def rootPrefix : HashPrefix := ⟨0, 0, by decide, by decide⟩

/-- The hashes with the top bit clear. -/
def lowerHalf : HashPrefix := ⟨0, 1, by decide, by decide⟩

/-- The hashes with the top bit set. -/
def upperHalf : HashPrefix := ⟨1 <<< 127, 1, by decide, by decide⟩

/-- One tablet for all hashes. -/
def genesisRoot : DirectorySnapshot := ⟨1, 7, [⟨1, .hash rootPrefix, .allocated, 1, 1, none⟩]⟩

/-- The tablet is split in two, and the two are merged. -/
def splitAndMerged : List DirectoryCommand :=
  [.stage 1, .activate 1, .allocate 2 (.hash lowerHalf) 1 1, .allocate 3 (.hash upperHalf) 1 1,
    .stage 2, .stage 3, .sealTablet 1, .cutoverSplit 1 2 3, .sealTablet 2, .sealTablet 3,
    .allocate 4 (.hash rootPrefix) 1 1, .stage 4, .cutoverMerge 2 3 4]

/-- The merged tablet alone is active, and the identity of the first is not given again. -/
theorem single_authority_splitAndMerged :
    DirectorySnapshot.bootstrap 7 1 (.hash rootPrefix) 1 1 = .ok genesisRoot ∧
      (run DirectorySnapshot.step genesisRoot splitAndMerged).tablets.map TabletDescriptor.state =
        [.tombstone, .tombstone, .tombstone, .active] ∧
      (run DirectorySnapshot.step genesisRoot splitAndMerged).allocate 1 (.hash rootPrefix) 1 1 =
        .error (.duplicateTabletId 1) := by
  have hgenesis : DirectorySnapshot.bootstrap 7 1 (.hash rootPrefix) 1 1 = .ok genesisRoot := by
    rfl
  obtain ⟨-, -, hlater⟩ := single_authority.2 7 1 (.hash rootPrefix) 1 1 genesisRoot hgenesis []
  obtain ⟨-, -, htaken⟩ := hlater splitAndMerged _ List.mem_cons_self
  exact ⟨hgenesis, by decide +kernel, htaken (.hash rootPrefix) 1 1⟩

end Kivi.Tablet
