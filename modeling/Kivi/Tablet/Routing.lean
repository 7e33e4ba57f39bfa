import Kivi.State.IndexKeys
import Kivi.Tablet.Directory
import Kivi.Txn.Record

/-!
# Routing a key to its tablet

The rule that routes a key is written three times: in the engine, over a snapshot of directory and
placement in which the route of a lone active tablet is compiled to a constant, and twice in the
cluster, over the directory alone. The owner of a key is a relation of its own, which the copies
in the cluster compute; the compiled constant computes it as long as the lone tablet covers the key.
-/

namespace Kivi.Tablet

open Library Library.Fallible State Consensus Txn

abbrev WorkerId := UInt64

abbrev Placement := Std.ExtTreeMap TabletId WorkerId

inductive RoutingError where
  | directory (error : DirectoryError)
  | namespaceMismatch (expected found : NamespaceId)
  | missingPlacement (tablet : TabletId)
  | unknownPlacement (tablet : TabletId)
  | unknownWorker (worker : WorkerId)
  | noRoute
deriving DecidableEq

structure SingleTabletRoute where
  tablet : TabletId
  worker : WorkerId
  version : UInt64
deriving DecidableEq

/-- A route that is the same for every key, or one still to find. -/
inductive CompiledRoute where
  | single (route : SingleTabletRoute)
  | variable
deriving DecidableEq

structure RoutingSnapshot where
  namespaceId : NamespaceId
  directory : DirectorySnapshot
  placement : Placement
  workerCount : Nat
  compiled : CompiledRoute

def DirectorySnapshot.active (directory : DirectorySnapshot) : List TabletDescriptor :=
  directory.tablets.filter fun tablet ↦ tablet.state = .active

def CompiledRoute.compile (directory : DirectorySnapshot) (placement : Placement) :
    CompiledRoute :=
  match directory.active with
  | [only] =>
    match placement[only.id]? with
    | some worker => .single ⟨only.id, worker, directory.version⟩
    | none => .variable
  | _ => .variable

/-- Every placed tablet is in the directory, and on a worker there is. -/
def checkPlacements (directory : DirectorySnapshot) (workerCount : Nat) :
    List (TabletId × WorkerId) → Except RoutingError Unit
  | [] => .ok ()
  | (tablet, worker) :: rest => do
    ensure (∃ descriptor ∈ directory.tablets, descriptor.id = tablet) (.unknownPlacement tablet)
    ensure (worker.toNat < workerCount) (.unknownWorker worker)
    checkPlacements directory workerCount rest

def RoutingSnapshot.build (namespaceId : NamespaceId) (directory : DirectorySnapshot)
    (placement : Placement) (workerCount : Nat) : Except RoutingError RoutingSnapshot := do
  directory.validate.mapError .directory
  ensure (directory.namespaceId = namespaceId)
    (.namespaceMismatch namespaceId directory.namespaceId)
  match directory.active.find? fun tablet ↦ decide (placement[tablet.id]? = none) with
  | some tablet => .error (.missingPlacement tablet.id)
  | none =>
    checkPlacements directory workerCount placement.toList
    pure ⟨namespaceId, directory, placement, workerCount, .compile directory placement⟩

/-- The bytes of `kivi/proj/` behind the system byte. -/
def projectionMark : Bytes := [0xFF, 107, 105, 118, 105, 47, 112, 114, 111, 106, 47]

def parseProjectionPrimary (key : Key) : Option Key :=
  if key.length ≤ 11 ∨ key.take 11 ≠ projectionMark then none else some (key.drop 11)

/-- The coordinator that a transaction record key names, as long as it is active. -/
def activeCoordinator (directory : DirectorySnapshot) (key : Key) : Option TabletId :=
  match parseTxnRecordKey key with
  | some (coordinator, _) =>
    match directory.tablets.find? fun tablet ↦ tablet.id == coordinator with
    | some descriptor => if descriptor.state = .active then some coordinator else none
    | none => none
  | none => none

/-- The key whose owner owns `key`: the primary of a projection or of a non-unique index entry. -/
def routedKey (key : Key) : Key :=
  match parseProjectionPrimary key with
  | some primary => primary
  | none =>
    match parseIndexPrimary key with
    | some primary => primary
    | none => key

/-- The rule that the three copies share, over a rule for ordinary keys. -/
def routeBy (directory : DirectorySnapshot) (normal : Key → Option TabletId) (key : Key) :
    Option TabletId :=
  match activeCoordinator directory key with
  | some coordinator => some coordinator
  | none => normal (routedKey key)

section Rules

-- The hash of a key in a namespace; nothing is asked of it.
variable (routeHash : NamespaceId → Key → PartitionHash)

namespace RoutingSnapshot

def workerFor (snapshot : RoutingSnapshot) (tablet : TabletId) :
    Except RoutingError (TabletId × WorkerId) :=
  match snapshot.placement[tablet]? with
  | some worker => .ok (tablet, worker)
  | none => .error .noRoute

def routeKey (snapshot : RoutingSnapshot) (key : Key) :
    Except RoutingError (TabletId × WorkerId) :=
  match snapshot.compiled with
  | .single route => .ok (route.tablet, route.worker)
  | .variable =>
    match snapshot.directory.lookupByKey key with
    | some tablet => snapshot.workerFor tablet
    | none =>
      match snapshot.directory.lookupByHash (routeHash snapshot.namespaceId key) with
      | some tablet => snapshot.workerFor tablet
      | none => .error .noRoute

/-- The rule of the engine. -/
def routePointKey (snapshot : RoutingSnapshot) (key : Key) : Option TabletId :=
  match snapshot.compiled with
  | .single route => some route.tablet
  | .variable =>
    routeBy snapshot.directory
      (fun key ↦ (snapshot.routeKey routeHash key).toOption.map Prod.fst) key

end RoutingSnapshot

def routeNormalKey (directory : DirectorySnapshot) (namespaceId : NamespaceId) (key : Key) :
    Option TabletId :=
  match directory.lookupByKey key with
  | some tablet => some tablet
  | none => directory.lookupByHash (routeHash namespaceId key)

/-- The rule of the batches of the cluster. -/
def routeBatchKey (directory : DirectorySnapshot) (namespaceId : NamespaceId) (key : Key) :
    Option TabletId :=
  routeBy directory (routeNormalKey routeHash directory namespaceId) key

inductive RouteError where
  | noTablet
deriving DecidableEq

/-- The rule of the requests of the cluster. -/
def routeKey (directory : DirectorySnapshot) (namespaceId : NamespaceId) (key : Key) :
    Except RouteError TabletId :=
  match routeBy directory (routeNormalKey routeHash directory namespaceId) key with
  | some tablet => .ok tablet
  | none => .error .noTablet

/-! ### Owners -/

/-- The range holds the key itself or its hash. -/
def PartitionRange.Covers (range : PartitionRange) (namespaceId : NamespaceId) (key : Key) : Prop :=
  range.containsKey key = true ∨ range.containsHash (routeHash namespaceId key) = true

/-- The answer is the active coordinator of a record key, else the one active tablet that covers
the key, else nothing. -/
def NamesOwner (directory : DirectorySnapshot) (namespaceId : NamespaceId) (key : Key)
    (answer : Option TabletId) : Prop :=
  match activeCoordinator directory key with
  | some coordinator => answer = some coordinator
  | none => ∀ tablet, answer = some tablet ↔
      ∃ descriptor ∈ directory.active, descriptor.id = tablet ∧
        descriptor.range.Covers routeHash namespaceId (routedKey key)

/-- A lone active tablet owns the key. -/
def LoneCovers (directory : DirectorySnapshot) (namespaceId : NamespaceId) (key : Key) : Prop :=
  ∀ only, directory.active = [only] → activeCoordinator directory key = none →
    only.range.Covers routeHash namespaceId (routedKey key)

end Rules

/-! ### What the rules compute -/

variable {tablets : List TabletDescriptor}

theorem kind_of_checkLayouts {kind : PartitionKind}
    (h : checkLayouts (some kind) tablets = .ok ()) :
    ∀ tablet ∈ tablets, tablet.range.kind = kind := by
  induction tablets with
  | nil => exact fun _ hmem ↦ nomatch hmem
  | cons first rest ih =>
    rw [checkLayouts] at h
    split_ifs at h with hkind
    exact List.forall_mem_cons.mpr ⟨hkind.symm, ih h⟩

theorem kind_eq_of_checkLayouts (h : checkLayouts none tablets = .ok ())
    {first second : TabletDescriptor} (hfirst : first ∈ tablets) (hsecond : second ∈ tablets) :
    first.range.kind = second.range.kind := by
  cases tablets with
  | nil => cases hfirst
  | cons head rest =>
    have hall : ∀ tablet ∈ head :: rest, tablet.range.kind = head.range.kind :=
      List.forall_mem_cons.mpr ⟨rfl, kind_of_checkLayouts h⟩
    exact (hall first hfirst).trans (hall second hsecond).symm

variable {tablet : TabletId}

/-- Where at most one tablet passes a test, the first to pass it is the one. -/
theorem find_id_eq_some_iff {p : TabletDescriptor → Bool}
    (hone : ∀ first ∈ tablets, ∀ second ∈ tablets, p first = true → p second = true →
      first = second) :
    (tablets.find? p).map TabletDescriptor.id = some tablet ↔
      ∃ descriptor ∈ tablets, descriptor.id = tablet ∧ p descriptor = true := by
  constructor
  · intro h
    obtain ⟨descriptor, hfind, hid⟩ := Option.map_eq_some_iff.mp h
    exact ⟨descriptor, List.mem_of_find?_eq_some hfind, hid, List.find?_some hfind⟩
  · rintro ⟨descriptor, hmem, hid, hp⟩
    cases hfind : tablets.find? p with
    | none => exact absurd hp (List.find?_eq_none.mp hfind descriptor hmem)
    | some other =>
      have hother := List.mem_of_find?_eq_some hfind
      rw [hone other hother descriptor hmem (List.find?_some hfind) hp]
      exact congrArg some hid

variable {key : Key}

namespace DirectorySnapshot

variable {directory : DirectorySnapshot}

theorem mem_active {tablet : TabletDescriptor} :
    tablet ∈ directory.active ↔ tablet ∈ directory.tablets ∧ tablet.state = .active := by
  rw [active, List.mem_filter, decide_eq_true_iff]

section

variable (h : directory.validate = .ok ())
include h

theorem active_eq_of_overlaps :
    ∀ first ∈ directory.active, ∀ second ∈ directory.active,
      first.range.overlaps second.range = true → first = second := by
  intro first hfirst second hsecond
  obtain ⟨hfirst, hactive⟩ := mem_active.mp hfirst
  obtain ⟨hsecond, hactive'⟩ := mem_active.mp hsecond
  exact (valid_of_validate h).eq_of_overlaps hfirst hsecond hactive hactive'

theorem lookupByKey_eq_some_iff :
    directory.lookupByKey key = some tablet ↔
      ∃ descriptor ∈ directory.active, descriptor.id = tablet ∧
        descriptor.range.containsKey key = true :=
  find_id_eq_some_iff fun first hfirst second hsecond hin hin' ↦
    active_eq_of_overlaps h first hfirst second hsecond
      ((PartitionRange.overlaps_iff_exists _ _).mpr (Or.inr ⟨key, hin, hin'⟩))

theorem lookupByHash_eq_some_iff {hash : PartitionHash} :
    directory.lookupByHash hash = some tablet ↔
      ∃ descriptor ∈ directory.active, descriptor.id = tablet ∧
        descriptor.range.containsHash hash = true :=
  find_id_eq_some_iff fun first hfirst second hsecond hin hin' ↦
    active_eq_of_overlaps h first hfirst second hsecond
      ((PartitionRange.overlaps_iff_exists _ _).mpr (Or.inl ⟨hash, hin, hin'⟩))

end

end DirectorySnapshot

section Rules

variable {routeHash : NamespaceId → Key → PartitionHash} {namespaceId : NamespaceId}

open DirectorySnapshot

variable {directory : DirectorySnapshot}

/-- In a valid directory a key is routed to the one active tablet that covers it. -/
theorem routeNormalKey_eq_some_iff (h : directory.validate = .ok ()) :
    routeNormalKey routeHash directory namespaceId key = some tablet ↔
      ∃ descriptor ∈ directory.active, descriptor.id = tablet ∧
        descriptor.range.Covers routeHash namespaceId key := by
  rw [routeNormalKey]
  cases hlookup : directory.lookupByKey key with
  | none =>
    have hnone : ∀ descriptor ∈ directory.active, ¬descriptor.range.containsKey key = true := by
      intro descriptor hmem hin
      have hsome := (lookupByKey_eq_some_iff h).mpr ⟨descriptor, hmem, rfl, hin⟩
      rw [hlookup] at hsome
      cases hsome
    refine (lookupByHash_eq_some_iff h).trans (exists_congr fun descriptor ↦ ?_)
    refine and_congr_right fun hmem ↦ and_congr_right fun _ ↦ ?_
    exact ⟨Or.inr, fun hcovers ↦ hcovers.resolve_left (hnone descriptor hmem)⟩
  | some found =>
    obtain ⟨owner, howner, hid, hin⟩ := (lookupByKey_eq_some_iff h).mp hlookup
    show some found = some tablet ↔ _
    rw [← hlookup, lookupByKey_eq_some_iff h]
    refine exists_congr fun descriptor ↦ and_congr_right fun hmem ↦ and_congr_right fun _ ↦ ?_
    refine ⟨Or.inl, fun hcovers ↦ hcovers.resolve_right ?_⟩
    -- The ranges of a valid directory are of one kind.
    simp only [validate, bind_eq_ok_iff, Unique.exists_iff] at h
    have hkind := kind_eq_of_checkLayouts h.2.2.1 howner hmem
    cases hrange : owner.range with
    | hash node =>
      rw [hrange] at hin
      cases hin
    | ordered range =>
      cases hrange' : descriptor.range with
      | hash node =>
        rw [hrange, hrange'] at hkind
        cases hkind
      | ordered range' => exact Bool.false_ne_true

theorem routeBatchKey_names (routeHash : NamespaceId → Key → PartitionHash)
    (namespaceId : NamespaceId) (h : directory.validate = .ok ()) (key : Key) :
    NamesOwner routeHash directory namespaceId key
      (routeBatchKey routeHash directory namespaceId key) := by
  rw [NamesOwner, routeBatchKey, routeBy]
  cases activeCoordinator directory key with
  | some coordinator => exact rfl
  | none => exact fun tablet ↦ routeNormalKey_eq_some_iff h

/-- What `build` accepts. -/
theorem RoutingSnapshot.build_eq_ok {placement : Placement} {workerCount : Nat}
    {snapshot : RoutingSnapshot}
    (h : build namespaceId directory placement workerCount = .ok snapshot) :
    directory.validate = .ok () ∧
      (∀ tablet ∈ directory.active, ∃ worker, placement[tablet.id]? = some worker) ∧
      snapshot = ⟨namespaceId, directory, placement, workerCount,
        .compile directory placement⟩ := by
  simp only [build, bind_eq_ok_iff, Unique.exists_iff] at h
  obtain ⟨hvalid, -, hbuild⟩ := h
  cases hfind : directory.active.find? fun tablet ↦ decide (placement[tablet.id]? = none) with
  | some tablet =>
    rw [hfind] at hbuild
    cases hbuild
  | none =>
    rw [hfind] at hbuild
    simp only [bind_eq_ok_iff, Unique.exists_iff] at hbuild
    refine ⟨?_, fun tablet hmem ↦ ?_, ?_⟩
    · cases hcheck : directory.validate with
      | ok _ => rfl
      | error error =>
        rw [hcheck] at hvalid
        cases hvalid
    · have hplaced := List.find?_eq_none.mp hfind tablet hmem
      exact Option.ne_none_iff_exists'.mp fun hnone ↦ hplaced (decide_eq_true hnone)
    · cases hbuild.2
      rfl

theorem exists_active_of_activeCoordinator {coordinator : TabletId}
    (h : activeCoordinator directory key = some coordinator) :
    ∃ descriptor ∈ directory.active, descriptor.id = coordinator := by
  rw [activeCoordinator] at h
  cases hparse : parseTxnRecordKey key with
  | none =>
    rw [hparse] at h
    cases h
  | some parts =>
    obtain ⟨named, txn⟩ := parts
    cases hfind : directory.tablets.find? fun tablet ↦ tablet.id == named with
    | none =>
      simp only [hparse, hfind] at h
      cases h
    | some descriptor =>
      simp only [hparse, hfind, Option.ite_none_right_eq_some, Option.some.injEq] at h
      refine ⟨descriptor, mem_active.mpr ⟨List.mem_of_find?_eq_some hfind, h.1⟩, ?_⟩
      have hid := List.find?_some hfind
      exact (beq_iff_eq.mp hid).trans h.2

namespace RoutingSnapshot

variable {directory : DirectorySnapshot} {placement : Placement} {workerCount : Nat}

theorem compile_of_several (h : ∀ only, directory.active ≠ [only]) :
    CompiledRoute.compile directory placement = .variable := by
  rw [CompiledRoute.compile]
  match hactive : directory.active with
  | [] => rfl
  | [only] => exact absurd hactive (h only)
  | _ :: _ :: _ => rfl

section

variable (hvalid : directory.validate = .ok ())
  (hplaced : ∀ tablet ∈ directory.active, ∃ worker, placement[tablet.id]? = some worker) (key : Key)
include hvalid hplaced

/-- Past the compiled route an ordinary key goes where the cluster sends it. -/
theorem routeKey_of_variable :
    (routeKey routeHash ⟨namespaceId, directory, placement, workerCount, .variable⟩
      key).toOption.map Prod.fst = routeNormalKey routeHash directory namespaceId key := by
  rw [routeKey, routeNormalKey]
  cases hkey : directory.lookupByKey key with
  | some tablet =>
    obtain ⟨descriptor, hmem, rfl, -⟩ := (lookupByKey_eq_some_iff hvalid).mp hkey
    obtain ⟨worker, hworker⟩ := hplaced descriptor hmem
    simp only [workerFor, hworker]
    rfl
  | none =>
    cases hhash : directory.lookupByHash (routeHash namespaceId key) with
    | some tablet =>
      obtain ⟨descriptor, hmem, rfl, -⟩ := (lookupByHash_eq_some_iff hvalid).mp hhash
      obtain ⟨worker, hworker⟩ := hplaced descriptor hmem
      simp only [workerFor, hworker]
      rfl
    | none => rfl

/-- The engine agrees with the cluster exactly if a lone active tablet covers the key. -/
theorem routePointKey_eq_iff :
    routePointKey routeHash ⟨namespaceId, directory, placement, workerCount,
        .compile directory placement⟩ key = routeBatchKey routeHash directory namespaceId key ↔
      LoneCovers routeHash directory namespaceId key := by
  by_cases hlone : ∃ only, directory.active = [only]
  · obtain ⟨only, hlone⟩ := hlone
    have hmem : only ∈ directory.active := by simp [hlone]
    obtain ⟨worker, hworker⟩ := hplaced only hmem
    have hnames := routeBatchKey_names routeHash namespaceId hvalid key
    rw [CompiledRoute.compile, hlone, eq_comm]
    simp only [hworker]
    show routeBatchKey routeHash directory namespaceId key = some only.id ↔ _
    rw [NamesOwner] at hnames
    cases hcoordinator : activeCoordinator directory key with
    | some coordinator =>
      obtain ⟨descriptor, hdescriptor, rfl⟩ := exists_active_of_activeCoordinator hcoordinator
      obtain rfl : descriptor = only := by simpa [hlone] using hdescriptor
      rw [hcoordinator] at hnames
      refine iff_of_true hnames fun _ _ hnone ↦ ?_
      rw [hcoordinator] at hnone
      cases hnone
    | none =>
      rw [hcoordinator] at hnames
      rw [hnames only.id]
      simp [LoneCovers, hlone, hcoordinator]
  · rw [not_exists] at hlone
    rw [compile_of_several hlone]
    refine iff_of_true ?_ fun only honly ↦ absurd honly (hlone only)
    simp only [routePointKey, routeBatchKey, routeKey_of_variable hvalid hplaced]

end

end RoutingSnapshot

end Rules

/-- Over every snapshot that is accepted the two rules of the cluster name the owner of a key, and
the rule of the engine gives their answer exactly if a lone active tablet covers the key: the
compiled route does not look at the range. -/
theorem routing_names_owner (routeHash : NamespaceId → Key → PartitionHash)
    (namespaceId : NamespaceId) (directory : DirectorySnapshot) (placement : Placement)
    (workerCount : Nat) (snapshot : RoutingSnapshot)
    (h : RoutingSnapshot.build namespaceId directory placement workerCount = .ok snapshot)
    (key : Key) :
    NamesOwner routeHash directory namespaceId key
        (routeBatchKey routeHash directory namespaceId key) ∧
      (routeKey routeHash directory namespaceId key).toOption =
        routeBatchKey routeHash directory namespaceId key ∧
      (snapshot.routePointKey routeHash key = routeBatchKey routeHash directory namespaceId key ↔
        LoneCovers routeHash directory namespaceId key) := by
  obtain ⟨hvalid, hplaced, rfl⟩ := RoutingSnapshot.build_eq_ok h
  refine ⟨routeBatchKey_names routeHash namespaceId hvalid key, ?_,
    RoutingSnapshot.routePointKey_eq_iff hvalid hplaced key⟩
  rw [routeKey, routeBatchKey]
  cases routeBy directory (routeNormalKey routeHash directory namespaceId) key with
  | some tablet => rfl
  | none => rfl

/-- The lower half of the hashes is served, the upper half is fenced for a split. -/
def midSplit : DirectorySnapshot :=
  ⟨9, 7, [⟨2, .hash lowerHalf, .active, 1, 1, none⟩, ⟨3, .hash upperHalf, .fenced, 1, 1, none⟩]⟩

def servedByFirst : Placement := (∅ : Placement).insert 2 0

def midSplitSnapshot : RoutingSnapshot := ⟨7, midSplit, servedByFirst, 1, .single ⟨2, 0, 9⟩⟩

theorem build_midSplit :
    RoutingSnapshot.build 7 midSplit servedByFirst 1 = .ok midSplitSnapshot := by
  rfl

/-- A key of the served half is routed to its tablet. -/
theorem routing_names_owner_midSplit :
    RoutingSnapshot.build 7 midSplit servedByFirst 1 = .ok midSplitSnapshot ∧
      midSplitSnapshot.routePointKey (fun _ _ ↦ 0) [1] =
        routeBatchKey (fun _ _ ↦ 0) midSplit 7 [1] := by
  refine ⟨build_midSplit, (routing_names_owner (fun _ _ ↦ 0) 7 midSplit _ 1 midSplitSnapshot
    build_midSplit [1]).2.2.mpr fun only honly _ ↦ ?_⟩
  cases honly
  exact Or.inr rfl

/-- A key of the fenced half is routed to the tablet of the other half. -/
theorem routePointKey_misroutes :
    ¬∀ (routeHash : NamespaceId → Key → PartitionHash) (namespaceId : NamespaceId)
      (directory : DirectorySnapshot) (placement : Placement) (workerCount : Nat)
      (snapshot : RoutingSnapshot),
      RoutingSnapshot.build namespaceId directory placement workerCount = .ok snapshot →
      ∀ key, NamesOwner routeHash directory namespaceId key
        (snapshot.routePointKey routeHash key) := by
  intro h
  have hnames := h (fun _ _ ↦ 1 <<< 127) 7 midSplit _ 1 midSplitSnapshot build_midSplit [1]
  obtain ⟨descriptor, hmem, -, hcovers⟩ := (hnames 2).mp rfl
  have honly : descriptor ∈ [(⟨2, .hash lowerHalf, .active, 1, 1, none⟩ : TabletDescriptor)] := hmem
  rw [List.mem_singleton.mp honly] at hcovers
  rcases hcovers with hkey | hhash
  · cases hkey
  · exact absurd hhash (by decide)

end Kivi.Tablet
