import Kivi.Consensus.Snapshot

/-!
# The Raft section of a snapshot image

Next to its objects a replica keeps the last entry it applied and the membership it last stored,
and both kinds of image carry them in one section. The section has no word for an absent pointer
and one voter list for all configurations of a membership. `raft_section_faithful_iff` says what
that loses: of the states a replica reaches, the section gives back those whose pointer is not the
one that stands for none and whose membership is not joint, if every address can be written.
-/

namespace Kivi.Consensus

open Library Library.Bytes Library.Codec Library.Codec.Decoder
open Library.Reader (decoder_bind decoder_fail decoder_ite decoder_many decoder_map decoder_pure
  decoder_within)
open Library.Runs State
open Std (ExtTreeMap ExtTreeSet)

/-! ### Memberships -/

/-- The voter sets of a configuration, more than one while it changes, and the address of every
voter and learner. -/
structure Membership where
  configs : List (ExtTreeSet UInt64)
  nodes : ExtTreeMap UInt64 String
deriving DecidableEq

structure StoredMembership where
  logId : Option LogId
  membership : Membership
deriving DecidableEq

namespace Membership

/-- What consensus proposes: some configuration, no empty one, and an address for every voter. -/
structure Valid (membership : Membership) : Prop where
  configs : membership.configs ≠ []
  nonempty : ∀ config ∈ membership.configs, config ≠ ∅
  addressed : ∀ config ∈ membership.configs, ∀ voter ∈ config, voter ∈ membership.nodes

/-- The voters of all configurations. -/
def voters (membership : Membership) : ExtTreeSet UInt64 :=
  .ofList (membership.configs.flatMap (·.toList))

end Membership

/-- The membership of a replica that never installed one. -/
def StoredMembership.default : StoredMembership := ⟨none, ⟨[], ∅⟩⟩

def addressBytes (address : String) : Bytes := address.toUTF8.data.toList

def addressOf (bytes : Bytes) : Option String := String.fromUTF8? ⟨bytes.toArray⟩

/-! ### Writing -/

def membershipNodes (membership : Membership) : List UInt64 × List (UInt64 × String) :=
  (membership.voters.toList, membership.nodes.toList)

def encodeVoter (voter : UInt64) : Option Bytes := some (leU64 voter).bytes

def encodeNode (node : UInt64 × String) : Option Bytes := do
  let address ← encodeBytes (addressBytes node.2)
  return (leU64 node.1).bytes ++ address

def encodeMembership (membership : Membership) : Option Bytes := do
  let (voters, nodes) := membershipNodes membership
  let voterBytes ← encodeEach encodeVoter voters
  let nodeBytes ← encodeEach encodeNode nodes
  return (leCount voters.length ++ voterBytes) ++ (leCount nodes.length ++ nodeBytes)

def encodeLogId (id : LogId) : Bytes :=
  (leU64 id.term).bytes ++ (leU64 id.leader).bytes ++ (leU64 id.index).bytes

def encodeMembershipLog : Option LogId → Bytes
  | none => [0]
  | some id => 1 :: encodeLogId id

/-! ### Reading -/

/-- Reads a membership on the slice that starts with it. -/
abbrev MembershipReader (α : Type) := Reader ImageFault α

def checkRemaining (need : Nat) : MembershipReader Unit := .require need (.oversized need)

def takeU64 : MembershipReader UInt64 :=
  .nested (word64 fun _ ↦ ()) (consumes_word64 _) fun _ ↦ .truncated

/-- A count of items of at least `unit` bytes each, refused if the input has not that many; the
product saturates. -/
def takeCountOf (unit : Nat) : MembershipReader Nat := do
  let count ← UInt64.toNat <$> takeU64
  checkRemaining (min (count * unit) (2 ^ 64 - 1))
  return count

def takeU64List : MembershipReader (List UInt64) := do
  takeU64.many (← takeCountOf 8)

def decodeNode : MembershipReader (UInt64 × String) := do
  let id ← takeU64
  let bytes ← .nested decodeByteVec consumes_decodeByteVec fun _ ↦ .badAddress
  match addressOf bytes with
  | some address => return (id, address)
  | none => .fail .badAddress

/-- A membership behind its log id. An empty one is that of a fresh replica; any other must pass
the check of the consensus library, `accepts`. -/
def decodeMembership (accepts : Membership → Bool) (logId : Option LogId) :
    MembershipReader StoredMembership := do
  let voters ← takeU64List
  let nodes ← decodeNode.many (← takeCountOf 12)
  let voterSet : ExtTreeSet UInt64 := .ofList voters
  let nodeMap : ExtTreeMap UInt64 String :=
    nodes.foldl (fun map node ↦ map.insert node.1 node.2) ∅
  if voterSet.isEmpty ∧ nodeMap.isEmpty then return .default
  else if accepts ⟨[voterSet], nodeMap⟩ then return ⟨logId, ⟨[voterSet], nodeMap⟩⟩
  else .fail .badAddress

def decodeLogId : SnapshotReader LogId := do
  let term ← snapTakeU64
  let leader ← snapTakeU64
  let index ← snapTakeU64
  return ⟨term, leader, index⟩

/-- The membership log id of a tablet's image. -/
def decodeMembershipLog : SnapshotReader (Option LogId) := do
  match ← snapTakeTag with
  | 0 => return none
  | 1 => return some (← decodeLogId)
  | _ => .fail (.corruptImage .membershipTagInvalid)

/-- The membership log id of a control image, where every flag but zero announces one. -/
def decodeControlMembershipLog : SnapshotReader (Option LogId) := do
  let flag ← snapTakeTag
  if flag = 0 then return none else return some (← decodeLogId)

/-! ### The section in both kinds of image -/

structure RaftState where
  applied : Option LogId
  membership : StoredMembership
deriving DecidableEq

/-- The pointer of a replica that has applied nothing is written as zeros. -/
def RaftState.encode (raft : RaftState) : Option Bytes := do
  let membership ← encodeMembership raft.membership.membership
  return encodeLogId (raft.applied.getD ⟨0, 0, 0⟩) ++
    (encodeMembershipLog raft.membership.logId ++ membership)

/-- What an image starts with. A tablet's image also names its authority. -/
def encodeRaftHead (namespaceId : NamespaceId) (tablet : TabletId) (epoch guard : UInt64)
    (raft : RaftState) : Option Bytes := do
  let body ← raft.encode
  if tablet = controlTabletRaw then
    return (leU64 namespaceId).bytes ++ (leU64 tablet).bytes ++ body
  else
    return (leU64 namespaceId).bytes ++ (leU64 tablet).bytes ++ (leU64 epoch).bytes ++
      (leU64 guard).bytes ++ body

section Reading

variable (accepts : Membership → Bool)

/-- What follows the applied pointer. -/
def decodeRaftState (applied : LogId) (membershipLog : SnapshotReader (Option LogId)) :
    SnapshotReader RaftState := do
  let logId ← membershipLog
  let membership ← (decodeMembership accepts logId).within fun fault ↦
    .corruptImage (.membershipInvalid fault)
  return ⟨if applied = ⟨0, 0, 0⟩ then none else some applied, membership⟩

def decodeTabletRaftHead (namespaceId : NamespaceId) (tablet : TabletId) :
    SnapshotReader RaftState := do
  let head ← decodeSnapshotHead namespaceId tablet
  decodeRaftState accepts head.applied decodeMembershipLog

/-- All sections of a tablet's image, with the membership that `decodeSnapshotBody` leaves out. -/
def decodeSections (namespaceId : NamespaceId) (tablet : TabletId) :
    SnapshotReader (DecodedSnapshot × StoredMembership) := do
  let head ← decodeSnapshotHead namespaceId tablet
  let raft ← decodeRaftState accepts head.applied decodeMembershipLog
  let decoded ← decodeSnapshotSections head
  return (decoded, raft.membership)

def decodeControlRaftHead (namespaceId : NamespaceId) (tablet : TabletId) :
    SnapshotReader RaftState := do
  let foundNamespace ← snapTakeU64
  let foundTablet ← snapTakeU64
  if foundNamespace ≠ namespaceId ∨ foundTablet ≠ tablet then
    .fail (.misrouted foundNamespace foundTablet namespaceId tablet)
  else
    let applied ← decodeLogId
    decodeRaftState accepts applied decodeControlMembershipLog

def decodeRaftHead (namespaceId : NamespaceId) (tablet : TabletId) : SnapshotReader RaftState :=
  if tablet = controlTabletRaw then decodeControlRaftHead accepts namespaceId tablet
  else decodeTabletRaftHead accepts namespaceId tablet

end Reading

/-! ### Reading back -/

@[simp] theorem takeU64_append (word : UInt64) (rest : Bytes) :
    takeU64 ((leU64 word).bytes ++ rest) = .ok (word, rest) := by
  simp [takeU64]

@[simp] theorem addressOf_addressBytes (address : String) :
    addressOf (addressBytes address) = some address := by
  have hvalid : address.toByteArray.IsValidUTF8 := address.isValidUTF8
  simp only [addressOf, addressBytes, String.fromUTF8?, Array.toArray_toList,
    String.toUTF8_eq_toByteArray, dif_pos hvalid]
  rfl

section

variable {node : UInt64 × String} {bytes : Bytes}

theorem encodeNode_eq_some_iff :
    encodeNode node = some bytes ↔
      ∃ address, encodeBytes (addressBytes node.2) = some address ∧
        (leU64 node.1).bytes ++ address = bytes := by
  simp [encodeNode, Option.bind_eq_some_iff]

theorem reads_decodeNode (h : encodeNode node = some bytes) :
    Reads decodeNode.decoder bytes node := by
  intro rest
  obtain ⟨address, haddress, rfl⟩ := encodeNode_eq_some_iff.mp h
  simp [decodeNode, reads_decodeByteVec haddress rest]

/-- The identity of a node and the length of its address take twelve bytes. -/
theorem le_length_encodeNode (h : encodeNode node = some bytes) : 12 ≤ bytes.length := by
  obtain ⟨address, haddress, rfl⟩ := encodeNode_eq_some_iff.mp h
  obtain ⟨-, rfl⟩ := encodeBytes_eq_some_iff.mp haddress
  simp only [List.length_append, FixedBytes.length_eq, length_leU32]
  omega

end

/-- A count is taken if its items are there. -/
theorem takeCountOf_append {unit count : Nat} {items : Bytes} (hcount : count < 2 ^ 64)
    (hitems : unit * count ≤ items.length) :
    takeCountOf unit (leCount count ++ items) = .ok (count, items) := by
  have hword : (UInt64.ofNat count).toNat = count := UInt64.toNat_ofNat_of_lt' hcount
  have hneed : min (count * unit) (2 ^ 64 - 1) ≤ items.length := by
    rw [Nat.mul_comm] at hitems
    exact le_trans (min_le_left _ _) hitems
  have hcheck : checkRemaining (min (count * unit) (2 ^ 64 - 1)) items = .ok ((), items) :=
    if_neg (Nat.not_lt.mpr hneed)
  simp only [takeCountOf, leCount, decoder_bind, decoder_map, decoder_pure, bind_apply, map_apply,
    takeU64_append, hword, hcheck, pure_apply]

/-! ### What a membership is read back as -/

namespace Membership

variable {membership : Membership}

theorem mem_voters {voter : UInt64} :
    voter ∈ membership.voters ↔ ∃ config ∈ membership.configs, voter ∈ config := by
  simp [voters, ExtTreeSet.mem_ofList]

/-- All configurations as one. -/
def flatten (membership : Membership) : Membership := ⟨[membership.voters], membership.nodes⟩

theorem Valid.voters_ne_empty (h : membership.Valid) : membership.voters ≠ ∅ := by
  intro hempty
  obtain ⟨config, hconfig⟩ := List.exists_mem_of_ne_nil _ h.configs
  have hnone := ExtTreeSet.eq_empty_iff_forall_not_mem.mp hempty
  refine h.nonempty config hconfig ?_
  refine ExtTreeSet.eq_empty_iff_forall_not_mem.mpr fun voter hmem ↦ ?_
  exact hnone voter (mem_voters.mpr ⟨config, hconfig, hmem⟩)

theorem Valid.flatten (h : membership.Valid) : membership.flatten.Valid where
  configs := List.cons_ne_nil _ _
  nonempty config hconfig := by
    obtain rfl := List.mem_singleton.mp hconfig
    exact h.voters_ne_empty
  addressed config hconfig voter hvoter := by
    obtain rfl := List.mem_singleton.mp hconfig
    obtain ⟨config, hmem, hin⟩ := mem_voters.mp hvoter
    exact h.addressed config hmem voter hin

/-- Flattening loses nothing exactly if there is one configuration. -/
theorem Valid.flatten_eq_iff (h : membership.Valid) :
    membership.flatten = membership ↔ membership.configs.length ≤ 1 := by
  constructor
  · intro heq
    have hconfigs : [membership.voters] = membership.configs := congrArg Membership.configs heq
    rw [← hconfigs]
    exact le_refl 1
  · intro hlength
    obtain ⟨configs, nodes⟩ := membership
    match configs, hlength with
    | [], _ => exact absurd rfl h.configs
    | [config], _ =>
      have hvoters : voters ⟨[config], nodes⟩ = config :=
        ExtTreeSet.ext_mem fun voter ↦ by simp [mem_voters]
      rw [Membership.flatten, hvoters]

/-- Voters have addresses, so there are not more of them than nodes. -/
theorem Valid.length_voters_le (h : membership.Valid) :
    membership.voters.toList.length ≤ membership.nodes.size := by
  rw [← ExtTreeMap.length_keys]
  have hnodup : membership.voters.toList.Nodup :=
    ExtTreeSet.distinct_toList.imp fun hne heq ↦ hne (Std.compare_eq_iff_eq.mpr heq)
  refine hnodup.length_le_of_subset fun voter hmem ↦ ?_
  obtain ⟨config, hconfig, hin⟩ := mem_voters.mp (ExtTreeSet.mem_toList.mp hmem)
  exact ExtTreeMap.mem_keys.mpr (h.addressed config hconfig voter hin)

end Membership

/-- No address is above the frame bound. -/
def Membership.Writable (membership : Membership) : Prop :=
  ∀ (id : UInt64) (address : String), membership.nodes[id]? = some address →
    (addressBytes address).length ≤ maxFrameBytes

theorem encodeMembership_isSome_iff {membership : Membership} :
    (encodeMembership membership).isSome = true ↔ membership.Writable := by
  have hvoters : encodeEach encodeVoter membership.voters.toList =
      some (membership.voters.toList.flatMap fun voter ↦ (leU64 voter).bytes) :=
    encodeEach_some _ _
  have hnodes : (encodeMembership membership).isSome =
      (encodeEach encodeNode membership.nodes.toList).isSome := by
    simp only [encodeMembership, membershipNodes, hvoters]
    cases encodeEach encodeNode membership.nodes.toList <;> rfl
  have hnode (node : UInt64 × String) : (encodeNode node).isSome = true ↔
      (addressBytes node.2).length ≤ maxFrameBytes := by
    rw [← encodeBytes_isSome_iff, encodeNode]
    cases encodeBytes (addressBytes node.2) <;> simp
  rw [hnodes, encodeEach_isSome_iff]
  constructor
  · intro h id address hget
    exact (hnode (id, address)).mp
      (h _ (ExtTreeMap.mem_toList_iff_getElem?_eq_some.mpr hget))
  · intro h node hmem
    exact (hnode node).mpr (h _ _ (ExtTreeMap.mem_toList_iff_getElem?_eq_some.mp hmem))

section Sections

variable {accepts : Membership → Bool} {membership : Membership} {bytes : Bytes}

section

variable (h : encodeMembership membership = some bytes) (hnodes : membership.nodes.size < 2 ^ 64)
  (logId : Option LogId)

include h hnodes logId

/-- The voters and nodes of a membership are read back as they were written. -/
theorem decodeMembership_append (hvoters : membership.voters.toList.length < 2 ^ 64)
    (rest : Bytes) :
    decodeMembership accepts logId (bytes ++ rest) =
      if membership.voters.isEmpty ∧ membership.nodes.isEmpty then .ok (.default, rest)
      else if accepts membership.flatten then .ok (⟨logId, membership.flatten⟩, rest)
      else .error .badAddress := by
  obtain ⟨voterBytes, nodeBytes, hvoterBytes, hnodeBytes, rfl⟩ := parts_of_some h
  rw [← ExtTreeMap.length_toList] at hnodes
  have hreadVoters :
      Reads (takeU64.decoder.many _) voterBytes membership.voters.toList :=
    .many (fun voter _ _ hvoter rest ↦ by cases hvoter; exact takeU64_append voter rest)
      hvoterBytes
  have hreadNodes := Reads.many (fun _ _ _ ↦ reads_decodeNode) hnodeBytes
  have hsizeVoters : 8 * membership.voters.toList.length ≤ voterBytes.length :=
    le_length_encodeEach (fun voter _ hvoter ↦ by cases hvoter; exact (leU64 voter).length_eq.ge)
      hvoterBytes
  have hsizeNodes : 12 * membership.nodes.toList.length ≤ nodeBytes.length :=
    le_length_encodeEach (fun _ _ ↦ le_length_encodeNode) hnodeBytes
  have hcountNodes :
      takeCountOf 12 (leCount membership.nodes.toList.length ++ (nodeBytes ++ rest)) =
        .ok (membership.nodes.toList.length, nodeBytes ++ rest) :=
    takeCountOf_append hnodes (by rw [List.length_append]; omega)
  have htakeVoters (tail : Bytes) :
      takeU64List (leCount membership.voters.toList.length ++ (voterBytes ++ tail)) =
        .ok (membership.voters.toList, tail) := by
    have hcount : takeCountOf 8 (leCount membership.voters.toList.length ++ (voterBytes ++ tail)) =
        .ok (membership.voters.toList.length, voterBytes ++ tail) :=
      takeCountOf_append hvoters (by rw [List.length_append]; omega)
    simp only [takeU64List, decoder_bind, decoder_many, bind_apply, hcount]
    exact hreadVoters tail
  have hset : ExtTreeSet.ofList membership.voters.toList = membership.voters :=
    ExtTreeSet.ext_mem fun voter ↦ by simp [ExtTreeSet.mem_ofList]
  simp only [decodeMembership, List.append_assoc, decoder_bind, decoder_many, decoder_ite,
    decoder_pure, decoder_fail, bind_apply, htakeVoters, hcountNodes,
    hreadNodes rest, hset, LastWins.foldl_insert_toList, Membership.flatten]
  by_cases hempty : membership.voters.isEmpty = true ∧ membership.nodes.isEmpty = true
  · simp only [hempty, and_self, ↓reduceIte, pure_apply]
  · simp only [hempty, ↓reduceIte]
    by_cases haccepted : accepts ⟨[membership.voters], membership.nodes⟩ = true
    · simp only [haccepted, ↓reduceIte, pure_apply]
    · simp only [haccepted, ↓reduceIte, fail_apply, Bool.false_eq_true]

/-- A membership that consensus proposed is read back flattened. -/
theorem decodeMembership_of_valid (haccepts : ∀ membership, membership.Valid → accepts membership)
    (hvalid : membership.Valid) :
    Reads (decodeMembership accepts logId).decoder bytes ⟨logId, membership.flatten⟩ := by
  intro rest
  have hvoters := lt_of_le_of_lt hvalid.length_voters_le hnodes
  have hsome : ¬(membership.voters.isEmpty = true ∧ membership.nodes.isEmpty = true) :=
    fun hempty ↦ hvalid.voters_ne_empty (ExtTreeSet.isEmpty_iff.mp hempty.1)
  rw [decodeMembership_append h hnodes logId hvoters, if_neg hsome,
    if_pos (haccepts _ hvalid.flatten)]

end

theorem reads_decodeLogId (id : LogId) : Reads decodeLogId.decoder (encodeLogId id) id := by
  intro rest
  simp [decodeLogId, encodeLogId]

theorem reads_decodeMembershipLog (logId : Option LogId) :
    Reads decodeMembershipLog.decoder (encodeMembershipLog logId) logId := by
  intro rest
  cases logId with
  | none => rfl
  | some id => simp [decodeMembershipLog, encodeMembershipLog, reads_decodeLogId id rest]

theorem reads_decodeControlMembershipLog (logId : Option LogId) :
    Reads decodeControlMembershipLog.decoder (encodeMembershipLog logId) logId := by
  intro rest
  cases logId with
  | none => rfl
  | some id => simp [decodeControlMembershipLog, encodeMembershipLog, reads_decodeLogId id rest]

end Sections

/-! ### The states of a replica -/

/-- An applied entry: its position, and the membership it stores if it is a membership entry. -/
structure RaftEntry where
  log : LogId
  membership : Option { membership : Membership // membership.Valid }

namespace RaftState

def new : RaftState := ⟨none, .default⟩

def applyEntry (raft : RaftState) (entry : RaftEntry) : RaftState :=
  match entry.membership with
  | none => { raft with applied := some entry.log }
  | some membership => ⟨some entry.log, ⟨some entry.log, membership.val⟩⟩

abbrev ReachableRaft (raft : RaftState) : Prop := Reachable applyEntry new raft

variable {raft : RaftState}

/-- The membership is that of a fresh replica or one that consensus proposed. -/
theorem ReachableRaft.stored (h : ReachableRaft raft) :
    raft.membership = .default ∨ raft.membership.membership.Valid := by
  refine h.invariant (P := fun raft ↦ raft.membership = .default ∨
    raft.membership.membership.Valid) (.inl rfl) fun raft entry hraft ↦ ?_
  obtain ⟨log, _ | membership⟩ := entry
  · exact hraft
  · exact .inr membership.property

/-- What the section gives back of a state. -/
def restored (raft : RaftState) : RaftState where
  applied := if raft.applied.getD ⟨0, 0, 0⟩ = ⟨0, 0, 0⟩ then none else raft.applied
  membership :=
    if raft.membership = .default then .default
    else ⟨raft.membership.logId, raft.membership.membership.flatten⟩

/-- What is lost: the pointer that stands for none, a joint membership, and an address that cannot
be written. -/
structure Faithful (raft : RaftState) : Prop where
  pointer : raft.applied ≠ some ⟨0, 0, 0⟩
  uniform : raft.membership.membership.configs.length ≤ 1
  writable : raft.membership.membership.Writable

theorem encode_isSome_iff : raft.encode.isSome = true ↔ raft.membership.membership.Writable := by
  rw [← encodeMembership_isSome_iff, encode]
  cases encodeMembership raft.membership.membership <;> simp

theorem restored_applied_eq_iff :
    raft.restored.applied = raft.applied ↔ raft.applied ≠ some ⟨0, 0, 0⟩ := by
  obtain ⟨_ | applied, membership⟩ := raft
  · simp [restored]
  · by_cases hzero : applied = ⟨0, 0, 0⟩
    · simp [restored, hzero]
    · simp [restored, hzero]

theorem ReachableRaft.restored_membership_eq_iff (h : ReachableRaft raft) :
    raft.restored.membership = raft.membership ↔
      raft.membership.membership.configs.length ≤ 1 := by
  by_cases hdefault : raft.membership = .default
  · simp [restored, hdefault, StoredMembership.default]
  · have hvalid := h.stored.resolve_left hdefault
    rw [← hvalid.flatten_eq_iff, restored, if_neg hdefault]
    constructor
    · intro heq
      exact congrArg StoredMembership.membership heq
    · intro heq
      rw [heq]

/-- A reachable state is what the section gives back of it exactly if nothing of it is lost. -/
theorem ReachableRaft.restored_eq_iff (h : ReachableRaft raft) :
    raft.restored = raft ↔ raft.applied ≠ some ⟨0, 0, 0⟩ ∧
      raft.membership.membership.configs.length ≤ 1 := by
  rw [← restored_applied_eq_iff, ← h.restored_membership_eq_iff]
  constructor
  · intro heq
    exact ⟨congrArg applied heq, congrArg membership heq⟩
  · rintro ⟨happlied, hmembership⟩
    calc raft.restored = ⟨raft.restored.applied, raft.restored.membership⟩ := rfl
      _ = ⟨raft.applied, raft.membership⟩ := by rw [happlied, hmembership]
      _ = raft := rfl

section Images

variable {accepts : Membership → Bool} {namespaceId : NamespaceId} {tablet : TabletId}
  {epoch guard : UInt64} {bytes : Bytes}

/-- The image of the state is read back as the state, whatever follows it. -/
def Restores (accepts : Membership → Bool) (namespaceId : NamespaceId) (tablet : TabletId)
    (epoch guard : UInt64) (raft : RaftState) : Prop :=
  ∃ bytes, encodeRaftHead namespaceId tablet epoch guard raft = some bytes ∧
    Reads (decodeRaftHead accepts namespaceId tablet).decoder bytes raft

theorem encodeRaftHead_isSome_iff :
    (encodeRaftHead namespaceId tablet epoch guard raft).isSome = true ↔
      raft.membership.membership.Writable := by
  rw [← encode_isSome_iff, encodeRaftHead]
  by_cases hcontrol : tablet = controlTabletRaw <;> cases raft.encode <;> simp [hcontrol]

variable (h : ReachableRaft raft)
  (haccepts : ∀ membership, membership.Valid → accepts membership)
  (hnodes : raft.membership.membership.nodes.size < 2 ^ 64)
include h haccepts hnodes

/-- Whichever way the membership log id is read, what follows the pointer is read back. -/
theorem ReachableRaft.decodeRaftState_append
    (hbytes : encodeMembership raft.membership.membership = some bytes)
    {membershipLog : SnapshotReader (Option LogId)}
    (hlog : ∀ logId, Reads membershipLog.decoder (encodeMembershipLog logId) logId)
    (rest : Bytes) :
    decodeRaftState accepts (raft.applied.getD ⟨0, 0, 0⟩) membershipLog
      (encodeMembershipLog raft.membership.logId ++ (bytes ++ rest)) =
        .ok (raft.restored, rest) := by
  have hpointer : (if raft.applied.getD ⟨0, 0, 0⟩ = ⟨0, 0, 0⟩ then none
      else some (raft.applied.getD ⟨0, 0, 0⟩)) = raft.restored.applied := by
    obtain ⟨_ | applied, membership⟩ := raft <;> simp [restored]
  have hmembership : decodeMembership accepts raft.membership.logId (bytes ++ rest) =
      .ok (raft.restored.membership, rest) := by
    by_cases hdefault : raft.membership = .default
    · rw [hdefault] at hbytes
      have hvoters : StoredMembership.default.membership.voters.toList.length < 2 ^ 64 := by decide
      rw [decodeMembership_append hbytes (by decide) _ hvoters, restored, hdefault]
      rfl
    · have hvalid := h.stored.resolve_left hdefault
      rw [decodeMembership_of_valid hbytes hnodes _ haccepts hvalid, restored, if_neg hdefault]
  simp only [decodeRaftState, decoder_bind, decoder_within, decoder_pure, bind_apply, hlog _ _,
    mapError_apply, hmembership, hpointer, pure_apply]

/-- Both kinds of image give back `restored`. -/
theorem ReachableRaft.reads_decodeRaftHead
    (hbytes : encodeRaftHead namespaceId tablet epoch guard raft = some bytes) :
    Reads (decodeRaftHead accepts namespaceId tablet).decoder bytes raft.restored := by
  intro rest
  obtain ⟨body, hbody, hbytes⟩ := Option.bind_eq_some_iff.mp hbytes
  obtain ⟨membership, hmembership, hbody⟩ := Option.bind_eq_some_iff.mp hbody
  cases hbody
  by_cases hcontrol : tablet = controlTabletRaw
  · rw [if_pos hcontrol] at hbytes
    cases hbytes
    rw [decodeRaftHead, if_pos hcontrol]
    simp [decodeControlRaftHead, reads_decodeLogId _ _,
      h.decodeRaftState_append haccepts hnodes hmembership reads_decodeControlMembershipLog rest]
  · rw [if_neg hcontrol] at hbytes
    cases hbytes
    rw [decodeRaftHead, if_neg hcontrol]
    simp [decodeTabletRaftHead, decodeSnapshotHead, encodeLogId,
      h.decodeRaftState_append haccepts hnodes hmembership reads_decodeMembershipLog rest]

/-- An image with a membership is read as the image without it, next to the membership that the
section gives back. -/
theorem ReachableRaft.decodeSections_append {tablet : ReplicatedTablet}
    (happlied : raft.applied = tablet.applied)
    (hbytes : encodeMembership raft.membership.membership = some bytes) (sections : Bytes) :
    decodeSections accepts tablet.namespaceId tablet.tablet (tablet.encodeHead ++
        (encodeMembershipLog raft.membership.logId ++ (bytes ++ sections))) =
      (decodeSnapshotBody tablet.namespaceId tablet.tablet (tablet.encodeHead ++ sections)).map
        fun (decoded, rest) ↦ ((decoded, raft.restored.membership), rest) := by
  have hhead (rest : Bytes) :
      decodeSnapshotHead tablet.namespaceId tablet.tablet (tablet.encodeHead ++ rest) =
        .ok (⟨tablet.authority.epoch, tablet.authority.guard, raft.applied.getD ⟨0, 0, 0⟩⟩,
          rest) := by
    simp [decodeSnapshotHead, ReplicatedTablet.encodeHead, happlied]
  simp only [decodeSections, decodeSnapshotBody, decoder_bind, bind_apply, hhead,
    h.decodeRaftState_append haccepts hnodes hbytes reads_decodeMembershipLog sections]
  cases decodeSnapshotSections _ sections <;> rfl

theorem ReachableRaft.restores_iff :
    Restores accepts namespaceId tablet epoch guard raft ↔
      raft.membership.membership.Writable ∧ raft.restored = raft := by
  rw [← @encodeRaftHead_isSome_iff raft namespaceId tablet epoch guard, Option.isSome_iff_exists]
  constructor
  · rintro ⟨bytes, hbytes, hreads⟩
    have hrestored := h.reads_decodeRaftHead haccepts hnodes hbytes []
    rw [hreads []] at hrestored
    exact ⟨⟨bytes, hbytes⟩, (congrArg Prod.fst (Except.ok.inj hrestored)).symm⟩
  · rintro ⟨⟨bytes, hbytes⟩, heq⟩
    have hreads := h.reads_decodeRaftHead haccepts hnodes hbytes
    rw [heq] at hreads
    exact ⟨bytes, hbytes, hreads⟩

end Images

/-- The Raft section is faithful for a reachable state, in the image of any tablet or of the
control group, exactly if nothing of the state is lost. -/
theorem raft_section_faithful_iff {accepts : Membership → Bool}
    (haccepts : ∀ membership, membership.Valid → accepts membership)
    (namespaceId : NamespaceId) (tablet : TabletId) (epoch guard : UInt64) {raft : RaftState}
    (h : ReachableRaft raft) (hnodes : raft.membership.membership.nodes.size < 2 ^ 64) :
    Restores accepts namespaceId tablet epoch guard raft ↔ raft.Faithful := by
  rw [h.restores_iff haccepts hnodes, h.restored_eq_iff]
  constructor
  · rintro ⟨hwritable, hpointer, huniform⟩
    exact ⟨hpointer, huniform, hwritable⟩
  · intro hfaithful
    exact ⟨hfaithful.writable, hfaithful.pointer, hfaithful.uniform⟩

/-- Voter 1 is being replaced by voter 2. -/
def replacing : Membership :=
  ⟨[.ofList [(1 : UInt64)], .ofList [(2 : UInt64)]], .ofList [((1 : UInt64), "a"), (2, "b")]⟩

theorem replacing_valid : replacing.Valid where
  configs := List.cons_ne_nil _ _
  nonempty := by decide
  addressed config hconfig voter hvoter := by
    rcases List.mem_pair.mp hconfig with rfl | rfl
    · obtain rfl : 1 = voter := by simpa [ExtTreeSet.mem_ofList] using hvoter
      decide
    · obtain rfl : 2 = voter := by simpa [ExtTreeSet.mem_ofList] using hvoter
      decide

/-- Voter 1 with learner 2. -/
def learning : Membership :=
  ⟨[.ofList [(1 : UInt64)]], .ofList [((1 : UInt64), "a"), (2, "b")]⟩

theorem learning_valid : learning.Valid where
  configs := List.cons_ne_nil _ _
  nonempty := by decide
  addressed config hconfig voter hvoter := by
    obtain rfl := List.mem_singleton.mp hconfig
    obtain rfl : 1 = voter := by simpa [ExtTreeSet.mem_ofList] using hvoter
    decide

theorem learning_writable : learning.Writable := by
  intro id address hget
  have hmem := LastWins.mem_of_getElem?_ofList hget
  rcases List.mem_pair.mp hmem with hnode | hnode
  · obtain ⟨rfl, rfl⟩ := Prod.mk.inj hnode
    decide
  · obtain ⟨rfl, rfl⟩ := Prod.mk.inj hnode
    decide

/-- The two voter sets of a joint membership come back as one, and the pointer to the first entry
of the log comes back as none. -/
theorem joint_and_first_entry_lost :
    (∃ raft, ReachableRaft raft ∧ raft.membership.membership = replacing ∧
      raft.restored.membership.membership.configs = [.ofList [(1 : UInt64), 2]] ∧
      ¬Restores (fun _ ↦ true) 1 1 0 0 raft) ∧
    ∃ raft, ReachableRaft raft ∧ raft.applied = some ⟨0, 0, 0⟩ ∧ raft.restored.applied = none ∧
      ¬Restores (fun _ ↦ true) 1 1 0 0 raft := by
  constructor
  · have hreach : ReachableRaft (run applyEntry new [⟨⟨1, 1, 5⟩, some ⟨_, replacing_valid⟩⟩]) :=
      ⟨_, rfl⟩
    refine ⟨_, hreach, rfl, by decide, fun hrestores ↦ ?_⟩
    have hrestored := ((hreach.restores_iff (fun _ _ ↦ rfl) (by decide)).mp hrestores).2
    exact absurd (hreach.restored_eq_iff.mp hrestored).2 (by decide)
  · have hreach : ReachableRaft (run applyEntry new [⟨⟨0, 0, 0⟩, some ⟨_, learning_valid⟩⟩]) :=
      ⟨_, rfl⟩
    refine ⟨_, hreach, rfl, by decide, fun hrestores ↦ ?_⟩
    have hrestored := ((hreach.restores_iff (fun _ _ ↦ rfl) (by decide)).mp hrestores).2
    exact (hreach.restored_eq_iff.mp hrestored).1 rfl

/-- A membership with a learner is uniform, and is read back behind a later entry. -/
theorem raft_section_faithful_learner :
    Restores (fun _ ↦ true) 1 1 0 0
      (run applyEntry new [⟨⟨1, 1, 5⟩, some ⟨learning, learning_valid⟩⟩, ⟨⟨1, 1, 6⟩, none⟩]) :=
  (raft_section_faithful_iff (fun _ _ ↦ rfl) 1 1 0 0 ⟨_, rfl⟩ (by decide)).mpr
    ⟨by decide, by decide, learning_writable⟩

end RaftState

end Kivi.Consensus
