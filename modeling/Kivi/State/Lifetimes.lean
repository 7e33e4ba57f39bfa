import Kivi.State.Frames

/-!
# The life of a typed object

Leases and stream shards are changed by their own mutations only. As long as the object of a key
is neither deleted nor overwritten by a value of another type, and no mutation names the key
after the object expired, each step leaves it or is one ordinary mutation on it
(`Outlives.step_cases`).
-/

namespace Kivi.State

/-- An object of this type under `key` survives the step: it has not expired when the mutation
names the key, and an object of the type is stored after it. -/
def Outlives (type : ObjectType) (key : Key) (store : ObjectStore) (timed : Timed) : Prop :=
  ∀ object, store.objects[key]? = some object → object.objectType = type →
    (key ∈ timed.1.keys → object.isExpired timed.2 = false) ∧
      ∃ after, (applyStep store timed).objects[key]? = some after ∧ after.objectType = type

instance (type : ObjectType) (key : Key) (store : ObjectStore) (timed : Timed) :
    Decidable (Outlives type key store timed) :=
  match hbefore : store.objects[key]?, hafter : (applyStep store timed).objects[key]? with
  | none, _ => isTrue fun _ hobject ↦ nomatch hbefore.symm.trans hobject
  | some object, none =>
    if htype : object.objectType = type then
      isFalse fun h ↦ nomatch hafter.symm.trans (h object hbefore htype).2.choose_spec.1
    else isTrue fun _ hobject hother ↦
      absurd hother (Option.some.inj (hbefore.symm.trans hobject) ▸ htype)
  | some object, some after =>
    decidable_of_iff (object.objectType = type →
        (key ∈ timed.1.keys → object.isExpired timed.2 = false) ∧ after.objectType = type) <| by
      constructor
      · intro h other hother htype
        cases hbefore.symm.trans hother
        exact ⟨(h htype).1, after, hafter, (h htype).2⟩
      · intro h htype
        obtain ⟨hlive, last, hlast, hsame⟩ := h object hbefore htype
        cases hafter.symm.trans hlast
        exact ⟨hlive, hsame⟩

variable {store : ObjectStore} {key : Key} {mutation : Mutation} {now : WallTimestamp}

/-- An ordinary mutation fails and leaves its key alone, or is one step of the key's machine. -/
theorem ObjectStore.apply_ordinary_cases (hkey : mutation.ordinaryKey = some key) :
    ((∀ outcome, (store.apply mutation now).1 ≠ .ok outcome) ∧
      (store.apply mutation now).2.objects[key]? = store.objects[key]?) ∨
    ∃ outcome entry, objectStep store.objects[key]? mutation now = .ok (outcome, entry) ∧
      (store.apply mutation now).1 = .ok outcome ∧
      (store.apply mutation now).2.objects[key]? = entry := by
  rw [apply_of_ordinary hkey]
  by_cases hheld : ∃ intent, store.intents[key]? = some intent
  · obtain ⟨intent, hheld⟩ := hheld
    rw [applyOrdinary_of_reserved hheld]
    exact Or.inl ⟨nofun, rfl⟩
  · have hfree : store.intents[key]? = none := by
      by_contra hne
      exact hheld (Option.ne_none_iff_exists'.mp hne)
    rw [applyOrdinary_of_free hkey hfree]
    rcases hstep : objectStep store.objects[key]? mutation now with ⟨outcome, entry⟩ | error | _
    · refine Or.inr ⟨outcome, entry, rfl, rfl, ?_⟩
      simp [getElem?_setEntry]
    · exact Or.inl ⟨nofun, rfl⟩
    · exact Or.inl ⟨nofun, rfl⟩

/-- The type of the objects that a mutation stores, where the mutation alone determines it. -/
def Mutation.makes : Mutation → Option ObjectType
  | putBytes _ _ | putBytesWithExpiry _ _ _ | replaceChunkedRoot _ _ _
  | replaceChunkedRootWithExpiry _ _ _ _ | replaceFabricRoot _ _ _ _
  | replaceFabricRootWithExpiry _ _ _ _ _ | spliceBytes _ _ _ => some .bytes
  | counterAdd _ _ => some .strictCounter
  | commutativeAdd _ _ => some .commutativeCounter
  | boundedCreate _ _ _ | boundedAdd _ _ | escrowSetShare _ _ _ => some .boundedCounter
  | semaphoreCreate _ _ | semaphoreAcquire _ _ _ _ | semaphoreRelease _ _ => some .semaphore
  | leaseAcquire _ _ _ _ | leaseRenew _ _ _ _ | leaseRelease _ _ _ => some .lease
  | streamCreate _ _ _ | streamAppend _ _ _ | streamTrim _ _ => some .streamShard
  | setExpiry _ _ | delete _ | txnPrepare _ _ _ _ _ _ | txnFinalize _ _ _ _ _
  | txnCommitLocal _ _ => none

variable {stored : Option StoredObject} {outcome : ApplyOutcome} {after : StoredObject}
  {type : ObjectType}

/-- What an ordinary mutation stores has the type it makes. -/
theorem objectType_of_makes (hmakes : mutation.makes = some type)
    (h : objectStep stored mutation now = .ok (outcome, some after)) :
    after.objectType = type := by
  cases entryStep_of_ok h with
  | absent => cases hmakes
  | idle hlive hvalue =>
    obtain rfl := Option.some.inj (liveObject_eq_some_iff.mp hlive).1
    cases hmakes
    exact congrArg LogicalValue.objectType hvalue
  | written _ hwrites => cases hwrites <;> cases hmakes <;> rfl

/-- The types that no write of a transaction can change or create. -/
def ObjectType.standsAlone : ObjectType → Bool
  | .semaphore | .lease | .streamShard => true
  | .bytes | .strictCounter | .commutativeCounter | .boundedCounter => false

/-- A change of expiry leaves the value of such an object. -/
theorem setExpiry_step_standsAlone {expiry : Expiry}
    (hstep : objectStep stored (.setExpiry key expiry) now = .ok (outcome, some after))
    (halone : after.objectType.standsAlone = true) :
    ∃ object, stored = some object ∧ object.value = after.value := by
  cases entryStep_of_ok hstep with
  | absent => exact ⟨after, rfl, rfl⟩
  | written _ hwrites =>
    cases hwrites with
    | @setExpiry _ _ current hlive =>
      refine ⟨current, (liveObject_eq_some_iff.mp hlive).1, ?_⟩
      -- Only a fabric reference is rewritten, and it is a byte value.
      generalize current.value = value at halone ⊢
      cases value <;> first | rfl | cases halone

section

variable (hafter : (store.apply mutation now).2.objects[key]? = some after)
  (halone : after.objectType.standsAlone = true)

include hafter halone

/-- An object of such a type was stored before a step on another key or of a transaction. -/
theorem ObjectStore.stored_of_not_ordinary (hkey : mutation.ordinaryKey ≠ some key) :
    store.objects[key]? = some after := by
  -- A transaction's write would leave an object of another type.
  have hwrite {kind : TxnWriteKind} {outcome : ApplyOutcome} {entry : Option StoredObject}
      (hentry : (store.apply mutation now).2.objects[key]? = entry)
      (hstep : objectStep store.objects[key]? (localCommitMutation key kind) now =
        .ok (outcome, entry)) : False := by
    rw [← hentry, hafter] at hstep
    cases kind with
    | delete => cases hstep
    | _ =>
      rw [objectType_of_makes rfl hstep] at halone
      cases halone
  have hcell := store.apply_cell mutation now key
  rw [← hafter]
  change (store.cell key).entry = ((store.apply mutation now).2.cell key).entry
  generalize hbefore : store.cell key = before at hcell
  generalize hlast : (store.apply mutation now).2.cell key = last at hcell
  have hstart : store.objects[key]? = before.entry := congrArg Cell.entry hbefore
  have hend : (store.apply mutation now).2.objects[key]? = last.entry := congrArg Cell.entry hlast
  cases hcell with
  | same | prepare | drop => rfl
  | ordinary hown => exact absurd hown hkey
  | localCommit _ _ hstep =>
    dsimp only at hstart
    rw [← hstart] at hstep
    exact (hwrite hend hstep).elim
  | finalize _ hstep =>
    dsimp only at hstart
    rw [← hstart] at hstep
    exact (hwrite hend hstep).elim

/-- An object of such a type was stored before the step, or is what an ordinary mutation on its
key leaves. -/
theorem ObjectStore.stored_or_ordinary :
    (store.objects[key]? = some after ∧ (mutation.ordinaryKey = some key →
      ∀ outcome, (store.apply mutation now).1 ≠ .ok outcome)) ∨
    ∃ outcome, mutation.ordinaryKey = some key ∧
      objectStep store.objects[key]? mutation now = .ok (outcome, some after) ∧
      (store.apply mutation now).1 = .ok outcome := by
  by_cases hkey : mutation.ordinaryKey = some key
  · rcases store.apply_ordinary_cases hkey with ⟨hfails, hleaves⟩ |
      ⟨outcome, entry, hstep, hanswer, hentry⟩
    · exact Or.inl ⟨hleaves ▸ hafter, fun _ ↦ hfails⟩
    · rw [hafter] at hentry
      rw [← hentry] at hstep
      exact Or.inr ⟨outcome, hkey, hstep, hanswer⟩
  · exact Or.inl ⟨ObjectStore.stored_of_not_ordinary hafter halone hkey,
      fun hown ↦ absurd hown hkey⟩

end

/-- A step that an object of such a type outlives is an ordinary mutation on it that succeeds, or
leaves it. -/
theorem Outlives.step_cases {object : StoredObject} (halone : type.standsAlone = true)
    (h : Outlives type key store (mutation, now)) (hobject : store.objects[key]? = some object)
    (htype : object.objectType = type) :
    ((store.apply mutation now).2.objects[key]? = some object ∧
      (mutation.ordinaryKey = some key →
        ∀ outcome, (store.apply mutation now).1 ≠ .ok outcome)) ∨
    ∃ outcome after, mutation.ordinaryKey = some key ∧ object.isExpired now = false ∧
      objectStep (some object) mutation now = .ok (outcome, some after) ∧
      (store.apply mutation now).1 = .ok outcome ∧
      (store.apply mutation now).2.objects[key]? = some after ∧ after.objectType = type := by
  obtain ⟨hlive, after, hafter, hsame⟩ := h object hobject htype
  change (store.apply mutation now).2.objects[key]? = some after at hafter
  rcases ObjectStore.stored_or_ordinary hafter (hsame ▸ halone) with ⟨hstored, hfails⟩ |
    ⟨outcome, hkey, hstep, hanswer⟩
  · rw [hobject] at hstored
    exact Or.inl ⟨hstored ▸ hafter, hfails⟩
  · have hexpired := hlive (Mutation.keys_of_ordinaryKey hkey ▸ List.mem_singleton_self key)
    rw [hobject] at hstep
    exact Or.inr ⟨outcome, after, hkey, hexpired, hstep, hanswer, hafter, hsame⟩

end Kivi.State
