import Kivi.State.Lifetimes
import Kivi.State.TypedInvariants

/-!
# Lease fencing

A lease hands out tokens. `LeaseMove` lists everything a step can do to a stored lease: only a
grant advances the token, and it needs that nobody holds the lease; renewals and releases name
the holder they act on. Over a run that the lease outlives, the grants carry growing tokens and
the stored holder is the last one granted.
-/

namespace Kivi.State

open Library Library.Runs
open ObjectStore

/-! ### One step -/

/-- Everything a successful mutation at `now` does to a lease that is still stored after it. -/
inductive LeaseMove (key : Key) (now : WallTimestamp) (state : LeaseState) :
    Mutation → LeaseState → Prop
  | kept (expiry : Expiry) : LeaseMove key now state (.setExpiry key expiry) state
  | granted {owner : UInt64} {deadline : WallTimestamp} {advanced : FencingToken}
      (hfree : leaseLive state now = none) (hnext : state.nextFencing.next = some advanced) :
      LeaseMove key now state (.leaseAcquire key owner state.nextFencing deadline)
        ⟨some ⟨owner, state.nextFencing, deadline⟩, advanced⟩
  | renewed {holder : LeaseHolder} {deadline : WallTimestamp}
      (hheld : leaseLive state now = some holder) :
      LeaseMove key now state (.leaseRenew key holder.owner holder.fencing deadline)
        { state with holder := some { holder with expiresAt := deadline } }
  | released {holder : LeaseHolder} (hheld : state.holder = some holder) :
      LeaseMove key now state (.leaseRelease key holder.owner holder.fencing)
        { state with holder := none }
  | idle {owner : UInt64} {fencing : FencingToken} (hfree : state.holder = none) :
      LeaseMove key now state (.leaseRelease key owner fencing) state

variable {store : ObjectStore} {key : Key} {mutation : Mutation} {now : WallTimestamp}
  {state : LeaseState} {stored after : Option StoredObject} {owner : UInt64}
  {fencing : FencingToken} {deadline : WallTimestamp} {outcome : ApplyOutcome}

/-- An acquisition that succeeds is a grant of the token on offer, and moves the offer on. -/
theorem acquire_step_ok
    (h : objectStep stored (.leaseAcquire key owner fencing deadline) now =
      .ok (outcome, after)) :
    Offers (liveObject stored now) now fencing ∧ outcome = .leaseGranted fencing deadline ∧
      ∃ advanced version, fencing.next = some advanced ∧
        after = some ⟨.lease ⟨some ⟨owner, fencing, deadline⟩, advanced⟩, version, .never⟩ := by
  cases entryStep_of_ok h with
  | written _ hwrites =>
    cases hwrites with
    | leaseAcquire hoffers hnext => exact ⟨hoffers, rfl, _, _, hnext, rfl⟩

/-- A successful ordinary mutation on a live lease that leaves a lease is one of the moves. -/
theorem leaseMove_of_step {object after : StoredObject} (hvalue : object.value = .lease state)
    (hlive : object.isExpired now = false) (hkey : mutation.ordinaryKey = some key)
    (hstep : objectStep (some object) mutation now = .ok (outcome, some after))
    (htype : after.objectType = .lease) :
    ∃ moved, after.value = .lease moved ∧ LeaseMove key now state mutation moved := by
  have hsome : liveObject (some object) now = some object :=
    liveObject_eq_some_iff.mpr ⟨rfl, hlive⟩
  cases entryStep_of_ok hstep with
  | absent hnone => cases hnone.symm.trans hsome
  | idle hcurrent hlease hfree =>
    cases hkey
    cases hsome.symm.trans hcurrent
    cases hlease.symm.trans hvalue
    exact ⟨_, hvalue, .idle hfree⟩
  | written _ hwrites =>
    rw [hsome] at hwrites
    cases hwrites with
    | setExpiry hcurrent =>
      cases hkey
      cases hcurrent
      rw [hvalue]
      exact ⟨state, rfl, .kept _⟩
    | leaseAcquire hoffers hnext =>
      cases hkey
      cases hoffers with
      | first hnone => cases hnone
      | next hcurrent hlease hfree =>
        cases hcurrent
        cases hlease.symm.trans hvalue
        exact ⟨_, rfl, .granted hfree hnext⟩
    | leaseRenew hcurrent hlease hheld =>
      cases hkey
      cases hcurrent
      cases hlease.symm.trans hvalue
      exact ⟨_, rfl, .renewed hheld⟩
    | leaseRelease hcurrent hlease hheld =>
      cases hkey
      cases hcurrent
      cases hlease.symm.trans hvalue
      exact ⟨_, rfl, .released hheld⟩
    | _ => cases htype

/-! ### Holders and grants -/

/-- The lease stored under a key. -/
def ObjectStore.leaseAt (store : ObjectStore) (key : Key) : Option LeaseState :=
  match store.objects[key]?.map StoredObject.value with
  | some (.lease state) => some state
  | _ => none

/-- The holder stored with a lease, live or lapsed. -/
def ObjectStore.holderAt (store : ObjectStore) (key : Key) : Option LeaseHolder :=
  (store.leaseAt key).bind LeaseState.holder

/-- The holder that a reader at `now` finds. -/
def ObjectStore.liveHolder (store : ObjectStore) (key : Key) (now : WallTimestamp) :
    Option LeaseHolder :=
  match (liveObject store.objects[key]? now).map StoredObject.value with
  | some (.lease state) => leaseLive state now
  | _ => none

/-- The grant that a step answers to an acquisition of `key`. -/
def grantOf (key : Key) (store : ObjectStore) (timed : Timed) : Option LeaseHolder :=
  match timed.1, (store.apply timed.1 timed.2).1 with
  | .leaseAcquire named owner _ _, .ok (.leaseGranted fencing deadline) =>
    if named = key then some ⟨owner, fencing, deadline⟩ else none
  | _, _ => none

/-- The holder that a renewal or release of `key` names. -/
def Mutation.namesHolder (key : Key) : Mutation → Option (UInt64 × FencingToken)
  | .leaseRenew named owner fencing _ | .leaseRelease named owner fencing =>
    if named = key then some (owner, fencing) else none
  | _ => none

theorem ObjectStore.leaseAt_eq_some_iff :
    store.leaseAt key = some state ↔
      ∃ object, store.objects[key]? = some object ∧ object.value = .lease state := by
  unfold leaseAt
  rcases store.objects[key]? with _ | ⟨value, version, expiry⟩
  · simp
  · cases value <;> simp

variable {holder : LeaseHolder}

/-- A live holder is the stored one. -/
theorem ObjectStore.holderAt_of_liveHolder (h : store.liveHolder key now = some holder) :
    store.holderAt key = some holder := by
  unfold liveHolder at h
  split at h
  next state hvalue =>
    obtain ⟨object, hobject, hvalue⟩ := Option.map_eq_some_iff.mp hvalue
    have hstored := (liveObject_eq_some_iff.mp hobject).1
    rw [holderAt, leaseAt_eq_some_iff.mpr ⟨object, hstored, hvalue⟩]
    exact leaseLive_eq_some h
  next => cases h

theorem grantOf_eq_some_iff :
    grantOf key store (mutation, now) = some holder ↔
      ∃ fencing deadline, mutation = .leaseAcquire key holder.owner fencing deadline ∧
        (store.apply mutation now).1 = .ok (.leaseGranted holder.fencing holder.expiresAt) := by
  constructor
  · intro h
    unfold grantOf at h
    split at h
    next named owner fencing deadline answered lasting hmutation hanswer =>
      split at h
      next hnamed =>
        cases h
        exact ⟨fencing, deadline, hnamed ▸ hmutation, hanswer⟩
      next => cases h
    next => cases h
  · rintro ⟨fencing, deadline, rfl, hanswer⟩
    simp [grantOf, hanswer]

theorem grantOf_of_acquire
    (hstep : objectStep stored (.leaseAcquire key owner fencing deadline) now =
      .ok (outcome, after))
    (hanswer : (store.apply (.leaseAcquire key owner fencing deadline) now).1 = .ok outcome) :
    grantOf key store (.leaseAcquire key owner fencing deadline, now) =
      some ⟨owner, fencing, deadline⟩ := by
  rw [(acquire_step_ok hstep).2.1] at hanswer
  exact grantOf_eq_some_iff.mpr ⟨fencing, deadline, rfl, hanswer⟩

/-- A grant finds nobody holding the lease, uses the token on offer and stores its holder. -/
theorem grant_spec (h : grantOf key store (mutation, now) = some holder) :
    store.liveHolder key now = none ∧
      (∀ state, store.leaseAt key = some state → liveObject store.objects[key]? now ≠ none →
        holder.fencing = state.nextFencing) ∧
      ∃ advanced, holder.fencing.next = some advanced ∧
        (store.apply mutation now).2.leaseAt key = some ⟨some holder, advanced⟩ := by
  obtain ⟨fencing, deadline, rfl, hanswer⟩ := grantOf_eq_some_iff.mp h
  rcases @apply_ordinary_cases store key
    (.leaseAcquire key holder.owner fencing deadline) now rfl with
    ⟨hfails, -⟩ | ⟨outcome, entry, hstep, hsucceeds, hentry⟩
  · exact absurd hanswer (hfails _)
  · rw [hsucceeds] at hanswer
    obtain rfl := Result.ok.inj hanswer
    obtain ⟨hoffers, houtcome, advanced, version, hnext, hafter⟩ := acquire_step_ok hstep
    simp only [ApplyOutcome.leaseGranted.injEq] at houtcome
    obtain ⟨rfl, rfl⟩ := houtcome
    rw [hafter] at hentry
    have hstored : (store.apply (.leaseAcquire key holder.owner holder.fencing holder.expiresAt)
        now).2.leaseAt key = some ⟨some holder, advanced⟩ :=
      leaseAt_eq_some_iff.mpr ⟨_, hentry, rfl⟩
    unfold liveHolder
    generalize holder.fencing = offered at hoffers hnext hstored ⊢
    cases hoffers with
    | first hnone =>
      exact ⟨by simp [hnone], fun _ _ hlive ↦ absurd hnone hlive, advanced, hnext, hstored⟩
    | next hcurrent hvalue hfree =>
      refine ⟨by simp [hcurrent, hvalue, hfree], ?_, advanced, hnext, hstored⟩
      intro other hother _
      obtain ⟨object, hobject, hsame⟩ := leaseAt_eq_some_iff.mp hother
      rw [(liveObject_eq_some_iff.mp hcurrent).1] at hobject
      rw [← Option.some.inj hobject, hvalue] at hsame
      rw [LogicalValue.lease.inj hsame]

/-- Only an acquisition makes a lease of an entry that is none. -/
theorem acquires_of_step {after : StoredObject} (hkey : mutation.ordinaryKey = some key)
    (hstep : objectStep stored mutation now = .ok (outcome, some after))
    (hvalue : after.value = .lease state)
    (hother : ∀ object before, stored = some object → object.value ≠ .lease before) :
    ∃ owner fencing deadline, mutation = .leaseAcquire key owner fencing deadline := by
  have htype : after.objectType = .lease := congrArg LogicalValue.objectType hvalue
  cases entryStep_of_ok hstep with
  | absent | idle => exact absurd hvalue (hother after state rfl)
  | written _ hwrites =>
    cases hwrites with
    | leaseAcquire => exact ⟨_, _, _, by rw [Option.some.inj hkey]⟩
    | setExpiry =>
      obtain ⟨object, hobject, hsame⟩ := setExpiry_step_standsAlone hstep (htype ▸ rfl)
      exact absurd (hsame.trans hvalue) (hother object state hobject)
    | leaseRenew hlive hlease | leaseRelease hlive hlease =>
      exact absurd hlease (hother _ _ (liveObject_eq_some_iff.mp hlive).1)
    | _ => cases htype

/-- Only a grant puts a lease where none is stored. -/
theorem leaseAt_none_of_no_grant (hnone : store.leaseAt key = none)
    (hgrant : grantOf key store (mutation, now) = none) :
    (store.apply mutation now).2.leaseAt key = none := by
  by_contra hne
  obtain ⟨state, hstate⟩ := Option.ne_none_iff_exists'.mp hne
  obtain ⟨after, hafter, hvalue⟩ := leaseAt_eq_some_iff.mp hstate
  have habsent (object : StoredObject) (before : LeaseState)
      (hobject : store.objects[key]? = some object) : object.value ≠ .lease before := by
    intro hlease
    rw [leaseAt_eq_some_iff.mpr ⟨object, hobject, hlease⟩] at hnone
    cases hnone
  have htype : after.objectType = .lease := congrArg LogicalValue.objectType hvalue
  rcases stored_or_ordinary hafter (htype ▸ rfl) with ⟨hstored, -⟩ |
    ⟨outcome, hkey, hstep, hanswer⟩
  · exact habsent after state hstored hvalue
  · obtain ⟨owner, fencing, deadline, rfl⟩ := acquires_of_step hkey hstep hvalue habsent
    rw [grantOf_of_acquire hstep hanswer] at hgrant
    cases hgrant

/-- A step without a grant keeps the token on offer, and the holder is nobody new. -/
theorem Outlives.lease_kept (h : Outlives .lease key store (mutation, now))
    (hgrant : grantOf key store (mutation, now) = none) (hstate : store.leaseAt key = some state) :
    ∃ moved, (store.apply mutation now).2.leaseAt key = some moved ∧
      moved.nextFencing = state.nextFencing ∧
      ∀ holder, moved.holder = some holder → ∃ held, state.holder = some held ∧
        held.owner = holder.owner ∧ held.fencing = holder.fencing := by
  obtain ⟨object, hobject, hvalue⟩ := leaseAt_eq_some_iff.mp hstate
  have htype : object.objectType = .lease := congrArg LogicalValue.objectType hvalue
  rcases h.step_cases rfl hobject htype with ⟨hsame, -⟩ |
    ⟨outcome, after, hkey, hlive, hstep, hanswer, hafter, hlease⟩
  · exact ⟨state, leaseAt_eq_some_iff.mpr ⟨object, hsame, hvalue⟩, rfl,
      fun holder hholder ↦ ⟨holder, hholder, rfl, rfl⟩⟩
  · obtain ⟨moved, hmoved, hmove⟩ := leaseMove_of_step hvalue hlive hkey hstep hlease
    refine ⟨moved, leaseAt_eq_some_iff.mpr ⟨after, hafter, hmoved⟩, ?_⟩
    cases hmove with
    | kept | idle => exact ⟨rfl, fun holder hholder ↦ ⟨holder, hholder, rfl, rfl⟩⟩
    | renewed hheld =>
      refine ⟨rfl, fun holder hholder ↦ ⟨_, leaseLive_eq_some hheld, ?_⟩⟩
      cases hholder
      exact ⟨rfl, rfl⟩
    | released => exact ⟨rfl, nofun⟩
    | granted =>
      rw [grantOf_of_acquire hstep hanswer] at hgrant
      cases hgrant

/-- A renewal or release that names anybody but the stored holder changes nothing about it. -/
theorem holderAt_of_names_other (hnames : mutation.namesHolder key = some (owner, fencing))
    (hother : ∀ holder, store.holderAt key = some holder →
      (holder.owner, holder.fencing) ≠ (owner, fencing)) :
    (store.apply mutation now).2.holderAt key = store.holderAt key := by
  have hordinary : mutation.ordinaryKey = some key := by
    cases mutation <;> simp_all [Mutation.namesHolder, Mutation.ordinaryKey, Mutation.key,
      Mutation.keys]
  have hsame (h : (store.apply mutation now).2.objects[key]? = store.objects[key]?) :
      (store.apply mutation now).2.holderAt key = store.holderAt key := by
    unfold holderAt leaseAt
    rw [h]
  have hheld {current : StoredObject} {state : LeaseState} {holder : LeaseHolder}
      (hcurrent : store.objects[key]? = some current) (hvalue : current.value = .lease state)
      (hholder : state.holder = some holder) :
      ¬ (holder.owner = owner ∧ holder.fencing = fencing) := by
    rintro ⟨howner, hfencing⟩
    refine hother holder ?_ (by rw [howner, hfencing])
    rw [holderAt, leaseAt_eq_some_iff.mpr ⟨current, hcurrent, hvalue⟩]
    exact hholder
  rcases store.apply_ordinary_cases hordinary with ⟨-, hleaves⟩ |
    ⟨outcome, entry, hstep, -, hentry⟩
  · exact hsame hleaves
  cases entryStep_of_ok hstep with
  | deleted | absent => cases hnames
  | idle => exact hsame hentry
  | written _ hwrites =>
    cases hwrites with
    | leaseRenew hlive hvalue hholder =>
      simp only [Mutation.namesHolder, Option.ite_none_right_eq_some, Option.some.injEq,
        Prod.mk.injEq] at hnames
      exact absurd hnames.2
        (hheld (liveObject_eq_some_iff.mp hlive).1 hvalue (leaseLive_eq_some hholder))
    | leaseRelease hlive hvalue hholder =>
      simp only [Mutation.namesHolder, Option.ite_none_right_eq_some, Option.some.injEq,
        Prod.mk.injEq] at hnames
      exact absurd hnames.2 (hheld (liveObject_eq_some_iff.mp hlive).1 hvalue hholder)
    | _ => cases hnames

/-! ### Whole runs -/

/-- What holds of the grants given so far and the stored lease: the tokens grow and stay below
the one on offer, and the stored holder is the last one granted, or the one the run started
with. -/
structure GrantLedger (first : Option LeaseHolder) (key : Key) (grants : List LeaseHolder)
    (store : ObjectStore) : Prop where
  increasing : grants.Pairwise fun earlier later ↦ earlier.fencing.asU64 < later.fencing.asU64
  below : ∀ granted ∈ grants, ∃ state, store.leaseAt key = some state ∧
    granted.fencing.asU64 < state.nextFencing.asU64
  last : ∀ holder, store.holderAt key = some holder →
    ∃ granted, (first.toList ++ grants).getLast? = some granted ∧
      granted.owner = holder.owner ∧ granted.fencing = holder.fencing

variable {first : Option LeaseHolder} {grants : List LeaseHolder}

theorem GrantLedger.keep (hledger : GrantLedger first key grants store)
    (h : Outlives .lease key store (mutation, now))
    (hgrant : grantOf key store (mutation, now) = none) :
    GrantLedger first key grants (store.apply mutation now).2 := by
  refine ⟨hledger.increasing, ?_, ?_⟩
  · intro granted hmem
    obtain ⟨state, hstate, hbelow⟩ := hledger.below granted hmem
    obtain ⟨moved, hmoved, hoffer, -⟩ := h.lease_kept hgrant hstate
    exact ⟨moved, hmoved, hoffer ▸ hbelow⟩
  · intro holder hholder
    obtain ⟨moved, hmoved, hheld⟩ := Option.bind_eq_some_iff.mp hholder
    by_cases hnone : store.leaseAt key = none
    · rw [leaseAt_none_of_no_grant hnone hgrant] at hmoved
      cases hmoved
    · obtain ⟨state, hstate⟩ := Option.ne_none_iff_exists'.mp hnone
      obtain ⟨other, hother, -, hholders⟩ := h.lease_kept hgrant hstate
      cases hmoved.symm.trans hother
      obtain ⟨held, hheldBefore, howner, hfencing⟩ := hholders holder hheld
      obtain ⟨granted, hlast, hgrantedOwner, hgrantedFencing⟩ :=
        hledger.last held (Option.bind_eq_some_iff.mpr ⟨state, hstate, hheldBefore⟩)
      exact ⟨granted, hlast, hgrantedOwner.trans howner, hgrantedFencing.trans hfencing⟩

/-- A grant gets a token above all earlier ones. -/
theorem GrantLedger.grant (hledger : GrantLedger first key grants store)
    (h : Outlives .lease key store (mutation, now))
    (hgrant : grantOf key store (mutation, now) = some holder) :
    GrantLedger first key (grants ++ [holder]) (store.apply mutation now).2 := by
  obtain ⟨-, hoffered, advanced, hnext, hafter⟩ := grant_spec hgrant
  have hadvances : holder.fencing.asU64 < advanced.asU64 :=
    @grant_sound holder.owner holder.fencing advanced holder.expiresAt hnext holder rfl
  have hbelow (granted : LeaseHolder) (hmem : granted ∈ grants) :
      granted.fencing.asU64 < holder.fencing.asU64 := by
    obtain ⟨state, hstate, hbelow⟩ := hledger.below granted hmem
    -- A lease that is outlived has not expired, so the token is the one on offer.
    obtain ⟨object, hobject, hvalue⟩ := leaseAt_eq_some_iff.mp hstate
    obtain ⟨fencing, deadline, rfl, -⟩ := grantOf_eq_some_iff.mp hgrant
    have hlive : object.isExpired now = false :=
      (h object hobject (congrArg LogicalValue.objectType hvalue)).1 List.mem_cons_self
    have hcurrent := liveObject_eq_some_iff.mpr ⟨hobject, hlive⟩
    rw [hoffered state hstate (by simp [hcurrent])]
    exact hbelow
  refine ⟨?_, ?_, ?_⟩
  · refine List.pairwise_append.mpr ⟨hledger.increasing, List.pairwise_singleton _ _, ?_⟩
    intro granted hmem other hother
    rw [List.mem_singleton.mp hother]
    exact hbelow granted hmem
  · intro granted hmem
    refine ⟨_, hafter, ?_⟩
    rcases List.mem_append.mp hmem with hearlier | hlast
    · exact UInt64.lt_trans (hbelow granted hearlier) hadvances
    · rw [List.mem_singleton.mp hlast]
      exact hadvances
  · intro other hother
    rw [holderAt, hafter] at hother
    cases hother
    exact ⟨holder, by simp, rfl, rfl⟩

theorem GrantLedger.step {timed : Timed} (hledger : GrantLedger first key grants store)
    (h : Outlives .lease key store timed) :
    GrantLedger first key (grants ++ (grantOf key store timed).toList)
      (applyStep store timed) := by
  rcases hgrant : grantOf key store timed with _ | holder
  · rw [Option.toList_none, List.append_nil]
    exact hledger.keep h hgrant
  · exact hledger.grant h hgrant

/-- Over every run that a lease outlives, the tokens of its grants grow, whoever is live at any
time is the last one granted, a grant finds nobody live, and a renewal or release in the name of
anybody but the stored holder leaves holder and deadline alone. -/
theorem lease_fencing {steps : List Timed}
    (h : Along applyStep (Outlives .lease key) store steps) :
    (collect applyStep (grantOf key) store steps).Pairwise
        (fun earlier later ↦ earlier.fencing.asU64 < later.fencing.asU64) ∧
      (∀ now holder, (run applyStep store steps).liveHolder key now = some holder →
        ∃ granted, ((store.holderAt key).toList ++
            collect applyStep (grantOf key) store steps).getLast? = some granted ∧
          granted.owner = holder.owner ∧ granted.fencing = holder.fencing) ∧
      Along applyStep (fun reached timed ↦
        (grantOf key reached timed ≠ none → reached.liveHolder key timed.2 = none) ∧
        ∀ pair, timed.1.namesHolder key = some pair →
          (∀ holder, reached.holderAt key = some holder →
            (holder.owner, holder.fencing) ≠ pair) →
          (applyStep reached timed).holderAt key = reached.holderAt key) store steps := by
  have hstart : GrantLedger (store.holderAt key) key [] store :=
    ⟨List.Pairwise.nil, List.forall_mem_nil _,
      fun holder hholder ↦ ⟨holder, by simp [hholder], rfl, rfl⟩⟩
  have hledger := collect_invariant_along (P := GrantLedger (store.holderAt key) key)
    (fun _ _ _ houtlives hledger ↦ hledger.step houtlives) hstart h
  rw [List.nil_append] at hledger
  refine ⟨hledger.increasing, fun now holder hlive ↦
    hledger.last holder (holderAt_of_liveHolder hlive), h.mono ?_⟩
  rintro reached timed -
  constructor
  · intro hgrant
    obtain ⟨holder, hholder⟩ := Option.ne_none_iff_exists'.mp hgrant
    exact (grant_spec hholder).1
  · intro pair hnames hother
    exact holderAt_of_names_other hnames hother

/-- A lease changes hands: the first holder renews and lapses, the second releases. -/
def handOver : List Timed :=
  [(.leaseAcquire [1] 7 ⟨1⟩ ⟨10⟩, ⟨0⟩), (.leaseRenew [1] 7 ⟨1⟩ ⟨20⟩, ⟨5⟩),
    (.leaseAcquire [1] 8 ⟨2⟩ ⟨40⟩, ⟨25⟩), (.leaseRelease [1] 7 ⟨1⟩, ⟨26⟩)]

/-- The second grant has the larger token, and the late release of the first holder changes
nothing. -/
theorem handOver_fencing :
    Along applyStep (Outlives .lease [1]) ObjectStore.new handOver ∧
      (collect applyStep (grantOf [1]) ObjectStore.new handOver).Pairwise
        (fun earlier later ↦ earlier.fencing.asU64 < later.fencing.asU64) ∧
      collect applyStep (grantOf [1]) ObjectStore.new handOver =
        [⟨7, ⟨1⟩, ⟨10⟩⟩, ⟨8, ⟨2⟩, ⟨40⟩⟩] :=
  have houtlives : Along applyStep (Outlives .lease [1]) ObjectStore.new handOver := by
    decide +kernel
  ⟨houtlives, (lease_fencing houtlives).1, by decide +kernel⟩

end Kivi.State
