import Kivi.Library.Runs
import Kivi.State.Object

/-!
# One call of the native client

A call goes round a loop that picks an endpoint, dials it, sends the request and reads the answer,
until an answer or an error ends it. What the network does in one turn of the loop is the input of
a step. A flag of the loop is meant to remember that a request went out and came back unanswered;
beside it the state carries, for the statements only, whether that has really happened.
-/

namespace Kivi.Client

open Library.Runs State

abbrev Endpoint := String

inductive ClientError where
  | io (detail : String)
  | timeout
  | overloaded
  | ambiguousOutcome
  | tooManyRedirects
deriving DecidableEq

/-- The statuses the loop tells apart; `failed` is every other one. -/
inductive Status where
  | ok
  | notFound
  | staleRoute
  | notLocal
  | overloaded
  | failed
deriving DecidableEq

structure RedirectInfo where
  tablet : TabletId
  endpoint : Endpoint
  dirVersion : UInt64
deriving DecidableEq

structure Response where
  status : Status
  redirect : Option RedirectInfo
  rangeRebase : Bool
deriving DecidableEq

/-- How one exchange on a connection ends. -/
inductive Exchange where
  | answered (response : Response)
  | lost (written : Bool)
  | timedOut
  | saturated
deriving DecidableEq

/-- What one turn of the loop meets: the cached route of the key, and a refused dial or a
connection, with or without durable deduplication, and the exchange on it. -/
structure Turn where
  cached : Option Endpoint
  dial : Option (Bool × Exchange)
deriving DecidableEq

structure Call where
  mutating : Bool
  maxRedirects : Nat
  deliveryRetries : Nat
  seeds : List Endpoint

def maxStaleRepeats : Nat := 12

def rangeRebaseLimit : Nat := 12

structure CallState where
  redirects : Nat := 0
  reconnects : Nat := 0
  deliveries : Nat := 0
  overloadedStreak : Nat := 0
  rangeRebaseRetries : Nat := 0
  tried : List Endpoint := []
  visitedRedirects : List (TabletId × Endpoint × UInt64) := []
  visitedTablets : List TabletId := []
  maxDirVersion : UInt64 := 0
  staleRepeats : Nat := 0
  seedCursor : Nat := 0
  deliveredUnanswered : Bool := false
  follow : Option Endpoint := none
  outcome : Option (Except ClientError Response) := none
  /-- Some request has been written and its answer never received. -/
  unanswered : Bool := false

/-- The next seed not tried yet, in rotation, and the cursor behind it. -/
def nextSeed (seeds tried : List Endpoint) : Nat → Nat → Option Endpoint × Nat
  | 0, cursor => (none, cursor)
  | turns + 1, cursor =>
    match seeds[cursor % seeds.length]? with
    | none => (none, cursor)
    | some candidate =>
      if candidate ∈ tried then nextSeed seeds tried turns (cursor + 1)
      else (some candidate, cursor + 1)

namespace CallState

def finish (outcome : Except ClientError Response) (state : CallState) : CallState :=
  { state with outcome := some outcome }

variable (call : Call) (endpoint : Endpoint) (durableDedup : Bool)

def giveUp (state : CallState) : CallState :=
  { state with tried := state.tried ++ [endpoint] }

def giveUpOnce (state : CallState) : CallState :=
  if endpoint ∈ state.tried then state else state.giveUp endpoint

/-- An endpoint that has not failed in this call, if it is one. -/
def untried (state : CallState) (endpoint : Option Endpoint) : Option Endpoint :=
  endpoint.filter fun endpoint ↦ decide (endpoint ∉ state.tried)

/-- Where to go: a fresh redirect, else the cached route, else a seed. -/
def route (cached : Option Endpoint) (state : CallState) : Option Endpoint × CallState :=
  let cleared := { state with follow := none }
  match state.untried state.follow with
  | some endpoint => (some endpoint, cleared)
  | none =>
    match state.untried cached with
    | some endpoint => (some endpoint, cleared)
    | none =>
      let pick := nextSeed call.seeds state.tried call.seeds.length state.seedCursor
      (pick.1, { cleared with seedCursor := pick.2 })

/-- Whether a redirect says something the call has not followed yet. -/
def isProgress (info : RedirectInfo) (state : CallState) : Bool :=
  let exactRepeat := decide ((info.tablet, info.endpoint, info.dirVersion) ∈ state.visitedRedirects)
  (!exactRepeat && (decide (state.maxDirVersion < info.dirVersion) ||
    (info.dirVersion == state.maxDirVersion && decide (info.tablet ∉ state.visitedTablets)))) ||
    (!exactRepeat && state.maxDirVersion == 0)

def onRedirect (info : RedirectInfo) (state : CallState) : CallState :=
  if state.isProgress info then
    { state with
      visitedRedirects := state.visitedRedirects ++ [(info.tablet, info.endpoint, info.dirVersion)]
      visitedTablets := info.tablet :: state.visitedTablets
      maxDirVersion := max state.maxDirVersion info.dirVersion
      staleRepeats := 0
      follow := some info.endpoint
      overloadedStreak := 0
      redirects := state.redirects + 1 }
  else if maxStaleRepeats < state.staleRepeats + 1 then
    { state.giveUpOnce endpoint with
      staleRepeats := 0, overloadedStreak := 0, follow := none, redirects := state.redirects + 1 }
  else { state with staleRepeats := state.staleRepeats + 1, overloadedStreak := 0 }

def onOverloaded (rangeRebase : Bool) (state : CallState) : CallState :=
  if rangeRebase ∧ state.rangeRebaseRetries < rangeRebaseLimit then
    { state with rangeRebaseRetries := state.rangeRebaseRetries + 1 }
  else if 3 ≤ state.overloadedStreak + 1 then
    { state.giveUp endpoint with redirects := state.redirects + 1, overloadedStreak := 0 }
  else
    { state with
      redirects := state.redirects + 1, overloadedStreak := state.overloadedStreak + 1 }

def onResponse (response : Response) (state : CallState) : CallState :=
  match response.status with
  | .ok | .notFound => state.finish (.ok response)
  | .staleRoute | .notLocal =>
    match response.redirect with
    | some info => state.onRedirect endpoint info
    | none =>
      { state with overloadedStreak := 0, staleRepeats := 0, redirects := state.redirects + 1 }
  | .overloaded => state.onOverloaded endpoint response.rangeRebase
  | .failed => state.finish (.ok response)

/-- The connection fails under the request: redialled twice where that is safe, then given up. -/
def onLost (state : CallState) : CallState :=
  let safe := !call.mutating || durableDedup
  if state.reconnects < 2 then
    let state := { state with reconnects := state.reconnects + 1 }
    if safe then state else state.finish (.error .ambiguousOutcome)
  else if safe then { state.giveUp endpoint with reconnects := 0 }
  else state.finish (.error .ambiguousOutcome)

def onTimeout (state : CallState) : CallState :=
  if call.mutating ∧ durableDedup ∧ state.deliveries < call.deliveryRetries then
    { state.giveUpOnce endpoint with
      deliveries := state.deliveries + 1, deliveredUnanswered := true }
  else if call.mutating then state.finish (.error .ambiguousOutcome)
  else state.finish (.error .timeout)

def onExchange (state : CallState) : Exchange → CallState
  | .answered response => state.onResponse endpoint response
  | .lost written =>
    { state with unanswered := state.unanswered || written }.onLost call endpoint durableDedup
  | .timedOut => { state with unanswered := true }.onTimeout call endpoint durableDedup
  | .saturated => state.finish (.error .overloaded)

end CallState

/-- One turn of the loop of `execute_raw`; a call that has ended stays as it is. -/
def executeRaw (call : Call) (state : CallState) (turn : Turn) : CallState :=
  if state.outcome.isSome then state
  else if call.maxRedirects < state.redirects then state.finish (.error .tooManyRedirects)
  else
    match state.route call turn.cached with
    | (none, state) =>
      state.finish (.error (if call.mutating && state.deliveredUnanswered then .ambiguousOutcome
        else .io "all known endpoints failed"))
    | (some endpoint, state) =>
      match turn.dial with
      | none => state.giveUp endpoint
      | some (durableDedup, exchange) => state.onExchange call endpoint durableDedup exchange

/-! ### What a call reports -/

/-- An error after an unanswered request is that the outcome is ambiguous. -/
def Honest (state : CallState) : Prop :=
  ∀ error, state.outcome = some (.error error) → state.unanswered = true →
    error = .ambiguousOutcome

/-- Behind an unanswered request the turn does not run out of redirects, meets no saturated
connection, and runs out of endpoints with the flag of the loop set only. -/
def Accounted (call : Call) (state : CallState) (turn : Turn) : Prop :=
  state.outcome = none → state.unanswered = true →
    state.redirects ≤ call.maxRedirects ∧
    match (state.route call turn.cached).1 with
    | none => state.deliveredUnanswered = true
    | some _ => ∀ durableDedup, turn.dial ≠ some (durableDedup, .saturated)

/-- Whatever error the call has ended with is that the outcome is ambiguous. -/
def Fair (state : CallState) : Prop :=
  ∀ error, state.outcome = some (.error error) → error = .ambiguousOutcome

theorem Fair.honest {state : CallState} (h : Fair state) : Honest state :=
  fun error herror _ ↦ h error herror

namespace CallState

variable {call : Call} {state : CallState} {endpoint : Endpoint}

theorem fair_of_open (h : state.outcome = none) : Fair state := by
  intro error herror
  rw [h] at herror
  cases herror

theorem fair_finish_ok (response : Response) : Fair (state.finish (.ok response)) :=
  fun _ herror ↦ nomatch herror

theorem fair_finish_ambiguous : Fair (state.finish (.error .ambiguousOutcome)) := by
  intro error herror
  cases herror
  rfl

theorem honest_finish_iff (error : ClientError) : Honest (state.finish (.error error)) ↔
    (state.unanswered = true → error = .ambiguousOutcome) :=
  ⟨fun h hunanswered ↦ h error rfl hunanswered, fun h _ herror hunanswered ↦ by
    cases herror
    exact h hunanswered⟩

@[simp] theorem giveUpOnce_outcome : (state.giveUpOnce endpoint).outcome = state.outcome := by
  rw [giveUpOnce]
  split_ifs <;> rfl

/-- Picking an endpoint moves nothing but the redirect in hand and the cursor. -/
theorem route_snd (call : Call) (state : CallState) (cached : Option Endpoint) : ∃ cursor,
    (state.route call cached).2 = { state with follow := none, seedCursor := cursor } := by
  rw [route]
  cases state.untried state.follow with
  | some endpoint => exact ⟨_, rfl⟩
  | none =>
    cases state.untried cached with
    | some | none => exact ⟨_, rfl⟩

theorem onRedirect_outcome (info : RedirectInfo) :
    (state.onRedirect endpoint info).outcome = state.outcome := by
  rw [onRedirect]
  split_ifs
  · rfl
  · exact giveUpOnce_outcome
  · rfl

theorem onOverloaded_outcome (rangeRebase : Bool) :
    (state.onOverloaded endpoint rangeRebase).outcome = state.outcome := by
  rw [onOverloaded]
  split_ifs <;> rfl

/-- An answer ends the call with itself, or the call goes on. -/
theorem fair_onResponse (h : state.outcome = none) (response : Response) :
    Fair (state.onResponse endpoint response) := by
  have hredirect : Fair (match response.redirect with
      | some info => state.onRedirect endpoint info
      | none => { state with
          overloadedStreak := 0, staleRepeats := 0, redirects := state.redirects + 1 }) := by
    cases response.redirect with
    | some info => exact fair_of_open ((onRedirect_outcome info).trans h)
    | none => exact fair_of_open h
  rw [onResponse]
  cases response.status with
  | ok | notFound => exact fair_finish_ok response
  | staleRoute | notLocal => exact hredirect
  | overloaded => exact fair_of_open ((onOverloaded_outcome _).trans h)
  | failed => exact fair_finish_ok response

theorem fair_onLost (h : state.outcome = none) (durableDedup : Bool) :
    Fair (state.onLost call endpoint durableDedup) := by
  rw [onLost]
  split
  all_goals
    cases !call.mutating || durableDedup with
    | true => exact fair_of_open h
    | false => exact fair_finish_ambiguous

theorem fair_onTimeout (hmutating : call.mutating = true) (h : state.outcome = none)
    (durableDedup : Bool) : Fair (state.onTimeout call endpoint durableDedup) := by
  rw [onTimeout]
  split_ifs
  · exact fair_of_open (giveUpOnce_outcome.trans h)
  · exact fair_finish_ambiguous

/-- Of the ways an exchange can go only a saturated connection tells of an earlier request. -/
theorem honest_onExchange_iff (hmutating : call.mutating = true) (h : state.outcome = none)
    (durableDedup : Bool) (exchange : Exchange) :
    Honest (state.onExchange call endpoint durableDedup exchange) ↔
      (state.unanswered = true → exchange ≠ .saturated) := by
  cases exchange with
  | answered response =>
    exact iff_of_true (fair_onResponse h response).honest fun _ hne ↦ nomatch hne
  | lost written =>
    have hfair : Fair (state.onExchange call endpoint durableDedup (.lost written)) := by
      apply fair_onLost
      exact h
    exact iff_of_true hfair.honest fun _ hne ↦ nomatch hne
  | timedOut =>
    have hfair : Fair (state.onExchange call endpoint durableDedup .timedOut) := by
      apply fair_onTimeout hmutating
      exact h
    exact iff_of_true hfair.honest fun _ hne ↦ nomatch hne
  | saturated =>
    refine (honest_finish_iff _).trans (imp_congr_right fun _ ↦ ?_)
    exact iff_of_false (fun h ↦ nomatch h) fun hne ↦ hne rfl

end CallState

/-- A turn keeps the call honest exactly if it is accounted for. -/
theorem honest_executeRaw_iff {call : Call} (hmutating : call.mutating = true)
    (state : CallState) (turn : Turn) (h : Honest state) :
    Honest (executeRaw call state turn) ↔ Accounted call state turn := by
  rw [executeRaw, Accounted]
  by_cases hended : state.outcome = none
  · have hopen : ¬state.outcome.isSome = true := by rw [hended]; decide
    rw [if_neg hopen]
    simp only [hended, forall_const]
    by_cases hbudget : call.maxRedirects < state.redirects
    · rw [if_pos hbudget, CallState.honest_finish_iff]
      simp [Nat.not_le.mpr hbudget]
    · rw [if_neg hbudget]
      simp only [Nat.not_lt.mp hbudget, true_and]
      obtain ⟨cursor, hroute⟩ := state.route_snd call turn.cached
      cases hpick : state.route call turn.cached with
      | mk pick after =>
        rw [hpick] at hroute
        have hopen : after.outcome = none := by rw [show after = _ from hroute]; exact hended
        have hunanswered : after.unanswered = state.unanswered := by
          rw [show after = _ from hroute]
        have hflag : after.deliveredUnanswered = state.deliveredUnanswered := by
          rw [show after = _ from hroute]
        cases pick with
        | none => simp [CallState.honest_finish_iff, hmutating, hunanswered, hflag]
        | some endpoint =>
          cases hdial : turn.dial with
          | none => exact iff_of_true (Fair.honest (CallState.fair_of_open hopen)) fun _ _ ↦ nofun
          | some connection =>
            obtain ⟨durableDedup, exchange⟩ := connection
            simp [CallState.honest_onExchange_iff hmutating hopen, hunanswered]
  · have hdone : state.outcome.isSome = true := Option.isSome_iff_ne_none.mpr hended
    rw [if_pos hdone]
    exact iff_of_true h fun hnone ↦ absurd hnone hended

/-! ### In the words of the turns -/

/-- The request is written and its answer does not come. -/
def Exchange.unanswered : Exchange → Bool
  | .lost written => written
  | .timedOut => true
  | _ => false

def Turn.unanswered (turn : Turn) : Bool := turn.dial.any (·.2.unanswered)

def Turn.timedOut (turn : Turn) : Bool := turn.dial.any (·.2 = .timedOut)

namespace CallState

variable {call : Call} {state : CallState} {endpoint : Endpoint}

/-- What has happened, and what the loop remembers of it. -/
def flags (state : CallState) : Bool × Bool := (state.unanswered, state.deliveredUnanswered)

theorem flags_giveUpOnce : (state.giveUpOnce endpoint).flags = state.flags := by
  rw [giveUpOnce]
  split_ifs <;> rfl

theorem flags_onResponse (response : Response) :
    (state.onResponse endpoint response).flags = state.flags := by
  have hredirect (info : RedirectInfo) : (state.onRedirect endpoint info).flags = state.flags := by
    rw [onRedirect]
    split_ifs
    · rfl
    · exact flags_giveUpOnce
    · rfl
  rw [onResponse]
  cases response.status with
  | staleRoute | notLocal => cases response.redirect <;> first | rfl | exact hredirect _
  | overloaded =>
    dsimp only
    rw [onOverloaded]
    split_ifs <;> rfl
  | _ => rfl

theorem flags_onLost (durableDedup : Bool) :
    (state.onLost call endpoint durableDedup).flags = state.flags := by
  rw [onLost]
  split <;> cases !call.mutating || durableDedup <;> rfl

/-- A call that goes on behind a timeout remembers it. -/
theorem flags_onTimeout (hmutating : call.mutating = true) (durableDedup : Bool)
    (hopen : (state.onTimeout call endpoint durableDedup).outcome = none) :
    (state.onTimeout call endpoint durableDedup).flags = (state.unanswered, true) := by
  rw [onTimeout] at hopen ⊢
  split_ifs at hopen ⊢
  · exact congrArg (·.1, true) flags_giveUpOnce
  · cases hopen

theorem flags_onExchange (hmutating : call.mutating = true) (durableDedup : Bool)
    (exchange : Exchange)
    (hopen : (state.onExchange call endpoint durableDedup exchange).outcome = none) :
    (state.onExchange call endpoint durableDedup exchange).flags =
      (state.unanswered || exchange.unanswered,
        state.deliveredUnanswered || exchange = .timedOut) := by
  cases exchange with
  | answered response =>
    simp only [Exchange.unanswered, reduceCtorEq, decide_false, Bool.or_false]
    exact flags_onResponse response
  | lost written =>
    simp only [Exchange.unanswered, reduceCtorEq, decide_false, Bool.or_false]
    exact flags_onLost durableDedup
  | timedOut =>
    simp only [Exchange.unanswered, decide_true, Bool.or_true]
    exact flags_onTimeout hmutating durableDedup hopen
  | saturated => cases hopen

end CallState

/-- What a turn must be behind earlier ones of which one was left unanswered: within the budget of
redirects, on a connection that is not saturated, and not without an endpoint unless an earlier
turn timed out. -/
def AccountedAfter (call : Call) (earlier : List Turn) (turn : Turn) : Prop :=
  let state := run (executeRaw call) {} earlier
  state.outcome = none → earlier.any Turn.unanswered = true →
    state.redirects ≤ call.maxRedirects ∧
    match (state.route call turn.cached).1 with
    | none => earlier.any Turn.timedOut = true
    | some _ => ∀ durableDedup, turn.dial ≠ some (durableDedup, .saturated)

section

variable {call : Call} (hmutating : call.mutating = true)

include hmutating

/-- Behind a turn that leaves the call open, the flags are what they were and what the turn says. -/
theorem flags_executeRaw {state : CallState} {turn : Turn}
    (hopen : (executeRaw call state turn).outcome = none) :
    state.outcome = none ∧ (executeRaw call state turn).flags =
      (state.unanswered || turn.unanswered, state.deliveredUnanswered || turn.timedOut) := by
  rw [executeRaw] at hopen ⊢
  split_ifs at hopen ⊢ with hended hbudget
  · rw [hopen] at hended
    cases hended
  · cases hopen
  refine ⟨Option.not_isSome_iff_eq_none.mp hended, ?_⟩
  obtain ⟨cursor, hroute⟩ := state.route_snd call turn.cached
  cases hpick : state.route call turn.cached with
  | mk pick after =>
    rw [hpick] at hopen hroute
    obtain rfl : after = _ := hroute
    cases pick with
    | none => cases hopen
    | some endpoint =>
      rw [Turn.unanswered, Turn.timedOut]
      cases hdial : turn.dial with
      | none => simp [CallState.giveUp, CallState.flags]
      | some connection =>
        rw [hdial] at hopen
        exact CallState.flags_onExchange hmutating connection.1 connection.2 hopen

/-- An open call has the flags its turns say. -/
theorem flags_run {turns : List Turn}
    (hopen : (run (executeRaw call) {} turns).outcome = none) :
    (run (executeRaw call) {} turns).flags =
      (turns.any Turn.unanswered, turns.any Turn.timedOut) := by
  induction turns using List.reverseRecOn with
  | nil => rfl
  | append_singleton front turn ih =>
    rw [run_append] at hopen ⊢
    obtain ⟨hfront, hflags⟩ := flags_executeRaw hmutating hopen
    obtain ⟨hunanswered, htimedOut⟩ := Prod.mk.inj (ih hfront)
    rw [run_cons, run_nil, hflags, hunanswered, htimedOut, List.any_append, List.any_append,
      List.any_cons, List.any_cons, List.any_nil, List.any_nil, Bool.or_false, Bool.or_false]

theorem accounted_run_iff (earlier : List Turn) (turn : Turn) :
    Accounted call (run (executeRaw call) {} earlier) turn ↔ AccountedAfter call earlier turn := by
  refine forall_congr' fun hopen ↦ ?_
  obtain ⟨hunanswered, htimedOut⟩ := Prod.mk.inj (flags_run hmutating hopen)
  rw [hunanswered, htimedOut]

/-- A mutating call is honest at every turn exactly if each turn is accounted for behind the turns
before it: what the loop's variables say of lost requests is said by the turns themselves. -/
theorem executeRaw_honest_iff_turns (turns : List Turn) :
    (∀ front back, turns = front ++ back → Honest (run (executeRaw call) {} front)) ↔
      ∀ front turn back, turns = front ++ turn :: back → AccountedAfter call front turn := by
  rw [forall_states_iff_along (honest_executeRaw_iff hmutating)
    (Fair.honest (CallState.fair_of_open rfl)), along_iff_forall_splits]
  simp only [accounted_run_iff hmutating]

end

/-- A mutating call is honest at every turn exactly if each turn is accounted for: the flag says
nothing of a connection lost behind the request, and neither the redirect budget nor a saturated
connection asks it. -/
theorem executeRaw_honest_iff (call : Call) (hmutating : call.mutating = true)
    (turns : List Turn) :
    (∀ front back, turns = front ++ back → Honest (run (executeRaw call) {} front)) ↔
      Along (executeRaw call) (Accounted call) {} turns :=
  forall_states_iff_along (honest_executeRaw_iff hmutating)
    (Fair.honest (CallState.fair_of_open rfl))

/-- Two seeds and no redirects. -/
def pairCall : Call := ⟨true, 0, 3, ["a", "b"]⟩

/-- The first seed does not answer, the second one does. -/
def redelivered : List Turn :=
  [⟨none, some (true, .timedOut)⟩, ⟨none, some (true, .answered ⟨.ok, none, false⟩)⟩]

/-- The timeout of the first seed is remembered, and the answer of the second ends the call. -/
theorem executeRaw_honest_redelivered :
    (run (executeRaw pairCall) {} redelivered).unanswered = true ∧
      ∀ front back, redelivered = front ++ back →
        Honest (run (executeRaw pairCall) {} front) := by
  refine ⟨rfl, (executeRaw_honest_iff pairCall rfl redelivered).mpr ?_⟩
  exact ⟨(fun _ h ↦ nomatch h), (fun _ _ ↦ ⟨by decide, fun _ h ↦ nomatch h⟩), trivial⟩

/-- The connection is lost behind the written request, and the seed is gone when it is redialled:
the call reports that it reached no endpoint. -/
theorem executeRaw_dishonest :
    ¬∀ (call : Call) (turns : List Turn), call.mutating = true →
      Honest (run (executeRaw call) {} turns) := by
  intro h
  have herror := h ⟨true, 0, 3, ["a"]⟩
    [⟨none, some (true, .lost true)⟩, ⟨none, none⟩, ⟨none, none⟩] rfl
    (.io "all known endpoints failed") rfl rfl
  cases herror

end Kivi.Client
