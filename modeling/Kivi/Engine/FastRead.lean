import Kivi.State.PrepareDurable

/-!
# Reads answered beside the general path

A worker answers a common read of a tablet it owns directly from the stored object (`fastRead`).
The general path translates the command into an operation (`translate`), prepares that on the
store and maps the result onto a reply (`mapResult`). Every direct answer is the one the general
path gives (`fastRead_agrees`); values that are not inline bytes are left to the general path.
A range read has two ways through the general path, which give the same window of the value
(`getrange_window`).
-/

namespace Kivi.Engine

open Library Library.CheckedArith State

/-! ### The general path -/

/-- The command a reply is for. -/
inductive RedisOp where
  | get | set | del | «exists» | expire | ttl | pTtl | expireTime | pExpireTime | persist
  | getRange | getRangeSlice (start stop : Int64) | setRange | strLen
deriving DecidableEq

/-- What a request does; `ι` are the replies that need no store. -/
inductive Action (ι : Type) where
  | execute (op : Operation) (redis : RedisOp)
  | reply (immediate : ι)

inductive RespError where
  | incomplete | malformed | tooLarge | pipelineFull
  | unsupported (command : Bytes)
  | invalidArguments (reason : String)
deriving DecidableEq

inductive Reply where
  | simple (text : String)
  | bulk (bytes : Bytes)
  | nil
  | int (value : Int64)
  | error (text : String)
deriving DecidableEq

def asciiBytes (text : String) : Bytes := text.toList.map fun char ↦ char.toNat.toUInt8

def maxCommandName : Nat := 24

/-- The name in upper case, without the zeros that fill up the buffer. -/
def foldCommandName (name : Bytes) : Option Bytes :=
  if name = [] ∨ maxCommandName < name.length ∨ ∃ byte ∈ name, 128 ≤ byte then none
  else some (name.map fun byte ↦ if 97 ≤ byte ∧ byte ≤ 122 then byte - 32 else byte)

/-- The commands that take one key, with the name as the arity error has it. -/
def keyCommands : List (String × String × (Key → Operation) × RedisOp) :=
  [("GET", "get", .get, .get), ("DEL", "del", .delete, .del),
    ("EXISTS", "exists", .exists, .exists), ("TTL", "ttl", .getExpiry, .ttl),
    ("PTTL", "pttl", .getExpiry, .pTtl), ("EXPIRETIME", "expiretime", .getExpiry, .expireTime),
    ("PEXPIRETIME", "pexpiretime", .getExpiry, .pExpireTime),
    ("PERSIST", "persist", .persistExpiry, .persist),
    ("STRLEN", "strlen", .bytesLength, .strLen)]

/-- Commands with arguments of another form are left to `others`. -/
def translate {ι : Type}
    (others : Bytes → List Bytes → WallTimestamp → Except RespError (Action ι))
    (name : Bytes) (args : List Bytes) (now : WallTimestamp) :
    Except RespError (Action ι) :=
  match foldCommandName name with
  | none => .error .malformed
  | some folded =>
    match keyCommands.find? fun command ↦ asciiBytes command.1 = folded with
    | none => others folded args now
    | some (_, text, op, redis) =>
      match args with
      | [key] => .ok (.execute (op key) redis)
      | _ => .error (.invalidArguments ("wrong number of arguments for '" ++ text ++ "'"))

def i64OfBool (flag : Bool) : Int64 := if flag then 1 else 0

/-- A length as a reply has it, cut off at the largest signed word. -/
def i64OfLength (length : UInt64) : Int64 := (i64OfU64 length).getD maxI64

/-- Seconds until the deadline, rounded up; a deadline that is reached leaves one. -/
def ttlSeconds (expiry : Option Expiry) (now : WallTimestamp) : Int64 :=
  match expiry with
  | none => -2
  | some ⟨none⟩ => -1
  | some ⟨some stamp⟩ =>
    let remaining := saturatingSubI64 stamp now
    if remaining ≤ 0 then 1 else saturatingAddI64 remaining 999999 / 1000000

def ttlMillis (expiry : Option Expiry) (now : WallTimestamp) : Int64 :=
  match expiry with
  | none => -2
  | some ⟨none⟩ => -1
  | some ⟨some stamp⟩ => max (saturatingSubI64 stamp now / 1000) 0

/-- The deadline in units of `micros`, rounded down. -/
def expireIn (micros : Int) (expiry : Option Expiry) : Int64 :=
  match expiry with
  | none => -2
  | some ⟨none⟩ => -1
  | some ⟨some stamp⟩ => Int64.ofInt (stamp.toInt / micros)

def expireSeconds : Option Expiry → Int64 := expireIn 1000000

def expireMillis : Option Expiry → Int64 := expireIn 1000

/-- The bytes from `start` to `stop`, both counted from the end where negative. -/
def sliceGetrange (value : Bytes) (start stop : Int64) : Bytes :=
  let total := i64OfLength (UInt64.ofNat value.length)
  let norm (index : Int64) : Int64 :=
    if index < 0 then max (saturatingAddI64 total index) 0 else min index total
  if norm stop < norm start ∨ total ≤ norm start then []
  else
    let first := (norm start).toNatClampNeg
    let last := (min (norm stop) (total - 1)).toNatClampNeg
    if last < first ∨ value.length ≤ last then [] else (value.take (last + 1)).drop first

/-- The reply to a result; pairs that do not belong together are an internal error. -/
def mapResult (result : OperationResult) (redis : RedisOp) (now : WallTimestamp) : Reply :=
  match result, redis with
  | .value (some value), .get | .value (some value), .getRange => .bulk value
  | .value none, .get => .nil
  | .value none, .getRange | .value none, .getRangeSlice _ _ => .bulk []
  | .value (some value), .getRangeSlice start stop => .bulk (sliceGetrange value start stop)
  | .conditionalSet applied _, .set => if applied then .simple "OK" else .nil
  | .deleted existed, .del => .int (i64OfBool existed)
  | .exists present, .exists => .int (i64OfBool present)
  | .expirySet applied, .expire => .int (i64OfBool applied)
  | .expiryPersisted removed, .persist => .int (i64OfBool removed)
  | .expiry expiry, .ttl => .int (ttlSeconds expiry now)
  | .expiry expiry, .pTtl => .int (ttlMillis expiry now)
  | .expiry expiry, .expireTime => .int (expireSeconds expiry)
  | .expiry expiry, .pExpireTime => .int (expireMillis expiry)
  | .length none, .strLen => .int 0
  | .length (some length), .strLen => .int (i64OfLength length)
  | _, _ => .error "ERR internal error"

/-! ### The direct path -/

inductive FastKind where
  | get | «exists» | strLen | ttl | pttl
deriving DecidableEq

/-- The commands with a direct path; `argc` counts the name. -/
def classify (folded : Bytes) (argc : Nat) : Option FastKind :=
  if argc ≠ 2 then none
  else if folded = asciiBytes "GET" then some .get
  else if folded = asciiBytes "EXISTS" then some .exists
  else if folded = asciiBytes "STRLEN" then some .strLen
  else if folded = asciiBytes "TTL" then some .ttl
  else if folded = asciiBytes "PTTL" then some .pttl
  else none

def getBorrowed (store : ObjectStore) (key : Bytes) (now : WallTimestamp) :
    Option StoredObject :=
  store.objects[key]?.filter fun object ↦ !object.isExpired now

/-- The answer from `live`, the store in the slot of the route, which may be vacated. -/
def fastRead (live : Option ObjectStore) (kind : FastKind) (key : Bytes)
    (now : WallTimestamp) : Option Reply :=
  live.bind fun store ↦
    match kind, getBorrowed store key now with
    | .get, some ⟨.bytes bytes, _, _⟩ => some (.bulk bytes)
    | .get, some _ => none
    | .get, none => some .nil
    | .exists, found => some (.int (i64OfBool found.isSome))
    | .strLen, some ⟨.bytes bytes, _, _⟩ =>
      some (.int (i64OfLength (UInt64.ofNat bytes.length)))
    | .strLen, some _ => none
    | .strLen, none => some (.int 0)
    | .ttl, found => some (.int (ttlSeconds (found.map StoredObject.expiry) now))
    | .pttl, found => some (.int (ttlMillis (found.map StoredObject.expiry) now))

/-- What the general path makes of a command with a direct path. -/
def FastKind.translated : FastKind → (Key → Operation) × RedisOp
  | .get => (.get, .get)
  | .exists => (.exists, .exists)
  | .strLen => (.bytesLength, .strLen)
  | .ttl => (.getExpiry, .ttl)
  | .pttl => (.getExpiry, .pTtl)

section Agreement

variable {ι : Type}
  {others : Bytes → List Bytes → WallTimestamp → Except RespError (Action ι)}
  {name folded : Bytes} {kind : FastKind} {live : Option ObjectStore} {store : ObjectStore}
  {key : Bytes} {now : WallTimestamp} {reply : Reply}

/-- The direct path reads the store the way the operation of its command is prepared. -/
theorem prepareDurable_of_fastRead (h : fastRead (some store) kind key now = some reply) :
    ∃ result, store.prepareDurable now (kind.translated.1 key) = .ok (.read result) ∧
      mapResult result kind.translated.2 now = reply := by
  have hget : getBorrowed store key now = store.get key now := rfl
  simp only [fastRead, Option.bind_some, hget] at h
  cases kind with
  | «exists» | ttl | pttl => exact ⟨_, rfl, Option.some.inj h⟩
  | get | strLen =>
    rcases hstored : store.get key now with _ | ⟨_ | _, version, expiry⟩
    all_goals
      simp only [hstored, reduceCtorEq, Option.some.injEq] at h
    all_goals
      apply Exists.intro
      apply And.intro
      · simp only [FastKind.translated, ObjectStore.prepareDurable, ObjectStore.prepareOrdinary,
          Operation.key, Operation.isMutating, Bool.false_and, ObjectStore.prepareRead, hstored]
        rfl
      · exact h

/-- A direct answer is the reply of the general path on the same store at the same time. -/
theorem fastRead_agrees (hfold : foldCommandName name = some folded)
    (hkind : classify folded 2 = some kind) (hfast : fastRead live kind key now = some reply) :
    ∃ store op redis result, live = some store ∧
      translate others name [key] now = .ok (.execute op redis) ∧
      store.prepareDurable now op = .ok (.read result) ∧ mapResult result redis now = reply := by
  cases live with
  | none => cases hfast
  | some store =>
    obtain ⟨result, hread, hreply⟩ := prepareDurable_of_fastRead hfast
    refine ⟨store, _, _, result, rfl, ?_, hread, hreply⟩
    unfold classify at hkind
    unfold translate
    rw [hfold]
    split_ifs at hkind
    all_goals
      subst folded
      cases hkind
      rfl

/-- Two bytes under `[7]` that expire at 5. -/
def expiringBytes : ObjectStore :=
  (ObjectStore.new.apply (.putBytesWithExpiry [7] [1, 2] (.expiresAt 5)) 0).2

/-- Their length, asked for at 4. -/
theorem fastRead_agrees_strlen :
    ∃ store op redis result, some expiringBytes = some store ∧
      translate (fun folded _ _ ↦ .error (.unsupported folded)) (asciiBytes "strlen") [[7]] 4 =
        .ok (.execute op redis : Action Unit) ∧
      store.prepareDurable 4 op = .ok (.read result) ∧ mapResult result redis 4 = .int 2 :=
  have hfold : foldCommandName (asciiBytes "strlen") = some (asciiBytes "STRLEN") := by decide
  have hkind : classify (asciiBytes "STRLEN") 2 = some .strLen := by decide
  fastRead_agrees hfold hkind (by decide)

end Agreement

/-! ### Range reads -/

/-- A window without a negative bound is read natively, another one is cut out of the value.
`parseInteger` reads a decimal argument. -/
def translateGetrange {ι : Type} (parseInteger : Bytes → Option Int64) :
    List Bytes → Except RespError (Action ι)
  | [key, first, last] =>
    match parseInteger first, parseInteger last with
    | some start, some stop =>
      if 0 ≤ start ∧ 0 ≤ stop then
        if stop < start then .ok (.execute (.getRange key 0 0) .getRange)
        else
          let offset := UInt64.ofNat start.toNatClampNeg
          let len := saturatingAddU64 (UInt64.ofNat (stop.toNatClampNeg - offset.toNat)) 1
          .ok (.execute (.getRange key offset len) .getRange)
      else .ok (.execute (.get key) (.getRangeSlice start stop))
    | _, _ => .error (.invalidArguments "value is not an integer or out of range")
  | _ => .error (.invalidArguments "wrong number of arguments for 'getrange'")

/-- Where an index points that counts from the end if it is negative, and not before the start. -/
def position (length : Nat) (index : Int64) : Nat :=
  (if index.toInt < 0 then length + index.toInt else index.toInt).toNat

/-- The bytes from one index to another, both of them included. -/
def window (value : Bytes) (start stop : Int64) : Bytes :=
  (value.take (position value.length stop + 1)).drop (position value.length start)

section Ranges

variable {value : Bytes} {start stop : Int64}

theorem window_eq_nil (h : min (position value.length stop + 1) value.length ≤
    position value.length start) : window value start stop = [] := by
  refine List.drop_eq_nil_of_le ?_
  rw [List.length_take]
  exact h

theorem toInt_max (a b : Int64) : (max a b).toInt = max a.toInt b.toInt := by
  change (if a ≤ b then b else a).toInt = _
  simp only [Int64.le_iff_toInt_le]
  split_ifs <;> omega

theorem toInt_min (a b : Int64) : (min a b).toInt = min a.toInt b.toInt := by
  change (if a ≤ b then a else b).toInt = _
  simp only [Int64.le_iff_toInt_le]
  split_ifs <;> omega

/-- An index as `sliceGetrange` normalises it. -/
def normIndex (value : Bytes) (index : Int64) : Int64 :=
  if index < 0 then max (saturatingAddI64 (i64OfLength (UInt64.ofNat value.length)) index) 0
  else min index (i64OfLength (UInt64.ofNat value.length))

section

variable (hlength : value.length < 2 ^ 63)
include hlength

theorem toInt_length : (i64OfLength (UInt64.ofNat value.length)).toInt = value.length := by
  have hword : (UInt64.ofNat value.length).toNat = value.length :=
    UInt64.toNat_ofNat_of_lt' (hlength.trans (by decide))
  rw [i64OfLength, i64OfU64, hword, if_pos hlength, Option.getD_some]
  exact Int64.toInt_ofInt_of_le (by omega) (by omega)

theorem toInt_normIndex (index : Int64) :
    (normIndex value index).toInt = min (position value.length index) value.length := by
  have htotal := toInt_length hlength
  have hbounds := index.le_toInt
  have hzero : (0 : Int64).toInt = 0 := rfl
  unfold normIndex position
  simp only [Int64.lt_iff_toInt_lt, hzero]
  split_ifs with hneg
  · obtain ⟨sum, hsum⟩ : ∃ sum : Int64, sum.toInt = value.length + index.toInt :=
      ⟨_, Int64.toInt_ofInt_of_le (by omega) (by omega)⟩
    have hadd : checkedAddI64 (i64OfLength (UInt64.ofNat value.length)) index = some sum := by
      rw [checkedAddI64, i64OfInt_eq_some_iff, htotal, hsum]
    rw [saturatingAddI64, hadd, toInt_max, hsum, hzero]
    omega
  · rw [toInt_min, htotal]
    omega

/-- The one plain subtraction of `sliceGetrange` is exact. -/
theorem toInt_last :
    (i64OfLength (UInt64.ofNat value.length) - 1).toInt = (value.length : Int) - 1 := by
  have hone : (1 : Int64).toInt = 1 := rfl
  rw [Int64.toInt_sub, toInt_length hlength, hone]
  exact Int.bmod_eq_of_le (by omega) (by omega)

theorem sliceGetrange_eq (start stop : Int64) :
    sliceGetrange value start stop = window value start stop := by
  have htotal := toInt_length hlength
  have hstart := toInt_normIndex hlength start
  have hstop := toInt_normIndex hlength stop
  change (if normIndex value stop < normIndex value start ∨
      i64OfLength _ ≤ normIndex value start then []
    else if (min (normIndex value stop) _).toNatClampNeg < (normIndex value start).toNatClampNeg ∨
      _ ≤ (min (normIndex value stop) _).toNatClampNeg then []
    else (value.take ((min (normIndex value stop) _).toNatClampNeg + 1)).drop
      (normIndex value start).toNatClampNeg) = _
  simp only [Int64.lt_iff_toInt_lt, Int64.le_iff_toInt_le, ← Int64.toNat_toInt, toInt_min,
    toInt_last hlength, hstart, hstop, htotal]
  by_cases hempty : position value.length stop < position value.length start ∨
      value.length ≤ position value.length start
  · rw [if_pos (by omega), window_eq_nil (by omega)]
  · have hfirst : ((min (position value.length start) value.length : Nat) : Int).toNat =
        position value.length start := by omega
    rw [if_neg (by omega), if_neg (by omega), window, hfirst]
    congr 1
    rw [List.take_eq_take_iff]
    omega

end

/-- The native read of a window without a negative bound. -/
theorem sliceRange_eq (hstart : 0 ≤ start.toInt) (hle : start.toInt ≤ stop.toInt) :
    sliceRange value (UInt64.ofNat start.toNatClampNeg) (saturatingAddU64 (UInt64.ofNat
      (stop.toNatClampNeg - (UInt64.ofNat start.toNatClampNeg).toNat)) 1) =
      window value start stop := by
  have hbound := stop.toInt_lt
  have hword {number : Nat} (hfits : number < 2 ^ 63) : (UInt64.ofNat number).toNat = number :=
    UInt64.toNat_ofNat_of_lt' (hfits.trans (by decide))
  have hlen : (saturatingAddU64 (UInt64.ofNat (stop.toInt.toNat - start.toInt.toNat)) 1).toNat =
      stop.toInt.toNat + 1 - start.toInt.toNat := by
    rw [toNat_saturatingAddU64, hword (by omega), UInt64.toNat_one]
    omega
  rw [← Int64.toNat_toInt, ← Int64.toNat_toInt, sliceRange, hword (by omega), hlen, window,
    position, position, if_neg (by omega), if_neg (by omega), List.drop_take]

variable {ι : Type} {parseInteger : Bytes → Option Int64} {store : ObjectStore}
  {key first last : Bytes} {now : WallTimestamp} {version : ObjectVersion} {expiry : Expiry}

/-- The reply to a range read of an inline value is the window, however it is read. -/
theorem getrange_window (hstart : parseInteger first = some start)
    (hstop : parseInteger last = some stop)
    (hget : store.get key now = some ⟨.bytes value, version, expiry⟩)
    (hlength : value.length < 2 ^ 63) :
    ∃ op redis result,
      translateGetrange parseInteger [key, first, last] = .ok (.execute op redis : Action ι) ∧
      store.prepareDurable now op = .ok (.read result) ∧
      mapResult result redis now = .bulk (window value start stop) ∧
      (i64OfLength (UInt64.ofNat value.length) - 1).toInt = (value.length : Int) - 1 := by
  have hwhole : store.prepareDurable now (.get key) = .ok (.read (.value (some value))) := by
    simp [ObjectStore.prepareDurable, ObjectStore.prepareOrdinary, Operation.key,
      Operation.isMutating, ObjectStore.prepareRead, hget]
  have hrange (offset len : UInt64) : store.prepareDurable now (.getRange key offset len) =
      .ok (.read (.value (some (sliceRange value offset len)))) := by
    simp [ObjectStore.prepareDurable, ObjectStore.prepareOrdinary, Operation.key,
      Operation.isMutating, ObjectStore.prepareRead, hget]
  have hzero : (0 : Int64).toInt = 0 := rfl
  simp only [translateGetrange, hstart, hstop, Int64.lt_iff_toInt_lt, Int64.le_iff_toInt_le, hzero]
  split_ifs with hnative hreversed
  · refine ⟨_, _, _, rfl, hrange 0 0, ?_, toInt_last hlength⟩
    rw [window_eq_nil]
    · rfl
    · rw [position, position, if_neg (by omega), if_neg (by omega)]
      omega
  · refine ⟨_, _, _, rfl, hrange _ _, ?_, toInt_last hlength⟩
    rw [sliceRange_eq hnative.1 (by omega)]
    rfl
  · refine ⟨_, _, _, rfl, hwhole, ?_, toInt_last hlength⟩
    rw [← sliceGetrange_eq hlength]
    rfl

/-- The last two bytes of three. -/
theorem getrange_window_negative :
    window [1, 2, 3] (-2) (-1) = [2, 3] ∧ ∃ op redis result,
      translateGetrange (fun text ↦ if text = asciiBytes "-2" then some (-2) else some (-1))
          [[7], asciiBytes "-2", asciiBytes "-1"] = .ok (.execute op redis : Action Unit) ∧
        (ObjectStore.new.putStored [7] ⟨.bytes [1, 2, 3], ⟨1⟩, .never⟩).prepareDurable 0 op =
          .ok (.read result) ∧
        mapResult result redis 0 = .bulk (window [1, 2, 3] (-2) (-1)) ∧
        (i64OfLength (UInt64.ofNat [1, 2, 3].length) - 1).toInt = ([1, 2, 3].length : Int) - 1 :=
  have hget : (ObjectStore.new.putStored [7] ⟨.bytes [1, 2, 3], ⟨1⟩, .never⟩).get [7] 0 =
      some ⟨.bytes [1, 2, 3], ⟨1⟩, .never⟩ := rfl
  ⟨by decide, getrange_window (by decide) (by decide) hget (by decide)⟩

end Ranges

end Kivi.Engine
