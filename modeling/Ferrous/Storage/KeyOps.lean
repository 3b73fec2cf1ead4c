/-
# `Storage.KeyOps` — the engine's operations on one key

Each definition is the body of one `StorageEngine` method once the shard of the
key is locked: what it decides from the entry it found.  The reads of one value
type are one definition with the default for an absent key and the function of
the value as parameters.  None of them but the family of `get` looks at the
deadline of the entry.
-/
import Ferrous.Storage.Engine

namespace Ferrous

open Lib

namespace KeyOps

variable {α : Type}

/-! ## Access by type -/

/-- Use a stored string, list, set, hash, sorted set or stream; an absent key
gives `absent`, another type `WrongType`. -/
def onString (absent : KeyStep α) (f : StoredValue → Bytes → KeyStep α) : KeyOp α := fun _ entry =>
  match entry with
  | none => absent
  | some sv => match sv.value with
    | .string bytes => f sv bytes
    | _ => .wrongType

@[inherit_doc onString]
def onList (absent : KeyStep α) (f : StoredValue → List Bytes → KeyStep α) : KeyOp α :=
  fun _ entry =>
  match entry with
  | none => absent
  | some sv => match sv.value with
    | .list items => f sv items
    | _ => .wrongType

@[inherit_doc onString]
def onSet (absent : KeyStep α) (f : StoredValue → FSet Bytes → KeyStep α) : KeyOp α :=
  fun _ entry =>
  match entry with
  | none => absent
  | some sv => match sv.value with
    | .set members => f sv members
    | _ => .wrongType

@[inherit_doc onString]
def onHash (absent : KeyStep α) (f : StoredValue → Map Bytes Bytes → KeyStep α) : KeyOp α :=
  fun _ entry =>
  match entry with
  | none => absent
  | some sv => match sv.value with
    | .hash fields => f sv fields
    | _ => .wrongType

@[inherit_doc onString]
def onZset (absent : KeyStep α) (f : StoredValue → SkipList → KeyStep α) : KeyOp α :=
  fun _ entry =>
  match entry with
  | none => absent
  | some sv => match sv.value with
    | .sortedSet zset => f sv zset
    | _ => .wrongType

@[inherit_doc onString]
def onStream (absent : KeyStep α) (f : StoredValue → Stream → KeyStep α) : KeyOp α :=
  fun _ entry =>
  match entry with
  | none => absent
  | some sv => match sv.value with
    | .stream stream => f sv stream
    | _ => .wrongType

/-! ## Whole entries -/

/-- Whether the entry is there and its deadline has not passed. -/
def live (ctx : Ctx) : Option StoredValue → Bool
  | some sv => !sv.isExpired ctx.now
  | none => false

/-- `set_string_nx`: the expiry index keeps whatever row the key had. -/
def setStringNx (key : Key) (value : Bytes) : KeyOp Bool := fun ctx entry =>
  if live ctx entry then .answer false
  else .createCharged (calculateValueSize key (.string value)) (.string value) true

/-- `set_string_nx_ex`. -/
def setStringNxEx (key : Key) (value : Bytes) (expiresIn : Duration) : KeyOp Bool :=
  fun ctx entry =>
  if live ctx entry then .answer false
  else
    let charge := some (calculateValueSize key (.string value))
    match instantAdd ctx.stamp expiresIn, instantAdd ctx.indexStamp expiresIn with
    | some deadline, some indexed =>
        { result := .ok true
          charge := charge
          entry := .store ⟨.string value, some deadline⟩
          index := .record indexed
          marks := true }
    | _, _ => { result := .panic, charge := charge }

/-- `set_value`: the index learns a new deadline and keeps an old one when the
new value has none. -/
def setValue (key : Key) (value : Value) (expiresIn : Option Duration) : KeyOp Unit :=
  fun ctx _ =>
  let charge := some (calculateValueSize key value)
  match expiresIn with
  | none =>
      { result := .ok (), charge := charge, entry := .store ⟨value, none⟩, marks := true }
  | some d =>
      match instantAdd ctx.stamp d with
      | some deadline =>
          { result := .ok ()
            charge := charge
            entry := .store ⟨value, some deadline⟩
            index := .record deadline
            marks := true }
      | none => { result := .panic, charge := charge }

/-- `GetResult`. -/
inductive GetResult
  | found (v : Value)
  | notFound
  | expired

/-- What the family of `get` does with a key past its deadline: it marks it and
removes it from the data and the index. -/
def expunge (result : Outcome α) : KeyStep α :=
  { result := result, entry := .remove, index := .forget, marks := true }

/-- `get`. -/
def get : KeyOp GetResult := fun ctx entry =>
  match entry with
  | none => .answer .notFound
  | some sv => if sv.isExpired ctx.now then expunge (.ok .expired) else .answer (.found sv.value)

/-- An operation that starts with `get` and uses only the value found. -/
def viaGet (f : Option Value → Outcome α) : KeyOp α := fun ctx entry =>
  match entry with
  | none => { result := f none }
  | some sv => if sv.isExpired ctx.now then expunge (f none) else { result := f (some sv.value) }

/-- `get_string`. -/
def getString : KeyOp (Option Bytes) := viaGet fun
  | none => .ok none
  | some (.string bytes) => .ok (some bytes)
  | some _ => .err (.storage .wrongType)

/-- `exists`. -/
def exists? : KeyOp Bool := fun ctx entry => .answer (live ctx entry)

/-- `delete`. -/
def delete (key : Key) : KeyOp Bool := fun _ entry =>
  match entry with
  | none => .answer false
  | some sv =>
      { result := .ok true
        entry := .remove
        index := .forget
        marks := true
        release := calculateValueSize key sv.value }

/-- `expire`: the metadata and the index each take their own clock reading. -/
def expire (expiresIn : Duration) : KeyOp Bool := fun ctx entry =>
  match entry with
  | none => .answer false
  | some sv =>
      match instantAdd ctx.stamp expiresIn with
      | none => .panics
      | some deadline =>
          let store := EntryStep.store { sv with expiresAt := some deadline }
          match instantAdd ctx.indexStamp expiresIn with
          | none => { result := .panic, entry := store }
          | some indexed => { result := .ok true, entry := store, index := .record indexed }

/-- Time left until a deadline. -/
def remaining (deadline now : Nat) : Nat := if now < deadline then deadline - now else 0

/-- `ttl`. -/
def ttl : KeyOp (Option Duration) := fun ctx entry =>
  .answer (entry.bind fun sv => sv.expiresAt.map fun e => remaining e ctx.now)

/-- `pttl`: the two lookups of the source take their own readings. -/
def pttl : KeyOp Int := fun ctx entry =>
  match entry.bind (·.expiresAt) with
  | some e => .answer (wrapI64 (remaining e ctx.now / 10 ^ 6 : Nat))
  | none => .answer (if entry.isSome then -1 else -2)

/-- `persist`. -/
def persist : KeyOp Bool := fun _ entry =>
  match entry with
  | none => .answer false
  | some sv =>
      match sv.expiresAt with
      | none => .answer false
      | some _ => { result := .ok true, entry := .store { sv with expiresAt := none }, index := .forget }

/-- `key_type`. -/
def keyType : KeyOp String := fun _ entry =>
  match entry with
  | none => .answer "none"
  | some sv => .answer sv.value.valueType.name

/-! ## Strings -/

/-- `incr_by`. -/
def incrBy (key : Key) (increment : Int) : KeyOp Int := fun _ entry =>
  match entry with
  | some sv =>
      match sv.value.asInteger with
      | none => .fail (.command .notInteger)
      | some current =>
          if wrapI64 (current + increment) = current + increment then
            .update sv (Value.integer (current + increment)) (current + increment)
          else .fail (.command (.generic "increment or decrement would overflow"))
  | none =>
      .createCharged (calculateValueSize key (Value.integer increment)) (Value.integer increment)
        increment

/-- `append`. -/
def append (value : Bytes) : KeyOp Nat :=
  onString (.create (.string value) value.length) fun sv bytes =>
    .update sv (.string (bytes ++ value)) (bytes ++ value).length

/-- `strlen`. -/
def strlen : KeyOp Nat := onString (.answer 0) fun _ bytes => .answer bytes.length

/-- A signed index counted from the end when negative, raised to zero. -/
def clampIndex (len : Nat) (i : Int) : Nat := (if i < 0 then max (len + i) 0 else i).toNat

/-- `getrange`; the end index may be `usize::MAX`, on which slicing panics. -/
def getrange (start stop : Int) : KeyOp Bytes := fun ctx =>
  onString (.answer []) (fun _ bytes =>
    let first := clampIndex bytes.length start
    let last : Option Nat :=
      if stop < 0 then
        some (if (bytes.length : Int) + stop < 0 then 2 ^ 64 - 1 else (bytes.length + stop).toNat)
      else if bytes.length = 0 then (if ctx.overflowChecks then none else some stop.toNat)
      else some (min stop.toNat (bytes.length - 1))
    match last with
    | none => .panics
    | some last =>
        if last < first ∨ bytes.length ≤ first then .answer []
        else if last = 2 ^ 64 - 1 then .panics
        else .answer ((bytes.take (last + 1)).drop first)) ctx

/-- Largest number of bytes a vector can hold (`isize::MAX`). -/
def maxCapacity : Nat := 2 ^ 63 - 1

/-- Overlay bytes at an offset of a zero-extended string. -/
def overlay (bytes : Bytes) (offset : Nat) (value : Bytes) : Bytes :=
  let padded := bytes ++ List.replicate (offset + value.length - bytes.length) 0
  padded.take offset ++ value ++ padded.drop (offset + value.length)

/-- `setrange`: past the capacity limit growing the string panics, and past
`2^64` slicing it does. -/
def setrange (offset : Nat) (value : Bytes) : KeyOp Nat :=
  let required := offset + value.length
  onString
    (if maxCapacity < required then .panics
      else .create (.string (overlay [] offset value)) required)
    fun sv bytes =>
      if maxCapacity < required then .panics
      else .update sv (.string (overlay bytes offset value)) (max bytes.length required)

/-! ## Lists -/

/-- `lpush`: each element goes to the front in turn. -/
def lpush (elements : List Bytes) : KeyOp Nat :=
  onList (.create (.list elements.reverse) elements.length) fun sv items =>
    .update sv (.list (elements.reverse ++ items)) (elements.reverse ++ items).length

/-- `rpush`. -/
def rpush (elements : List Bytes) : KeyOp Nat :=
  onList (.create (.list elements) elements.length) fun sv items =>
    .update sv (.list (items ++ elements)) (items ++ elements).length

/-- `lpop`: an emptied list is removed, its row of the index is not. -/
def lpop : KeyOp (Option Bytes) :=
  onList (.answer none) fun sv items =>
    .shrink sv (.list items.tail) items.tail.isEmpty items.head?.isSome items.head?

/-- `rpop`. -/
def rpop : KeyOp (Option Bytes) :=
  onList (.answer none) fun sv items =>
    .shrink sv (.list items.dropLast) items.dropLast.isEmpty items.getLast?.isSome items.getLast?

/-- `llen`. -/
def llen : KeyOp Nat := onList (.answer 0) fun _ items => .answer items.length

/-- The elements at positions `start..=stop`, negative positions from the end. -/
def sliceOf (items : List Bytes) (start stop : Int) : List Bytes :=
  (items.take (clampIndex items.length stop + 1)).drop (clampIndex items.length start)

/-- `lrange`. -/
def lrange (start stop : Int) : KeyOp (List Bytes) :=
  onList (.answer []) fun _ items => .answer (sliceOf items start stop)

/-- The position a signed index denotes, if it is in the list. -/
def position (len : Nat) (index : Int) : Option Nat :=
  let i := if index < 0 then (len : Int) + index else index
  if 0 ≤ i ∧ i < len then some i.toNat else none

/-- `lindex`. -/
def lindex (index : Int) : KeyOp (Option Bytes) :=
  onList (.answer none) fun _ items =>
    .answer ((position items.length index).bind fun i => items[i]?)

/-- `lset`. -/
def lset (index : Int) (value : Bytes) : KeyOp Unit :=
  onList (.fail (.command .noSuchKey)) fun sv items =>
    match position items.length index with
    | some i => .update sv (.list (items.set i value)) ()
    | none => .fail (.command .indexOutOfRange)

/-- `ltrim`. -/
def ltrim (start stop : Int) : KeyOp Unit :=
  onList (.answer ()) fun sv items =>
    .shrink sv (.list (sliceOf items start stop)) (sliceOf items start stop).isEmpty true ()

/-- Remove up to `n` occurrences from the front; the number removed and the rest. -/
def removeFirst (element : Bytes) : Nat → List Bytes → Nat × List Bytes
  | _, [] => (0, [])
  | 0, items => (0, items)
  | n + 1, item :: items =>
      if item = element then
        let (r, rest) := removeFirst element n items
        (r + 1, rest)
      else
        let (r, rest) := removeFirst element (n + 1) items
        (r, item :: rest)

/-- The number removed by `lrem` and the list it leaves; `none` is the trapped
negation of the least integer. -/
def lremList (checks : Bool) (count : Int) (element : Bytes) (items : List Bytes) :
    Option (Nat × List Bytes) :=
  if count = 0 then some (items.count element, items.filter (· ≠ element))
  else if 0 < count then some (removeFirst element count.toNat items)
  else if checks && decide (count = -2 ^ 63) then none
  else
    let (r, rest) := removeFirst element (-count).toNat items.reverse
    some (r, rest.reverse)

/-- `lrem`. -/
def lrem (count : Int) (element : Bytes) : KeyOp Nat := fun ctx =>
  onList (.answer 0) (fun sv items =>
    match lremList ctx.overflowChecks count element items with
    | none => .panics
    | some (removed, rest) =>
        .shrink sv (.list rest) rest.isEmpty (decide (0 < removed)) removed) ctx

/-! ## Sets -/

/-- Add members one by one; the number that were new and the set. -/
def addMembers (s : FSet Bytes) (members : List Bytes) : Nat × FSet Bytes :=
  members.foldl (fun acc m =>
    if acc.2.contains m then acc else (acc.1 + 1, acc.2.add m)) (0, s)

/-- Remove keys of a map one by one; the number that were there and the map. -/
def removeKeys {V : Type} (s : Map Bytes V) (members : List Bytes) : Nat × Map Bytes V :=
  members.foldl (fun acc m =>
    if acc.2.contains m then (acc.1 + 1, acc.2.del m) else acc) (0, s)

/-- `sadd`. -/
def sadd (members : List Bytes) : KeyOp Nat :=
  onSet (.create (.set (addMembers ∅ members).2) (addMembers ∅ members).1) fun sv s =>
    let (added, s') := addMembers s members
    { result := .ok added
      entry := .store { sv with value := .set s' }
      marks := decide (0 < added) }

/-- `srem`. -/
def srem (members : List Bytes) : KeyOp Nat :=
  onSet (.answer 0) fun sv s =>
    let (removed, s') := removeKeys s members
    .shrink sv (.set s') (s'.size == 0) (s'.size == 0 || decide (0 < removed)) removed

/-- `smembers`. -/
def smembers : KeyOp (List Bytes) := onSet (.answer []) fun _ s => .answer s.keyList

/-- `sismember`. -/
def sismember (member : Bytes) : KeyOp Bool :=
  onSet (.answer false) fun _ s => .answer (s.contains member)

/-- `scard`. -/
def scard : KeyOp Nat := onSet (.answer 0) fun _ s => .answer s.size

/-- `srandmember`: a negative count asks for a vector of that many elements of
24 bytes first. -/
def srandmember (count : Int) : KeyOp (List Bytes) := fun ctx =>
  onSet (.answer []) (fun _ s =>
    let members := s.keyList
    if members.isEmpty then .answer []
    else if 0 ≤ count then .answer ((ctx.shuffle members).take (min count.toNat members.length))
    else if ctx.overflowChecks && decide (count = -2 ^ 63) then .panics
    else
      let n := (-count).toNat
      if maxCapacity < n * 24 then .panics
      else .answer ((List.range n).filterMap fun i => members[ctx.choose i members.length]?)) ctx

/-- `spop`. -/
def spop (count : Nat) : KeyOp (List Bytes) := fun ctx =>
  onSet (.answer []) (fun sv s =>
    let members := s.keyList
    if members.isEmpty then .answer []
    else
      let popped := (ctx.shuffle members).take (min count members.length)
      let s' := (removeKeys s popped).2
      .shrink sv (.set s') (s'.size == 0) (!popped.isEmpty) popped) ctx

/-! ## Hashes -/

/-- Store fields one by one; the number that were new and the hash. -/
def setFields (h : Map Bytes Bytes) (fvs : List (Bytes × Bytes)) : Nat × Map Bytes Bytes :=
  fvs.foldl (fun acc fv =>
    (if acc.2.contains fv.1 then acc.1 else acc.1 + 1, acc.2.set fv.1 fv.2)) (0, h)

/-- `hset`: a new hash counts every pair given, repeated fields included. -/
def hset (fieldValues : List (Bytes × Bytes)) : KeyOp Nat :=
  onHash (.create (.hash (setFields ∅ fieldValues).2) fieldValues.length) fun sv h =>
    let (added, h') := setFields h fieldValues
    .update sv (.hash h') added

/-- `hget`. -/
def hget (field : Bytes) : KeyOp (Option Bytes) :=
  onHash (.answer none) fun _ h => .answer (h.get? field)

/-- `hmget`. -/
def hmget (fields : List Bytes) : KeyOp (List (Option Bytes)) :=
  onHash (.answer (fields.map fun _ => none)) fun _ h => .answer (fields.map h.get?)

/-- `hgetall`. -/
def hgetall : KeyOp (List (Bytes × Bytes)) := onHash (.answer []) fun _ h => .answer h.toPairs

/-- `hdel`: marks the key whether or not a field was there. -/
def hdel (fields : List Bytes) : KeyOp Nat :=
  onHash (.answer 0) fun sv h =>
    let (deleted, h') := removeKeys h fields
    .shrink sv (.hash h') (h'.size == 0) true deleted

/-- `hlen`. -/
def hlen : KeyOp Nat := onHash (.answer 0) fun _ h => .answer h.size

/-- `hexists`. -/
def hexists (field : Bytes) : KeyOp Bool :=
  onHash (.answer false) fun _ h => .answer (h.contains field)

/-- `hkeys`. -/
def hkeys : KeyOp (List Bytes) := onHash (.answer []) fun _ h => .answer h.keyList

/-- `hvals`. -/
def hvals : KeyOp (List Bytes) := onHash (.answer []) fun _ h => .answer h.valueList

/-- `hincrby`: the addition is not checked. -/
def hincrby (field : Bytes) (increment : Int) : KeyOp Int := fun ctx =>
  onHash (.create (.hash ((∅ : Map Bytes Bytes).set field (intBytes increment))) increment)
    (fun sv h =>
      let write (n : Int) := KeyStep.update sv (.hash (h.set field (intBytes n))) n
      match h.get? field with
      | none => write increment
      | some bytes =>
          match parseI64 (fromUtf8Lossy bytes) with
          | none => .fail (.command .notInteger)
          | some current =>
              if ctx.overflowChecks && decide (wrapI64 (current + increment) ≠ current + increment)
              then .panics
              else write (wrapI64 (current + increment))) ctx

/-! ## Sorted sets -/

/-- The sorted set of one member, and the memory asked for it. -/
def singletonZset (member : Bytes) (score : Float64) (level : Nat) : Value :=
  .sortedSet (SkipList.new.insert member score level).2

@[inherit_doc singletonZset]
def singletonZsetSize (key member : Bytes) : Nat :=
  calculateValueSize key (.sortedSet SkipList.new) + calculateMemberSize member

/-- `zadd`. -/
def zadd (key : Key) (member : Bytes) (score : Float64) : KeyOp Bool := fun ctx =>
  onZset
    (.createCharged (singletonZsetSize key member) (singletonZset member score ctx.level) true)
    (fun sv z =>
      let (old, z') := z.insert member score ctx.level
      .update sv (.sortedSet z') old.isNone) ctx

/-- `zincrby`. -/
def zincrby (key : Key) (member : Bytes) (increment : Float64) : KeyOp Float64 := fun ctx =>
  onZset
    (.createCharged (singletonZsetSize key member) (singletonZset member increment ctx.level)
      increment)
    (fun sv z =>
      let score := match z.getScore member with
        | some current => current.add increment
        | none => increment
      .update sv (.sortedSet (z.insert member score ctx.level).2) score) ctx

/-- `zrem`. -/
def zrem (member : Bytes) : KeyOp Bool :=
  onZset (.answer false) fun sv z =>
    match z.remove member with
    | (some _, z') =>
        { KeyStep.shrink sv (.sortedSet z') z'.isEmpty true true with
          release := calculateMemberSize member }
    | (none, _) => .answer false

/-- `zscore`. -/
def zscore (member : Bytes) : KeyOp (Option Float64) :=
  onZset (.answer none) fun _ z => .answer (z.getScore member)

/-- `zrank`. -/
def zrank (member : Bytes) (reverse : Bool) : KeyOp (Option Nat) :=
  onZset (.answer none) fun _ z =>
    .answer ((z.getRank member).map fun r => if reverse then z.len - 1 - r else r)

/-- The elements `zrange` selects; the reversed branch cuts both ends to the
last rank without the check of the forward one. -/
def zrangeItems (z : SkipList) (start stop : Int) (reverse : Bool) : List (Bytes × Float64) :=
  let len := z.len
  if len = 0 then []
  else
    let first := clampIndex len start
    let last := clampIndex len stop
    if reverse then
      (z.rangeByRank (len - 1 - min last (len - 1)) (len - 1 - min first (len - 1))).reverse
    else if len ≤ first ∨ last < first then []
    else z.rangeByRank (min first (len - 1)) (min last (len - 1))

/-- `zrange`. -/
def zrange (start stop : Int) (reverse : Bool) : KeyOp (List (Bytes × Float64)) :=
  onZset (.answer []) fun _ z => .answer (zrangeItems z start stop reverse)

/-- `zrangebyscore`. -/
def zrangebyscore (minScore maxScore : Float64) (reverse : Bool) :
    KeyOp (List (Bytes × Float64)) :=
  onZset (.answer []) fun _ z =>
    let items := z.rangeByScore minScore maxScore
    .answer (if reverse then items.reverse else items)

/-- `zcount`. -/
def zcount (minScore maxScore : Float64) : KeyOp Nat :=
  onZset (.answer 0) fun _ z => .answer (z.rangeByScore minScore maxScore).length

/-- `zcard`. -/
def zcard : KeyOp Nat := onZset (.answer 0) fun _ z => .answer z.len

/-! ## Streams -/

/-- Memory asked for a new stream with its first entry. -/
def newStreamSize (key : Key) (s : Stream) : Nat :=
  calculateValueSize key (.stream Stream.new) + s.memoryUsage

/-- `xadd`. -/
def xadd (key : Key) (fields : Map Bytes Bytes) : KeyOp StreamId := fun ctx =>
  let fresh := Stream.new.addAuto fields ctx.cachedMillis
  onStream (.createCharged (newStreamSize key fresh.2) (.stream fresh.2) fresh.1)
    (fun sv s =>
      let (id, s') := s.addAuto fields ctx.cachedMillis
      .update sv (.stream s') id) ctx

/-- `xadd_with_id`. -/
def xaddWithId (key : Key) (id : StreamId) (fields : Map Bytes Bytes) : KeyOp StreamId :=
  onStream
    (match Stream.new.addWithId id fields with
      | .ok s => .createCharged (newStreamSize key s) (.stream s) id
      | .error msg => .fail (.command (.generic msg)))
    fun sv s =>
      match s.addWithId id fields with
      | .ok s' => .update sv (.stream s') id
      | .error msg => .fail (.command (.generic msg))

/-- `xrange` and `xrevrange`. -/
def xrange (start stop : StreamId) (count : Option Nat) (reverse : Bool) :
    KeyOp (List StreamEntry) :=
  onStream (.answer []) fun _ s => .answer (s.range start stop count reverse)

/-- `xlen`. -/
def xlen : KeyOp Nat := onStream (.answer 0) fun _ s => .answer s.length

/-- Store a stream that lost entries; the key is marked if it lost any. -/
def lose (sv : StoredValue) (r : Nat × Stream) : KeyStep Nat :=
  { result := .ok r.1, entry := .store { sv with value := .stream r.2 }, marks := decide (0 < r.1) }

/-- `xtrim`. -/
def xtrim (maxLen : Nat) : KeyOp Nat := onStream (.answer 0) fun sv s => lose sv (s.trimByCount maxLen)

/-- `xdel`. -/
def xdel (ids : List StreamId) : KeyOp Nat := onStream (.answer 0) fun sv s => lose sv (s.delete ids)

end KeyOps

/-! ## Consumer groups

The handlers of the group commands `get` the stream and then work on the groups
its clone shares with the stored stream.  Nothing else runs in between, so the
two are one operation on the key; the groups change without a mark. -/

/-- What a group command does with a stream.  An ID of `none` is `$`, the last
entry's. -/
inductive GroupCmd : Type → Type
  | create (name : String) (start : Option StreamId) : GroupCmd (Except String Unit)
  | destroy (name : String) : GroupCmd Bool
  | createConsumer (group consumer : String) : GroupCmd (Option Bool)
  | deleteConsumer (group consumer : String) : GroupCmd (Option Nat)
  | setId (group : String) (id : Option StreamId) : GroupCmd Bool
  | readGroup (group consumer : String) (afterId : StreamId) (count : Option Nat) (noack : Bool) :
      GroupCmd (Except String (List StreamEntry))
  | acknowledge (group : String) (ids : List StreamId) : GroupCmd (Except String Nat)
  | claim (group consumer : String) (minIdleMs : Nat) (ids : List StreamId) (force : Bool) :
      GroupCmd (Except String (List StreamEntry))
  | autoClaim (group consumer : String) (minIdleMs : Nat) (start : StreamId) (count : Nat) :
      GroupCmd (Except String (List StreamEntry × StreamId))

namespace GroupCmd

/-- The ID `$` stands for. -/
def lastOr (s : Stream) (id : Option StreamId) : StreamId :=
  id.getD ((s.entries.getLast?.map (·.id)).getD (StreamId.new 0 0))

/-- Keep the stream of a failed command. -/
def settle {α : Type} (s : Stream) : Except String (α × Stream) → Except String α × Stream
  | .ok (a, s') => (.ok a, s')
  | .error msg => (.error msg, s)

/-- The answer of a command and the stream after it. -/
def apply {α : Type} (ctx : Ctx) (s : Stream) : GroupCmd α → α × Stream
  | create name start => settle s ((s.createConsumerGroup name (lastOr s start)).map fun s' => ((), s'))
  | destroy name => s.destroyConsumerGroup name
  | createConsumer group consumer =>
      match s.consumerGroups.get? group with
      | none => (none, s)
      | some g =>
          let (created, g') := g.createConsumer consumer ctx.sysNow
          (some created, s.setGroup group g')
  | deleteConsumer group consumer =>
      match s.consumerGroups.get? group with
      | none => (none, s)
      | some g =>
          let (removed, g') := g.deleteConsumer consumer
          (some removed, s.setGroup group g')
  | setId group id =>
      match s.consumerGroups.get? group with
      | none => (false, s)
      | some g => (true, s.setGroup group (g.setId (lastOr s id)))
  | readGroup group consumer afterId count noack =>
      settle s (s.readGroup group consumer afterId count noack ctx.sysNow)
  | acknowledge group ids => settle s (s.acknowledgeMessages group ids)
  | claim group consumer minIdleMs ids force =>
      settle s (s.claimMessages group consumer minIdleMs ids force ctx.sysNow ctx.sysLater)
  | autoClaim group consumer minIdleMs start count =>
      settle s ((s.autoClaimMessages group consumer minIdleMs start count ctx.sysNow
        ctx.sysLater).map fun r => ((r.1, r.2.1), r.2.2))

end GroupCmd

/-- What the handler of a group command found under the key. -/
inductive StreamAccess (α : Type)
  | found (a : α)
  | wrongType
  | missing

/-- A group command on the stream under a key. -/
def KeyOps.onGroups {α : Type} (c : GroupCmd α) : KeyOp (StreamAccess α) := fun ctx entry =>
  match entry with
  | none => .answer .missing
  | some sv =>
      if sv.isExpired ctx.now then expunge (.ok .missing)
      else
        match sv.value with
        | .stream s =>
            let (a, s') := c.apply ctx s
            { result := .ok (.found a), entry := .store { sv with value := .stream s' } }
        | _ => .answer .wrongType

end Ferrous
