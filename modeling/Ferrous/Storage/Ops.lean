/-
# `Storage.Ops` — the operations of the engine

Every `StorageEngine` method as a constructor: the operations on one key
(`KeyCmd`), those that walk several keys or a whole database (`StoreCmd`), and
`Op.run`, which executes either in a given context.  The background cleanup is
at the end, as the two phases its loop goes through for one shard.
-/
import Ferrous.Storage.KeyOps
import Ferrous.Storage.Glob

namespace Ferrous

open Lib

/-! ## Paging

SCAN, HSCAN, SSCAN and ZSCAN walk a sorted vector with the same loop. -/

/-- At most this many elements are returned by one call. -/
def scanLimit (count : Nat) : Nat := min (if count = 0 then 10 else count) 1000

/-- The loop: how many elements were examined, and those kept. -/
def scanLoop {β : Type} (keep : β → Bool) (limit : Nat) : List β → Nat → Nat → Nat × List β
  | [], examined, _ => (examined, [])
  | x :: xs, examined, found =>
      if examined < limit * 10 ∧ found < limit then
        if keep x then
          let (n, out) := scanLoop keep limit xs (examined + 1) (found + 1)
          (n, x :: out)
        else scanLoop keep limit xs (examined + 1) found
      else (examined, [])

/-- One page of a sorted vector, from a cursor that is a position in it. -/
def scanPage {β : Type} (keep : β → Bool) (items : List β) (cursor count : Nat) : Nat × List β :=
  if items.length ≤ cursor ∧ items ≠ [] then (0, [])
  else
    let (examined, out) := scanLoop keep (scanLimit count) (items.drop cursor) 0 0
    (if items.length ≤ cursor + examined then 0 else cursor + examined, out)

/-- The MATCH filter. -/
def keeps (pattern : Option Bytes) (name : Bytes) : Bool :=
  match pattern with
  | some p => Glob.matchesBytes p name
  | none => true

/-- `Vec<Vec<u8>>::sort`, by the first component. -/
def sortByKey {V : Type} (l : List (Bytes × V)) : List (Bytes × V) :=
  l.insertionSort fun a b => SkipList.compareBytes a.1 b.1 ≠ .gt

namespace KeyOps

/-- `hscan`: a small hash without a pattern is returned whole, in its own order. -/
def hscan (cursor : Nat) (pattern : Option Bytes) (count : Nat) (noValues : Bool) :
    KeyOp (Nat × List Bytes) :=
  viaGet fun
    | none => .ok (0, [])
    | some (.hash h) =>
        let spread (ps : List (Bytes × Bytes)) : List Bytes :=
          ps.flatMap fun p => if noValues then [p.1] else [p.1, p.2]
        if h.size ≤ scanLimit count ∧ cursor = 0 ∧ pattern = none then .ok (0, spread h.toPairs)
        else
          let (next, page) := scanPage (fun p => keeps pattern p.1) (sortByKey h.toPairs) cursor count
          .ok (next, spread page)
    | some _ => .err (.storage .wrongType)

/-- `sscan`. -/
def sscan (cursor : Nat) (pattern : Option Bytes) (count : Nat) : KeyOp (Nat × List Bytes) :=
  viaGet fun
    | none => .ok (0, [])
    | some (.set s) =>
        if s.size ≤ scanLimit count ∧ cursor = 0 ∧ pattern = none then .ok (0, s.keyList)
        else
          let (next, page) := scanPage (fun p => keeps pattern p.1) (sortByKey s.toPairs) cursor count
          .ok (next, page.map Prod.fst)
    | some _ => .err (.storage .wrongType)

/-- `zscan`: `zset.len() - 1` is not guarded against an empty set. -/
def zscan (cursor : Nat) (pattern : Option Bytes) (count : Nat) :
    KeyOp (Nat × List (Bytes × Float64)) := fun ctx =>
  viaGet (fun
    | none => .ok (0, [])
    | some (.sortedSet z) =>
        if z.len = 0 ∧ ctx.overflowChecks then .panic
        else
          let stop := if z.len = 0 then 2 ^ 64 - 1 else z.len - 1
          let items := sortByKey (z.rangeByRank 0 stop)
          if items.length ≤ scanLimit count ∧ cursor = 0 ∧ pattern = none then .ok (0, items)
          else .ok (scanPage (fun p => keeps pattern p.1) items cursor count)
    | some _ => .err (.storage .wrongType)) ctx

end KeyOps

/-! ## Operations on one key -/

open KeyOps in
/-- The methods that lock the shard of one key. -/
inductive KeyCmd : Type → Type
  | setStringNx (value : Bytes) : KeyCmd Bool
  | setStringNxEx (value : Bytes) (expiresIn : Duration) : KeyCmd Bool
  | setValue (value : Value) (expiresIn : Option Duration) : KeyCmd Unit
  | get : KeyCmd GetResult
  | getString : KeyCmd (Option Bytes)
  | exists? : KeyCmd Bool
  | delete : KeyCmd Bool
  | expire (expiresIn : Duration) : KeyCmd Bool
  | ttl : KeyCmd (Option Duration)
  | pttl : KeyCmd Int
  | persist : KeyCmd Bool
  | keyType : KeyCmd String
  | incrBy (increment : Int) : KeyCmd Int
  | append (value : Bytes) : KeyCmd Nat
  | strlen : KeyCmd Nat
  | getrange (start stop : Int) : KeyCmd Bytes
  | setrange (offset : Nat) (value : Bytes) : KeyCmd Nat
  | lpush (elements : List Bytes) : KeyCmd Nat
  | rpush (elements : List Bytes) : KeyCmd Nat
  | lpop : KeyCmd (Option Bytes)
  | rpop : KeyCmd (Option Bytes)
  | llen : KeyCmd Nat
  | lrange (start stop : Int) : KeyCmd (List Bytes)
  | lindex (index : Int) : KeyCmd (Option Bytes)
  | lset (index : Int) (value : Bytes) : KeyCmd Unit
  | ltrim (start stop : Int) : KeyCmd Unit
  | lrem (count : Int) (element : Bytes) : KeyCmd Nat
  | sadd (members : List Bytes) : KeyCmd Nat
  | srem (members : List Bytes) : KeyCmd Nat
  | smembers : KeyCmd (List Bytes)
  | sismember (member : Bytes) : KeyCmd Bool
  | scard : KeyCmd Nat
  | srandmember (count : Int) : KeyCmd (List Bytes)
  | spop (count : Nat) : KeyCmd (List Bytes)
  | hset (fieldValues : List (Bytes × Bytes)) : KeyCmd Nat
  | hget (field : Bytes) : KeyCmd (Option Bytes)
  | hmget (fields : List Bytes) : KeyCmd (List (Option Bytes))
  | hgetall : KeyCmd (List (Bytes × Bytes))
  | hdel (fields : List Bytes) : KeyCmd Nat
  | hlen : KeyCmd Nat
  | hexists (field : Bytes) : KeyCmd Bool
  | hkeys : KeyCmd (List Bytes)
  | hvals : KeyCmd (List Bytes)
  | hincrby (field : Bytes) (increment : Int) : KeyCmd Int
  | zadd (member : Bytes) (score : Float64) : KeyCmd Bool
  | zincrby (member : Bytes) (increment : Float64) : KeyCmd Float64
  | zrem (member : Bytes) : KeyCmd Bool
  | zscore (member : Bytes) : KeyCmd (Option Float64)
  | zrank (member : Bytes) (reverse : Bool) : KeyCmd (Option Nat)
  | zrange (start stop : Int) (reverse : Bool) : KeyCmd (List (Bytes × Float64))
  | zrangebyscore (minScore maxScore : Float64) (reverse : Bool) :
      KeyCmd (List (Bytes × Float64))
  | zcount (minScore maxScore : Float64) : KeyCmd Nat
  | zcard : KeyCmd Nat
  | xadd (fields : Map Bytes Bytes) : KeyCmd StreamId
  | xaddWithId (id : StreamId) (fields : Map Bytes Bytes) : KeyCmd StreamId
  | xrange (start stop : StreamId) (count : Option Nat) (reverse : Bool) :
      KeyCmd (List StreamEntry)
  | xlen : KeyCmd Nat
  | xtrim (maxLen : Nat) : KeyCmd Nat
  | xdel (ids : List StreamId) : KeyCmd Nat
  | hscan (cursor : Nat) (pattern : Option Bytes) (count : Nat) (noValues : Bool) :
      KeyCmd (Nat × List Bytes)
  | sscan (cursor : Nat) (pattern : Option Bytes) (count : Nat) : KeyCmd (Nat × List Bytes)
  | zscan (cursor : Nat) (pattern : Option Bytes) (count : Nat) :
      KeyCmd (Nat × List (Bytes × Float64))
  | groupCreate (name : String) (start : Option StreamId) :
      KeyCmd (StreamAccess (Except String Unit))
  | groupDestroy (name : String) : KeyCmd (StreamAccess Bool)
  | groupCreateConsumer (group consumer : String) : KeyCmd (StreamAccess (Option Bool))
  | groupDeleteConsumer (group consumer : String) : KeyCmd (StreamAccess (Option Nat))
  | groupSetId (group : String) (id : Option StreamId) : KeyCmd (StreamAccess Bool)
  | readGroup (group consumer : String) (afterId : StreamId) (count : Option Nat) (noack : Bool) :
      KeyCmd (StreamAccess (Except String (List StreamEntry)))
  | acknowledge (group : String) (ids : List StreamId) : KeyCmd (StreamAccess (Except String Nat))
  | claim (group consumer : String) (minIdleMs : Nat) (ids : List StreamId) (force : Bool) :
      KeyCmd (StreamAccess (Except String (List StreamEntry)))
  | autoClaim (group consumer : String) (minIdleMs : Nat) (start : StreamId) (count : Nat) :
      KeyCmd (StreamAccess (Except String (List StreamEntry × StreamId)))

/-- What a method decides from the entry of its key. -/
def KeyCmd.step {α : Type} (key : Key) : KeyCmd α → KeyOp α
  | setStringNx value => KeyOps.setStringNx key value
  | setStringNxEx value d => KeyOps.setStringNxEx key value d
  | setValue value d => KeyOps.setValue key value d
  | get => KeyOps.get
  | getString => KeyOps.getString
  | exists? => KeyOps.exists?
  | delete => KeyOps.delete key
  | expire d => KeyOps.expire d
  | ttl => KeyOps.ttl
  | pttl => KeyOps.pttl
  | persist => KeyOps.persist
  | keyType => KeyOps.keyType
  | incrBy n => KeyOps.incrBy key n
  | append value => KeyOps.append value
  | strlen => KeyOps.strlen
  | getrange start stop => KeyOps.getrange start stop
  | setrange offset value => KeyOps.setrange offset value
  | lpush elements => KeyOps.lpush elements
  | rpush elements => KeyOps.rpush elements
  | lpop => KeyOps.lpop
  | rpop => KeyOps.rpop
  | llen => KeyOps.llen
  | lrange start stop => KeyOps.lrange start stop
  | lindex index => KeyOps.lindex index
  | lset index value => KeyOps.lset index value
  | ltrim start stop => KeyOps.ltrim start stop
  | lrem count element => KeyOps.lrem count element
  | sadd members => KeyOps.sadd members
  | srem members => KeyOps.srem members
  | smembers => KeyOps.smembers
  | sismember member => KeyOps.sismember member
  | scard => KeyOps.scard
  | srandmember count => KeyOps.srandmember count
  | spop count => KeyOps.spop count
  | hset fvs => KeyOps.hset fvs
  | hget field => KeyOps.hget field
  | hmget fields => KeyOps.hmget fields
  | hgetall => KeyOps.hgetall
  | hdel fields => KeyOps.hdel fields
  | hlen => KeyOps.hlen
  | hexists field => KeyOps.hexists field
  | hkeys => KeyOps.hkeys
  | hvals => KeyOps.hvals
  | hincrby field n => KeyOps.hincrby field n
  | zadd member score => KeyOps.zadd key member score
  | zincrby member n => KeyOps.zincrby key member n
  | zrem member => KeyOps.zrem member
  | zscore member => KeyOps.zscore member
  | zrank member reverse => KeyOps.zrank member reverse
  | zrange start stop reverse => KeyOps.zrange start stop reverse
  | zrangebyscore lo hi reverse => KeyOps.zrangebyscore lo hi reverse
  | zcount lo hi => KeyOps.zcount lo hi
  | zcard => KeyOps.zcard
  | xadd fields => KeyOps.xadd key fields
  | xaddWithId id fields => KeyOps.xaddWithId key id fields
  | xrange start stop count reverse => KeyOps.xrange start stop count reverse
  | xlen => KeyOps.xlen
  | xtrim maxLen => KeyOps.xtrim maxLen
  | xdel ids => KeyOps.xdel ids
  | hscan cursor pattern count noValues => KeyOps.hscan cursor pattern count noValues
  | sscan cursor pattern count => KeyOps.sscan cursor pattern count
  | zscan cursor pattern count => KeyOps.zscan cursor pattern count
  | groupCreate name start => KeyOps.onGroups (.create name start)
  | groupDestroy name => KeyOps.onGroups (.destroy name)
  | groupCreateConsumer group consumer => KeyOps.onGroups (.createConsumer group consumer)
  | groupDeleteConsumer group consumer => KeyOps.onGroups (.deleteConsumer group consumer)
  | groupSetId group id => KeyOps.onGroups (.setId group id)
  | readGroup group consumer afterId count noack =>
      KeyOps.onGroups (.readGroup group consumer afterId count noack)
  | acknowledge group ids => KeyOps.onGroups (.acknowledge group ids)
  | claim group consumer minIdleMs ids force =>
      KeyOps.onGroups (.claim group consumer minIdleMs ids force)
  | autoClaim group consumer minIdleMs start count =>
      KeyOps.onGroups (.autoClaim group consumer minIdleMs start count)

/-! ## Operations on several keys -/

namespace Engine

/-- The entries of a database, shard by shard. -/
def entriesOf (d : Database) : List (Key × StoredValue) :=
  (List.finRange shardsPerDatabase).flatMap fun i => (d i).data.toPairs

/-- Run a read of one database. -/
def reading {α : Type} (e : Engine) (db : Nat) (f : Database → Outcome α) : Outcome α × Engine :=
  match e.databases[db]? with
  | none => (.err invalidDatabase, e)
  | some d => (f d, e)

/-- `get_all_keys`: expired keys included. -/
def getAllKeys (e : Engine) (db : Nat) : Outcome (List Key) × Engine :=
  e.reading db fun d => .ok ((entriesOf d).map Prod.fst)

/-- `keys`: expired keys included. -/
def keys (e : Engine) (db : Nat) (pattern : Bytes) : Outcome (List Key) × Engine :=
  e.reading db fun d => .ok (((entriesOf d).map Prod.fst).filter (Glob.matchesBytes pattern))

/-- The entries SCAN walks: unexpired, of the type asked for. -/
def scanned (d : Database) (now : Instant) (typeFilter : Option String) :
    List (Key × StoredValue) :=
  (entriesOf d).filter fun p =>
    !p.2.isExpired now && (typeFilter.map (· == p.2.value.valueType.name)).getD true

/-- `scan`. -/
def scan (e : Engine) (ctx : Ctx) (db cursor : Nat) (pattern : Option Bytes)
    (typeFilter : Option String) (count : Nat) : Outcome (Nat × List Key) × Engine :=
  e.reading db fun d =>
    let (next, page) := scanPage (fun p => keeps pattern p.1)
      (sortByKey (scanned d ctx.now typeFilter)) cursor count
    .ok (next, page.map Prod.fst)

/-- The set under a key: absent, a set, or another type. -/
def setAt (d : Database) (key : Key) : Option (Option (FSet Bytes)) :=
  match (d (getShardIndex key)).data.get? key with
  | none => some none
  | some sv => match sv.value with
    | .set s => some (some s)
    | _ => none

/-- Fold further sets into a result; `combine` returns `none` to answer empty. -/
def foldSets (d : Database) (combine : FSet Bytes → Option (FSet Bytes) → Option (FSet Bytes)) :
    FSet Bytes → List Key → Outcome (List Bytes)
  | acc, [] => .ok acc.keyList
  | acc, key :: keys =>
      match setAt d key with
      | none => .err (.storage .wrongType)
      | some s =>
          match combine acc s with
          | some acc' => foldSets d combine acc' keys
          | none => .ok []

/-- `sunion`. -/
def sunion (e : Engine) (db : Nat) (keys : List Key) : Outcome (List Bytes) × Engine :=
  if keys = [] then (.ok [], e)
  else e.reading db fun d =>
    foldSets d (fun acc s => some ((s.map (·.keyList)).getD [] |>.foldl Map.add acc)) ∅ keys

/-- A difference or an intersection starts from the first set. -/
def fromFirst (combine : FSet Bytes → Option (FSet Bytes) → Option (FSet Bytes)) (d : Database) :
    List Key → Outcome (List Bytes)
  | [] => .ok []
  | key :: keys =>
      match setAt d key with
      | none => .err (.storage .wrongType)
      | some none => .ok []
      | some (some s) => foldSets d combine s keys

/-- `sinter`: an absent key ends it with an empty answer. -/
def sinter (e : Engine) (db : Nat) (keys : List Key) : Outcome (List Bytes) × Engine :=
  if keys = [] then (.ok [], e)
  else e.reading db (fromFirst
    (fun acc s => s.map fun s => (acc.keyList.filter fun m => !s.contains m).foldl Map.del acc)
    · keys)

/-- `sdiff`. -/
def sdiff (e : Engine) (db : Nat) (keys : List Key) : Outcome (List Bytes) × Engine :=
  if keys = [] then (.ok [], e)
  else e.reading db (fromFirst
    (fun acc s => some ((s.map (·.keyList)).getD [] |>.foldl Map.del acc)) · keys)

/-- The loop of `xread`. -/
def xreadLoop (d : Database) (count : Option Nat) :
    List (Key × StreamId) → List (Key × List StreamEntry) → Outcome (List (Key × List StreamEntry))
  | [], acc => .ok acc
  | (key, after) :: rest, acc =>
      match (d (getShardIndex key)).data.get? key with
      | none => xreadLoop d count rest acc
      | some sv =>
          match sv.value with
          | .stream s =>
              let es := s.rangeAfter after count
              xreadLoop d count rest (if es.isEmpty then acc else acc ++ [(key, es)])
          | _ => .err (.storage .wrongType)

/-- `xread`. -/
def xread (e : Engine) (db : Nat) (keysAndIds : List (Key × StreamId)) (count : Option Nat)
    (block : Option Duration) : Outcome (List (Key × List StreamEntry)) × Engine :=
  if block.isSome then (.err (.command (.generic "BLOCK option not yet supported")), e)
  else if keysAndIds = [] then (.ok [], e)
  else e.reading db fun d => xreadLoop d count keysAndIds []

/-- `rename`: the value moves with its deadline, the rows of the expiry index
stay, and only the new key is marked. -/
def rename (e : Engine) (db : Nat) (oldKey newKey : Key) : Outcome Unit × Engine :=
  match e.shard? db oldKey with
  | none => (.err invalidDatabase, e)
  | some old =>
      match old.data.get? oldKey with
      | none => (.err (.command .noSuchKey), e)
      | some sv =>
          let e₁ := e.setShard db oldKey { old with data := old.data.del oldKey }
          match e₁.shard? db newKey with
          | none => (.err invalidDatabase, e₁)
          | some new =>
              (.ok (), e₁.setShard db newKey
                { new with
                  data := new.data.set newKey sv
                  watch := new.watch.markKeyModified newKey })

/-- `flush_db`: data and index of every shard go, and nothing is marked. -/
def flushDb (e : Engine) (db : Nat) : Outcome Unit × Engine :=
  match e.databases[db]? with
  | none => (.err invalidDatabase, e)
  | some d =>
      let freed := ((entriesOf d).map fun p => calculateValueSize p.1 p.2.value).sum
      (.ok (),
        { databases := e.databases.set db fun i => { d i with data := ∅, expiringKeys := ∅ }
          memory := e.memory.remove freed })

/-- `register_watch`. -/
def registerWatch (e : Engine) (db : Nat) (key : Key) : Outcome Nat × Engine :=
  match e.shard? db key with
  | none => (.err invalidDatabase, e)
  | some sh =>
      (.ok (sh.watch.getKeyCounter key),
        e.setShard db key { sh with watch := sh.watch.registerWatch })

/-- `unregister_watch`. -/
def unregisterWatch (e : Engine) (db : Nat) (key : Key) : Outcome Unit × Engine :=
  match e.shard? db key with
  | none => (.err invalidDatabase, e)
  | some sh => (.ok (), e.setShard db key { sh with watch := sh.watch.unregisterWatch })

/-- `was_modified_since`: the counter moved on, or the entry is past its deadline. -/
def wasModifiedSince (e : Engine) (ctx : Ctx) (db : Nat) (key : Key) (baseline : Nat) :
    Outcome Bool × Engine :=
  match e.shard? db key with
  | none => (.err invalidDatabase, e)
  | some sh =>
      (.ok (decide (baseline < sh.watch.getKeyCounter key) ||
        ((sh.data.get? key).map (·.isExpired ctx.now)).getD false), e)

end Engine

/-- The methods that walk several keys, a whole database, or the trackers. -/
inductive StoreCmd : Type → Type
  | getAllKeys (db : Nat) : StoreCmd (List Key)
  | keys (db : Nat) (pattern : Bytes) : StoreCmd (List Key)
  | scan (db cursor : Nat) (pattern : Option Bytes) (typeFilter : Option String) (count : Nat) :
      StoreCmd (Nat × List Key)
  | sunion (db : Nat) (keys : List Key) : StoreCmd (List Bytes)
  | sinter (db : Nat) (keys : List Key) : StoreCmd (List Bytes)
  | sdiff (db : Nat) (keys : List Key) : StoreCmd (List Bytes)
  | xread (db : Nat) (keysAndIds : List (Key × StreamId)) (count : Option Nat)
      (block : Option Duration) : StoreCmd (List (Key × List StreamEntry))
  | rename (db : Nat) (oldKey newKey : Key) : StoreCmd Unit
  | flushDb (db : Nat) : StoreCmd Unit
  | registerWatch (db : Nat) (key : Key) : StoreCmd Nat
  | unregisterWatch (db : Nat) (key : Key) : StoreCmd Unit
  | wasModifiedSince (db : Nat) (key : Key) (baseline : Nat) : StoreCmd Bool
  /-- `database_count`. -/
  | databaseCount : StoreCmd Nat
  /-- `memory_usage`. -/
  | memoryUsage : StoreCmd Nat
  /-- `SystemTime::now()`, which some handlers read themselves. -/
  | systemTime : StoreCmd Nat
  /-- An index below `n`, which RANDOMKEY draws itself. -/
  | draw (n : Nat) : StoreCmd Nat

/-- An engine operation. -/
inductive Op (α : Type)
  | key (db : Nat) (key : Key) (c : KeyCmd α)
  | store (c : StoreCmd α)

/-- Execute an operation on several keys. -/
def StoreCmd.run {α : Type} (ctx : Ctx) (e : Engine) : StoreCmd α → Outcome α × Engine
  | getAllKeys db => e.getAllKeys db
  | keys db pattern => e.keys db pattern
  | scan db cursor pattern typeFilter count => e.scan ctx db cursor pattern typeFilter count
  | sunion db ks => e.sunion db ks
  | sinter db ks => e.sinter db ks
  | sdiff db ks => e.sdiff db ks
  | xread db keysAndIds count block => e.xread db keysAndIds count block
  | rename db oldKey newKey => e.rename db oldKey newKey
  | flushDb db => e.flushDb db
  | registerWatch db key => e.registerWatch db key
  | unregisterWatch db key => e.unregisterWatch db key
  | wasModifiedSince db key baseline => e.wasModifiedSince ctx db key baseline
  | databaseCount => (.ok e.databases.length, e)
  | memoryUsage => (.ok e.memory.usedMemory.toNat, e)
  | systemTime => (.ok ctx.sysNow, e)
  | draw n => (.ok (ctx.choose 0 n), e)

/-- Execute an engine operation. -/
def Op.run {α : Type} (ctx : Ctx) (e : Engine) : Op α → Outcome α × Engine
  | key db k c => e.withEntry db k ctx (c.step k)
  | store c => c.run ctx e

/-! ## Background cleanup -/

namespace Engine

/-- First phase for one shard, under the read lock: the keys whose recorded
deadline is not later than `now`. -/
def collectExpired (e : Engine) (db : Nat) (i : Fin shardsPerDatabase) (now : Instant) :
    List Key :=
  match e.databases[db]? with
  | none => []
  | some d => ((d i).expiringKeys.toPairs.filter fun p => decide (p.2 ≤ now)).map Prod.fst

/-- One key of the second phase: whatever value is there is removed. -/
def sweepKey (db : Nat) (i : Fin shardsPerDatabase) (e : Engine) (key : Key) : Engine :=
  match e.databases[db]? with
  | none => e
  | some d =>
      match (d i).data.get? key with
      | none => e
      | some sv =>
          let sh : Shard :=
            { data := (d i).data.del key
              expiringKeys := (d i).expiringKeys.del key
              watch := (d i).watch.markKeyModified key }
          { databases := e.databases.set db (Function.update d i sh)
            memory := e.memory.remove (calculateValueSize key sv.value) }

/-- Second phase for one shard, under the write lock. -/
def sweep (e : Engine) (db : Nat) (i : Fin shardsPerDatabase) (expired : List Key) : Engine :=
  expired.foldl (sweepKey db i) e

end Engine

end Ferrous
