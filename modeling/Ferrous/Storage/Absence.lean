/-
# `Storage.Absence` — a store with an expired key and the store without it

A key past its deadline stays in its shard until something removes it.  The
family of `get`, EXISTS, the conditional SETs and the SCANs look at the
deadline; every other operation works on the raw entry.  `Op.TreatsAsAbsent`
says that an operation cannot tell the store with such a key from the store
without it; `Op.Unaffected` lists when that is so: always for the operations
that look, never for the writes that modify an entry in place, and for a read
only if the raw value happens to answer like an absent one.
-/
import Ferrous.Storage.World

namespace Ferrous

open Lib

/-! ## The two stores -/

/-- An entry, unless its deadline has passed. -/
def liveOf (now : Instant) (entry : Option StoredValue) : Option StoredValue :=
  entry.filter fun sv => !sv.isExpired now

namespace Engine

/-- The live entry under a key. -/
def liveAt (e : Engine) (now : Instant) (db : Nat) (key : Key) : Option StoredValue :=
  liveOf now (e.entryAt db key)

/-- The store with a key removed from the data and from the index. -/
def evict (e : Engine) (db : Nat) (key : Key) : Engine :=
  match e.shard? db key with
  | none => e
  | some sh => e.setShard db key
      { sh with data := sh.data.del key, expiringKeys := sh.expiringKeys.del key }

end Engine

/-! ## Values by type -/

namespace Value

def asString : Value → Option Bytes
  | string bytes => some bytes
  | _ => none

def asList : Value → Option (List Bytes)
  | list items => some items
  | _ => none

def asSet : Value → Option (FSet Bytes)
  | set members => some members
  | _ => none

def asHash : Value → Option (Map Bytes Bytes)
  | hash fields => some fields
  | _ => none

def asZset : Value → Option SkipList
  | sortedSet zset => some zset
  | _ => none

def asStream : Value → Option Stream
  | stream s => some s
  | _ => none

end Value

/-! ## The condition -/

/-- The first and the last rank or position a range asks for miss every
element. -/
def EmptyRange (len : Nat) (start stop : Int) : Prop :=
  min (KeyOps.clampIndex len stop + 1) len ≤ KeyOps.clampIndex len start

/-- GETRANGE selects no byte and does not panic. -/
def EmptyBytes (checks : Bool) (len : Nat) (start stop : Int) : Prop :=
  if stop < 0 then
    len ≤ KeyOps.clampIndex len start ∨
      if (len : Int) + stop < 0 then 2 ^ 64 - 1 < KeyOps.clampIndex len start
      else (len + stop).toNat < KeyOps.clampIndex len start
  else if len = 0 then checks = false
  else len ≤ KeyOps.clampIndex len start ∨ stop.toNat < KeyOps.clampIndex len start

/-- ZRANGE and ZREVRANGE select no member; the reversed branch cuts both ends to
the last rank. -/
def EmptyRanks (len : Nat) (start stop : Int) (reverse : Bool) : Prop :=
  len = 0 ∨
    if reverse then
      min (KeyOps.clampIndex len stop) (len - 1) < min (KeyOps.clampIndex len start) (len - 1)
    else len ≤ KeyOps.clampIndex len start ∨ KeyOps.clampIndex len stop < KeyOps.clampIndex len start

/-- When an operation on an expired key whose raw value is `v` answers, and
leaves the live entries, as if the key were absent. -/
def KeyCmd.Unaffected {α : Type} (checks : Bool) (v : Value) : KeyCmd α → Prop
  -- these look at the deadline
  | setStringNx _ => True
  | setStringNxEx _ _ => True
  | setValue _ _ => True
  | getString => True
  | exists? => True
  | hscan _ _ _ _ => True
  | sscan _ _ _ => True
  | zscan _ _ _ => True
  | groupCreate _ _ => True
  | groupDestroy _ => True
  | groupCreateConsumer _ _ => True
  | groupDeleteConsumer _ _ => True
  | groupSetId _ _ => True
  | readGroup _ _ _ _ _ => True
  | acknowledge _ _ => True
  | claim _ _ _ _ _ => True
  | autoClaim _ _ _ _ _ => True
  -- these answer from the raw entry, or change it in place
  | get => False
  | delete => False
  | expire _ => False
  | ttl => False
  | pttl => False
  | persist => False
  | keyType => False
  | incrBy _ => False
  | append _ => False
  | lpush _ => False
  | rpush _ => False
  | lset _ _ => False
  | sadd _ => False
  | hset _ => False
  | hincrby _ _ => False
  | zadd _ _ => False
  | zincrby _ _ => False
  | xadd _ => False
  -- these answer like an absent key if the raw value happens to
  | strlen => ∃ bytes ∈ v.asString, bytes = []
  | getrange start stop => ∃ bytes ∈ v.asString, EmptyBytes checks bytes.length start stop
  | setrange offset value =>
      ∃ _bytes ∈ v.asString, KeyOps.maxCapacity < offset + value.length
  | lpop => ∃ items ∈ v.asList, items = []
  | rpop => ∃ items ∈ v.asList, items = []
  | llen => ∃ items ∈ v.asList, items = []
  | lrange start stop => ∃ items ∈ v.asList, EmptyRange items.length start stop
  | lindex index => ∃ items ∈ v.asList, KeyOps.position items.length index = none
  | ltrim _ _ => ∃ _items, _items ∈ v.asList
  | lrem count element =>
      ∃ items ∈ v.asList, element ∉ items ∧ ¬ (checks = true ∧ count = -2 ^ 63)
  | srem members => ∃ s ∈ v.asSet, ∀ m ∈ members, s.contains m = false
  | smembers => ∃ s ∈ v.asSet, s.size = 0
  | sismember member => ∃ s ∈ v.asSet, s.contains member = false
  | scard => ∃ s ∈ v.asSet, s.size = 0
  | srandmember count => ∃ s ∈ v.asSet, s.size = 0 ∨ count = 0
  | spop count => ∃ s ∈ v.asSet, s.size = 0 ∨ count = 0
  | hget field => ∃ h ∈ v.asHash, h.contains field = false
  | hmget fields => ∃ h ∈ v.asHash, ∀ f ∈ fields, h.contains f = false
  | hgetall => ∃ h ∈ v.asHash, h.size = 0
  | hdel fields => ∃ h ∈ v.asHash, ∀ f ∈ fields, h.contains f = false
  | hlen => ∃ h ∈ v.asHash, h.size = 0
  | hexists field => ∃ h ∈ v.asHash, h.contains field = false
  | hkeys => ∃ h ∈ v.asHash, h.size = 0
  | hvals => ∃ h ∈ v.asHash, h.size = 0
  | zrem member => ∃ z ∈ v.asZset, z.getScore member = none
  | zscore member => ∃ z ∈ v.asZset, z.getScore member = none
  | zrank member _ => ∃ z ∈ v.asZset, z.getRank member = none
  | zrange start stop reverse => ∃ z ∈ v.asZset, EmptyRanks z.len start stop reverse
  | zrangebyscore lo hi _ => ∃ z ∈ v.asZset, z.rangeByScore lo hi = []
  | zcount lo hi => ∃ z ∈ v.asZset, z.rangeByScore lo hi = []
  | zcard => ∃ z ∈ v.asZset, z.len = 0
  | xaddWithId id _ => ∃ _s ∈ v.asStream, id ≤ Stream.new.lastId
  | xrange start stop count reverse =>
      ∃ s ∈ v.asStream, s.range start stop count reverse = []
  | xlen => ∃ s ∈ v.asStream, s.length = 0
  | xtrim maxLen => ∃ s ∈ v.asStream, s.entries.length ≤ maxLen
  | xdel ids => ∃ s ∈ v.asStream, ∀ id ∈ ids, Stream.foundAt s.entries id = false

namespace Engine

/-- What a set operation finds under a key: another type, nothing, or a set. -/
def setView (e : Engine) (db : Nat) (key : Key) : Option (Option (FSet Bytes)) :=
  match e.entryAt db key with
  | none => some none
  | some sv => sv.value.asSet.map some

/-- The key holds a value of another type. -/
def NotSet (e : Engine) (db : Nat) (key : Key) : Prop := e.setView db key = none

/-- The key holds a set. -/
def isSet (e : Engine) (db : Nat) (key : Key) : Bool := ((e.setView db key).getD none).isSome

/-- The key holds a set with this member. -/
def InSet (e : Engine) (db : Nat) (key : Key) (member : Bytes) : Prop :=
  ∃ s, e.setView db key = some (some s) ∧ s.contains member = true

end Engine

/-- When an operation on several keys answers, and leaves the live entries, as
if the expired key were absent. -/
def StoreCmd.Unaffected {α : Type} (e : Engine) (db : Nat) (key : Key) (v : Value) :
    StoreCmd α → Prop
  | getAllKeys db' => db' ≠ db
  | keys db' pattern => db' ≠ db ∨ Glob.matchesBytes pattern key = false
  | scan _ _ _ _ _ => True
  -- another key of the list gives the error, or the other sets cover the raw one
  | sunion db' ks => db' ≠ db ∨ key ∉ ks ∨ (∃ k ∈ ks, k ≠ key ∧ e.NotSet db k) ∨
      ∃ s ∈ v.asSet, ∀ m, s.contains m = true → ∃ k ∈ ks, k ≠ key ∧ e.InSet db k m
  -- an earlier key of the list ends the loop, or the raw set leads to nothing
  | sinter db' ks => db' ≠ db ∨ key ∉ ks ∨
      (∃ k, ks.find? (fun k => decide (k = key) || !e.isSet db k) = some k ∧ k ≠ key) ∨
      ∃ _s ∈ v.asSet, match ks.find? (fun k => !e.isSet db k) with
        | some k => e.entryAt db k = none
        | none => ¬ ∃ m, ∀ k ∈ ks, e.InSet db k m
  -- the raw set starts the difference and nothing of it is left, or it takes
  -- nothing away that the others leave
  | sdiff db' ks => db' ≠ db ∨ key ∉ ks ∨
      match ks with
      | [] => True
      | first :: rest =>
          if first = key then
            ∃ s ∈ v.asSet, (∀ k ∈ rest, ¬ e.NotSet db k) ∧
              ∀ m, s.contains m = true → ∃ k ∈ rest, e.InSet db k m
          else
            e.isSet db first = false ∨ (∃ k ∈ rest, k ≠ key ∧ e.NotSet db k) ∨
              ∃ s ∈ v.asSet, ∀ m, s.contains m = true → e.InSet db first m →
                ∃ k ∈ rest, k ≠ key ∧ e.InSet db k m
  | xread db' kis count block => db' ≠ db ∨ block.isSome = true ∨
      (∃ p ∈ kis, p.1 ≠ key ∧ ∃ sv, e.entryAt db p.1 = some sv ∧ sv.value.asStream = none) ∨
      ∀ p ∈ kis, p.1 = key → ∃ s ∈ v.asStream, s.rangeAfter p.2 count = []
  | rename db' old _ => ¬ (db' = db ∧ old = key)
  | flushDb _ => True
  | registerWatch _ _ => True
  | unregisterWatch _ _ => True
  | wasModifiedSince db' k baseline => ¬ (db' = db ∧ k = key) ∨
      ∃ sh, e.shardAt db (getShardIndex key) = some sh ∧ baseline < sh.watch.getKeyCounter key
  | databaseCount => True
  | memoryUsage => True
  | systemTime => True
  | draw _ => True

/-- The condition for every operation. -/
def Op.Unaffected {α : Type} (ctx : Ctx) (e : Engine) (db : Nat) (k : Key) (v : Value) :
    Op α → Prop
  | key db' k' c => ¬ (db' = db ∧ k' = k) ∨ c.Unaffected ctx.overflowChecks v
  | store c => c.Unaffected e db k v

/-! ## The same answer -/

/-- Two answers of a set operation: the order of the members is not part of
them. -/
def SameMembers : Outcome (List Bytes) → Outcome (List Bytes) → Prop
  | .ok a, .ok b => a.Perm b
  | x, y => x = y

/-- Two answers of an operation on several keys. -/
def StoreCmd.SameAnswer : {α : Type} → StoreCmd α → Outcome α → Outcome α → Prop
  | _, sunion _ _, x, y => SameMembers x y
  | _, sinter _ _, x, y => SameMembers x y
  | _, sdiff _ _, x, y => SameMembers x y
  | _, _, x, y => x = y

/-- Two answers of an operation. -/
def Op.SameAnswer : {α : Type} → Op α → Outcome α → Outcome α → Prop
  | _, store c, x, y => c.SameAnswer x y
  | _, key _ _ _, x, y => x = y

/-- The operation answers the same, and leaves the same live entries, with the
expired key and without it. -/
def Op.TreatsAsAbsent {α : Type} (o : Op α) (ctx : Ctx) (e : Engine) (db : Nat) (k : Key) : Prop :=
  o.SameAnswer (o.run ctx e).1 (o.run ctx (e.evict db k)).1 ∧
    ∀ db' k', (o.run ctx e).2.liveAt ctx.now db' k' =
      (o.run ctx (e.evict db k)).2.liveAt ctx.now db' k'

/-! ## The answer and the entry of a step -/

namespace Engine

/-- The answer of a step, if it is not refused memory. -/
def answerOf {α : Type} (e : Engine) (st : KeyStep α) : Outcome α :=
  if e.refuses st then .err (.storage .outOfMemory) else st.result

/-- The entry a step leaves, if it is not refused memory. -/
def leftBy {α : Type} (e : Engine) (st : KeyStep α) (old : Option StoredValue) :
    Option StoredValue :=
  if e.refuses st then old else st.entry.leaves old

/-- The step on the expired entry and the step on no entry cannot be told apart. -/
def Agree {α : Type} (e : Engine) (now : Instant) (sv : StoredValue) (st₁ st₂ : KeyStep α) : Prop :=
  e.answerOf st₁ = e.answerOf st₂ ∧
    liveOf now (e.leftBy st₁ (some sv)) = liveOf now (e.leftBy st₂ none)

end Engine

theorem liveOf_expired {now : Instant} {sv : StoredValue} (hx : sv.isExpired now = true) (v : Value) :
    liveOf now (some { sv with value := v }) = none := by
  have hv : StoredValue.isExpired { sv with value := v } now = true := hx
  simp [liveOf, Option.filter, hv]

theorem liveOf_self {now : Instant} {sv : StoredValue} (hx : sv.isExpired now = true) : liveOf now (some sv) = none :=
  liveOf_expired hx sv.value

/-! ## The store without the key -/

namespace Engine

variable {e : Engine} {db : Nat} {key : Key}

theorem evict_shardAt (e : Engine) (db : Nat) (key : Key) (db' : Nat) (i : Fin shardsPerDatabase) :
    (e.evict db key).shardAt db' i = (e.shardAt db' i).map fun sh =>
      if db' = db ∧ i = getShardIndex key then
        { sh with data := sh.data.del key, expiringKeys := sh.expiringKeys.del key }
      else sh := by
  unfold evict
  cases hs : e.shard? db key with
  | none =>
      by_cases hdb : db' = db
      · subst hdb
        simp [shardAt_none_of_shard? hs]
      · simp [hdb]
  | some sh =>
      dsimp only
      rw [shardAt_setShard]
      split
      · next hc =>
          obtain ⟨rfl, rfl⟩ := hc
          rw [shard?_eq_shardAt] at hs
          rw [hs]
          rfl
      · simp

theorem evict_memory (e : Engine) (db : Nat) (key : Key) : (e.evict db key).memory = e.memory := by
  unfold evict
  split <;> rfl

theorem evict_length (e : Engine) (db : Nat) (key : Key) :
    (e.evict db key).databases.length = e.databases.length := by
  unfold evict
  split
  · rfl
  · exact length_setShard _ _ _ _

theorem evict_entryAt (e : Engine) (db : Nat) (key : Key) (db' : Nat) (key' : Key) :
    (e.evict db key).entryAt db' key' =
      if db' = db ∧ key' = key then none else e.entryAt db' key' := by
  rw [entryAt_eq, evict_shardAt, entryAt_eq]
  cases e.shardAt db' (getShardIndex key') with
  | none => simp
  | some sh =>
      simp only [Option.map_some, Option.bind_some]
      by_cases hk : db' = db ∧ key' = key
      · obtain ⟨rfl, rfl⟩ := hk
        simp
      · rw [if_neg hk]
        split
        · next hc =>
            exact Map.get?_del_ne _ fun h => hk ⟨hc.1, h⟩
        · rfl

theorem evict_refuses {α : Type} (e : Engine) (db : Nat) (key : Key) (st : KeyStep α) :
    (e.evict db key).refuses st = e.refuses st := by
  unfold refuses
  rw [evict_memory]

/-- The answer of an operation on one key, in a database that exists. -/
theorem withEntry_fst {α : Type} {db' : Nat} (hdb : db' < e.databases.length) (k : Key) (ctx : Ctx)
    (f : KeyOp α) : (e.withEntry db' k ctx f).1 = e.answerOf (f ctx (e.entryAt db' k)) := by
  have hd : e.databases[db']? = some e.databases[db'] := List.getElem?_eq_getElem hdb
  rw [withEntry_result ctx f (shardAt_of_database hd _), ← entryAt_of_database hd]
  rfl

/-- The entries after an operation on one key, in a database that exists. -/
theorem withEntry_snd {α : Type} {db' : Nat} (hdb : db' < e.databases.length) (k : Key) (ctx : Ctx)
    (f : KeyOp α) (db'' : Nat) (k' : Key) :
    (e.withEntry db' k ctx f).2.entryAt db'' k' =
      if db'' = db' ∧ k' = k then e.leftBy (f ctx (e.entryAt db' k)) (e.entryAt db' k)
      else e.entryAt db'' k' := by
  rw [withEntry_entryAt hdb]
  unfold leftBy
  by_cases hc : db'' = db' ∧ k' = k
  · obtain ⟨rfl, rfl⟩ := hc
    cases e.refuses (f ctx (e.entryAt db'' k')) <;> simp
  · rw [if_neg hc, if_neg fun h => hc ⟨h.1, h.2.1⟩]

/-- The live entries do not show that an expired key is gone. -/
theorem evict_liveAt {now : Instant} {sv : StoredValue} (hsv : e.entryAt db key = some sv)
    (hx : sv.isExpired now = true) (db' : Nat) (key' : Key) :
    (e.evict db key).liveAt now db' key' = e.liveAt now db' key' := by
  unfold liveAt
  rw [evict_entryAt]
  split
  · next h =>
      rw [h.1, h.2, hsv, liveOf_self hx]
      rfl
  · rfl

end Engine

end Ferrous
