/-
# `Storage.Engine` — the sharded store

The databases, their sixteen shards, the watch tracker of each shard, and the
one shape almost every engine operation has: find the shard of the key, look
the key up, and then change at most that entry, its row of the expiry index,
the key's modification counter and the memory counter.  `KeyStep` is what such
an operation decides from the entry it found; `withEntry` carries it out.  What
holds of every `KeyStep` is proved once here and not once for each operation.
-/
import Ferrous.Storage.Value

namespace Ferrous

open Lib

/-! ## Watch tracking -/

/-- `ShardWatchTracker`. -/
structure WatchTracker where
  activeWatchers : Nat
  keyCounters : Map Key Nat
  globalCounter : Nat
  deriving DecidableEq

namespace WatchTracker

def new : WatchTracker := ⟨0, ∅, 0⟩

/-- `get_key_counter`. -/
def getKeyCounter (t : WatchTracker) (key : Key) : Nat := (t.keyCounters.get? key).getD 0

/-- `register_watch`: one more watcher; the answer is the key's counter. -/
def registerWatch (t : WatchTracker) : WatchTracker :=
  { t with activeWatchers := (t.activeWatchers + 1) % 2 ^ 64 }

/-- `unregister_watch`: the counter wraps below zero. -/
def unregisterWatch (t : WatchTracker) : WatchTracker :=
  { t with activeWatchers := (t.activeWatchers + (2 ^ 64 - 1)) % 2 ^ 64 }

/-- `mark_key_modified`: nothing is recorded while no watch is active. -/
def markKeyModified (t : WatchTracker) (key : Key) : WatchTracker :=
  if t.activeWatchers = 0 then t
  else
    let n := (t.globalCounter + 1) % 2 ^ 64
    { t with globalCounter := n, keyCounters := t.keyCounters.set key n }

end WatchTracker

/-! ## Shards, databases, engine -/

/-- `DatabaseShard`. -/
structure Shard where
  data : Map Key StoredValue
  expiringKeys : Map Key Instant
  watch : WatchTracker
  deriving DecidableEq

def Shard.new : Shard := ⟨∅, ∅, WatchTracker.new⟩

/-- `SHARDS_PER_DATABASE`. -/
abbrev shardsPerDatabase : Nat := 16

/-- `Database`: sixteen shards. -/
abbrev Database := Fin shardsPerDatabase → Shard

def Database.new : Database := fun _ => Shard.new

/-- `get_shard_index`: FNV-1a of the key, modulo the number of shards. -/
def getShardIndex (key : Key) : Fin shardsPerDatabase :=
  let hash := key.foldl (fun h b => (h ^^^ b.toUInt64) * 0x100000001b3) (0xcbf29ce484222325 : UInt64)
  ⟨hash.toNat % shardsPerDatabase, Nat.mod_lt _ (by decide)⟩

/-- `StorageEngine`. -/
structure Engine where
  databases : List Database
  memory : MemoryManager

namespace Engine

/-- `with_config`. -/
def withConfig (numDatabases : Nat) (memory : MemoryManager) : Engine :=
  ⟨List.replicate numDatabases Database.new, memory⟩

/-- `StorageEngine::new`. -/
def new : Engine := withConfig 16 MemoryManager.unlimited

/-- The shard of a key, in a database that exists. -/
def shard? (e : Engine) (db : Nat) (key : Key) : Option Shard :=
  (e.databases[db]?).map fun d => d (getShardIndex key)

/-- Replace the shard of a key. -/
def setShard (e : Engine) (db : Nat) (key : Key) (sh : Shard) : Engine :=
  { e with databases := e.databases.modify db fun d => Function.update d (getShardIndex key) sh }

/-- The entry stored under a key. -/
def entryAt (e : Engine) (db : Nat) (key : Key) : Option StoredValue :=
  (e.shard? db key).bind fun sh => sh.data.get? key

/-- The deadline the expiry index records for a key. -/
def indexed? (e : Engine) (db : Nat) (key : Key) : Option Instant :=
  (e.shard? db key).bind fun sh => sh.expiringKeys.get? key

end Engine

/-! ## One step on one key -/

/-- What happens to the entry of the key. -/
inductive EntryStep
  | keep
  | store (sv : StoredValue)
  | remove

/-- What happens to the key's row of the expiry index. -/
inductive IndexStep
  | keep
  | record (deadline : Instant)
  | forget

/-- What an operation decides from the entry it found. -/
structure KeyStep (α : Type) where
  result : Outcome α
  /-- Memory asked for first; over the limit the operation ends with an error. -/
  charge : Option Nat := none
  entry : EntryStep := .keep
  index : IndexStep := .keep
  marks : Bool := false
  /-- Memory given back. -/
  release : Nat := 0

namespace KeyStep

/-- Answer without touching the store. -/
def answer {α : Type} (a : α) : KeyStep α := { result := .ok a }

/-- Fail without touching the store. -/
def fail {α : Type} (e : FerrousError) : KeyStep α := { result := .err e }

/-- `Err(StorageError::WrongType)`. -/
def wrongType {α : Type} : KeyStep α := fail (.storage .wrongType)

/-- Panic without touching the store. -/
def panics {α : Type} : KeyStep α := { result := .panic }

/-- Change the stored value in place and mark the key. -/
def update {α : Type} (sv : StoredValue) (v : Value) (a : α) : KeyStep α :=
  { result := .ok a, entry := .store { sv with value := v }, marks := true }

/-- Store a fresh value without a deadline and mark the key. -/
def create {α : Type} (v : Value) (a : α) : KeyStep α :=
  { result := .ok a, entry := .store (StoredValue.new v), marks := true }

/-- `create`, after asking for memory. -/
def createCharged {α : Type} (size : Nat) (v : Value) (a : α) : KeyStep α :=
  { create v a with charge := some size }

/-- Store what is left of a collection, or remove the key when nothing is. -/
def shrink {α : Type} (sv : StoredValue) (v : Value) (isEmpty marks : Bool) (a : α) : KeyStep α :=
  { result := .ok a
    entry := if isEmpty then .remove else .store { sv with value := v }
    marks := marks }

end KeyStep

/-- An operation on one key: what it decides from the world and the entry. -/
abbrev KeyOp (α : Type) := Ctx → Option StoredValue → KeyStep α

/-- Carry a step out on the shard of its key. -/
def Shard.applyStep {α : Type} (sh : Shard) (key : Key) (st : KeyStep α) : Shard where
  data := match st.entry with
    | .keep => sh.data
    | .store sv => sh.data.set key sv
    | .remove => sh.data.del key
  expiringKeys := match st.index with
    | .keep => sh.expiringKeys
    | .record deadline => sh.expiringKeys.set key deadline
    | .forget => sh.expiringKeys.del key
  watch := if st.marks then sh.watch.markKeyModified key else sh.watch

namespace Engine

/-- `self.databases.get(db).ok_or(StorageError::InvalidDatabase)`. -/
def invalidDatabase : FerrousError := .storage .invalidDatabase

/-- Carry out an operation on one key. -/
def withEntry {α : Type} (e : Engine) (db : Nat) (key : Key) (ctx : Ctx) (f : KeyOp α) :
    Outcome α × Engine :=
  match e.shard? db key with
  | none => (.err invalidDatabase, e)
  | some sh =>
      let st := f ctx (sh.data.get? key)
      let commit (m : MemoryManager) : Engine :=
        { e.setShard db key (sh.applyStep key st) with memory := m.remove st.release }
      match st.charge with
      | none => (st.result, commit e.memory)
      | some n =>
          if e.memory.exceeds n then
            (.err (.storage .outOfMemory), { e with memory := e.memory.add n })
          else (st.result, commit (e.memory.add n))

end Engine

end Ferrous
