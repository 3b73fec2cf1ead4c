/-
# `Storage.Value` — stored values, deadlines and memory sizes

The six value types, a stored value with its expiry deadline, the memory
manager, and the readings of the outside world one engine operation takes
(`Ctx`): the clocks, the random level, the shuffles.  An instant is a number of
nanoseconds; adding a duration to one panics past the range of the clock.
-/
import Ferrous.Storage.SkipList
import Ferrous.Storage.Stream
import Ferrous.Storage.Error

namespace Ferrous

open Lib

/-- A key (`Vec<u8>`). -/
abbrev Key := Bytes

/-- A reading of the monotonic clock, in nanoseconds. -/
abbrev Instant := Nat

/-- A length of time, in nanoseconds. -/
abbrev Duration := Nat

/-- First instant the clock's signed 64-bit seconds cannot hold. -/
def instantLimit : Nat := 2 ^ 63 * 10 ^ 9

/-- `Instant + Duration`; `none` is the panic on overflow. -/
def instantAdd (t d : Nat) : Option Nat :=
  if t + d < instantLimit then some (t + d) else none

/-- `Duration::from_secs`, `Duration::from_millis`. -/
def fromSecs (n : Nat) : Duration := n * 10 ^ 9
def fromMillis (n : Nat) : Duration := n * 10 ^ 6

/-- `Value`. -/
inductive Value
  | string (bytes : Bytes)
  | list (items : List Bytes)
  | set (members : FSet Bytes)
  | hash (fields : Map Bytes Bytes)
  | sortedSet (zset : SkipList)
  | stream (stream : Stream)
  deriving DecidableEq

/-- `ValueType`. -/
inductive ValueType
  | string | list | set | hash | sortedSet | stream
  deriving DecidableEq, Repr

namespace Value

/-- `value_type`. -/
def valueType : Value → ValueType
  | string _ => .string
  | list _ => .list
  | set _ => .set
  | hash _ => .hash
  | sortedSet _ => .sortedSet
  | stream _ => .stream

/-- `Value::integer`. -/
def integer (n : Int) : Value := string (intBytes n)

/-- `as_integer`. -/
def asInteger : Value → Option Int
  | string bytes => (fromUtf8 bytes).bind parseI64
  | _ => none

end Value

/-- The name TYPE and SCAN's type filter use. -/
def ValueType.name : ValueType → String
  | .string => "string"
  | .list => "list"
  | .set => "set"
  | .hash => "hash"
  | .sortedSet => "zset"
  | .stream => "stream"

/-- `StoredValue`, with the one field of its metadata that is ever read. -/
structure StoredValue where
  value : Value
  expiresAt : Option Instant
  deriving DecidableEq

namespace StoredValue

/-- `StoredValue::new`. -/
def new (v : Value) : StoredValue := ⟨v, none⟩

/-- `is_expired` at a clock reading: strictly past the deadline. -/
def isExpired (sv : StoredValue) (now : Instant) : Bool :=
  match sv.expiresAt with
  | some e => decide (e < now)
  | none => false

end StoredValue

/-! ## Memory -/

/-- `MemoryManager`; a limit of `0` is no limit. -/
structure MemoryManager where
  usedMemory : UInt64
  maxMemory : Nat
  deriving DecidableEq, Repr

namespace MemoryManager

/-- `MemoryManager::unlimited`. -/
def unlimited : MemoryManager := ⟨0, 0⟩

/-- The counter after `add_memory`: it grows whether or not the limit is met. -/
def add (m : MemoryManager) (bytes : Nat) : MemoryManager :=
  { m with usedMemory := m.usedMemory + UInt64.ofNat bytes }

/-- Whether `add_memory` reports the limit as exceeded. -/
def exceeds (m : MemoryManager) (bytes : Nat) : Bool :=
  decide (0 < m.maxMemory) &&
    decide (m.maxMemory < min (m.usedMemory.toNat + bytes) (2 ^ 64 - 1))

/-- `remove_memory`. -/
def remove (m : MemoryManager) (bytes : Nat) : MemoryManager :=
  { m with usedMemory := m.usedMemory - UInt64.ofNat bytes }

/-- `calculate_size`: the bytes and the 24 of the vector that holds them. -/
def calculateSize (bytes : Bytes) : Nat := bytes.length + 24

end MemoryManager

/-- The value's part of `calculate_value_size`. -/
def valueSize : Value → Nat
  | .string bytes => MemoryManager.calculateSize bytes
  | .list items => (items.map MemoryManager.calculateSize).sum + 32
  | .set members => (members.keyList.map MemoryManager.calculateSize).sum + 48
  | .hash fields =>
      (fields.toPairs.map fun p =>
        MemoryManager.calculateSize p.1 + MemoryManager.calculateSize p.2).sum + 48
  | .sortedSet zset => zset.memoryUsage
  | .stream stream => stream.memoryUsage

/-- `calculate_value_size`. -/
def calculateValueSize (key : Key) (value : Value) : Nat :=
  MemoryManager.calculateSize key + valueSize value

/-- `calculate_member_size`. -/
def calculateMemberSize (member : Bytes) : Nat := MemoryManager.calculateSize member + 8 + 32

/-! ## The outside world, as one operation sees it -/

/-- What an engine operation reads besides its arguments and the store.  The
three monotonic readings are those of the expiry test, of the deadline put in
the value and of the deadline put in the index, in the order they are taken. -/
structure Ctx where
  now : Instant
  stamp : Instant
  indexStamp : Instant
  now_le_stamp : now ≤ stamp
  stamp_le_indexStamp : stamp ≤ indexStamp
  /-- `get_cached_millis`. -/
  cachedMillis : Nat
  /-- `SystemTime::now()`, in nanoseconds, and a later reading of it. -/
  sysNow : Nat
  sysLater : Nat
  /-- Outcome of `random_level`. -/
  level : Nat
  level_lt : level < SkipList.maxLevel
  /-- Outcome of `shuffle`. -/
  shuffle : List Bytes → List Bytes
  shuffle_perm : ∀ l, (shuffle l).Perm l
  /-- Index drawn by the `i`-th `choose` of a non-empty slice of length `n`. -/
  choose : Nat → Nat → Nat
  choose_lt : ∀ i n, 0 < n → choose i n < n
  /-- Whether the build traps arithmetic overflow (debug profile). -/
  overflowChecks : Bool

/-- A context in which everything happens at one instant and no draw changes
an order. -/
def Ctx.at (t : Instant) : Ctx where
  now := t
  stamp := t
  indexStamp := t
  now_le_stamp := le_refl t
  stamp_le_indexStamp := le_refl t
  cachedMillis := t / 10 ^ 6
  sysNow := t
  sysLater := t
  level := 0
  level_lt := SkipChain.maxLevel_pos
  shuffle := id
  shuffle_perm := fun _ => .refl _
  choose := fun _ _ => 0
  choose_lt := fun _ _ h => h
  overflowChecks := false

end Ferrous
