/-
# `Storage.Stream` — streams

`StreamData` (the entry vector, its last ID and its memory figure), the atomics
beside it, and the consumer groups.  In the source the groups sit behind an
`Arc` that clones of a stream share; a stream value is owned by one key, so
here they are a field of it.  `binary_search` is specified only on a sorted
vector; `lowerBound` is the position it finds there.
-/
import Ferrous.Storage.ConsumerGroups

namespace Ferrous

open Lib

/-- `Stream`; sizes are those of a 64-bit target. -/
structure Stream where
  entries : List StreamEntry
  lastId : StreamId
  dataMemoryUsage : Nat
  lastIdMillis : Nat
  lastIdSeq : Nat
  length : Nat
  memoryUsage : Nat
  consumerGroups : Map String ConsumerGroup
  deriving DecidableEq

namespace Stream

/-- `size_of::<StreamData>()`, `size_of::<Stream>()`, `size_of::<StreamEntry>()`. -/
def dataSize : Nat := 48
def streamSize : Nat := 224
def entrySize : Nat := 64

/-- `Stream::new`. -/
def new : Stream where
  entries := []
  lastId := StreamId.new 0 0
  dataMemoryUsage := dataSize
  lastIdMillis := 0
  lastIdSeq := 0
  length := 0
  memoryUsage := streamSize
  consumerGroups := ∅

/-- `calculate_entry_size`. -/
def calculateEntrySize (e : StreamEntry) : Nat :=
  16 + entrySize + (e.fields.toPairs.map fun p => p.1.length + p.2.length + 48).sum

/-- Wrapping subtraction of 64-bit counters. -/
def subU64 (a b : Nat) : Nat := (a + (2 ^ 64 - b % 2 ^ 64)) % 2 ^ 64

/-- Where `binary_search` finds or would insert an ID. -/
def lowerBound (es : List StreamEntry) (id : StreamId) : Nat :=
  (es.takeWhile fun e => e.id < id).length

/-- Whether `binary_search` finds the ID there. -/
def foundAt (es : List StreamEntry) (id : StreamId) : Bool :=
  ((es[lowerBound es id]?).map (·.id)) == some id

/-- `generate_next_atomic`: the ID and the two atomics after it.  The exchange
cannot fail, because the shard lock is held. -/
def generateNext (s : Stream) (nowMillis : Nat) : StreamId × Nat × Nat :=
  if s.lastIdMillis < nowMillis then (StreamId.new nowMillis 0, nowMillis, 0)
  else
    (StreamId.new s.lastIdMillis (s.lastIdSeq + 1), s.lastIdMillis, (s.lastIdSeq + 1) % 2 ^ 64)

/-- Append an entry and account for it. -/
def push (s : Stream) (e : StreamEntry) : Stream :=
  { s with
    entries := s.entries ++ [e]
    lastId := e.id
    dataMemoryUsage := s.dataMemoryUsage + calculateEntrySize e
    length := s.length + 1
    memoryUsage := s.memoryUsage + calculateEntrySize e }

/-- `add_auto`. -/
def addAuto (s : Stream) (fields : Map Bytes Bytes) (nowMillis : Nat) : StreamId × Stream :=
  let (id, m, q) := s.generateNext nowMillis
  (id, { s.push ⟨id, fields⟩ with lastIdMillis := m, lastIdSeq := q })

/-- `add_with_id`. -/
def addWithId (s : Stream) (id : StreamId) (fields : Map Bytes Bytes) : Except String Stream :=
  if id ≤ s.lastId then
    .error "The ID specified in XADD is equal or smaller than the target stream top item"
  else if foundAt s.entries id then .error "The ID specified in XADD already exists"
  else .ok { s.push ⟨id, fields⟩ with lastIdMillis := id.millis, lastIdSeq := id.seq }

/-- `range`. -/
def range (s : Stream) (start stop : StreamId) (count : Option Nat) (reverse : Bool) :
    List StreamEntry :=
  let es := s.entries
  let startIdx := lowerBound es start
  let endIdx := if foundAt es stop then lowerBound es stop else lowerBound es stop - 1
  let last := Nat.min endIdx (es.length - 1)
  let window := (es.take (last + 1)).drop startIdx
  let window := if reverse then window.reverse else window
  match count with
  | some n => window.take n
  | none => window

/-- `range_after`. -/
def rangeAfter (s : Stream) (after : StreamId) (count : Option Nat) : List StreamEntry :=
  let es := s.entries
  let startIdx := if foundAt es after then lowerBound es after + 1 else lowerBound es after
  (es.drop startIdx).take (count.getD es.length)

/-- Forget a number of removed entries and their memory. -/
def release (s : Stream) (entries : List StreamEntry) (removed freed : Nat) : Stream :=
  { s with
    entries := entries
    dataMemoryUsage := subU64 s.dataMemoryUsage freed
    length := subU64 s.length removed
    memoryUsage := subU64 s.memoryUsage freed }

/-- `trim_by_count`. -/
def trimByCount (s : Stream) (maxCount : Nat) : Nat × Stream :=
  if s.entries.length ≤ maxCount then (0, s)
  else
    let n := s.entries.length - maxCount
    (n, s.release (s.entries.drop n) n ((s.entries.take n).map calculateEntrySize).sum)

/-- `trim_by_min_id`. -/
def trimByMinId (s : Stream) (minId : StreamId) : Nat × Stream :=
  let n := lowerBound s.entries minId
  if n = 0 then (0, s)
  else (n, s.release (s.entries.drop n) n ((s.entries.take n).map calculateEntrySize).sum)

/-- One ID of `delete`: the entries left, the number deleted, the memory freed. -/
def deleteOne (acc : List StreamEntry × Nat × Nat) (id : StreamId) : List StreamEntry × Nat × Nat :=
  if foundAt acc.1 id then
    let i := lowerBound acc.1 id
    let freed := ((acc.1[i]?).map calculateEntrySize).getD 0
    (acc.1.eraseIdx i, acc.2.1 + 1, acc.2.2 + freed)
  else acc

/-- `delete`: the IDs are sorted and deduplicated, then removed from the last. -/
def delete (s : Stream) (ids : List StreamId) : Nat × Stream :=
  let (left, deleted, freed) :=
    ((StreamId.sort ids).dedup.reverse).foldl deleteOne (s.entries, 0, 0)
  if 0 < deleted then (deleted, s.release left deleted freed) else (0, s)

/-- The stored entry with an ID. -/
def entryAt (s : Stream) (id : StreamId) : Option StreamEntry :=
  if foundAt s.entries id then s.entries[lowerBound s.entries id]? else none

/-- The error every group operation gives on an unknown group. -/
def noGroup (group : String) : String := "NOGROUP No such consumer group " ++ group ++ " for stream"

/-- `create_consumer_group`. -/
def createConsumerGroup (s : Stream) (name : String) (startId : StreamId) : Except String Stream :=
  match s.consumerGroups.get? name with
  | some _ => .error "BUSYGROUP Consumer Group name already exists"
  | none => .ok { s with consumerGroups := s.consumerGroups.set name (ConsumerGroup.new name startId) }

/-- `destroy_consumer_group`. -/
def destroyConsumerGroup (s : Stream) (name : String) : Bool × Stream :=
  match s.consumerGroups.get? name with
  | some _ => (true, { s with consumerGroups := s.consumerGroups.del name })
  | none => (false, s)

/-- Put a changed group back. -/
def setGroup (s : Stream) (name : String) (g : ConsumerGroup) : Stream :=
  { s with consumerGroups := s.consumerGroups.set name g }

/-- `read_group`. -/
def readGroup (s : Stream) (group consumer : String) (afterId : StreamId) (count : Option Nat)
    (noack : Bool) (now : Nat) : Except String (List StreamEntry × Stream) :=
  match s.consumerGroups.get? group with
  | none => .error (noGroup group)
  | some g =>
      let entries :=
        if afterId = StreamId.max then s.rangeAfter g.lastDeliveredId count
        else s.rangeAfter afterId count
      if !noack && !entries.isEmpty then
        .ok (entries, s.setGroup group (g.addPending consumer entries now))
      else .ok (entries, s)

/-- `acknowledge_messages`. -/
def acknowledgeMessages (s : Stream) (group : String) (ids : List StreamId) :
    Except String (Nat × Stream) :=
  match s.consumerGroups.get? group with
  | none => .error (noGroup group)
  | some g =>
      let (n, g') := g.acknowledge ids
      .ok (n, s.setGroup group g')

/-- `claim_messages`. -/
def claimMessages (s : Stream) (group consumer : String) (minIdleMs : Nat) (ids : List StreamId)
    (force : Bool) (now later : Nat) : Except String (List StreamEntry × Stream) :=
  match s.consumerGroups.get? group with
  | none => .error (noGroup group)
  | some g =>
      let (claimed, g') := g.claimMessages consumer minIdleMs ids force now later
      .ok (claimed.filterMap s.entryAt, s.setGroup group g')

/-- `auto_claim_messages`. -/
def autoClaimMessages (s : Stream) (group consumer : String) (minIdleMs : Nat) (start : StreamId)
    (count : Nat) (now later : Nat) : Except String (List StreamEntry × StreamId × Stream) :=
  match s.consumerGroups.get? group with
  | none => .error (noGroup group)
  | some g =>
      let (claimed, next, g') := g.autoClaim consumer minIdleMs start count now later
      .ok (claimed.filterMap s.entryAt, next, s.setGroup group g')

end Stream

end Ferrous
