/-
# `Storage.ConsumerGroups` — stream IDs and consumer groups

A stream ID is one 128-bit number, milliseconds above, sequence below.  A
consumer group keeps the ID it last delivered, its consumers, and the pending
entry list in two indexes (by ID, by consumer) with cached bounds and counts.
Clock readings are arguments: `now` is `SystemTime::now()` in nanoseconds.
-/
import Ferrous.Lib.Map
import Ferrous.Lib.Text
import Mathlib.Data.List.Sort

namespace Ferrous

open Lib

/-! ## Stream IDs -/

/-- `StreamId`: the packed 128-bit number. -/
structure StreamId where
  packed : Nat
  packed_lt : packed < 2 ^ 128
  deriving DecidableEq, Repr

namespace StreamId

/-- `StreamId::new`. -/
def new (millis seq : Nat) : StreamId :=
  ⟨millis % 2 ^ 64 * 2 ^ 64 + seq % 2 ^ 64, by omega⟩

def millis (i : StreamId) : Nat := i.packed / 2 ^ 64

def seq (i : StreamId) : Nat := i.packed % 2 ^ 64

instance : LT StreamId := ⟨fun a b => a.packed < b.packed⟩

instance : LE StreamId := ⟨fun a b => a.packed ≤ b.packed⟩

instance (a b : StreamId) : Decidable (a < b) := inferInstanceAs (Decidable (a.packed < b.packed))

instance (a b : StreamId) : Decidable (a ≤ b) := inferInstanceAs (Decidable (a.packed ≤ b.packed))

/-- `StreamId::min`. -/
def min : StreamId := ⟨0, by decide⟩

/-- `StreamId::max`. -/
def max : StreamId := ⟨2 ^ 128 - 1, by decide⟩

/-- `parse_u64_fast`: wraps, and takes an empty run of digits for `0`. -/
def parseU64Fast (bs : Bytes) : Option Nat :=
  bs.foldl (fun acc b => acc.bind fun n =>
    if b < 48 || 57 < b then none else some ((n * 10 + (b.toNat - 48)) % 2 ^ 64)) (some 0)

/-- `from_string`: split at the first dash. -/
def fromString (s : String) : Option StreamId :=
  let bs := s.toBytes
  match bs.dropWhile (· ≠ 45) with
  | [] => none
  | _ :: rest => do
      let millis ← parseU64Fast (bs.takeWhile (· ≠ 45))
      let seq ← parseU64Fast rest
      some (new millis seq)

/-- `to_string`. -/
def toText (i : StreamId) : String := toString i.millis ++ "-" ++ toString i.seq

/-- Ascending insertion sort of IDs. -/
def sort : List StreamId → List StreamId :=
  List.insertionSort (fun a b => a ≤ b)

end StreamId

/-- `StreamEntry`. -/
structure StreamEntry where
  id : StreamId
  fields : Map Bytes Bytes
  deriving DecidableEq

/-! ## The pending entry list -/

/-- `PendingEntry`; times are nanoseconds since the epoch. -/
structure PendingEntry where
  id : StreamId
  consumer : String
  deliveredAt : Nat
  deliveryCount : Nat
  lastDelivery : Nat
  deriving DecidableEq, Repr

/-- `Consumer`. -/
structure Consumer where
  name : String
  pendingCount : Nat
  lastSeen : Nat
  idleTime : Nat
  deriving DecidableEq, Repr

/-- `PendingEntryList`. -/
structure PendingEntryList where
  entriesById : Map StreamId PendingEntry
  entriesByConsumer : Map String (List StreamId)
  minPendingId : Option StreamId
  maxPendingId : Option StreamId
  deriving DecidableEq

namespace PendingEntryList

def new : PendingEntryList := ⟨∅, ∅, none, none⟩

/-- The IDs of `entries_by_id` in the order of the tree. -/
def ids (p : PendingEntryList) : List StreamId := StreamId.sort p.entriesById.keyList

/-- The entries in ID order. -/
def inOrder (p : PendingEntryList) : List PendingEntry := p.ids.filterMap p.entriesById.get?

/-- `update_bounds`. -/
def updateBounds (p : PendingEntryList) : PendingEntryList :=
  { p with minPendingId := p.ids.head?, maxPendingId := p.ids.getLast? }

/-- Append an ID to a consumer's row of the index. -/
def pushId (m : Map String (List StreamId)) (consumer : String) (id : StreamId) :
    Map String (List StreamId) :=
  m.set consumer ((m.get? consumer).getD [] ++ [id])

/-- Take an ID out of a consumer's row; an emptied row is dropped. -/
def dropId (m : Map String (List StreamId)) (consumer : String) (id : StreamId) :
    Map String (List StreamId) :=
  match m.get? consumer with
  | none => m
  | some row =>
      let row' := row.filter (· ≠ id)
      if row'.isEmpty then m.del consumer else m.set consumer row'

/-- `add_entry`: an ID already owned by someone else stays in the old owner's row. -/
def addEntry (p : PendingEntryList) (e : PendingEntry) : PendingEntryList :=
  updateBounds
    { p with
      entriesById := p.entriesById.set e.id e
      entriesByConsumer := pushId p.entriesByConsumer e.consumer e.id }

/-- `remove_entry`. -/
def removeEntry (p : PendingEntryList) (id : StreamId) : Option PendingEntry × PendingEntryList :=
  match p.entriesById.get? id with
  | none => (none, p)
  | some e =>
      (some e, updateBounds
        { p with
          entriesById := p.entriesById.del id
          entriesByConsumer := dropId p.entriesByConsumer e.consumer id })

/-- `transfer_ownership`. -/
def transferOwnership (p : PendingEntryList) (id : StreamId) (newConsumer : String) (now : Nat) :
    PendingEntryList :=
  match p.entriesById.get? id with
  | none => p
  | some e =>
      let e' := { e with
        consumer := newConsumer
        deliveryCount := (e.deliveryCount + 1) % 2 ^ 32
        lastDelivery := now }
      { p with
        entriesById := p.entriesById.set id e'
        entriesByConsumer :=
          pushId (dropId p.entriesByConsumer e.consumer id) newConsumer id }

/-- `remove_consumer_entries`. -/
def removeConsumerEntries (p : PendingEntryList) (consumer : String) : Nat × PendingEntryList :=
  match p.entriesByConsumer.get? consumer with
  | none => (0, p)
  | some row =>
      (row.length, updateBounds
        { p with
          entriesById := row.foldl (fun m id => m.del id) p.entriesById
          entriesByConsumer := p.entriesByConsumer.del consumer })

/-- `get_range`: the bounds are used only without a consumer filter, and
`BTreeMap::range` panics on inverted bounds (`none`). -/
def getRange (p : PendingEntryList) (start stop : Option StreamId) (count : Nat)
    (consumer : Option String) : Option (List PendingEntry) :=
  match consumer with
  | some c =>
      match p.entriesByConsumer.get? c with
      | some row => some ((row.filterMap p.entriesById.get?).take count)
      | none => some []
  | none =>
      let start := start.getD StreamId.min
      let stop := stop.getD StreamId.max
      if stop < start then none
      else some ((p.inOrder.filter fun e => start ≤ e.id ∧ e.id ≤ stop).take count)

/-- `get_entries_after`. -/
def getEntriesAfter (p : PendingEntryList) (after : StreamId) : List PendingEntry :=
  p.inOrder.filter fun e => after < e.id

/-- `len`. -/
def len (p : PendingEntryList) : Nat := p.entriesById.size

end PendingEntryList

/-! ## Groups -/

/-- `ConsumerGroup`. -/
structure ConsumerGroup where
  name : String
  lastDeliveredId : StreamId
  streamId : StreamId
  pending : PendingEntryList
  consumers : Map String Consumer
  consumerCount : Nat
  totalPending : Nat
  deriving DecidableEq

namespace ConsumerGroup

/-- `ConsumerGroup::new`: the start ID is kept in `stream_id`, and delivery
starts at `0-0`. -/
def new (name : String) (streamId : StreamId) : ConsumerGroup where
  name := name
  lastDeliveredId := StreamId.new 0 0
  streamId := streamId
  pending := PendingEntryList.new
  consumers := ∅
  consumerCount := 0
  totalPending := 0

/-- Milliseconds between a delivery and `now` (`duration_since`, 0 if negative). -/
def idleMs (now lastDelivery : Nat) : Nat := (now - lastDelivery) / 10 ^ 6

/-- `create_consumer`. -/
def createConsumer (g : ConsumerGroup) (name : String) (now : Nat) : Bool × ConsumerGroup :=
  match g.consumers.get? name with
  | some c =>
      (false, { g with consumers := g.consumers.set name { c with lastSeen := now, idleTime := 0 } })
  | none =>
      (true, { g with
        consumers := g.consumers.set name ⟨name, 0, now, 0⟩
        consumerCount := g.consumerCount + 1 })

/-- `delete_consumer`. -/
def deleteConsumer (g : ConsumerGroup) (name : String) : Nat × ConsumerGroup :=
  match g.consumers.get? name with
  | none => (0, g)
  | some _ =>
      let (removed, pending) := g.pending.removeConsumerEntries name
      (removed, { g with
        consumers := g.consumers.del name
        pending := pending
        consumerCount := g.consumerCount - 1
        totalPending := g.totalPending - removed })

/-- `add_pending`. -/
def addPending (g : ConsumerGroup) (consumer : String) (entries : List StreamEntry) (now : Nat) :
    ConsumerGroup :=
  let g₁ := (g.createConsumer consumer now).2
  let pending := entries.foldl (fun p e => p.addEntry ⟨e.id, consumer, now, 1, now⟩) g₁.pending
  let consumers := match g₁.consumers.get? consumer with
    | some c => g₁.consumers.set consumer
        { c with pendingCount := c.pendingCount + entries.length, lastSeen := now, idleTime := 0 }
    | none => g₁.consumers
  let lastDelivered := match entries.getLast? with
    | some e => if g₁.lastDeliveredId < e.id then e.id else g₁.lastDeliveredId
    | none => g₁.lastDeliveredId
  { g₁ with
    pending := pending
    consumers := consumers
    totalPending := g₁.totalPending + entries.length
    lastDeliveredId := lastDelivered }

/-- Change a consumer's pending count, if the consumer exists. -/
def adjustCount (cs : Map String Consumer) (name : String) (f : Nat → Nat) : Map String Consumer :=
  match cs.get? name with
  | some c => cs.set name { c with pendingCount := f c.pendingCount }
  | none => cs

/-- One ID of `acknowledge`. -/
def acknowledgeOne (acc : Nat × ConsumerGroup) (id : StreamId) : Nat × ConsumerGroup :=
  match acc.2.pending.removeEntry id with
  | (none, _) => acc
  | (some e, pending) =>
      (acc.1 + 1, { acc.2 with
        pending := pending
        consumers := adjustCount acc.2.consumers e.consumer (· - 1) })

/-- `acknowledge`. -/
def acknowledge (g : ConsumerGroup) (ids : List StreamId) : Nat × ConsumerGroup :=
  let (acked, g') := ids.foldl acknowledgeOne (0, g)
  (acked, { g' with totalPending := g'.totalPending - acked })

/-- One ID of `claim_messages`. -/
def claimOne (consumer : String) (minIdleMs : Nat) (force : Bool) (now later : Nat)
    (acc : List StreamId × ConsumerGroup) (id : StreamId) : List StreamId × ConsumerGroup :=
  match acc.2.pending.entriesById.get? id with
  | none => acc
  | some e =>
      if !force && decide (idleMs now e.lastDelivery < minIdleMs) then acc
      else
        let consumers := adjustCount (adjustCount acc.2.consumers e.consumer (· - 1)) consumer (· + 1)
        (acc.1 ++ [id], { acc.2 with
          pending := acc.2.pending.transferOwnership id consumer later
          consumers := consumers })

/-- `claim_messages`; `later` is the reading `transfer_ownership` takes. -/
def claimMessages (g : ConsumerGroup) (consumer : String) (minIdleMs : Nat) (ids : List StreamId)
    (force : Bool) (now later : Nat) : List StreamId × ConsumerGroup :=
  ids.foldl (claimOne consumer minIdleMs force now later) ([], (g.createConsumer consumer now).2)

/-- `auto_claim`. -/
def autoClaim (g : ConsumerGroup) (consumer : String) (minIdleMs : Nat) (start : StreamId)
    (count : Nat) (now later : Nat) : List StreamId × StreamId × ConsumerGroup :=
  let idle := (((g.pending.getEntriesAfter start).filter fun e =>
    minIdleMs ≤ idleMs now e.lastDelivery).take count).map (·.id)
  let (claimed, g') := g.claimMessages consumer minIdleMs idle false now later
  let next := match claimed.getLast? with
    | some i => StreamId.new i.millis (i.seq + 1)
    | none => StreamId.new 0 0
  (claimed, next, g')

/-- `set_id`. -/
def setId (g : ConsumerGroup) (id : StreamId) : ConsumerGroup := { g with lastDeliveredId := id }

end ConsumerGroup

end Ferrous
