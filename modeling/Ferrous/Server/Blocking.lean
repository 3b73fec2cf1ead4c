/-
# `Server.Blocking` — clients that wait for a list

The registries of `network/blocking.rs`: for each database a queue of waiting
clients per key, and one queue of wake-up requests for the server loop.  A
client that names several keys stands in several queues; a push takes the first
client off the queue of its key and leaves the others where they are.
-/
import Ferrous.Storage.Value

namespace Ferrous

open Lib

/-- A connection id; the counter starts at 1. -/
abbrev ConnId := Nat

/-- `BlockingOp`; `XReadBlock` is never built. -/
inductive BlockingOp
  | blpop
  | brpop
  deriving DecidableEq, Repr

/-- `BlockedClient`. -/
structure BlockedClient where
  connId : ConnId
  deadline : Option Instant
  opType : BlockingOp
  deriving DecidableEq, Repr

/-- `WakeupRequest`. -/
structure WakeupRequest where
  connId : ConnId
  db : Nat
  key : Key
  opType : BlockingOp
  deriving DecidableEq, Repr

/-! ## One database -/

/-- `BlockingRegistry`. -/
structure BlockingRegistry where
  blockedOnKey : Map Key (List BlockedClient)
  blockedKeys : FSet Key

namespace BlockingRegistry

def new : BlockingRegistry := ⟨∅, ∅⟩

/-- The clients that wait for a key, first come first. -/
def waiters (r : BlockingRegistry) (key : Key) : List BlockedClient :=
  (r.blockedOnKey.get? key).getD []

/-- Put a client at the end of the queue of one key. -/
def enqueue (client : BlockedClient) (r : BlockingRegistry) (key : Key) : BlockingRegistry where
  blockedOnKey := r.blockedOnKey.set key (r.waiters key ++ [client])
  blockedKeys := r.blockedKeys.add key

/-- `register_blocked_client`. -/
def registerBlockedClient (r : BlockingRegistry) (client : BlockedClient) (keys : List Key) :
    BlockingRegistry :=
  keys.foldl (enqueue client) r

/-- Keep some of the clients of every queue; emptied queues are dropped. -/
def retain (r : BlockingRegistry) (keep : BlockedClient → Bool) : BlockingRegistry where
  blockedOnKey := r.blockedOnKey.filterMapValues fun clients =>
    if (clients.filter keep).isEmpty then none else some (clients.filter keep)
  blockedKeys := (r.blockedOnKey.toPairs.filter fun p => (p.2.filter keep).isEmpty).foldl
    (fun ks p => ks.del p.1) r.blockedKeys

/-- `unregister_client`. -/
def unregisterClient (r : BlockingRegistry) (id : ConnId) : BlockingRegistry :=
  r.retain fun client => client.connId != id

/-- `has_blocked_clients`. -/
def hasBlockedClients (r : BlockingRegistry) (key : Key) : Bool := r.blockedKeys.contains key

/-- `pop_first_waiter`. -/
def popFirstWaiter (r : BlockingRegistry) (key : Key) : Option BlockedClient × BlockingRegistry :=
  match r.blockedOnKey.get? key with
  | none => (none, r)
  | some clients =>
      (clients.head?,
        if clients.tail.isEmpty then ⟨r.blockedOnKey.del key, r.blockedKeys.del key⟩
        else { r with blockedOnKey := r.blockedOnKey.set key clients.tail })

/-- Whether the deadline of a client has passed. -/
def expired (now : Instant) (client : BlockedClient) : Bool :=
  (client.deadline.map fun deadline => decide (deadline ≤ now)).getD false

/-- `get_expired_clients`: within a queue from the last to the first. -/
def getExpiredClients (r : BlockingRegistry) (now : Instant) : List ConnId × BlockingRegistry :=
  (r.blockedOnKey.toPairs.flatMap fun p => ((p.2.filter (expired now)).map (·.connId)).reverse,
    r.retain fun client => !expired now client)

end BlockingRegistry

/-! ## All databases -/

/-- `BlockingManager`. -/
structure BlockingManager where
  registries : List BlockingRegistry
  wakeQueue : List WakeupRequest

namespace BlockingManager

/-- `BlockingManager::new`. -/
def new (numDatabases : Nat) : BlockingManager :=
  ⟨List.replicate numDatabases BlockingRegistry.new, []⟩

/-- The clients that wait for a key of a database. -/
def waiters (m : BlockingManager) (db : Nat) (key : Key) : List BlockedClient :=
  ((m.registries[db]?).map (·.waiters key)).getD []

/-- `register_blocked`; `none` is the error on an invalid database. -/
def registerBlocked (m : BlockingManager) (db : Nat) (id : ConnId) (keys : List Key)
    (op : BlockingOp) (deadline : Option Instant) : Option BlockingManager :=
  if db < m.registries.length then
    let client : BlockedClient := ⟨id, deadline, op⟩
    some { m with registries := m.registries.modify db (·.registerBlockedClient client keys) }
  else none

/-- `unregister_client`. -/
def unregisterClient (m : BlockingManager) (db : Nat) (id : ConnId) : BlockingManager :=
  { m with registries := m.registries.modify db (·.unregisterClient id) }

/-- `has_blocked_clients`. -/
def hasBlockedClients (m : BlockingManager) (db : Nat) (key : Key) : Bool :=
  ((m.registries[db]?).map (·.hasBlockedClients key)).getD false

/-- `notify_key_ready`: the first client of the queue is asked to wake up. -/
def notifyKeyReady (m : BlockingManager) (db : Nat) (key : Key) : BlockingManager :=
  match m.registries[db]? with
  | none => m
  | some r =>
      match r.popFirstWaiter key with
      | (none, _) => m
      | (some client, r') =>
          { registries := m.registries.set db r'
            wakeQueue := m.wakeQueue ++ [⟨client.connId, db, key, client.opType⟩] }

/-- At most this many requests are taken from the queue at once. -/
def wakeupBatch : Nat := 32

/-- `process_wakeups`. -/
def processWakeups (m : BlockingManager) : List WakeupRequest × BlockingManager :=
  (m.wakeQueue.take wakeupBatch, { m with wakeQueue := m.wakeQueue.drop wakeupBatch })

/-- `process_timeouts`. -/
def processTimeouts (m : BlockingManager) (now : Instant) : List ConnId × BlockingManager :=
  (m.registries.flatMap fun r => (r.getExpiredClients now).1,
    { m with registries := m.registries.map fun r => (r.getExpiredClients now).2 })

end BlockingManager

end Ferrous
