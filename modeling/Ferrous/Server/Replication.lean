/-
# `Server.Replication` — roles, replicas, the backlog and the full dump

`ReplicationManager` with the role of the server, the connections registered as
replicas, and the backlog that decides between a partial and a full
resynchronisation.  The background thread of a replica is not part of the
model.
-/
import Ferrous.Commands.Handler
import Ferrous.Server.Blocking
import Ferrous.Storage.Rdb

namespace Ferrous

open Lib

/-! ## The backlog -/

/-- `ReplicationBacklog`; the start offset is a `u64`. -/
structure Backlog where
  maxSize : Nat
  buffer : Bytes
  startOffset : Nat
  currentSize : Nat

namespace Backlog

/-- A backlog to which nothing has been appended. -/
def empty (maxSize : Nat) : Backlog := ⟨maxSize, [], 0, 0⟩

/-- `new`: `with_capacity` panics for more bytes than a vector can hold. -/
def new (maxSize : Nat) : Outcome Backlog := if 2 ^ 63 ≤ maxSize then .panic else .ok (empty maxSize)

/-- One byte; a full buffer loses its oldest. -/
def push (b : Backlog) (x : UInt8) : Backlog :=
  if b.maxSize ≤ b.currentSize then
    { b with
      buffer := b.buffer.drop 1 ++ [x]
      -- the sum wraps; a build with overflow checks panics there
      startOffset := if b.buffer.isEmpty then b.startOffset else (b.startOffset + 1) % 2 ^ 64 }
  else { b with buffer := b.buffer ++ [x], currentSize := b.currentSize + 1 }

/-- `append_command`; nothing is appended of a frame that cannot be written. -/
def appendCommand (b : Backlog) (cmd : RespFrame) : Option Backlog :=
  if cmd.serialize.2 then some (cmd.serialize.1.foldl push b) else none

/-- Whether `get_data_from_offset` succeeds. -/
def covers (b : Backlog) (offset : Nat) : Bool :=
  decide (b.startOffset ≤ offset) && decide (offset < (b.startOffset + b.currentSize) % 2 ^ 64)

end Backlog

/-! ## The manager -/

/-- `ReplicationRole`, as far as commands look at it. -/
inductive ReplicationRole
  | master (replId : String) (replOffset : Nat)
  | replica (masterAddr : String) (replOffset : Nat)
  deriving DecidableEq, Repr

/-- `ReplicaInfo`. -/
structure ReplicaInfo where
  addr : String
  ackOffset : Nat
  deriving DecidableEq, Repr

/-- `ReplicationManager`. -/
structure ReplicationManager where
  role : ReplicationRole
  replicas : Map ConnId ReplicaInfo
  backlog : Backlog

namespace ReplicationManager

/-- `is_master`. -/
def isMaster (m : ReplicationManager) : Bool :=
  match m.role with
  | .master _ _ => true
  | .replica _ _ => false

/-- `get_repl_offset`. -/
def getReplOffset (m : ReplicationManager) : Nat :=
  match m.role with
  | .master _ offset => offset
  | .replica _ offset => offset

/-- `set_master`: a new replica forgets its own replicas, a new master starts a
history under a fresh ID. -/
def setMaster (m : ReplicationManager) (addr : Option String) (replId : String) :
    ReplicationManager :=
  match addr with
  | some a => { m with role := .replica a 0, replicas := ∅ }
  | none => { m with role := .master replId 0 }

/-- `add_replica`; `none` is the error of a server that is not a master. -/
def addReplica (m : ReplicationManager) (id : ConnId) (addr : String) :
    Option ReplicationManager :=
  if m.isMaster then some { m with replicas := m.replicas.set id ⟨addr, 0⟩ } else none

/-- `propagate_command`: the connections that get the command. -/
def propagateCommand (m : ReplicationManager) (cmd : RespFrame) :
    List ConnId × ReplicationManager :=
  match m.role with
  | .replica _ _ => ([], m)
  | .master replId offset =>
      match m.backlog.appendCommand cmd with
      | none => ([], m)
      | some backlog =>
          (m.replicas.keyList,
            { m with role := .master replId ((offset + 1) % 2 ^ 64), backlog := backlog })

/-- Record what a replica acknowledges; `ack_offset` of an unknown one is ignored. -/
def acknowledge (m : ReplicationManager) (id : ConnId) (offset : Nat) : ReplicationManager :=
  match m.replicas.get? id with
  | some r => { m with replicas := m.replicas.set id { r with ackOffset := offset } }
  | none => m

end ReplicationManager

/-! ## Answers to SYNC and PSYNC -/

/-- The reply that announces a full dump. -/
def fullResync (replId : String) (offset : Nat) : RespFrame :=
  .simpleString ("FULLRESYNC " ++ replId ++ " " ++ toString offset).toBytes

/-- What PSYNC decides on. -/
inductive PsyncResult
  | reply (frame : RespFrame)
  | full (frame : RespFrame)
  | fail (e : FerrousError)

/-- `handle_psync`. -/
def handlePsync (m : ReplicationManager) (parts : Parts) : PsyncResult :=
  if parts.length ≠ 3 then .reply (.err "ERR wrong number of arguments for 'psync' command")
  else
    match (parts[1]?).bind RespFrame.bulk?, (parts[2]?).bind RespFrame.bulk? with
    | none, _ => .reply (.err "ERR invalid replication ID format")
    | some _, none => .reply (.err "ERR invalid offset format")
    | some id, some offset =>
        let offset := fromUtf8Lossy offset
        if offset ≠ "-1" ∧ parseU64 offset = none then .reply (.err "ERR invalid offset format")
        else
          match m.role with
          | .replica _ _ => .fail (.command (.generic "wrong role"))
          | .master replId current =>
              let known := fromUtf8Lossy id ≠ "?" ∧ fromUtf8Lossy id = replId
              let kept := offset ≠ "-1" ∧ ((parseU64 offset).map m.backlog.covers).getD false
              if known ∧ kept then .reply (.simpleString "CONTINUE".toBytes)
              else .full (fullResync replId current)

/-! ## The dump -/

namespace Rdb

/-- The value part of `generate_rdb_bytes`; a sorted set counts what it lists. -/
def generateValue (overflowChecks : Bool) : Value → Option Bytes
  | .sortedSet z => (lastRank overflowChecks z).map fun last =>
      writeLength (z.rangeByRank 0 last).length ++ (z.rangeByRank 0 last).flatMap writeScored
  | v => writeValue overflowChecks v

/-- One key; its deadline is the wall clock plus the time left. -/
def generateKey (overflowChecks : Bool) (db : Nat) (key : Key) : StoreProg Bytes := do
  let found ← need (.key db key .get)
  match found with
  | .found value => do
      let ttl ← need (.key db key .ttl)
      let deadline ← match ttl with
        | none => pure []
        | some ttl => do
            let now ← need (.store .systemTime)
            let t ← orPanic (instantAdd now ttl)
            pure (RdbOpcode.expireTimeMs.code :: writeU64Le (t / 10 ^ 6 % 2 ^ 64))
      let body ← orPanic (generateValue overflowChecks value)
      return deadline ++ typeCode value :: (writeString key ++ body)
  | _ => return []

/-- The keys of a database. -/
def generateKeys (overflowChecks : Bool) (db : Nat) : List Key → StoreProg Bytes
  | [] => return []
  | key :: keys => do
      let here ← generateKey overflowChecks db key
      let rest ← generateKeys overflowChecks db keys
      return here ++ rest

/-- The databases from `db` on. -/
def generateDatabases (overflowChecks : Bool) : Nat → Nat → StoreProg Bytes
  | _, 0 => return []
  | db, n + 1 => do
      let keys ← need (.store (.getAllKeys db))
      let here ← if keys.isEmpty then pure []
        else do
          let body ← generateKeys overflowChecks db keys
          pure (writeDbSelector db ++ writeResizeDb keys.length 0 ++ body)
      let rest ← generateDatabases overflowChecks (db + 1) n
      return here ++ rest

/-- `generate_rdb_bytes`. -/
def generateRdbBytes (overflowChecks : Bool) : StoreProg Bytes := do
  let now ← need (.store .systemTime)
  let used ← need (.store .memoryUsage)
  let n ← need (.store .databaseCount)
  let body ← generateDatabases overflowChecks 0 n
  return writeHeader ++ writeAux "redis-ver" packageVersion ++ writeAux "redis-bits" "64" ++
    writeAux "ctime" (toString (now / 10 ^ 9 % 2 ^ 64)) ++ writeAux "used-mem" (toString used) ++
    body ++ RdbOpcode.eof.code :: writeU64Le 0

end Rdb

end Ferrous
