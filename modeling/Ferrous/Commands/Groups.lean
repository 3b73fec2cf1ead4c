/-
# `Commands.Groups` — consumer group commands

XINFO, XGROUP, XREADGROUP, XACK, XPENDING and XCLAIM.  A handler fetches the
stream under the key and works on it; the operations of `KeyCmd` do both at
once, so where a check stands between the two that can still fail, the handler
only fetches.
-/
import Ferrous.Commands.Streams

namespace Ferrous

open Lib Args

/-! ## Access to the stream -/

/-- What a handler answers when the key holds no stream. -/
def onStream {α : Type} (missing : RespFrame) (found : α → StoreProg RespFrame) :
    StreamAccess α → StoreProg RespFrame
  | .found a => found a
  | .wrongType => .ret (.err wrongTypeText)
  | .missing => .ret missing

/-- What `storage.get` found, as far as a group handler looks at it. -/
def KeyOps.GetResult.stream : KeyOps.GetResult → StreamAccess Stream
  | .found (.stream s) => .found s
  | .found _ => .wrongType
  | _ => .missing

/-- Fetch the stream under a key. -/
def fetching (db : Nat) (key : Key) (missing : RespFrame) (found : Stream → StoreProg RespFrame) :
    StoreProg RespFrame := do
  let r ← need (.key db key .get)
  onStream missing found r.stream

/-- Fetch the stream under a key and carry out a group command on it. -/
def grouping {α : Type} (db : Nat) (key : Key) (c : KeyCmd (StreamAccess α)) (missing : RespFrame)
    (render : α → RespFrame) : StoreProg RespFrame := do
  let r ← need (.key db key c)
  onStream missing (fun a => .ret (render a)) r

/-- A text argument. -/
def text (parts : Parts) (i : Nat) (what : String) : Args String :=
  (bulk parts i what).map fromUtf8Lossy

/-- A text argument with a complaint of its own. -/
def textOr (complaint : String) (parts : Parts) (i : Nat) : Args String :=
  match (parts[i]?).bind RespFrame.bulk? with
  | some bytes => .ok (fromUtf8Lossy bytes)
  | none => reject complaint

def noSuchKey : RespFrame := .err "ERR no such key"

/-- The reply on an unknown group. -/
def noGroupFrame (group : String) : RespFrame := .err (Stream.noGroup group)

/-- Lines of a help text. -/
def helpFrame (lines : List String) : RespFrame := .list (lines.map .fromString)

/-- A command with subcommands; `run` answers the ones it knows. -/
def subcommands (cmd : String) (run : String → Option (StoreProg RespFrame)) (parts : Parts) :
    StoreProg RespFrame :=
  reading (do
    arity cmd (2 ≤ parts.length)
    text parts 1 "subcommand")
    fun sub =>
      (run (toUppercase sub)).getD
        (.ret (.err ("ERR unknown subcommand '" ++ toUppercase sub ++ "'")))

/-! ## XINFO -/

/-- An entry, or a null array. -/
def optEntry : Option StreamEntry → RespFrame
  | some e => entryFrame e
  | none => .nullArray

/-- The fields of XINFO STREAM. -/
def streamInfo (s : Stream) : RespFrame :=
  .list
    [.fromString "length", count s.length,
     .fromString "radix-tree-keys", .integer 1,
     .fromString "radix-tree-nodes", .integer 2,
     .fromString "last-generated-id",
       .fromString ((s.entries.getLast?.map (·.id.toText)).getD "0-0"),
     .fromString "groups", count s.consumerGroups.size,
     .fromString "first-entry", optEntry s.entries.head?,
     .fromString "last-entry", optEntry s.entries.getLast?]

/-- `handle_xinfo_stream`. -/
def handleXinfoStream (db : Nat) (parts : Parts) : StoreProg RespFrame :=
  reading (do
    arity "xinfo stream" (3 ≤ parts.length)
    bulk parts 2 "key")
    fun key => fetching db key noSuchKey fun s => .ret (streamInfo s)

/-- One group of XINFO GROUPS. -/
def groupInfo (g : ConsumerGroup) : RespFrame :=
  .list
    [.fromString "name", .fromString g.name,
     .fromString "consumers", count g.consumerCount,
     .fromString "pending", count g.totalPending,
     .fromString "last-delivered-id", .fromString g.lastDeliveredId.toText]

/-- `handle_xinfo_groups`. -/
def handleXinfoGroups (db : Nat) (parts : Parts) : StoreProg RespFrame :=
  reading (do
    arity "xinfo groups" (parts.length == 3)
    bulk parts 2 "key")
    fun key => fetching db key (.list []) fun s =>
      .ret (.list (s.consumerGroups.toPairs.map fun p => groupInfo p.2))

/-- The loop of XINFO CONSUMERS: each consumer's idle time is read off the clock. -/
def consumersLoop : List (String × Consumer) → List RespFrame → StoreProg RespFrame
  | [], acc => .ret (.list acc)
  | (name, c) :: rest, acc => do
      let now ← need (.store .systemTime)
      consumersLoop rest (acc ++ [.list
        [.fromString "name", .fromString name,
         .fromString "pending", count c.pendingCount,
         .fromString "idle", count (ConsumerGroup.idleMs now c.lastSeen)]])

/-- `handle_xinfo_consumers`. -/
def handleXinfoConsumers (db : Nat) (parts : Parts) : StoreProg RespFrame :=
  reading (do
    arity "xinfo consumers" (parts.length == 4)
    let key ← bulk parts 2 "key"
    let group ← text parts 3 "group name"
    return (key, group))
    fun (key, group) => fetching db key (.list []) fun s =>
      match s.consumerGroups.get? group with
      | none => .ret (noGroupFrame group)
      | some g => consumersLoop g.consumers.toPairs []

/-- `handle_xinfo_help`. -/
def handleXinfoHelp : StoreProg RespFrame :=
  .ret (helpFrame
    ["XINFO <subcommand> [<arg> [value] [opt] ...]. Subcommands are:",
     "STREAM <key>",
     "    Show information about a stream.",
     "GROUPS <key>",
     "    Show the consumer groups of a stream.",
     "CONSUMERS <key> <groupname>",
     "    Show consumers of a consumer group.",
     "HELP",
     "    Print this help."])

/-- `handle_xinfo`. -/
def handleXinfo (db : Nat) (parts : Parts) : StoreProg RespFrame :=
  subcommands "xinfo" (fun
    | "STREAM" => some (handleXinfoStream db parts)
    | "GROUPS" => some (handleXinfoGroups db parts)
    | "CONSUMERS" => some (handleXinfoConsumers db parts)
    | "HELP" => some handleXinfoHelp
    | _ => none) parts

/-! ## XGROUP -/

/-- The ID of XGROUP: the stream's last one (`none`), a given one, or unreadable. -/
def groupStart (zero : Bool) (s : String) : Except RespFrame (Option StreamId) :=
  if s = "$" then .ok none
  else if zero ∧ (s = "0" ∨ s = "0-0") then .ok (some (StreamId.new 0 0))
  else
    match StreamId.fromString s with
    | some id => .ok (some id)
    | none => .error (.err invalidStreamId)

/-- The reply to a group that was or was not created. -/
def createdFrame : Except String Unit → RespFrame
  | .ok () => .ok
  | .error msg =>
      if containsText msg "already exists" then .err "BUSYGROUP Consumer Group name already exists"
      else .err ("ERR " ++ msg)

/-- Key, group and ID of XGROUP CREATE and SETID. -/
def groupArgs (cmd : String) (parts : Parts) : Args (Key × String × String) := do
  arity cmd (5 ≤ parts.length)
  let key ← bulk parts 2 "key"
  let group ← text parts 3 "group name"
  let id ← text parts 4 "ID"
  return (key, group, id)

/-- `handle_xgroup_create`: with MKSTREAM the stream is stored before the ID is
looked at. -/
def handleXgroupCreate (db : Nat) (parts : Parts) : StoreProg RespFrame :=
  reading (groupArgs "xgroup create" parts) fun (key, group, id) =>
    let mkstream := decide (5 < parts.length) && ((parts[5]?).bind word? == some "MKSTREAM")
    let absent (andThen : StoreProg RespFrame) : StoreProg RespFrame :=
      if mkstream then do
        need (.key db key (.setValue (.stream Stream.new) none))
        andThen
      else .ret (.err "ERR The XGROUP subcommand requires the key to exist")
    match groupStart true id with
    | .ok start => do
        let r ← need (.key db key (.groupCreate group start))
        match r with
        | .found a => return createdFrame a
        | .wrongType => return .err wrongTypeText
        | .missing =>
            absent (grouping db key (.groupCreate group start) (.err wrongTypeText) createdFrame)
    | .error complaint => do
        let r ← need (.key db key .get)
        match r.stream with
        | .found _ => return complaint
        | .wrongType => return .err wrongTypeText
        | .missing => absent (.ret complaint)

/-- `handle_xgroup_destroy`. -/
def handleXgroupDestroy (db : Nat) (parts : Parts) : StoreProg RespFrame :=
  reading (do
    arity "xgroup destroy" (parts.length == 4)
    let key ← bulk parts 2 "key"
    let group ← text parts 3 "group name"
    return (key, group))
    fun (key, group) => grouping db key (.groupDestroy group) (.integer 0) .flag

/-- Key, group and consumer. -/
def consumerArgs (cmd : String) (parts : Parts) : Args (Key × String × String) := do
  arity cmd (parts.length == 5)
  let key ← bulk parts 2 "key"
  let group ← text parts 3 "group name"
  let consumer ← text parts 4 "consumer name"
  return (key, group, consumer)

/-- `handle_xgroup_createconsumer`. -/
def handleXgroupCreateconsumer (db : Nat) (parts : Parts) : StoreProg RespFrame :=
  reading (consumerArgs "xgroup createconsumer" parts) fun (key, group, consumer) =>
    grouping db key (.groupCreateConsumer group consumer) noSuchKey fun
      | some created => .flag created
      | none => noGroupFrame group

/-- `handle_xgroup_delconsumer`. -/
def handleXgroupDelconsumer (db : Nat) (parts : Parts) : StoreProg RespFrame :=
  reading (consumerArgs "xgroup delconsumer" parts) fun (key, group, consumer) =>
    grouping db key (.groupDeleteConsumer group consumer) (.integer 0) fun removed =>
      count (removed.getD 0)

/-- `handle_xgroup_setid`. -/
def handleXgroupSetid (db : Nat) (parts : Parts) : StoreProg RespFrame :=
  reading (groupArgs "xgroup setid" parts) fun (key, group, id) =>
    match groupStart false id with
    | .ok start =>
        grouping db key (.groupSetId group start) noSuchKey fun known =>
          if known then .ok else noGroupFrame group
    | .error complaint => fetching db key noSuchKey fun _ => .ret complaint

/-- `handle_xgroup_help`. -/
def handleXgroupHelp : StoreProg RespFrame :=
  .ret (helpFrame
    ["XGROUP <subcommand> [<arg> [value] [opt] ...]. Subcommands are:",
     "CREATE <key> <groupname> <id or $> [MKSTREAM]",
     "    Create a new consumer group.",
     "SETID <key> <groupname> <id or $>",
     "    Set the current group ID.",
     "DESTROY <key> <groupname>",
     "    Remove the consumer group.",
     "CREATECONSUMER <key> <groupname> <consumername>",
     "    Create a new consumer in the group.",
     "DELCONSUMER <key> <groupname> <consumername>",
     "    Remove the consumer from the group.",
     "HELP",
     "    Print this help."])

/-- `handle_xgroup`. -/
def handleXgroup (db : Nat) (parts : Parts) : StoreProg RespFrame :=
  subcommands "xgroup" (fun
    | "CREATE" => some (handleXgroupCreate db parts)
    | "DESTROY" => some (handleXgroupDestroy db parts)
    | "CREATECONSUMER" => some (handleXgroupCreateconsumer db parts)
    | "DELCONSUMER" => some (handleXgroupDelconsumer db parts)
    | "SETID" => some (handleXgroupSetid db parts)
    | "HELP" => some handleXgroupHelp
    | _ => none) parts

/-! ## XREADGROUP -/

/-- The options of XREADGROUP. -/
structure ReadGroupOptions where
  limit : Option Nat := none
  block : Option Nat := none
  noack : Bool := false

/-- The value of an option; one that does not read as a number is none. -/
def optionValue (p : RespFrame) : Option Nat :=
  p.bulk?.bind fun bytes => parseU64 (fromUtf8Lossy bytes)

/-- The options up to STREAMS, and what comes after. -/
def readGroupOptions : Parts → ReadGroupOptions → Args (ReadGroupOptions × Parts)
  | [], _ => reject "ERR syntax error"
  | p :: ps, o =>
      match word? p with
      | none => reject "ERR syntax error"
      | some w =>
          if w = "COUNT" then
            match ps with
            | [] => reject "ERR syntax error"
            | v :: ps => readGroupOptions ps { o with limit := optionValue v }
          else if w = "BLOCK" then
            match ps with
            | [] => reject "ERR syntax error"
            | v :: ps => readGroupOptions ps { o with block := optionValue v }
          else if w = "NOACK" then readGroupOptions ps { o with noack := true }
          else if w = "STREAMS" then .ok (o, ps)
          else reject "ERR syntax error"

/-- The ID of XREADGROUP; `>` stands for what no consumer has seen. -/
def readGroupStart (s : String) : Option StreamId :=
  if s = ">" then some StreamId.max
  else if s = "0" ∨ s = "0-0" then some (StreamId.new 0 0)
  else StreamId.fromString s

/-- The loop of XREADGROUP: each stream is read, and its entries handed out,
before the next one is looked at. -/
def readGroupLoop (db : Nat) (group consumer : String) (o : ReadGroupOptions) :
    List (RespFrame × RespFrame) → List RespFrame → StoreProg RespFrame
  | [], acc => .ret (if acc.isEmpty && o.block.isSome then .nullArray else .list acc)
  | (k, i) :: rest, acc =>
      reading (do
        let key ← bulk [k] 0 "key"
        let id ← text [i] 0 "ID"
        return (key, id))
        fun (key, id) =>
          match readGroupStart id with
          | some after => do
              let r ← need (.key db key (.readGroup group consumer after o.limit o.noack))
              match r with
              | .wrongType => return .err wrongTypeText
              | .missing => readGroupLoop db group consumer o rest acc
              | .found (.error msg) => return .err msg
              | .found (.ok es) =>
                  readGroupLoop db group consumer o rest
                    (if es.isEmpty then acc else acc ++ [streamFrame key es])
          | none => do
              let r ← need (.key db key .get)
              match r.stream with
              | .wrongType => return .err wrongTypeText
              | .missing => readGroupLoop db group consumer o rest acc
              | .found _ => return .err "ERR Invalid stream ID specified"

/-- `handle_xreadgroup`. -/
def handleXreadgroup (db : Nat) (parts : Parts) : StoreProg RespFrame :=
  reading (do
    arity "xreadgroup" (6 ≤ parts.length)
    if (parts[1]?).bind word? ≠ some "GROUP" then reject "ERR syntax error"
    let group ← textOr "ERR invalid group name" parts 2
    let consumer ← textOr "ERR invalid consumer name" parts 3
    let (o, rest) ← readGroupOptions (parts.drop 4) {}
    let pairs ← keysAndIds "ERR Unbalanced XREADGROUP list of streams" rest
    return (group, consumer, o, pairs))
    fun (group, consumer, o, pairs) => readGroupLoop db group consumer o pairs []

/-! ## XACK, XPENDING and XCLAIM -/

/-- `handle_xack`. -/
def handleXack (db : Nat) (parts : Parts) : StoreProg RespFrame :=
  reading (do
    arity "xack" (4 ≤ parts.length)
    let key ← bulk parts 1 "key"
    let group ← text parts 2 "group name"
    let ids ← idArgs "ERR Invalid stream ID specified" (parts.drop 3)
    return (key, group, ids))
    fun (key, group, ids) =>
      grouping db key (.acknowledge group ids) (.integer 0) fun
        | .ok n => count n
        | .error msg => if containsText msg "NOGROUP" then .integer 0 else .err msg

/-- An optional ID. -/
def optId : Option StreamId → RespFrame
  | some id => .fromString id.toText
  | none => .nullBulk

/-- XPENDING without a range. -/
def pendingSummary (g : ConsumerGroup) : RespFrame :=
  .list
    [count g.pending.len, optId g.pending.minPendingId, optId g.pending.maxPendingId,
     .list ((g.consumers.toPairs.filter fun p => 0 < p.2.pendingCount).map fun p =>
       .list [.fromString p.1, count p.2.pendingCount])]

/-- One entry of XPENDING with a range. -/
def pendingFrame (now : Nat) (e : PendingEntry) : RespFrame :=
  .list
    [.fromString e.id.toText, .fromString e.consumer,
     count (ConsumerGroup.idleMs now e.lastDelivery), count e.deliveryCount]

/-- The range of XPENDING; a bound that is no ID does not limit it. -/
def pendingRangeArgs (parts : Parts) :
    Args (Option StreamId × Option StreamId × Nat × Option String) := do
  if parts.length < 6 then reject "ERR syntax error"
  let start ← textOr "ERR invalid start ID" parts 3
  let stop ← textOr "ERR invalid end ID" parts 4
  let n ← textOr "ERR invalid count" parts 5
  match parseU64 n with
  | none => reject "ERR value is not an integer"
  | some n =>
      let consumer := ((parts[6]?).bind RespFrame.bulk?).map fromUtf8Lossy
      return (if start = "-" then none else StreamId.fromString start,
        if stop = "+" then none else StreamId.fromString stop, n, consumer)

/-- `handle_xpending`: a range whose ends are the wrong way round panics. -/
def handleXpending (db : Nat) (parts : Parts) : StoreProg RespFrame :=
  reading (do
    arity "xpending" (3 ≤ parts.length)
    let key ← bulk parts 1 "key"
    let group ← text parts 2 "group name"
    return (key, group))
    fun (key, group) => fetching db key .nullArray fun s =>
      match s.consumerGroups.get? group with
      | none => .ret .nullArray
      | some g =>
          if parts.length = 3 then .ret (pendingSummary g)
          else
            reading (pendingRangeArgs parts) fun (start, stop, n, consumer) => do
              let now ← need (.store .systemTime)
              match g.pending.getRange start stop n consumer with
              | none => .panic
              | some es => return .list (es.map (pendingFrame now))

/-- The IDs and options of XCLAIM; IDLE, TIME and RETRYCOUNT are skipped with
their values. -/
def claimArgs : Parts → List StreamId → Bool → Bool → Args (List StreamId × Bool × Bool)
  | [], ids, force, justid =>
      if ids.isEmpty then reject "ERR syntax error" else .ok (ids, force, justid)
  | p :: ps, ids, force, justid =>
      match p.bulk?.map fromUtf8Lossy with
      | none => reject "ERR syntax error"
      | some arg =>
          let w := toUppercase arg
          if w = "FORCE" then claimArgs ps ids true justid
          else if w = "JUSTID" then claimArgs ps ids force true
          else if w = "IDLE" ∨ w = "TIME" ∨ w = "RETRYCOUNT" then
            match ps with
            | [] => claimArgs [] ids force justid
            | _ :: ps => claimArgs ps ids force justid
          else
            match StreamId.fromString arg with
            | some id => claimArgs ps (ids ++ [id]) force justid
            | none => reject "ERR Invalid stream ID"

/-- `handle_xclaim`. -/
def handleXclaim (db : Nat) (parts : Parts) : StoreProg RespFrame :=
  reading (do
    arity "xclaim" (6 ≤ parts.length)
    let key ← bulk parts 1 "key"
    let group ← textOr "ERR invalid group name" parts 2
    let consumer ← textOr "ERR invalid consumer name" parts 3
    let idle ← textOr "ERR invalid min-idle-time" parts 4
    match parseU64 idle with
    | none => reject "ERR Invalid min-idle-time"
    | some idle =>
        let (ids, force, justid) ← claimArgs (parts.drop 5) [] false false
        return (key, group, consumer, idle, ids, force, justid))
    fun (key, group, consumer, idle, ids, force, justid) =>
      grouping db key (.claim group consumer idle ids force) (.list []) fun
        | .ok es =>
            if justid then .list (es.map fun e => .fromString e.id.toText) else entriesFrame es
        | .error msg => .err msg

end Ferrous
