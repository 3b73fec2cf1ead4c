/-
# `Commands.TypedExecution` — carrying out typed commands

`UnifiedCommandExecutor::execute` calls the engine itself for most commands and passes every
error on.  For the streams, the groups, the SCAN family and a few others it makes frames of
the typed command again and hands them to the handlers of the network; options that have no
place in these frames are lost.  The commands on a whole database ask the context of the
connection for it, which a script has none of.
-/
import Ferrous.Commands.LuaValues
import Ferrous.Commands.TypedCommands
import Ferrous.Lib.Lockstep

namespace Ferrous

open Lib

namespace Executor

open Unified

/-! ## Strings, lists, sets and hashes -/

/-- `deleted += 1`, `count += 1`: how many of the keys the operation says yes for. -/
def countLoop (c : KeyCmd Bool) (db : Nat) : List Key → Nat → StoreProg RespFrame
  | [], n => return count n
  | key :: keys, n => do
      let yes ← need (.key db key c)
      countLoop c db keys (if yes then n + 1 else n)

/-- `StringCommand::Set`, behind the old value: whether something was stored. -/
def store (db : Nat) (key : Key) (value : Bytes) (options : Unified.SetOptions) : StoreProg Bool :=
  if options.nx then
    match options.expiration with
    | some d => need (.key db key (.setStringNxEx value d))
    | none => need (.key db key (.setStringNx value))
  else if options.xx then do
    let there ← need (.key db key .exists?)
    if !there then return false
    else
      need (.key db key (setString value options.expiration))
      return true
  else do
    need (.key db key (setString value options.expiration))
    return true

/-- `StringCommand::Set`: the old value is read first, and KEEPTTL is not looked at. -/
def executeSet (db : Nat) (key : Key) (value : Bytes) (options : Unified.SetOptions) : StoreProg RespFrame :=
  if options.nx && options.xx then return .err "ERR NX and XX options are mutually exclusive"
  else do
    let old ← if options.get then need (.key db key .getString) else pure none
    let success ← store db key value options
    return if options.get then .optBytes old
      else if (options.nx || options.xx) && !success then .nullBulk
      else .ok

/-- The frames of keys and values in turn. -/
def pairFrames (pairs : List (Bytes × Bytes)) : Parts :=
  pairs.flatMap fun p => [.fromBytes p.1, .fromBytes p.2]

/-- `execute_string`, every command. -/
def executeStrings (overflowChecks : Bool) (db : Nat) : Unified.StringCommand → StoreProg RespFrame
  | .set key value options => executeSet db key value options
  | .get key => onKey .raise db key .getString .optBytes
  | .mGet keys => handleMget db (.fromString "MGET" :: keys.map .fromBytes)
  | .mSet pairs => handleMset db (.fromString "MSET" :: pairFrames pairs)
  | .counter c => executeString overflowChecks db c
  | .setNx key value => onKey .raise db key (.setStringNx value) .flag
  | .setEx key value seconds => onKey .raise db key (setString value (some (fromSecs seconds))) fun _ => .ok
  | .pSetEx key value milliseconds =>
      onKey .raise db key (setString value (some (fromMillis milliseconds))) fun _ => .ok
  | .append key value => onKey .raise db key (.append value) count
  | .strLen key => onKey .raise db key .strlen count
  | .getSet key value => handleGetset db [.fromString "GETSET", .fromBytes key, .fromBytes value]
  | .getRange key start stop => onKey .raise db key (.getrange start stop) .fromBytes
  | .setRange key offset value => onKey .raise db key (.setrange offset value) count
  | .del keys => countLoop .delete db keys 0

/-- `execute_list`. -/
def executeList (db : Nat) : ListCommand → StoreProg RespFrame
  | .lPush key values => onKey .raise db key (.lpush values) count
  | .rPush key values => onKey .raise db key (.rpush values) count
  | .lPop key => onKey .raise db key .lpop .optBytes
  | .rPop key => onKey .raise db key .rpop .optBytes
  | .lLen key => onKey .raise db key .llen count
  | .lIndex key index => onKey .raise db key (.lindex index) .optBytes
  | .lSet key index value => onKey .raise db key (.lset index value) fun _ => .ok
  | .lRange key start stop => onKey .raise db key (.lrange start stop) items
  | .lTrim key start stop => onKey .raise db key (.ltrim start stop) fun _ => .ok
  | .lRem key n element => onKey .raise db key (.lrem n element) count

/-- The reply to a draw: a single member comes without its array. -/
def drawn (n : Int) (members : List Bytes) : RespFrame :=
  match members with
  | member :: _ => if n = 1 then .fromBytes member else items members
  | [] => items []

/-- `execute_set`. -/
def executeSetCommand (db : Nat) : SetCommand → StoreProg RespFrame
  | .sAdd key members => onKey .raise db key (.sadd members) count
  | .sRem key members => onKey .raise db key (.srem members) count
  | .sMembers key => onKey .raise db key .smembers items
  | .sCard key => onKey .raise db key .scard count
  | .sIsMember key member => onKey .raise db key (.sismember member) .flag
  | .sUnion keys => calling .raise (.store (.sunion db keys)) items
  | .sInter keys => calling .raise (.store (.sinter db keys)) items
  | .sDiff keys => calling .raise (.store (.sdiff db keys)) items
  | .sRandMember key n => onKey .raise db key (.srandmember (n.getD 1)) (drawn (n.getD 1))
  | .sPop key n => onKey .raise db key (.spop (n.getD 1)) (drawn (n.getD 1))

/-- `execute_hash`, every command. -/
def executeHashes (db : Nat) : Unified.HashCommand → StoreProg RespFrame
  | .hSet key fieldValues => onKey .raise db key (.hset fieldValues) count
  | .hGet key field => onKey .raise db key (.hget field) .optBytes
  | .hMSet key fieldValues => onKey .raise db key (.hset fieldValues) fun _ => .ok
  | .hMGet key fields => onKey .raise db key (.hmget fields) fun values => .list (values.map .optBytes)
  | .hGetAll key => onKey .raise db key .hgetall fun pairs => .list (pairFrames pairs)
  | .hDel key fields => onKey .raise db key (.hdel fields) count
  | .hLen key => onKey .raise db key .hlen count
  | .hExists key field => onKey .raise db key (.hexists field) .flag
  | .hKeys key => onKey .raise db key .hkeys items
  | .hVals key => onKey .raise db key .hvals items
  | .counter c => executeHash db c

/-! ## Sorted sets -/

/-- The loop of ZADD. -/
def addLoop (db : Nat) (key : Key) : List (Float64 × Bytes) → Nat → StoreProg RespFrame
  | [], added => return count added
  | (score, member) :: rest, added => do
      let new ← need (.key db key (.zadd member score))
      addLoop db key rest (if new then added + 1 else added)

/-- The loop of ZREM. -/
def remLoop (db : Nat) (key : Key) : List Bytes → Nat → StoreProg RespFrame
  | [], removed => return count removed
  | member :: members, removed => do
      let gone ← need (.key db key (.zrem member))
      remLoop db key members (if gone then removed + 1 else removed)

/-- `execute_sorted_set`, every command; ZREMRANGEBYLEX removes nothing. -/
def executeSortedSets (db : Nat) : Unified.SortedSetCommand → StoreProg RespFrame
  | .zAdd key scoreMembers => addLoop db key scoreMembers 0
  | .zRem key members => remLoop db key members 0
  | .zScore key member => onKey .raise db key (.zscore member) fun score => (score.map scoreFrame).getD .nullBulk
  | .zCard key => onKey .raise db key .zcard count
  | .zRank key member => onKey .raise db key (.zrank member false) fun rank => (rank.map count).getD .nullBulk
  | .zRevRank key member => onKey .raise db key (.zrank member true) fun rank => (rank.map count).getD .nullBulk
  | .zRevRange key start stop withScores =>
      onKey .raise db key (.zrange start stop true) (memberFrames withScores)
  | .zCount key minScore maxScore => onKey .raise db key (.zcount minScore maxScore) count
  | .zIncrBy key increment member => onKey .raise db key (.zincrby member increment) scoreFrame
  | .zRevRangeByScore key maxScore minScore withScores =>
      onKey .raise db key (.zrangebyscore minScore maxScore true) (memberFrames withScores)
  | .zRemRangeByLex _ _ _ => return count 0
  | .ranged c => executeSortedSet db c

/-! ## Keys and the server -/

/-- Whole seconds of a deadline; less than a second counts as one. -/
def wholeSeconds (d : Duration) : Int :=
  let secs : Nat := d / 10 ^ 9
  let nanos : Nat := d % 10 ^ 9
  if secs = 0 ∧ 0 < nanos / 10 ^ 6 then 1 else secs

/-- `execute_key`; RENAMENX is a RENAME. -/
def executeKey (db : Nat) : KeyCommand → StoreProg RespFrame
  | .exists? keys => countLoop .exists? db keys 0
  | .expire key seconds => onKey .raise db key (.expire (fromSecs seconds)) .flag
  | .pExpire key milliseconds => onKey .raise db key (.expire (fromMillis milliseconds)) .flag
  | .ttl key => do
      match ← need (.key db key .ttl) with
      | some d => return .integer (wholeSeconds d)
      | none => onKey .raise db key .exists? fun there => .integer (if there then -1 else -2)
  | .pttl key => onKey .raise db key .pttl .integer
  | .persist key => onKey .raise db key .persist .flag
  | .type key => onKey .raise db key .keyType .fromString
  | .rename oldKey newKey => calling .raise (.store (.rename db oldKey newKey)) fun _ => .ok
  | .renameNx oldKey newKey =>
      handleRename db [.fromString "RENAMENX", .fromBytes oldKey, .fromBytes newKey]
  | .randomKey => do
      let keys ← need (.store (.getAllKeys db))
      if keys.isEmpty then return .nullBulk
      else
        let i ← need (.store (.draw keys.length))
        return .optBytes keys[i]?

/-- `execute_server`. -/
def executeServer : ServerCommand → StoreProg RespFrame
  | .ping (some message) => return .fromBytes message
  | .ping none => return .fromString "PONG"
  | .echo message => return .fromBytes message
  | .time => do
      let now ← need (.store .systemTime)
      return .list [.fromString (toString (now / 10 ^ 9)), .fromString (toString (now % 10 ^ 9 / 1000))]
  | .info _ => return .fromString "# Server\nredis_version:7.0.0\n"

/-! ## Commands that become frames again -/

/-- `COUNT n`, where there is one. -/
def countFrames : Option Nat → Parts
  | some n => [.fromString "COUNT", .fromString (toString n)]
  | none => []

/-- `execute_stream`: the time of BLOCK is lost. -/
def executeStream (db : Nat) : StreamCommand → StoreProg RespFrame
  | .xAdd key id fields =>
      handleXadd db (.fromString "XADD" :: .fromBytes key :: .fromString (id.getD "*") :: pairFrames fields)
  | .xLen key => handleXlen db [.fromString "XLEN", .fromBytes key]
  | .xRange key start stop n =>
      handleXrange db
        ([.fromString "XRANGE", .fromBytes key, .fromString start, .fromString stop] ++ countFrames n)
  | .xRevRange key start stop n =>
      handleXrevrange db
        ([.fromString "XREVRANGE", .fromBytes key, .fromString start, .fromString stop] ++ countFrames n)
  | .xRead keysAndIds n _ =>
      handleXread db
        ([.fromString "XREAD"] ++ countFrames n ++ [.fromString "STREAMS"] ++
          keysAndIds.map (fun p => .fromBytes p.1) ++ keysAndIds.map fun p => .fromString p.2)
  | .xTrim key strategy threshold =>
      handleXtrim db
        [.fromString "XTRIM", .fromBytes key, .fromString strategy, .fromString (toString threshold)]
  | .xDel key ids => handleXdel db (.fromString "XDEL" :: .fromBytes key :: ids.map .fromString)

/-- `MATCH pattern`, where there is one. -/
def matchFrames : Option Bytes → Parts
  | some pattern => [.fromString "MATCH", .fromBytes pattern]
  | none => []

/-- `TYPE name`, where there is one. -/
def typeFrames : Option String → Parts
  | some name => [.fromString "TYPE", .fromString name]
  | none => []

/-- `execute_scan`. -/
def executeScan (db : Nat) : ScanCommand → StoreProg RespFrame
  | .scan cursor pattern n typeFilter =>
      handleScan db ([.fromString "SCAN", .fromString (toString cursor)] ++ matchFrames pattern ++
        countFrames n ++ typeFrames typeFilter)
  | .hScan key cursor pattern n =>
      handleHscan db ([.fromString "HSCAN", .fromBytes key, .fromString (toString cursor)] ++
        matchFrames pattern ++ countFrames n)
  | .sScan key cursor pattern n =>
      handleSscan db ([.fromString "SSCAN", .fromBytes key, .fromString (toString cursor)] ++
        matchFrames pattern ++ countFrames n)
  | .zScan key cursor pattern n =>
      handleZscan db ([.fromString "ZSCAN", .fromBytes key, .fromString (toString cursor)] ++
        matchFrames pattern ++ countFrames n)

/-- `execute_consumer_group`: XREADGROUP mixes keys and IDs, and NOACK, BLOCK, FORCE, JUSTID
and the consumer of XPENDING are lost. -/
def executeConsumerGroup (db : Nat) : ConsumerGroupCommand → StoreProg RespFrame
  | .xGroup subcommand key group args =>
      handleXgroup db ([.fromString "XGROUP", .fromString subcommand, .fromBytes key, .fromString group] ++
        args.map .fromString)
  | .xReadGroup group consumer keysAndIds n _ _ =>
      handleXreadgroup db
        ([.fromString "XREADGROUP", .fromString "GROUP", .fromString group, .fromString consumer] ++
          countFrames n ++ [.fromString "STREAMS"] ++
          keysAndIds.flatMap fun p => [.fromBytes p.1, .fromString p.2])
  | .xAck key group ids =>
      handleXack db ([.fromString "XACK", .fromBytes key, .fromString group] ++ ids.map .fromString)
  | .xPending key group range _ =>
      handleXpending db ([.fromString "XPENDING", .fromBytes key, .fromString group] ++
        match range with
        | some (start, stop, n) => [.fromString start, .fromString stop, .fromString (toString n)]
        | none => [])
  | .xClaim key group consumer minIdleTime ids _ _ =>
      handleXclaim db ([.fromString "XCLAIM", .fromBytes key, .fromString group, .fromString consumer,
        .fromString (toString minIdleTime)] ++ ids.map .fromString)
  | .xInfo subcommand key group =>
      handleXinfo db ([.fromString "XINFO", .fromString subcommand, .fromBytes key] ++
        match group with
        | some g => [.fromString g]
        | none => [])

/-! ## Databases, persistence and configuration -/

/-- `for db_idx in 0..database_count()`. -/
def flushLoop (db : Nat) : Nat → StoreProg RespFrame
  | 0 => return .ok
  | n + 1 => do
      need (.store (.flushDb db))
      flushLoop (db + 1) n

/-- `execute_database`, on the database of the connection, or on the first one. -/
def executeDatabase (context : Option Nat) : DatabaseCommand → StoreProg RespFrame
  | .flushDb => calling .raise (.store (.flushDb (context.getD 0))) fun _ => .ok
  | .flushAll => do
      let n ← need (.store .databaseCount)
      flushLoop 0 n
  | .dbSize => calling .raise (.store (.getAllKeys (context.getD 0))) fun keys => count keys.length
  | .keys pattern => handleKeys (context.getD 0) [.fromString "KEYS", .fromBytes pattern]

/-- `execute_persistence`: nothing is saved. -/
def executePersistence : PersistenceCommand → StoreProg RespFrame
  | .save => return .ok
  | .bgSave => return .fromString "Background saving started"
  | .lastSave => do
      let now ← need (.store .systemTime)
      return count (now / 10 ^ 9)
  | .bgRewriteAof => return .fromString "Background append only file rewriting started"

/-- `execute_config`: nothing is set. -/
def executeConfig : ConfigCommand → StoreProg RespFrame
  | .get parameter =>
      return match toLowercase parameter with
        | "maxmemory" => .list [.fromString "maxmemory", .fromString "0"]
        | "timeout" => .list [.fromString "timeout", .fromString "0"]
        | _ => .list [.fromString parameter, .fromString ""]
  | .set _ _ => return .ok

/-! ## The executor and its adapters -/

/-- `UnifiedCommandExecutor::execute`, with the database of the connection, if there is one,
and the one the command was given. -/
def executeCommand (overflowChecks : Bool) (context dbOverride : Option Nat) (command : Unified.Command) :
    StoreProg RespFrame :=
  let db := (dbOverride.or context).getD 0
  match command with
  | .string c => executeStrings overflowChecks db c
  | .list c => executeList db c
  | .set c => executeSetCommand db c
  | .hash c => executeHashes db c
  | .sortedSet c => executeSortedSets db c
  | .key c => executeKey db c
  | .server c => executeServer c
  | .stream c => executeStream db c
  | .scan c => executeScan db c
  | .database c => executeDatabase context c
  | .consumerGroup c => executeConsumerGroup db c
  | .persistence c => executePersistence c
  | .bit c => executeBit db c
  | .config c => executeConfig c

/-- `ServerCommandAdapter::execute_with_context`. -/
def executeWithContext (overflowChecks : Bool) (frames : Parts) (dbIndex : Nat) : StoreProg RespFrame :=
  execute (CommandParser.parse frames) (executeCommand overflowChecks (some dbIndex) none)

/-- `LuaCommandAdapter::execute_lua_command`. -/
def executeLuaCommand (overflowChecks : Bool) (args : List String) (dbIndex : Nat) : StoreProg RespFrame :=
  execute (CommandParser.parse (args.map .fromString)) (executeCommand overflowChecks none (some dbIndex))

end Executor

/-! ## `redis.call` -/

namespace LuaEngine

/-- The text of an argument: a string, or a number written out. -/
def argument : LuaValue → Except String String
  | .string bytes =>
      match fromUtf8 bytes with
      | some s => .ok s
      | none => .error "Invalid UTF-8 in command argument"
  | .integer n => .ok (toString n)
  | .number x => .ok x.toText
  | _ => .error "Invalid argument type"

/-- What a script may not call, and what it is told. -/
def blocked (name : String) : Option String :=
  if name ∈ ["EVAL", "EVALSHA", "SCRIPT"] then
    some "Redis scripting commands are not allowed inside Lua scripts"
  else if name ∈ ["SELECT", "AUTH", "QUIT", "CLIENT"] then
    some ("'" ++ name ++ "' command requires connection context not available in Lua scripts")
  else if name ∈ ["MULTI", "EXEC", "DISCARD", "WATCH", "UNWATCH"] then
    some ("'" ++ name ++ "' command is not allowed inside Lua scripts - scripts are inherently atomic")
  else if name ∈ ["BLPOP", "BRPOP", "BZPOPMIN", "BZPOPMAX"] then
    some ("'" ++ name ++ "' blocking command is not allowed inside Lua scripts")
  else if name ∈ ["SUBSCRIBE", "UNSUBSCRIBE", "PSUBSCRIBE", "PUNSUBSCRIBE", "PUBSUB"] then
    some ("'" ++ name ++ "' pub/sub command is not allowed inside Lua scripts")
  else if name ∈ ["MONITOR", "RESET"] then
    some ("'" ++ name ++ "' monitoring command is not allowed inside Lua scripts")
  else if name ∈ ["CONFIG", "SHUTDOWN", "DEBUG", "ACL"] then
    some ("'" ++ name ++ "' administrative command is not allowed inside Lua scripts")
  else none

/-- `execute_unified_redis_command`: a value, or the text the script is aborted with. -/
def redisCall (overflowChecks : Bool) (dbIndex : Nat) (isPcall : Bool) (cmd : List LuaValue) :
    StoreProg (Except String LuaValue) :=
  match cmd.mapM argument with
  | .error msg => return handleCommandErrorWithContext msg isPcall
  | .ok [] => return handleCommandErrorWithContext "No command specified" isPcall
  | .ok (name :: args) =>
      match blocked (toUppercase name) with
      | some msg => return handleCommandErrorWithContext msg isPcall
      | none => Prog.bind (Prog.catching (Executor.executeLuaCommand overflowChecks (name :: args) dbIndex)) fun
          | .ok frame => return respFrameToLuaValue isPcall frame
          | .error e => return handleCommandErrorWithContext e.display isPcall

end LuaEngine

end Ferrous
