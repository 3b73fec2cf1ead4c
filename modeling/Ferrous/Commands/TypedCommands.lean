/-
# `Commands.TypedCommands` — what the command parser makes of frames

`CommandParser::parse` turns the frames of a command into one of fourteen kinds of
typed command.  It reads every argument before anything is carried out, in an order of
its own, and takes nothing but bulk strings.  The counters, the ranges of sorted sets
and the bits are in `Commands.Executor` and `Commands.Bits`.
-/
import Ferrous.Commands.Bits
import Ferrous.Commands.Groups

namespace Ferrous

open Lib

/-! ## Commands -/

namespace Unified

/-- `SetOptions`. -/
structure SetOptions where
  nx : Bool := false
  xx : Bool := false
  get : Bool := false
  expiration : Option Duration := none
  keepttl : Bool := false
  deriving DecidableEq

/-- `StringCommand`. -/
inductive StringCommand
  | set (key : Key) (value : Bytes) (options : SetOptions)
  | get (key : Key)
  | mGet (keys : List Key)
  | mSet (pairs : List (Key × Bytes))
  | counter (c : Ferrous.StringCommand)
  | setNx (key : Key) (value : Bytes)
  | setEx (key : Key) (value : Bytes) (seconds : Nat)
  | pSetEx (key : Key) (value : Bytes) (milliseconds : Nat)
  | append (key : Key) (value : Bytes)
  | strLen (key : Key)
  | getSet (key : Key) (value : Bytes)
  | getRange (key : Key) (start stop : Int)
  | setRange (key : Key) (offset : Nat) (value : Bytes)
  | del (keys : List Key)

/-- `ListCommand`. -/
inductive ListCommand
  | lPush (key : Key) (values : List Bytes)
  | rPush (key : Key) (values : List Bytes)
  | lPop (key : Key)
  | rPop (key : Key)
  | lLen (key : Key)
  | lIndex (key : Key) (index : Int)
  | lSet (key : Key) (index : Int) (value : Bytes)
  | lRange (key : Key) (start stop : Int)
  | lTrim (key : Key) (start stop : Int)
  | lRem (key : Key) (count : Int) (element : Bytes)

/-- `SetCommand`. -/
inductive SetCommand
  | sAdd (key : Key) (members : List Bytes)
  | sRem (key : Key) (members : List Bytes)
  | sMembers (key : Key)
  | sCard (key : Key)
  | sIsMember (key : Key) (member : Bytes)
  | sUnion (keys : List Key)
  | sInter (keys : List Key)
  | sDiff (keys : List Key)
  | sRandMember (key : Key) (count : Option Int)
  | sPop (key : Key) (count : Option Nat)

/-- `HashCommand`. -/
inductive HashCommand
  | hSet (key : Key) (fieldValues : List (Bytes × Bytes))
  | hGet (key : Key) (field : Bytes)
  | hMSet (key : Key) (fieldValues : List (Bytes × Bytes))
  | hMGet (key : Key) (fields : List Bytes)
  | hGetAll (key : Key)
  | hDel (key : Key) (fields : List Bytes)
  | hLen (key : Key)
  | hExists (key : Key) (field : Bytes)
  | hKeys (key : Key)
  | hVals (key : Key)
  | counter (c : Ferrous.HashCommand)

/-- `SortedSetCommand`. -/
inductive SortedSetCommand
  | zAdd (key : Key) (scoreMembers : List (Float64 × Bytes))
  | zRem (key : Key) (members : List Bytes)
  | zScore (key : Key) (member : Bytes)
  | zCard (key : Key)
  | zRank (key : Key) (member : Bytes)
  | zRevRank (key : Key) (member : Bytes)
  | zRevRange (key : Key) (start stop : Int) (withScores : Bool)
  | zCount (key : Key) (minScore maxScore : Float64)
  | zIncrBy (key : Key) (increment : Float64) (member : Bytes)
  | zRevRangeByScore (key : Key) (maxScore minScore : Float64) (withScores : Bool)
  | zRemRangeByLex (key : Key) (minLex maxLex : String)
  | ranged (c : Ferrous.SortedSetCommand)

/-- `KeyCommand`. -/
inductive KeyCommand
  | exists? (keys : List Key)
  | expire (key : Key) (seconds : Nat)
  | pExpire (key : Key) (milliseconds : Nat)
  | ttl (key : Key)
  | pttl (key : Key)
  | persist (key : Key)
  | type (key : Key)
  | rename (oldKey newKey : Key)
  | renameNx (oldKey newKey : Key)
  | randomKey

/-- `ServerCommand`. -/
inductive ServerCommand
  | ping (message : Option Bytes)
  | echo (message : Bytes)
  | time
  | info (section? : Option String)

/-- `StreamCommand`. -/
inductive StreamCommand
  | xAdd (key : Key) (id : Option String) (fields : List (Bytes × Bytes))
  | xLen (key : Key)
  | xRange (key : Key) (start stop : String) (count : Option Nat)
  | xRevRange (key : Key) (start stop : String) (count : Option Nat)
  | xRead (keysAndIds : List (Key × String)) (count block : Option Nat)
  | xTrim (key : Key) (strategy : String) (threshold : Nat)
  | xDel (key : Key) (ids : List String)

/-- `ScanCommand`. -/
inductive ScanCommand
  | scan (cursor : Nat) (pattern : Option Bytes) (count : Option Nat) (typeFilter : Option String)
  | hScan (key : Key) (cursor : Nat) (pattern : Option Bytes) (count : Option Nat)
  | sScan (key : Key) (cursor : Nat) (pattern : Option Bytes) (count : Option Nat)
  | zScan (key : Key) (cursor : Nat) (pattern : Option Bytes) (count : Option Nat)

/-- `DatabaseCommand`. -/
inductive DatabaseCommand
  | flushDb
  | flushAll
  | dbSize
  | keys (pattern : Bytes)

/-- `ConsumerGroupCommand`. -/
inductive ConsumerGroupCommand
  | xGroup (subcommand : String) (key : Key) (group : String) (args : List String)
  | xReadGroup (group consumer : String) (keysAndIds : List (Key × String)) (count block : Option Nat)
      (noack : Bool)
  | xAck (key : Key) (group : String) (ids : List String)
  | xPending (key : Key) (group : String) (range : Option (String × String × Nat)) (consumer : Option String)
  | xClaim (key : Key) (group consumer : String) (minIdleTime : Nat) (ids : List String) (force justid : Bool)
  | xInfo (subcommand : String) (key : Key) (group : Option String)

/-- `PersistenceCommand`. -/
inductive PersistenceCommand
  | save
  | bgSave
  | lastSave
  | bgRewriteAof

/-- `ConfigCommand`. -/
inductive ConfigCommand
  | get (parameter : String)
  | set (parameter value : String)

/-- `Command`. -/
inductive Command
  | string (c : StringCommand)
  | list (c : ListCommand)
  | set (c : SetCommand)
  | hash (c : HashCommand)
  | sortedSet (c : SortedSetCommand)
  | key (c : KeyCommand)
  | server (c : ServerCommand)
  | stream (c : StreamCommand)
  | scan (c : ScanCommand)
  | database (c : DatabaseCommand)
  | consumerGroup (c : ConsumerGroupCommand)
  | persistence (c : PersistenceCommand)
  | bit (c : BitCommand)
  | config (c : ConfigCommand)

end Unified

/-! ## Shapes of arguments -/

namespace CommandParser

open Unified

variable {γ : Type}

/-- `WrongNumberOfArguments`. -/
def wrongNumber (name : String) : Except FerrousError γ := .error (.command (.wrongNumberOfArguments name))

/-- `SyntaxError`. -/
def syntaxError (msg : String) : Except FerrousError γ := .error (.command (.syntaxError msg))

/-- An option of a command, in upper case. -/
def extractWord (frame : RespFrame) : Except FerrousError String := return toUppercase (← extractString frame)

/-- A command whose only argument is the key. -/
def keyOnly (name : String) (make : Key → γ) : Parts → Except FerrousError γ
  | [_, key] => return make (← extractBytes key)
  | _ => wrongNumber name

/-- A key and one more byte string. -/
def keyAndBytes (name : String) (make : Key → Bytes → γ) : Parts → Except FerrousError γ
  | [_, key, value] => return make (← extractBytes key) (← extractBytes value)
  | _ => wrongNumber name

/-- At least one byte string. -/
def allBytes (name : String) (make : List Bytes → γ) : Parts → Except FerrousError γ
  | _ :: p :: ps => return make (← (p :: ps).mapM extractBytes)
  | _ => wrongNumber name

/-- A key and at least one byte string. -/
def keyAndBytesList (name : String) (make : Key → List Bytes → γ) : Parts → Except FerrousError γ
  | _ :: key :: p :: ps => return make (← extractBytes key) (← (p :: ps).mapM extractBytes)
  | _ => wrongNumber name

/-- Byte strings in pairs. -/
def extractPairs : Parts → Except FerrousError (List (Bytes × Bytes))
  | k :: v :: ps => do
      let key ← extractBytes k
      let value ← extractBytes v
      return (key, value) :: (← extractPairs ps)
  | _ => .ok []

/-- A key and at least one pair of byte strings. -/
def keyAndPairs (name : String) (make : Key → List (Bytes × Bytes) → γ) (frames : Parts) :
    Except FerrousError γ :=
  if frames.length < 4 ∨ frames.length % 2 ≠ 0 then wrongNumber name
  else
    match frames with
    | _ :: key :: ps => return make (← extractBytes key) (← extractPairs ps)
    | _ => wrongNumber name

/-- A key and the two ends of a range, which are read first. -/
def keyAndRange (name : String) (make : Key → Int → Int → γ) : Parts → Except FerrousError γ
  | [_, key, start, stop] => do
      let first ← extractI64 start
      let last ← extractI64 stop
      return make (← extractBytes key) first last
  | _ => wrongNumber name

/-- A key, a duration and a value: the duration is read first. -/
def keyTimeAndBytes (name : String) (make : Key → Bytes → Nat → γ) : Parts → Except FerrousError γ
  | [_, key, time, value] => do
      let n ← extractUsize time
      return make (← extractBytes key) (← extractBytes value) n
  | _ => wrongNumber name

/-! ## Strings -/

/-- The option loop of SET. -/
def setLoop : Parts → Unified.SetOptions → Except FerrousError Unified.SetOptions
  | [], options => .ok options
  | p :: ps, options => do
      match ← extractWord p with
      | "NX" => setLoop ps { options with nx := true }
      | "XX" => setLoop ps { options with xx := true }
      | "GET" => setLoop ps { options with get := true }
      | "EX" =>
          match ps with
          | [] => syntaxError "Missing EX value"
          | time :: ps => do
              let seconds ← extractUsize time
              setLoop ps { options with expiration := some (fromSecs seconds) }
      | "PX" =>
          match ps with
          | [] => syntaxError "Missing PX value"
          | time :: ps => do
              let millis ← extractUsize time
              setLoop ps { options with expiration := some (fromMillis millis) }
      | "KEEPTTL" => setLoop ps { options with keepttl := true }
      | _ => syntaxError "Unknown SET option"

/-- `parse_set`. -/
def parseSet : Parts → Except FerrousError Unified.StringCommand
  | _ :: k :: v :: ps => do
      let key ← extractBytes k
      let value ← extractBytes v
      return .set key value (← setLoop ps {})
  | _ => wrongNumber "SET"

/-- `parse_get`. -/
def parseGet := keyOnly "GET" Unified.StringCommand.get

/-- `parse_mget`. -/
def parseMget := allBytes "MGET" Unified.StringCommand.mGet

/-- `parse_mset`. -/
def parseMset (frames : Parts) : Except FerrousError Unified.StringCommand :=
  if frames.length < 3 ∨ frames.length % 2 = 0 then wrongNumber "MSET"
  else return .mSet (← extractPairs (frames.drop 1))

/-- `parse_setnx`. -/
def parseSetnx := keyAndBytes "SETNX" Unified.StringCommand.setNx

/-- `parse_setex`. -/
def parseSetex := keyTimeAndBytes "SETEX" Unified.StringCommand.setEx

/-- `parse_psetex`. -/
def parsePsetex := keyTimeAndBytes "PSETEX" Unified.StringCommand.pSetEx

/-- `parse_append`. -/
def parseAppend := keyAndBytes "APPEND" Unified.StringCommand.append

/-- `parse_strlen`. -/
def parseStrlen := keyOnly "STRLEN" Unified.StringCommand.strLen

/-- `parse_getset`. -/
def parseGetset := keyAndBytes "GETSET" Unified.StringCommand.getSet

/-- `parse_getrange`. -/
def parseGetrange := keyAndRange "GETRANGE" Unified.StringCommand.getRange

/-- `parse_setrange`. -/
def parseSetrange : Parts → Except FerrousError Unified.StringCommand
  | [_, key, offset, value] => do
      let n ← extractUsize offset
      return .setRange (← extractBytes key) n (← extractBytes value)
  | _ => wrongNumber "SETRANGE"

/-- `parse_del`. -/
def parseDel := allBytes "DEL" Unified.StringCommand.del

/-! ## Lists -/

/-- `parse_lpush`. -/
def parseLpush := keyAndBytesList "LPUSH" ListCommand.lPush

/-- `parse_rpush`. -/
def parseRpush := keyAndBytesList "RPUSH" ListCommand.rPush

/-- `parse_lpop`. -/
def parseLpop := keyOnly "LPOP" ListCommand.lPop

/-- `parse_rpop`. -/
def parseRpop := keyOnly "RPOP" ListCommand.rPop

/-- `parse_llen`. -/
def parseLlen := keyOnly "LLEN" ListCommand.lLen

/-- `parse_lindex`. -/
def parseLindex : Parts → Except FerrousError ListCommand
  | [_, key, index] => do
      let i ← extractI64 index
      return .lIndex (← extractBytes key) i
  | _ => wrongNumber "LINDEX"

/-- `parse_lset`. -/
def parseLset : Parts → Except FerrousError ListCommand
  | [_, key, index, value] => do
      let i ← extractI64 index
      return .lSet (← extractBytes key) i (← extractBytes value)
  | _ => wrongNumber "LSET"

/-- `parse_lrange`. -/
def parseLrange := keyAndRange "LRANGE" ListCommand.lRange

/-- `parse_ltrim`. -/
def parseLtrim := keyAndRange "LTRIM" ListCommand.lTrim

/-- `parse_lrem`. -/
def parseLrem : Parts → Except FerrousError ListCommand
  | [_, key, count, element] => do
      let n ← extractI64 count
      return .lRem (← extractBytes key) n (← extractBytes element)
  | _ => wrongNumber "LREM"

/-! ## Sets -/

/-- `parse_sadd`. -/
def parseSadd := keyAndBytesList "SADD" SetCommand.sAdd

/-- `parse_srem`. -/
def parseSrem := keyAndBytesList "SREM" SetCommand.sRem

/-- `parse_smembers`. -/
def parseSmembers := keyOnly "SMEMBERS" SetCommand.sMembers

/-- `parse_scard`. -/
def parseScard := keyOnly "SCARD" SetCommand.sCard

/-- `parse_sismember`. -/
def parseSismember := keyAndBytes "SISMEMBER" SetCommand.sIsMember

/-- `parse_sunion`. -/
def parseSunion := allBytes "SUNION" SetCommand.sUnion

/-- `parse_sinter`. -/
def parseSinter := allBytes "SINTER" SetCommand.sInter

/-- `parse_sdiff`. -/
def parseSdiff := allBytes "SDIFF" SetCommand.sDiff

/-- `parse_srandmember`. -/
def parseSrandmember : Parts → Except FerrousError SetCommand
  | [_, key] => return .sRandMember (← extractBytes key) none
  | [_, key, count] => do
      let n ← extractI64 count
      return .sRandMember (← extractBytes key) (some n)
  | _ => wrongNumber "SRANDMEMBER"

/-- `parse_spop`. -/
def parseSpop : Parts → Except FerrousError SetCommand
  | [_, key] => return .sPop (← extractBytes key) none
  | [_, key, count] => do
      let n ← extractUsize count
      return .sPop (← extractBytes key) (some n)
  | _ => wrongNumber "SPOP"

/-! ## Hashes -/

/-- `parse_hset`. -/
def parseHset := keyAndPairs "HSET" Unified.HashCommand.hSet

/-- `parse_hget`. -/
def parseHget := keyAndBytes "HGET" Unified.HashCommand.hGet

/-- `parse_hmset`. -/
def parseHmset := keyAndPairs "HMSET" Unified.HashCommand.hMSet

/-- `parse_hmget`. -/
def parseHmget := keyAndBytesList "HMGET" Unified.HashCommand.hMGet

/-- `parse_hgetall`. -/
def parseHgetall := keyOnly "HGETALL" Unified.HashCommand.hGetAll

/-- `parse_hdel`. -/
def parseHdel := keyAndBytesList "HDEL" Unified.HashCommand.hDel

/-- `parse_hlen`. -/
def parseHlen := keyOnly "HLEN" Unified.HashCommand.hLen

/-- `parse_hexists`. -/
def parseHexists := keyAndBytes "HEXISTS" Unified.HashCommand.hExists

/-- `parse_hkeys`. -/
def parseHkeys := keyOnly "HKEYS" Unified.HashCommand.hKeys

/-- `parse_hvals`. -/
def parseHvals := keyOnly "HVALS" Unified.HashCommand.hVals

/-! ## Sorted sets -/

/-- Scores and members in turn. -/
def extractScores : Parts → Except FerrousError (List (Float64 × Bytes))
  | s :: m :: ps => do
      let score ← extractF64 s
      let member ← extractBytes m
      return (score, member) :: (← extractScores ps)
  | _ => .ok []

/-- `parse_zadd`. -/
def parseZadd (frames : Parts) : Except FerrousError Unified.SortedSetCommand :=
  if frames.length < 4 ∨ frames.length % 2 ≠ 0 then wrongNumber "ZADD"
  else
    match frames with
    | _ :: key :: ps => return .zAdd (← extractBytes key) (← extractScores ps)
    | _ => wrongNumber "ZADD"

/-- `parse_zrem`. -/
def parseZrem := keyAndBytesList "ZREM" Unified.SortedSetCommand.zRem

/-- `parse_zscore`. -/
def parseZscore := keyAndBytes "ZSCORE" Unified.SortedSetCommand.zScore

/-- `parse_zcard`. -/
def parseZcard := keyOnly "ZCARD" Unified.SortedSetCommand.zCard

/-- `parse_zrank`. -/
def parseZrank := keyAndBytes "ZRANK" Unified.SortedSetCommand.zRank

/-- `parse_zrevrank`. -/
def parseZrevrank := keyAndBytes "ZREVRANK" Unified.SortedSetCommand.zRevRank

/-- `parse_zrevrange`. -/
def parseZrevrange : Parts → Except FerrousError Unified.SortedSetCommand
  | _ :: key :: start :: stop :: options =>
      if 1 < options.length then wrongNumber "ZREVRANGE"
      else do
        let first ← extractI64 start
        let last ← extractI64 stop
        let withScores ← extractWithScores options
        return .zRevRange (← extractBytes key) first last withScores
  | _ => wrongNumber "ZREVRANGE"

/-- `parse_zrevrangebyscore`. -/
def parseZrevrangebyscore : Parts → Except FerrousError Unified.SortedSetCommand
  | _ :: key :: hi :: lo :: options =>
      if 1 < options.length then wrongNumber "ZREVRANGEBYSCORE"
      else do
        let maxScore ← extractF64 hi
        let minScore ← extractF64 lo
        let withScores ← extractWithScores options
        return .zRevRangeByScore (← extractBytes key) maxScore minScore withScores
  | _ => wrongNumber "ZREVRANGEBYSCORE"

/-- `parse_zcount`. -/
def parseZcount : Parts → Except FerrousError Unified.SortedSetCommand
  | [_, key, lo, hi] => do
      let minScore ← extractF64 lo
      let maxScore ← extractF64 hi
      return .zCount (← extractBytes key) minScore maxScore
  | _ => wrongNumber "ZCOUNT"

/-- `parse_zincrby`. -/
def parseZincrby : Parts → Except FerrousError Unified.SortedSetCommand
  | [_, key, increment, member] => do
      let n ← extractF64 increment
      return .zIncrBy (← extractBytes key) n (← extractBytes member)
  | _ => wrongNumber "ZINCRBY"

/-- `parse_zremrangebylex`. -/
def parseZremrangebylex : Parts → Except FerrousError Unified.SortedSetCommand
  | [_, key, lo, hi] => do
      let minLex ← extractString lo
      let maxLex ← extractString hi
      return .zRemRangeByLex (← extractBytes key) minLex maxLex
  | _ => wrongNumber "ZREMRANGEBYLEX"

/-! ## Keys and the server -/

/-- `parse_exists`. -/
def parseExists := allBytes "EXISTS" KeyCommand.exists?

/-- A key and a time. -/
def keyAndTime (name : String) (make : Key → Nat → KeyCommand) : Parts → Except FerrousError KeyCommand
  | [_, key, time] => return make (← extractBytes key) (← extractUsize time)
  | _ => wrongNumber name

/-- `parse_expire`. -/
def parseExpire := keyAndTime "EXPIRE" .expire

/-- `parse_pexpire`. -/
def parsePexpire := keyAndTime "PEXPIRE" .pExpire

/-- `parse_ttl`. -/
def parseTtl := keyOnly "TTL" KeyCommand.ttl

/-- `parse_pttl`. -/
def parsePttl := keyOnly "PTTL" KeyCommand.pttl

/-- `parse_persist`. -/
def parsePersist := keyOnly "PERSIST" KeyCommand.persist

/-- `parse_type`. -/
def parseType := keyOnly "TYPE" KeyCommand.type

/-- `parse_rename`. -/
def parseRename := keyAndBytes "RENAME" KeyCommand.rename

/-- `parse_renamenx`. -/
def parseRenamenx := keyAndBytes "RENAMENX" KeyCommand.renameNx

/-- `parse_ping`. -/
def parsePing : Parts → Except FerrousError ServerCommand
  | [_, message] => return .ping (some (← extractBytes message))
  | [_] => return .ping none
  | _ => wrongNumber "PING"

/-- `parse_echo`. -/
def parseEcho := keyOnly "ECHO" ServerCommand.echo

/-- `parse_info`. -/
def parseInfo : Parts → Except FerrousError ServerCommand
  | [_, name] => return .info (some (← extractString name))
  | [_] => return .info none
  | _ => wrongNumber "INFO"

/-! ## Streams -/

/-- `parse_xadd`. -/
def parseXadd (frames : Parts) : Except FerrousError StreamCommand :=
  if frames.length < 5 ∨ frames.length % 2 ≠ 1 then wrongNumber "XADD"
  else
    match frames with
    | _ :: k :: i :: ps => do
        let key ← extractBytes k
        let id ← extractString i
        let fields ← extractPairs ps
        return .xAdd key (if id = "*" then none else some id) fields
    | _ => wrongNumber "XADD"

/-- `parse_xlen`. -/
def parseXlen := keyOnly "XLEN" StreamCommand.xLen

/-- `COUNT n`, if there are exactly two more frames and the first of them is it. -/
def extractRangeCount : Parts → Except FerrousError (Option Nat)
  | [option, n] => do
      if (← extractWord option) = "COUNT" then return some (← extractUsize n) else return none
  | _ => return none

/-- XRANGE and XREVRANGE; further frames are ignored. -/
def streamRange (name : String) (make : Key → String → String → Option Nat → StreamCommand) :
    Parts → Except FerrousError StreamCommand
  | _ :: k :: a :: b :: options => do
      let key ← extractBytes k
      let start ← extractString a
      let stop ← extractString b
      return make key start stop (← extractRangeCount options)
  | _ => wrongNumber name

/-- `parse_xrange`. -/
def parseXrange := streamRange "XRANGE" .xRange

/-- `parse_xrevrange`. -/
def parseXrevrange := streamRange "XREVRANGE" .xRevRange

/-- What stands before the streams of XREAD and XREADGROUP. -/
structure ReadOptions where
  count : Option Nat := none
  block : Option Nat := none
  noack : Bool := false

/-- The option loop of XREAD and XREADGROUP; the first frame that is no option ends it,
and is a key.  Only XREADGROUP knows NOACK. -/
def readLoop (knowsNoack : Bool) : Parts → ReadOptions → Except FerrousError (ReadOptions × Parts)
  | [], o => .ok (o, [])
  | p :: ps, o => do
      match ← extractWord p with
      | "COUNT" =>
          match ps with
          | [] => syntaxError "Missing COUNT value"
          | n :: ps => do
              let count ← extractUsize n
              readLoop knowsNoack ps { o with count := some count }
      | "BLOCK" =>
          match ps with
          | [] => syntaxError "Missing BLOCK value"
          | n :: ps => do
              let block ← extractUsize n
              readLoop knowsNoack ps { o with block := some block }
      | "NOACK" =>
          if knowsNoack then readLoop knowsNoack ps { o with noack := true } else .ok (o, p :: ps)
      | "STREAMS" => .ok (o, ps)
      | _ => .ok (o, p :: ps)

/-- Keys in the first half, IDs in the second. -/
def extractKeysAndIds (rest : Parts) : Except FerrousError (List (Key × String)) :=
  if rest.length % 2 ≠ 0 then syntaxError "Uneven number of keys and stream IDs"
  else ((rest.take (rest.length / 2)).zip (rest.drop (rest.length / 2))).mapM fun p => do
    let key ← extractBytes p.1
    let id ← extractString p.2
    return (key, id)

/-- `parse_xread`. -/
def parseXread (frames : Parts) : Except FerrousError StreamCommand :=
  if frames.length < 4 then wrongNumber "XREAD"
  else do
    let (o, rest) ← readLoop false (frames.drop 1) {}
    return .xRead (← extractKeysAndIds rest) o.count o.block

/-- `parse_xtrim`; further frames are ignored. -/
def parseXtrim : Parts → Except FerrousError StreamCommand
  | _ :: k :: s :: n :: _ => do
      let key ← extractBytes k
      let strategy ← extractString s
      return .xTrim key strategy (← extractUsize n)
  | _ => wrongNumber "XTRIM"

/-- `parse_xdel`. -/
def parseXdel : Parts → Except FerrousError StreamCommand
  | _ :: k :: p :: ps => return .xDel (← extractBytes k) (← (p :: ps).mapM extractString)
  | _ => wrongNumber "XDEL"

/-! ## The SCAN family -/

/-- What the option loop of the SCAN family reads. -/
structure ScanArguments where
  pattern : Option Bytes := none
  count : Option Nat := none
  typeFilter : Option String := none

/-- The option loop: the first frame that is no option ends it, and the rest is ignored.
Only SCAN knows TYPE. -/
def scanLoop (knowsType : Bool) : Parts → ScanArguments → Except FerrousError ScanArguments
  | [], o => .ok o
  | p :: ps, o => do
      match ← extractWord p with
      | "MATCH" =>
          match ps with
          | [] => syntaxError "Missing MATCH pattern"
          | a :: ps => do
              let pattern ← extractBytes a
              scanLoop knowsType ps { o with pattern := some pattern }
      | "COUNT" =>
          match ps with
          | [] => syntaxError "Missing COUNT value"
          | a :: ps => do
              let count ← extractUsize a
              scanLoop knowsType ps { o with count := some count }
      | "TYPE" =>
          if knowsType then
            match ps with
            | [] => syntaxError "Missing TYPE value"
            | a :: ps => do
                let typeFilter ← extractString a
                scanLoop knowsType ps { o with typeFilter := some typeFilter }
          else .ok o
      | _ => .ok o

/-- `parse_scan_cmd`. -/
def parseScanCmd : Parts → Except FerrousError ScanCommand
  | _ :: c :: options => do
      let cursor ← extractUsize c
      let o ← scanLoop true options {}
      return .scan cursor o.pattern o.count o.typeFilter
  | _ => wrongNumber "SCAN"

/-- HSCAN, SSCAN and ZSCAN. -/
def scanKey (name : String) (make : Key → Nat → Option Bytes → Option Nat → ScanCommand) :
    Parts → Except FerrousError ScanCommand
  | _ :: k :: c :: options => do
      let key ← extractBytes k
      let cursor ← extractUsize c
      let o ← scanLoop false options {}
      return make key cursor o.pattern o.count
  | _ => wrongNumber name

/-- `parse_hscan_cmd`. -/
def parseHscanCmd := scanKey "HSCAN" .hScan

/-- `parse_sscan_cmd`. -/
def parseSscanCmd := scanKey "SSCAN" .sScan

/-- `parse_zscan_cmd`. -/
def parseZscanCmd := scanKey "ZSCAN" .zScan

/-- `parse_keys_cmd`. -/
def parseKeysCmd := keyOnly "KEYS" DatabaseCommand.keys

/-! ## Consumer groups -/

/-- `parse_xgroup`. -/
def parseXgroup : Parts → Except FerrousError ConsumerGroupCommand
  | _ :: s :: k :: g :: ps => do
      let subcommand ← extractString s
      let key ← extractBytes k
      let group ← extractString g
      return .xGroup subcommand key group (← ps.mapM extractString)
  | _ => wrongNumber "XGROUP"

/-- `parse_xreadgroup`. -/
def parseXreadgroup (frames : Parts) : Except FerrousError ConsumerGroupCommand :=
  if frames.length < 6 then wrongNumber "XREADGROUP"
  else
    match frames with
    | _ :: w :: g :: c :: ps => do
        if (← extractWord w) ≠ "GROUP" then syntaxError "Expected GROUP keyword"
        else
          let group ← extractString g
          let consumer ← extractString c
          let (o, rest) ← readLoop true ps {}
          return .xReadGroup group consumer (← extractKeysAndIds rest) o.count o.block o.noack
    | _ => wrongNumber "XREADGROUP"

/-- `parse_xack`. -/
def parseXack : Parts → Except FerrousError ConsumerGroupCommand
  | _ :: k :: g :: p :: ps => do
      let key ← extractBytes k
      let group ← extractString g
      return .xAck key group (← (p :: ps).mapM extractString)
  | _ => wrongNumber "XACK"

/-- Start, end and count of XPENDING, if all three are there. -/
def extractPendingRange : Parts → Except FerrousError (Option (String × String × Nat))
  | a :: b :: n :: _ => do
      let start ← extractString a
      let stop ← extractString b
      let count ← extractUsize n
      return some (start, stop, count)
  | _ => .ok none

/-- `parse_xpending`. -/
def parseXpending : Parts → Except FerrousError ConsumerGroupCommand
  | _ :: k :: g :: ps => do
      let key ← extractBytes k
      let group ← extractString g
      let range ← extractPendingRange ps
      let consumer ← match ps[3]? with
        | some c => (extractString c).map some
        | none => .ok none
      return .xPending key group range consumer
  | _ => wrongNumber "XPENDING"

/-- The IDs and options of XCLAIM. -/
def claimLoop : Parts → List String × Bool × Bool → Except FerrousError (List String × Bool × Bool)
  | [], acc => .ok acc
  | p :: ps, (ids, force, justid) => do
      let arg ← extractString p
      match toUppercase arg with
      | "FORCE" => claimLoop ps (ids, true, justid)
      | "JUSTID" => claimLoop ps (ids, force, true)
      | _ => claimLoop ps (ids ++ [arg], force, justid)

/-- `parse_xclaim`. -/
def parseXclaim : Parts → Except FerrousError ConsumerGroupCommand
  | _ :: k :: g :: c :: i :: p :: ps => do
      let key ← extractBytes k
      let group ← extractString g
      let consumer ← extractString c
      let minIdleTime ← extractUsize i
      let (ids, force, justid) ← claimLoop (p :: ps) ([], false, false)
      return .xClaim key group consumer minIdleTime ids force justid
  | _ => wrongNumber "XCLAIM"

/-- `parse_xinfo`; further frames are ignored. -/
def parseXinfo : Parts → Except FerrousError ConsumerGroupCommand
  | _ :: s :: k :: ps => do
      let subcommand ← extractString s
      let key ← extractBytes k
      let group ← match ps with
        | g :: _ => (extractString g).map some
        | [] => .ok none
      return .xInfo subcommand key group
  | _ => wrongNumber "XINFO"

/-! ## CONFIG -/

/-- `parse_config`. -/
def parseConfig : Parts → Except FerrousError ConfigCommand
  | _ :: s :: p :: ps => do
      match ← extractWord s with
      | "GET" =>
          match ps with
          | [] => return .get (← extractString p)
          | _ => wrongNumber "CONFIG GET"
      | "SET" =>
          match ps with
          | [value] => return .set (← extractString p) (← extractString value)
          | _ => wrongNumber "CONFIG SET"
      | sub => syntaxError ("Unknown CONFIG subcommand: " ++ sub)
  | _ => wrongNumber "CONFIG"

/-! ## The table -/

/-- The `match` of `CommandParser::parse`: the name of a command and its parser. -/
def table : List (String × (Parts → Except FerrousError Unified.Command)) :=
  let string (p : Parts → Except FerrousError Unified.StringCommand) (ps : Parts) := (p ps).map Unified.Command.string
  let counter (p : Parts → Except FerrousError Ferrous.StringCommand) (ps : Parts) :=
    (p ps).map fun c => Unified.Command.string (.counter c)
  let list (p : Parts → Except FerrousError ListCommand) (ps : Parts) := (p ps).map Unified.Command.list
  let set (p : Parts → Except FerrousError SetCommand) (ps : Parts) := (p ps).map Unified.Command.set
  let hash (p : Parts → Except FerrousError Unified.HashCommand) (ps : Parts) := (p ps).map Unified.Command.hash
  let sortedSet (p : Parts → Except FerrousError Unified.SortedSetCommand) (ps : Parts) :=
    (p ps).map Unified.Command.sortedSet
  let ranged (p : Parts → Except FerrousError Ferrous.SortedSetCommand) (ps : Parts) :=
    (p ps).map fun c => Unified.Command.sortedSet (.ranged c)
  let key (p : Parts → Except FerrousError KeyCommand) (ps : Parts) := (p ps).map Unified.Command.key
  let server (p : Parts → Except FerrousError ServerCommand) (ps : Parts) := (p ps).map Unified.Command.server
  let stream (p : Parts → Except FerrousError StreamCommand) (ps : Parts) := (p ps).map Unified.Command.stream
  let scan (p : Parts → Except FerrousError ScanCommand) (ps : Parts) := (p ps).map Unified.Command.scan
  let database (p : Parts → Except FerrousError DatabaseCommand) (ps : Parts) :=
    (p ps).map Unified.Command.database
  let group (p : Parts → Except FerrousError ConsumerGroupCommand) (ps : Parts) :=
    (p ps).map Unified.Command.consumerGroup
  let bit (p : Parts → Except FerrousError BitCommand) (ps : Parts) := (p ps).map Unified.Command.bit
  [("SET", string parseSet), ("GET", string parseGet), ("MGET", string parseMget), ("MSET", string parseMset),
   ("INCR", counter parseIncr), ("INCRBY", counter parseIncrby), ("DECR", counter parseDecr),
   ("DECRBY", counter parseDecrby), ("SETNX", string parseSetnx), ("SETEX", string parseSetex),
   ("PSETEX", string parsePsetex), ("APPEND", string parseAppend), ("STRLEN", string parseStrlen),
   ("GETSET", string parseGetset), ("GETRANGE", string parseGetrange), ("SETRANGE", string parseSetrange),
   ("DEL", string parseDel),
   ("LPUSH", list parseLpush), ("RPUSH", list parseRpush), ("LPOP", list parseLpop), ("RPOP", list parseRpop),
   ("LLEN", list parseLlen), ("LINDEX", list parseLindex), ("LSET", list parseLset), ("LRANGE", list parseLrange),
   ("LTRIM", list parseLtrim), ("LREM", list parseLrem),
   ("SADD", set parseSadd), ("SREM", set parseSrem), ("SMEMBERS", set parseSmembers), ("SCARD", set parseScard),
   ("SISMEMBER", set parseSismember), ("SUNION", set parseSunion), ("SINTER", set parseSinter),
   ("SDIFF", set parseSdiff), ("SRANDMEMBER", set parseSrandmember), ("SPOP", set parseSpop),
   ("HSET", hash parseHset), ("HGET", hash parseHget), ("HMSET", hash parseHmset), ("HMGET", hash parseHmget),
   ("HGETALL", hash parseHgetall), ("HDEL", hash parseHdel), ("HLEN", hash parseHlen),
   ("HEXISTS", hash parseHexists), ("HKEYS", hash parseHkeys), ("HVALS", hash parseHvals),
   ("HINCRBY", fun ps => (parseHincrby ps).map fun c => .hash (.counter c)),
   ("ZADD", sortedSet parseZadd), ("ZREM", sortedSet parseZrem), ("ZSCORE", sortedSet parseZscore),
   ("ZCARD", sortedSet parseZcard), ("ZRANK", sortedSet parseZrank), ("ZREVRANK", sortedSet parseZrevrank),
   ("ZRANGE", ranged parseZrange), ("ZREVRANGE", sortedSet parseZrevrange),
   ("ZRANGEBYSCORE", ranged parseZrangebyscore), ("ZCOUNT", sortedSet parseZcount),
   ("ZINCRBY", sortedSet parseZincrby), ("ZREVRANGEBYSCORE", sortedSet parseZrevrangebyscore),
   ("ZPOPMIN", ranged parseZpopmin), ("ZPOPMAX", ranged parseZpopmax),
   ("ZREMRANGEBYRANK", ranged parseZremrangebyrank), ("ZREMRANGEBYSCORE", ranged parseZremrangebyscore),
   ("ZREMRANGEBYLEX", sortedSet parseZremrangebylex),
   ("EXISTS", key parseExists), ("EXPIRE", key parseExpire), ("PEXPIRE", key parsePexpire), ("TTL", key parseTtl),
   ("PTTL", key parsePttl), ("PERSIST", key parsePersist), ("TYPE", key parseType), ("RENAME", key parseRename),
   ("RENAMENX", key parseRenamenx), ("RANDOMKEY", fun _ => .ok (.key .randomKey)),
   ("PING", server parsePing), ("ECHO", server parseEcho), ("TIME", fun _ => .ok (.server .time)),
   ("INFO", server parseInfo),
   ("XADD", stream parseXadd), ("XLEN", stream parseXlen), ("XRANGE", stream parseXrange),
   ("XREVRANGE", stream parseXrevrange), ("XREAD", stream parseXread), ("XTRIM", stream parseXtrim),
   ("XDEL", stream parseXdel),
   ("SCAN", scan parseScanCmd), ("HSCAN", scan parseHscanCmd), ("SSCAN", scan parseSscanCmd),
   ("ZSCAN", scan parseZscanCmd),
   ("FLUSHDB", fun _ => .ok (.database .flushDb)), ("FLUSHALL", fun _ => .ok (.database .flushAll)),
   ("DBSIZE", fun _ => .ok (.database .dbSize)), ("KEYS", database parseKeysCmd),
   ("XGROUP", group parseXgroup), ("XREADGROUP", group parseXreadgroup), ("XACK", group parseXack),
   ("XPENDING", group parseXpending), ("XCLAIM", group parseXclaim), ("XINFO", group parseXinfo),
   ("SAVE", fun _ => .ok (.persistence .save)), ("BGSAVE", fun _ => .ok (.persistence .bgSave)),
   ("LASTSAVE", fun _ => .ok (.persistence .lastSave)), ("BGREWRITEAOF", fun _ => .ok (.persistence .bgRewriteAof)),
   ("GETBIT", bit parseGetbit), ("SETBIT", bit parseSetbit), ("BITCOUNT", bit parseBitcount),
   ("CONFIG", fun ps => (parseConfig ps).map .config)]

/-- `CommandParser::parse`. -/
def parse (frames : Parts) : Except FerrousError Unified.Command :=
  match frames with
  | [] => .error (.command .emptyCommand)
  | first :: _ => do
      let name ← extractWord first
      match table.lookup name with
      | some parser => parser frames
      | none => .error (.command (.unknownCommand name))

end CommandParser

end Ferrous
