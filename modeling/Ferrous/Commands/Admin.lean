/-
# `Commands.Admin` — commands about the server rather than the data

SLEEP, CONFIG, COMMAND, SLOWLOG, INFO, MEMORY and EVAL.  Texts made of uptimes
and process sizes are not computed here: `Process` holds what the process
answers at one moment.  The Lua interpreter is not part of the repository; a
script is a program over the engine, given by `LuaEngine`.
-/
import Ferrous.Commands.Handler

namespace Ferrous

open Lib Args

/-! ## The process -/

/-- The figures of INFO that come from the store. -/
structure InfoFigures where
  usedMemory : Nat
  /-- For each database that is not empty: its number, its keys, those that expire. -/
  keyspace : List (Nat × Nat × Nat)

/-- What the process and its surroundings answer at one moment. -/
structure Process where
  /-- The text of INFO, for a section or for all. -/
  infoText : Option String → InfoFigures → String
  /-- The slow log, newest first, each entry as it is sent. -/
  slowlog : List RespFrame
  /-- Time of the last save. -/
  lastSave : Option Nat
  /-- Failure of the file under SAVE, or of starting a background job. -/
  saveError : Option FerrousError
  bgsaveError : Option FerrousError
  bgrewriteError : Option FerrousError
  /-- Age and idle time of a connection, in seconds. -/
  age : Nat → Nat
  idle : Nat → Nat
  /-- `to_socket_addrs`: an error, or the first address found. -/
  resolve : String → Except Unit (Option String)
  /-- `generate_repl_id`. -/
  replId : String

/-- The Lua engine: a script with its keys and arguments in a database is a
program that ends with a reply. -/
structure LuaEngine where
  eval : String → List Bytes → List Bytes → Nat → StoreProg RespFrame
  /-- `script_load`: the hash of a script that compiles. -/
  scriptLoad : String → Except FerrousError String

/-! ## SLEEP, CONFIG, COMMAND, SLOWLOG -/

/-- `SLEEP`, a test command. -/
def handleSleep (parts : Parts) : StoreProg RespFrame :=
  reading (do
    arity "sleep" (parts.length == 2)
    nat parts 1 "milliseconds")
    fun _ => .ret .ok

/-- The parameters `CONFIG GET` knows one by one. -/
def configParams : List (String × String) :=
  [("save", "900 1 300 10 60 10000"), ("appendonly", "no"), ("maxmemory", "0"),
   ("maxmemory-policy", "noeviction"), ("timeout", "0"), ("databases", "16")]

/-- What `CONFIG GET *` lists. -/
def allConfigs : List (String × String) :=
  [("save", "900 1 300 10 60 10000"), ("appendonly", "no"), ("maxmemory", "0"),
   ("maxmemory-policy", "noeviction"), ("timeout", "0"), ("tcp-keepalive", "300"),
   ("databases", "16")]

/-- `handle_config_get`. -/
def configGet (param : String) : RespFrame :=
  let pairs (ps : List (String × String)) : RespFrame :=
    .list (ps.flatMap fun p => [.fromString p.1, .fromString p.2])
  if param = "*" then pairs allConfigs
  else pairs (configParams.filter fun p => p.1 == toLowercase param)

/-- `storage::commands::config::handle_config`. -/
def plainConfig (parts : Parts) (sub : String) : RespFrame :=
  match sub with
  | "GET" =>
      if parts.length < 3 then .err "ERR wrong number of arguments for 'config get' command"
      else
        match (parts[2]?).bind RespFrame.bulk? with
        | none => .err "ERR invalid parameter format"
        | some bytes => configGet (fromUtf8Lossy bytes)
  | "SET" => .err "ERR CONFIG SET not supported"
  | "RESETSTAT" => .err "ERR CONFIG RESETSTAT not supported"
  | "REWRITE" => .err "ERR CONFIG REWRITE not supported"
  | _ => .err "ERR CONFIG command not supported"

/-- The slow log parameters, which the server answers itself. -/
def slowlogConfig (param value : String) : Option RespFrame :=
  let answer (ok : Bool) : RespFrame := if ok then .ok else .err notInteger
  if toLowercase param = "slowlog-log-slower-than" then some (answer (parseI64 value).isSome)
  else if toLowercase param = "slowlog-max-len" then some (answer (parseU64 value).isSome)
  else none

/-- `CONFIG`. -/
def handleConfig (parts : Parts) : StoreProg RespFrame :=
  reading (do
    arity "config" (2 ≤ parts.length)
    let sub ← bulk parts 1 "subcommand"
    let sub := toUppercase (fromUtf8Lossy sub)
    if sub = "SET" ∧ 4 ≤ parts.length then
      let param ← bulk parts 2 "parameter name"
      let value ← bulk parts 3 "parameter value"
      return (slowlogConfig (fromUtf8Lossy param) (fromUtf8Lossy value)).getD
        (plainConfig parts sub)
    else return plainConfig parts sub)
    .ret

/-- `cmd_info`. -/
def cmdInfo (name : String) (arity : Int) (flags : List String) (first last step : Int) :
    RespFrame :=
  .list
    [.fromString name, .integer arity, .list (flags.map fun f => .simpleString f.toBytes),
     .integer first, .integer last, .integer step]

/-- `build_essential_commands_response`. -/
def essentialCommands : List RespFrame :=
  [cmdInfo "ping" (-1) ["stale", "fast"] 0 0 1,
   cmdInfo "command" 0 ["loading", "stale"] 0 0 1,
   cmdInfo "info" (-1) ["loading", "stale"] 0 0 1,
   cmdInfo "set" (-3) ["write", "denyoom"] 1 1 1,
   cmdInfo "get" 2 ["readonly", "fast"] 1 1 1,
   cmdInfo "del" (-2) ["write"] 1 (-1) 1,
   cmdInfo "exists" (-2) ["readonly", "fast"] 1 (-1) 1,
   cmdInfo "expire" 3 ["write", "fast"] 1 1 1,
   cmdInfo "ttl" 2 ["readonly", "fast"] 1 1 1,
   cmdInfo "type" 2 ["readonly", "fast"] 1 1 1,
   cmdInfo "shutdown" (-1) ["admin", "noscript", "no_async_loading"] 0 0 1,
   cmdInfo "lpush" (-3) ["write", "denyoom", "fast"] 1 1 1,
   cmdInfo "rpush" (-3) ["write", "denyoom", "fast"] 1 1 1,
   cmdInfo "lpop" (-2) ["write", "fast"] 1 1 1,
   cmdInfo "rpop" (-2) ["write", "fast"] 1 1 1,
   cmdInfo "llen" 2 ["readonly", "fast"] 1 1 1,
   cmdInfo "lrange" 4 ["readonly"] 1 1 1,
   cmdInfo "eval" (-3) ["noscript", "movablekeys"] 0 0 1,
   cmdInfo "evalsha" (-3) ["noscript", "movablekeys"] 0 0 1,
   cmdInfo "script" (-2) ["noscript"] 0 0 1]

/-- `get_command_info`. -/
def getCommandInfo (name : String) : RespFrame :=
  match toLowercase name with
  | "ping" => cmdInfo "ping" (-1) ["stale", "fast"] 0 0 1
  | "command" => cmdInfo "command" 0 ["loading", "stale"] 0 0 1
  | "set" => cmdInfo "set" (-3) ["write", "denyoom"] 1 1 1
  | "get" => cmdInfo "get" 2 ["readonly", "fast"] 1 1 1
  | "del" => cmdInfo "del" (-2) ["write"] 1 (-1) 1
  | "exists" => cmdInfo "exists" (-2) ["readonly", "fast"] 1 (-1) 1
  | "lpush" => cmdInfo "lpush" (-3) ["write", "denyoom", "fast"] 1 1 1
  | "lpop" => cmdInfo "lpop" (-2) ["write", "fast"] 1 1 1
  | "lrange" => cmdInfo "lrange" 4 ["readonly"] 1 1 1
  | "eval" => cmdInfo "eval" (-3) ["noscript", "movablekeys"] 0 0 1
  | "shutdown" => cmdInfo "shutdown" (-1) ["admin", "noscript"] 0 0 1
  | _ => .nullBulk

/-- `handle_command`. -/
def handleCommand (parts : Parts) : StoreProg RespFrame :=
  .ret <|
    if parts.length = 1 then .list essentialCommands
    else
      match (parts[1]?).bind RespFrame.bulk? with
      | none => .err "ERR invalid subcommand format"
      | some bytes =>
          match fromUtf8 bytes with
          | none => .err "ERR invalid subcommand"
          | some sub =>
              match toLowercase sub with
              | "count" => .integer 114
              | "info" =>
                  if parts.length < 3 then
                    .err "ERR wrong number of arguments for 'command info' command"
                  else
                    .list ((parts.drop 2).map fun p =>
                      ((p.bulk?.bind fromUtf8).map getCommandInfo).getD .nullBulk)
              | _ => .err ("ERR unknown subcommand '" ++ sub ++ "'")

/-- `handle_slowlog`. -/
def handleSlowlog (proc : Process) (parts : Parts) : StoreProg RespFrame :=
  reading (do
    arity "slowlog" (2 ≤ parts.length)
    let sub ← bulk parts 1 "subcommand"
    match toUppercase (fromUtf8Lossy sub) with
    | "GET" =>
        if 3 ≤ parts.length then
          let n ← nat parts 2 "count"
          return .list (proc.slowlog.take n)
        else return .list proc.slowlog
    | "LEN" => return count proc.slowlog.length
    | "RESET" => return .ok
    | _ => reject "ERR Unknown subcommand or wrong number of arguments for SLOWLOG")
    .ret

/-! ## INFO -/

/-- The keys of a list that have a deadline. -/
def countExpiring (db : Nat) : List Key → Nat → StoreProg Nat
  | [], n => return n
  | key :: keys, n => do
      let left ← Prog.attempt (.key db key .ttl)
      countExpiring db keys (match left with
        | .ok (some _) => n + 1
        | _ => n)

/-- The loop of `append_keyspace_info`. -/
def keyspaceLoop : Nat → Nat → List (Nat × Nat × Nat) → StoreProg (List (Nat × Nat × Nat))
  | _, 0, acc => return acc
  | db, n + 1, acc => do
      let keys ← Prog.attempt (.store (.getAllKeys db))
      match keys with
      | .ok [] => keyspaceLoop (db + 1) n acc
      | .ok keys =>
          let expiring ← countExpiring db keys 0
          keyspaceLoop (db + 1) n (acc ++ [(db, keys.length, expiring)])
      | .error _ => keyspaceLoop (db + 1) n acc

/-- `handle_info`. -/
def handleInfo (proc : Process) (parts : Parts) : StoreProg RespFrame := do
  let sect := ((parts[1]?).bind RespFrame.bulk?).map fun bytes => toLowercase (fromUtf8Lossy bytes)
  let shown (name : String) : Bool := sect == none || sect == some name
  let used ← if shown "memory" then need (.store .memoryUsage) else pure 0
  let keyspace ← if shown "keyspace" then do
      let n ← need (.store .databaseCount)
      keyspaceLoop 0 n []
    else pure []
  return .fromString (proc.infoText sect ⟨used, keyspace⟩)

/-! ## MEMORY -/

/-- The sizes the compiler gives the structures MEMORY counts. -/
structure Layout where
  vec : Nat
  value : Nat
  vecDeque : Nat
  hashSet : Nat
  hashMap : Nat
  skipList : Nat
  storedValue : Nat

/-- `MemoryManager::calculate_size`. -/
def Layout.bytesSize (lay : Layout) (b : Bytes) : Nat := b.length + lay.vec

section Memory

variable (lay : Layout)

/-- The sampled elements of a list: first, middle and last. -/
def sampleList (db : Nat) (key : Key) : List Nat → Nat × Nat → StoreProg (Nat × Nat)
  | [], acc => return acc
  | pos :: rest, (size, taken) => do
      let item ← Prog.attempt (.key db key (.lindex pos))
      sampleList db key rest (match item with
        | .ok (some bytes) => (size + lay.bytesSize bytes, taken + 1)
        | _ => (size, taken))

/-- The part of `calculate_key_memory_usage` that depends on the type. -/
def memoryByType (db : Nat) (key : Key) (type : String) : StoreProg Nat :=
  match type with
  | "string" => do
      let v ← Prog.attempt (.key db key .getString)
      return match v with
        | .ok (some bytes) => lay.bytesSize bytes + lay.value
        | _ => 0
  | "list" => do
      let n ← Prog.attempt (.key db key .llen)
      match n with
      | .ok (n + 1) =>
          let positions := [0, (n + 1) / 2, n].takeWhile (· < n + 1)
          let (size, taken) ← sampleList lay db key positions (0, 0)
          return (if 0 < taken then size / taken else 0) * (n + 1) + lay.vecDeque
      | _ => return 0
  | "set" => do
      let n ← Prog.attempt (.key db key .scard)
      match n with
      | .ok (n + 1) =>
          let ms ← Prog.attempt (.key db key .smembers)
          return match ms with
            | .ok ms =>
                let size := ((ms.take (min (n + 1) 10)).map lay.bytesSize).sum
                (if 0 < ms.length then size / ms.length else 0) * (n + 1) + lay.hashSet
            | .error _ => 0
      | _ => return 0
  | "hash" => do
      let n ← Prog.attempt (.key db key .hlen)
      match n with
      | .ok (_ + 1) =>
          let ps ← Prog.attempt (.key db key .hgetall)
          return match ps with
            | .ok ps => (ps.map fun p => lay.bytesSize p.1 + lay.bytesSize p.2).sum + lay.hashMap
            | .error _ => 0
      | _ => return 0
  | "zset" => do
      let r ← Prog.attempt (.key db key (.zrange 0 (-1) false))
      return match r with
        | .ok ms => (ms.map fun p => lay.bytesSize p.1 + 8).sum + lay.skipList
        | .error _ => 0
  | _ => return 0

/-- `calculate_key_memory_usage`; `none` when the type could not be read. -/
def keyMemoryUsage (db : Nat) (key : Key) : StoreProg (Except FerrousError Nat) := do
  let type ← Prog.attempt (.key db key .keyType)
  match type with
  | .error e => return .error e
  | .ok type =>
      let body ← memoryByType lay db key type
      return .ok (lay.bytesSize key + body + lay.storedValue)

/-- The keys of a database with their sizes. -/
def sizesLoop (db : Nat) : List Key → List (Key × Nat) → StoreProg (List (Key × Nat))
  | [], acc => return acc
  | key :: keys, acc => do
      let size ← keyMemoryUsage lay db key
      sizesLoop db keys (match size with
        | .ok n => acc ++ [(key, n)]
        | .error _ => acc)

/-- The loop of MEMORY STATS over the databases. -/
def statsLoop : Nat → Nat → List (String × String) → StoreProg (List (String × String))
  | _, 0, acc => return acc
  | db, n + 1, acc => do
      let keys ← Prog.attempt (.store (.getAllKeys db))
      match keys with
      | .error _ => statsLoop (db + 1) n acc
      | .ok keys =>
          let sizes ← sizesLoop lay db keys []
          statsLoop (db + 1) n (acc ++
            [("db" ++ toString db ++ ".overhead", toString (sizes.map Prod.snd).sum),
             ("db" ++ toString db ++ ".keys", toString keys.length)])

/-- The ten largest keys so far, larger ones first. -/
def largest (ks : List (Nat × Key × Nat)) : List (Nat × Key × Nat) :=
  (ks.mergeSort fun a b => decide (b.2.2 ≤ a.2.2)).take 10

/-- The loop of MEMORY DOCTOR over the databases. -/
def doctorLoop : Nat → Nat → List (Nat × Key × Nat) → StoreProg (List (Nat × Key × Nat))
  | _, 0, acc => return acc
  | db, n + 1, acc => do
      let keys ← Prog.attempt (.store (.getAllKeys db))
      match keys with
      | .error _ => doctorLoop (db + 1) n acc
      | .ok keys =>
          let sizes ← sizesLoop lay db keys []
          doctorLoop (db + 1) n
            (sizes.foldl (fun ks p => largest (ks ++ [(db, p.1, p.2)])) acc)

/-- The lines of MEMORY DOCTOR about the largest keys. -/
def doctorLines : List (Nat × Key × Nat) → String → StoreProg String
  | [], out => return out
  | (db, key, size) :: rest, out => do
      let type ← Prog.attempt (.key db key .keyType)
      let type := match type with
        | .ok type => type
        | .error _ => "unknown"
      doctorLines rest (out ++ "db=" ++ toString db ++ " key='" ++ fromUtf8Lossy key ++ "' type=" ++
        type ++ " size=" ++ toString size ++ " bytes\n")

/-- `handle_memory_help`. -/
def memoryHelp : String :=
  "MEMORY USAGE <key> - Report the memory usage in bytes of a key and its value\n" ++
  "MEMORY STATS - Report memory usage statistics\n" ++
  "MEMORY DOCTOR - Report about memory problems and provide recommendations\n" ++
  "MEMORY HELP - Show this help"

/-- `handle_memory_usage`. -/
def memoryUsage (db : Nat) (parts : Parts) : StoreProg RespFrame :=
  reading (do
    arity "memory usage" (3 ≤ parts.length)
    bulk parts 2 "key")
    fun key => do
      let there ← need (.key db key .exists?)
      if !there then return .nullBulk
      else
        let size ← keyMemoryUsage lay db key
        match size with
        | .ok n => return count n
        | .error e => .fail e

/-- `handle_memory`. -/
def handleMemory (db : Nat) (parts : Parts) : StoreProg RespFrame :=
  reading (do
    arity "memory" (2 ≤ parts.length)
    bulk parts 1 "subcommand")
    fun sub =>
      match toUppercase (fromUtf8Lossy sub) with
      | "USAGE" => memoryUsage lay db parts
      | "STATS" => do
          let used ← need (.store .memoryUsage)
          let n ← need (.store .databaseCount)
          let stats ← statsLoop lay 0 n
            [("total.allocated", toString used), ("mem_fragmentation_ratio", "1.0"),
             ("allocator", "rust-memory")]
          return .list (stats.flatMap fun p => [.fromString p.1, .fromString p.2])
      | "DOCTOR" => do
          let used ← need (.store .memoryUsage)
          let n ← need (.store .databaseCount)
          let keys ← doctorLoop lay 0 n []
          let head := "Memory usage: " ++ toString used ++ " bytes\n"
          let body ← if keys.isEmpty then pure ""
            else doctorLines keys "\nLargest keys found:\n"
          return .fromString (head ++ body ++ "\nMemory efficiency tips:\n" ++
            "1. Use EXPIRE for temporary keys\n" ++
            "2. Use MEMORY USAGE to identify large keys\n" ++
            "3. Consider using smaller key names to save memory\n")
      | "HELP" => return .fromString memoryHelp
      | upper => return .err ("ERR Unknown subcommand or wrong number of arguments for 'memory " ++
          upper ++ "'")

end Memory

/-! ## EVAL -/

/-- The number of keys; an integer frame is accepted too. -/
def numKeysArg : Option RespFrame → Args Nat
  | some (.integer n) =>
      if n < 0 then reject "ERR negative number of keys is invalid" else .ok n.toNat
  | p =>
      match ((p.bind RespFrame.bulk?).bind fromUtf8).bind parseU64 with
      | some n => .ok n
      | none => reject "ERR invalid number of keys"

/-- All parts are bulk strings, or the complaint. -/
def stringArgs (complaint : String) (ps : Parts) : Args (List Bytes) :=
  match ps.mapM RespFrame.bulk? with
  | some bs => .ok bs
  | none => reject ("ERR " ++ complaint)

/-- `handle_eval_with_db`.  A key count near the end of its range overflows the
sum it is checked with, or asks for a vector that cannot exist. -/
def handleEval (lua : LuaEngine) (db : Nat) (parts : Parts) : StoreProg RespFrame :=
  reading (do
    arity "eval" (3 ≤ parts.length)
    let script ← match (parts[1]?).bind RespFrame.bulk? with
      | none => reject "ERR invalid script"
      | some bytes =>
          match fromUtf8 bytes with
          | some s => .ok s
          | none => reject "ERR invalid script - not valid UTF-8"
    let n ← numKeysArg parts[2]?
    return (script, n))
    fun (script, n) =>
      if 2 ^ 64 ≤ 3 + n then .panic
      else
        reading (do
          if parts.length < 3 + n then reject "ERR wrong number of arguments"
          let keys ← stringArgs "keys must be strings" ((parts.drop 3).take n)
          let args ← stringArgs "args must be strings" (parts.drop (3 + n))
          return (keys, args))
          fun (keys, args) => lua.eval script keys args db

end Ferrous
