/-
# `Server.Handlers` — commands that act on more than the store

The handlers that read or change connections, subscriptions, replication, the
blocking registries, the script cache, or the transaction state of a
connection.
-/
import Ferrous.Commands.Collections
import Ferrous.Server.State

namespace Ferrous

open Lib Args

namespace Server

variable (env : Env)

/-! ## Lists that clients wait for -/

/-- The pop a blocking command makes. -/
def popOp : BlockingOp → KeyCmd (Option Bytes)
  | .blpop => .lpop
  | .brpop => .rpop

/-- The first key that has an element, with that element. -/
def tryPops (op : BlockingOp) (db : Nat) : List Key → StoreProg (Option (Key × Bytes))
  | [] => return none
  | key :: keys => do
      let value ← need (.key db key (popOp op))
      match value with
      | some v => return some (key, v)
      | none => tryPops op db keys

/-- The reply to a blocking pop. -/
def popFrame (key : Key) (value : Bytes) : RespFrame := .list [.fromBytes key, .fromBytes value]

/-- `Duration::from_secs_f64`; `none` is the panic. -/
def fromSecsF64 (t : Float64) : Option Duration :=
  if t.isNaN || t.isInf || t.sign then none
  else
    let nanos := Float64.roundDiv (t.scaled.natAbs * 10 ^ 9) (2 ^ 1074)
    if nanos / 10 ^ 9 < 2 ^ 64 then some nanos else none

/-- The timeout, in seconds: the last argument. -/
def timeoutArg (parts : Parts) : Args Float64 :=
  let complaint : Args Float64 := reject "ERR timeout is not a float or out of range"
  match (parts.getLast?.bind RespFrame.bulk?).bind fun bytes =>
      Float64.parse (fromUtf8Lossy bytes) with
  | some t => if t.lt ⟨0⟩ then complaint else .ok t
  | none => complaint

/-- Register a client and put it to sleep. -/
def block (op : BlockingOp) (db : Nat) (id : ConnId) (keys : List Key) (timeout : Option Duration) :
    Action := fun s =>
  match timeout.mapM fun t => instantAdd (env.ω s.world.calls).now t with
  | none => (.panic, s)
  | some deadline =>
      match s.blocking.registerBlocked db id keys op deadline with
      | none => (.err Engine.invalidDatabase, s)
      | some blocking =>
          (.ok .noResponse,
            { s with blocking := blocking }.onConnection id fun c =>
              { c with state := .blocked ⟨keys.map (db, ·), deadline, op⟩ })

/-- The part of a blocking pop behind its timeout. -/
def popOrBlock (op : BlockingOp) (db : Nat) (id : ConnId) (parts : Parts)
    (timeout : Option Duration) : Action :=
  .reading (bulks "key" (parts.drop 1).dropLast) fun keys =>
    .storing env (tryPops op db keys) fun
      | some (key, value) => .reply (popFrame key value)
      | none => block env op db id keys timeout

/-- `handle_blpop`, `handle_brpop`. -/
def blockingPop (cmd : String) (op : BlockingOp) (db : Nat) (id : ConnId) (parts : Parts) : Action :=
  .reading (do
    arity cmd (3 ≤ parts.length)
    timeoutArg parts)
    fun t =>
      if t.numEq ⟨0⟩ then popOrBlock env op db id parts none
      else
        match fromSecsF64 t with
        | none => fun s => (.panic, s)
        | some d => popOrBlock env op db id parts (some d)

/-- `handle_blpop`. -/
def handleBlpop := blockingPop env "blpop" .blpop

/-- `handle_brpop`. -/
def handleBrpop := blockingPop env "brpop" .brpop

/-- Wake the first client that waits for a key. -/
def notify (db : Nat) (key : Key) (s : Server) : Server :=
  if s.blocking.hasBlockedClients db key then
    { s with blocking := s.blocking.notifyKeyReady db key }
  else s

/-- LPUSH and RPUSH of the server: the handler, then the wake-up. -/
def pushAndNotify (handler : Nat → Parts → StoreProg RespFrame) (db : Nat) (parts : Parts) : Action :=
  .storing env (handler db parts) fun frame s =>
    match frame, (parts[1]?).bind RespFrame.bulk? with
    | .integer n, some key =>
        (.ok frame, if 0 < n ∧ 3 ≤ parts.length then s.notify db key else s)
    | _, _ => (.ok frame, s)

/-! ## Connections -/

/-- `handle_select`. -/
def handleSelect (id : ConnId) (parts : Parts) : Action :=
  .reading (do
    arity "select" (parts.length == 2)
    nat parts 1 "database index")
    fun n s =>
      if s.world.engine.databases.length ≤ n then (.ok (.err "ERR DB index is out of range"), s)
      else (.ok .ok, s.onConnection id fun c => { c with dbIndex := n })

/-- `handle_auth`. -/
def handleAuth (id : ConnId) (parts : Parts) : Action :=
  if parts.length ≠ 2 then .error "ERR wrong number of arguments for 'auth' command"
  else
    match ((parts[1]?).bind RespFrame.bulk?).bind fromUtf8 with
    | none => .error "ERR invalid password format"
    | some given =>
        match env.password with
        | none => .error "ERR Client sent AUTH, but no password is set"
        | some password =>
            if given = password then fun s =>
              (.ok .ok, s.onConnection id fun c => { c with state := .authenticated })
            else .error "ERR invalid password"

/-- One line of CLIENT LIST. -/
def clientLine (s : Server) (id : ConnId) (c : Connection) : String :=
  let flags := (if c.isMonitoring then "M" else "") ++
    (if c.transactionState.inTransaction then "x" else "")
  "id=" ++ toString id ++ " addr=" ++ c.addr ++ " fd=" ++ toString id ++
    " name=" ++ c.name.getD "" ++ " age=" ++ toString ((s.proc env).age id) ++
    " idle=" ++ toString ((s.proc env).idle id) ++
    " flags=" ++ (if flags = "" then "N" else flags) ++ " db=" ++ toString c.dbIndex ++
    " cmd=unknown\n"

/-- `close_connection`. -/
def closeConnection (s : Server) (id : ConnId) : Server :=
  s.onConnection id fun c => { c with state := .closing }

/-- The connections CLIENT KILL is about. -/
inductive KillTarget
  | id (id : ConnId)
  | addr (addr : String)

/-- The arguments of CLIENT KILL. -/
def killArgs (parts : Parts) : Args KillTarget := do
  arity "client kill" (3 ≤ parts.length)
  let value : Option String := ((parts[3]?).bind RespFrame.bulk?).map fromUtf8Lossy
  match (parts[2]?).bind word? with
  | some "ID" =>
      if parts.length ≠ 4 then reject "ERR syntax error"
      else
        match value with
        | none => reject "ERR syntax error"
        | some text =>
            match parseU64 text with
            | some n => return .id n
            | none => reject notInteger
  | some "ADDR" =>
      if parts.length ≠ 4 then reject "ERR syntax error"
      else
        match value with
        | none => reject "ERR syntax error"
        | some text => return .addr text
  | _ => reject "ERR syntax error"

/-- `handle_client_kill`: a connection cannot kill itself. -/
def clientKill (self : ConnId) (parts : Parts) : Action :=
  .reading (killArgs parts) fun target s =>
    match target with
    | .id id =>
        if id = self then (.ok (.err "ERR cannot kill self"), s)
        else (.ok (.flag (s.connections.contains id)), s.closeConnection id)
    | .addr addr =>
        let ids := (s.connections.toPairs.filter fun p => p.1 != self && p.2.addr == addr).map
          Prod.fst
        (.ok (count ids.length), ids.foldl closeConnection s)

/-- The subcommand checks its number of parts. -/
def clientArity (sub : String) (n : Nat) (parts : Parts) (body : Action) : Action :=
  .reading (arity ("client " ++ sub) (parts.length == n)) fun _ => body

/-- The time of CLIENT PAUSE. -/
def pauseArg (parts : Parts) : Args Nat :=
  match (parts[2]?).bind RespFrame.bulk? with
  | none => reject "ERR syntax error"
  | some bytes =>
      match parseU64 (fromUtf8Lossy bytes) with
      | none => reject "ERR timeout is not an integer or out of range"
      | some ms => if 2147483647 < ms then reject "ERR timeout is out of range" else .ok ms

/-- `handle_client`. -/
def handleClient (self : ConnId) (parts : Parts) : Action :=
  .reading (do
    arity "client" (2 ≤ parts.length)
    match (parts[1]?).bind word? with
    | some sub => return sub
    | none => reject "ERR syntax error")
    fun sub =>
      match sub with
      | "LIST" => clientArity "list" 2 parts fun s =>
          (.ok (.fromString (String.join (s.connections.toPairs.map fun p =>
            clientLine env s p.1 p.2))), s)
      | "KILL" => clientKill self parts
      | "SETNAME" => clientArity "setname" 3 parts <|
          match (parts[2]?).bind RespFrame.bulk? with
          | none => .error "ERR syntax error"
          | some bytes => fun s =>
              if s.connections.contains self then
                (.ok .ok, s.onConnection self fun c => { c with name := some (fromUtf8Lossy bytes) })
              else (.ok (.err "ERR connection not found"), s)
      | "GETNAME" => clientArity "getname" 2 parts fun s =>
          match s.connections.get? self with
          | none => (.ok (.err "ERR connection not found"), s)
          | some c => (.ok ((c.name.map .fromString).getD .nullBulk), s)
      | "ID" => clientArity "id" 2 parts (.reply (.integer self))
      | "PAUSE" => clientArity "pause" 3 parts <| .reading (pauseArg parts) fun ms s =>
          (.ok .ok, { s with pausedUntil := (env.ω s.world.calls).sysNow + fromMillis ms })
      | "UNPAUSE" => clientArity "unpause" 2 parts fun s => (.ok .ok, { s with pausedUntil := 0 })
      | _ => .error ("ERR Unknown subcommand or wrong number of arguments for '" ++ sub ++ "'")

/-! ## Persistence -/

/-- A command without arguments. -/
def noArguments (cmd : String) (parts : Parts) (body : Action) : Action :=
  .reading (arity cmd (parts.length == 1)) fun _ => body

/-- Turn an error into a reply. -/
def orReply (lead : String) (a : Action) : Action := fun s =>
  match a s with
  | (.err e, s') => (.ok (.err (lead ++ e.display)), s')
  | r => r

/-- `handle_save`. -/
def handleSave (parts : Parts) : Action :=
  noArguments "save" parts fun s =>
    match (s.proc env).saveError with
    | some e => (.ok (.err ("ERR " ++ e.display)), s)
    | none =>
        orReply "ERR "
          (.storing env (Rdb.writeSnapshot env.overflowChecks s.world.engine.databases.length)
            fun _ => .reply .ok) s

/-- The reply to starting a background job. -/
def started (error : Option FerrousError) (msg : String) : RespFrame :=
  match error with
  | some e => .err ("ERR " ++ e.display)
  | none => .simpleString msg.toBytes

/-- `handle_bgsave`. -/
def handleBgsave (parts : Parts) : Action :=
  noArguments "bgsave" parts fun s =>
    (.ok (started (s.proc env).bgsaveError "Background saving started"), s)

/-- `handle_lastsave`. -/
def handleLastsave (parts : Parts) : Action :=
  noArguments "lastsave" parts fun s => (.ok (count ((s.proc env).lastSave.getD 0)), s)

/-- `handle_bgrewriteaof`. -/
def handleBgrewriteaof : Action := fun s =>
  if env.aofEnabled then
    (.ok (started (s.proc env).bgrewriteError "Background append only file rewriting started"), s)
  else (.ok (.err "ERR AOF is disabled"), s)

/-- SHUTDOWN behind its arguments: saves, and leaves the end of the process to a thread. -/
def ending (save : Bool) : Action := fun s =>
  if save ∧ (s.proc env).saveError = none then
    match s.onStore env (Rdb.writeSnapshot env.overflowChecks s.world.engine.databases.length) with
    | (.panic, s') => (.panic, s')
    | (_, s') => (.ok .noResponse, s')
  else (.ok .noResponse, s)

/-- `handle_shutdown`. -/
def handleShutdown (parts : Parts) : Action :=
  if parts.length = 1 then ending env true
  else if parts.length = 2 then
    match (parts[1]?).bind RespFrame.bulk? with
    | none => .error "ERR Invalid option format"
    | some bytes =>
        match toUppercase ((fromUtf8 bytes).getD "") with
        | "SAVE" => ending env true
        | "NOSAVE" => ending env false
        | _ => .error "ERR Invalid option. Valid values: SAVE, NOSAVE"
  else .error "ERR wrong number of arguments for 'shutdown' command"

/-- SHUTDOWN is refused, or ends the server. -/
theorem handleShutdown_rule {P : Action → Prop} (herror : ∀ msg, P (.error msg))
    (hend : ∀ save, P (ending env save)) (parts : Parts) : P (handleShutdown env parts) := by
  unfold handleShutdown
  split
  · exact hend true
  · split
    · split
      · exact herror _
      · split
        · exact hend true
        · exact hend false
        · exact herror _
    · exact herror _

/-! ## Scripts -/

/-- `handle_evalsha_command`: the cached script runs in database 0. -/
def handleEvalsha (parts : Parts) : Action :=
  .reading (do
    arity "evalsha" (3 ≤ parts.length)
    match ((parts[1]?).bind RespFrame.bulk?).bind fromUtf8 with
    | some sha1 => return sha1
    | none => reject "ERR invalid SHA1 hash")
    fun sha1 s =>
      match s.scriptCache.get? sha1 with
      | none => (.ok (.err "NOSCRIPT No matching script. Please use EVAL."), s)
      | some script =>
          Action.storing env
            (handleEval env.lua 0 (.fromString "EVAL" :: .fromString script :: parts.drop 2))
            .reply s

/-- `handle_script_load`. -/
def scriptLoad (p : Option RespFrame) : Except FerrousError (String × String) :=
  match p.bind RespFrame.bulk? with
  | none => .error (.luaError "invalid script")
  | some bytes =>
      match fromUtf8 bytes with
      | none => .error (.luaError "invalid script - not valid UTF-8")
      | some script => (env.lua.scriptLoad script).map (·, script)

/-- `handle_script_command`. -/
def handleScript (parts : Parts) : Action :=
  .reading (do
    arity "script" (2 ≤ parts.length)
    match ((parts[1]?).bind RespFrame.bulk?).bind fromUtf8 with
    | some sub => return toLowercase sub
    | none => reject "ERR invalid subcommand")
    fun sub =>
      match sub with
      | "load" => .reading (arity "script load" (parts.length == 3)) fun _ s =>
          match scriptLoad env parts[2]? with
          | .ok (sha1, script) =>
              (.ok (.fromString sha1), { s with scriptCache := s.scriptCache.set sha1 script })
          | .error e => (.ok (.err ("ERR " ++ e.display)), s)
      | "exists" => .reading (arity "script exists" (3 ≤ parts.length)) fun _ s =>
          (.ok (.list ((parts.drop 2).map fun p =>
            .flag (((p.bulk?.bind fromUtf8).map s.scriptCache.contains).getD false))), s)
      | "flush" => .reading (arity "script flush" (parts.length == 2)) fun _ s =>
          (.ok .ok, { s with scriptCache := ∅ })
      | "kill" => .reading (arity "script kill" (parts.length == 2)) fun _ => .reply .ok
      | _ => .error ("ERR Unknown subcommand '" ++ sub ++ "'")

/-! ## Replication -/

/-- A port number. -/
def parseU16 (s : String) : Option Nat := (parseU64 s).filter (· < 2 ^ 16)

/-- An error of the command itself, passed on. -/
def generic (msg : String) : FerrousError := .command (.generic msg)

/-- Become a replica of an address. -/
def follow (host port : String) : Action := fun s =>
  match parseU16 port with
  | none => (.err (generic "invalid port number"), s)
  | some n =>
      match (s.proc env).resolve (host ++ ":" ++ toString n) with
      | .error () => (.err (generic "invalid address"), s)
      | .ok none => (.err (generic "failed to resolve address"), s)
      | .ok (some addr) =>
          (.ok .ok,
            { s with replication := s.replication.setMaster (some addr) (s.proc env).replId })

/-- `handle_replicaof`, and `handle_slaveof`, which calls it. -/
def handleReplicaof (parts : Parts) : Action :=
  if parts.length < 3 then .error "ERR wrong number of arguments for 'replicaof' command"
  else
    match (parts[1]?).bind RespFrame.bulk?, (parts[2]?).bind RespFrame.bulk? with
    | none, _ => .error "ERR invalid host format"
    | some host, second =>
        match fromUtf8 host with
        | none => .fail (generic "invalid host format")
        | some host =>
            if toUppercase host = "NO" then
              if parts.length ≠ 3 then
                .error "ERR wrong number of arguments for 'replicaof' command"
              else
                match second with
                | none => .error "ERR syntax error"
                | some arg =>
                    match fromUtf8 arg with
                    | none => .fail (generic "invalid argument format")
                    | some arg =>
                        if toUppercase arg ≠ "ONE" then .error "ERR syntax error"
                        else fun s =>
                          (.ok .ok, { s with
                            replication := s.replication.setMaster none (s.proc env).replId })
            else
              match second with
              | none => .error "ERR invalid port format"
              | some port =>
                  match fromUtf8 port with
                  | none => .fail (generic "invalid port format")
                  | some port => follow env host port

/-- REPLICAOF is refused or fails, or makes the server a master again, or a replica. -/
theorem handleReplicaof_rule {P : Action → Prop} (herror : ∀ msg, P (.error msg)) (hfail : ∀ e, P (.fail e))
    (hmaster : P fun s =>
      (.ok .ok, { s with replication := s.replication.setMaster none (s.proc env).replId }))
    (hfollow : ∀ host port, P (follow env host port)) (parts : Parts) : P (handleReplicaof env parts) := by
  unfold handleReplicaof
  split
  · exact herror _
  · split
    · exact herror _
    · split
      · exact hfail _
      · split
        · split
          · exact herror _
          · split
            · exact herror _
            · split
              · exact hfail _
              · split
                · exact herror _
                · exact hmaster
        · split
          · exact herror _
          · split
            · exact hfail _
            · exact hfollow _ _

/-- `handle_replconf`. -/
def handleReplconf (id : ConnId) (parts : Parts) : Action :=
  .reading (do
    arity "replconf" (3 ≤ parts.length)
    bulk parts 1 "subcommand")
    fun sub s =>
      match toUppercase (fromUtf8Lossy sub) with
      | "LISTENING-PORT" => (.ok .ok, s)
      | "CAPA" => (.ok .ok, s)
      | "ACK" =>
          if parts.length ≠ 3 then (.ok (.err "ERR wrong number of arguments"), s)
          else
            match (parts[2]?).bind RespFrame.bulk? with
            | none => (.ok (.err "ERR invalid offset format"), s)
            | some bytes =>
                match parseU64 (fromUtf8Lossy bytes) with
                | none => (.err (generic "invalid offset"), s)
                | some offset =>
                    (.ok .ok, { s with replication := s.replication.acknowledge id offset })
      | "GETACK" =>
          if s.replication.isMaster then (.ok (.err "ERR wrong role"), s)
          else
            (.ok (items ["REPLCONF".toBytes, "ACK".toBytes,
              (toString s.replication.getReplOffset).toBytes]), s)
      | _ => (.ok (.err "ERR unknown REPLCONF subcommand"), s)

/-- `handle_sync`: the dump is made, and only its failure is looked at. -/
def handleSync : Action := fun s =>
  match s.replication.role with
  | .replica _ _ => (.ok (.err "ERR wrong role"), s)
  | .master replId offset =>
      orReply "ERR RDB generation failed: "
        (.storing env (Rdb.generateRdbBytes env.overflowChecks) fun _ =>
          .reply (fullResync replId offset)) s

/-- `handle_psync`, as the dispatch table calls it. -/
def psyncReply (parts : Parts) : Action := fun s =>
  match handlePsync s.replication parts with
  | .reply f => (.ok f, s)
  | .full f => (.ok f, s)
  | .fail e => (.err e, s)

/-- Register the connection as a replica and send it the dump. -/
def sendDump (id : ConnId) (response : RespFrame) : Action := fun s =>
  match s.connections.get? id with
  | none => (.err (.connection "Connection not found"), s)
  | some c =>
      match s.replication.addReplica id c.addr with
      | none => (.err (generic "not a master"), s)
      | some replication =>
          Action.storing env (Rdb.generateRdbBytes env.overflowChecks) (fun data s =>
            (.ok response, s.sendAll id
              [.raw ("$" ++ toString data.length ++ "\r\n").toBytes, .raw data,
               .raw "\r\n".toBytes]))
            { s with replication := replication }

/-- `handle_sync_command`, before any check of the connection. -/
def handleSyncCommand (psync : Bool) (id : ConnId) (parts : Parts) : Action := fun s =>
  if psync then
    match handlePsync s.replication parts with
    | .reply f => (.ok f, s)
    | .fail e => (.err e, s)
    | .full f => sendDump env id f s
  else
    match handleSync env s with
    | (.ok response, s') => sendDump env id response s'
    | r => r

/-! ## Publish and subscribe -/

/-- `handle_publish`. -/
def handlePublish (parts : Parts) : Action :=
  .reading (do
    arity "publish" (parts.length == 3)
    let channel ← bulk parts 1 "channel"
    let message ← bulk parts 2 "message"
    return (channel, message))
    fun (channel, message) s =>
      let receivers := s.pubsub.publish channel
      (.ok (count receivers.length), receivers.foldl (fun s r =>
        s.send r.1 (.frame (messageFrame r.2 channel message))) s)

/-- The names a subscription command gives. -/
def kindWord : PubSubManager.Kind → String
  | .channel => "channel"
  | .pattern => "pattern"

/-- `handle_subscribe`, `handle_psubscribe`: the confirmations are sent here. -/
def subscribing (word : String) (kind : PubSubManager.Kind) (id : ConnId) (parts : Parts) : Action :=
  .reading (do
    arity word (2 ≤ parts.length)
    bulks (kindWord kind) (parts.drop 1))
    fun names s =>
      let (confirmed, pubsub) := PubSubManager.subscribe kind s.pubsub id names
      (.ok .noResponse, { s with pubsub := pubsub }.sendAll id
        (confirmed.map fun r => .frame (confirmationFrame word r)))

/-- `handle_unsubscribe`, `handle_punsubscribe`. -/
def unsubscribing (word : String) (kind : PubSubManager.Kind) (id : ConnId) (parts : Parts) :
    Action :=
  .reading (bulks (kindWord kind) (parts.drop 1)) fun names s =>
    let (confirmed, pubsub) := PubSubManager.unsubscribe kind s.pubsub id
      (if 1 < parts.length then some names else none)
    (.ok .noResponse, { s with pubsub := pubsub }.sendAll id
      (confirmed.map fun r => .frame (confirmationFrame word r)))

/-- `MONITOR`. -/
def handleMonitor (id : ConnId) (parts : Parts) : Action :=
  .reading (arity "monitor" (parts.length == 1)) fun _ s =>
    (.ok .ok, { s with monitorSubscribers := s.monitorSubscribers.add id }.onConnection id fun c =>
      { c with isMonitoring := true })

/-! ## Transactions -/

/-- Work on a connection that is there. -/
def withConnection (id : ConnId) (body : Connection → Action) : Action := fun s =>
  match s.connections.get? id with
  | some c => body c s
  | none => (.ok (.err "ERR connection not found"), s)

/-- Replace the transaction state of a connection. -/
def setTransaction (s : Server) (id : ConnId) (t : TransactionState) : Server :=
  s.onConnection id fun c => { c with transactionState := t }

/-- `handle_multi`. -/
def handleMulti (id : ConnId) : Action :=
  withConnection id fun c s =>
    if c.transactionState.inTransaction then (.ok (.err "ERR MULTI calls can not be nested"), s)
    else
      (.ok .ok, s.setTransaction id { c.transactionState with
        inTransaction := true, queuedCommands := [], aborted := false })

/-- `handle_discard`: the watches are forgotten, and stay registered. -/
def handleDiscard (id : ConnId) : Action :=
  withConnection id fun c s =>
    if c.transactionState.inTransaction then (.ok .ok, s.setTransaction id {})
    else (.ok (.err "ERR DISCARD without MULTI"), s)

/-- The loop of WATCH: keys before a malformed one stay watched. -/
def watchLoop (id : ConnId) (db : Nat) : Parts → Action
  | [] => .reply .ok
  | p :: ps =>
      match p.bulk? with
      | none => .error "ERR invalid key format"
      | some key => fun s =>
          let r := s.onStore env (Prog.attempt (.store (.registerWatch db key)))
          let baseline := match r.1 with
            | .ok (.ok n) => n
            | _ => 0
          watchLoop id db ps (r.2.onConnection id fun c =>
            { c with transactionState :=
              { c.transactionState with
                watchedKeys := c.transactionState.watchedKeys.set key baseline } })

/-- `handle_watch`. -/
def handleWatch (id : ConnId) (parts : Parts) : Action :=
  withConnection id fun c =>
    .reading (arity "watch" (2 ≤ parts.length)) fun _ =>
      if c.transactionState.inTransaction then .error "ERR WATCH inside MULTI is not allowed"
      else watchLoop env id c.dbIndex (parts.drop 1)

/-- Unregister keys in one database; failures are ignored. -/
def unregisterAll (db : Nat) : List Key → StoreProg Unit
  | [] => return ()
  | key :: keys => do
      let _ ← Prog.attempt (.store (.unregisterWatch db key))
      unregisterAll db keys

/-- `handle_unwatch`: the watches are unregistered in the database selected now. -/
def handleUnwatch (id : ConnId) : Action :=
  withConnection id fun c =>
    .storing env (unregisterAll c.dbIndex c.transactionState.watchedKeys.keyList) fun _ s =>
      (.ok .ok, s.setTransaction id { c.transactionState with watchedKeys := ∅ })

/-- `queue_command`. -/
def queueCommand (id : ConnId) (parts : Parts) : Action :=
  withConnection id fun c s =>
    (.ok (.simpleString "QUEUED".toBytes), s.setTransaction id { c.transactionState with
      queuedCommands := c.transactionState.queuedCommands ++ [parts] })

end Server

end Ferrous
