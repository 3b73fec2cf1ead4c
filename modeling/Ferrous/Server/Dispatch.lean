/-
# `Server.Dispatch` — from a frame to its reply

`processNormalCommand` is the dispatch table with what happens around it (the
log, the propagation to replicas); `handleExec` runs a queue through it; and
`processFrame` is the gate in front: authentication, the commands that bypass
the queue, the queue, and the pause.
-/
import Ferrous.Commands.Strings
import Ferrous.Commands.SortedSets
import Ferrous.Commands.Groups
import Ferrous.Server.Command
import Ferrous.Server.Handlers

namespace Ferrous

open Lib Args

/-- The commands whose handler works on the store alone. -/
def Command.storeHandler (env : Env) (proc : Process) (db : Nat) (parts : Parts) :
    Command → Option (StoreProg RespFrame)
  | .ping => some (.ret (handlePing parts))
  | .echo => some (.ret (handleEcho parts))
  | .set => some (handleSet db parts)
  | .get => some (handleGet db parts)
  | .incr => some (handleIncr db parts)
  | .decr => some (handleDecr db parts)
  | .incrby => some (handleIncrby db parts)
  | .decrby => some (handleDecrby env.overflowChecks db parts)
  | .del => some (handleDel db parts)
  | .exists? => some (handleExists db parts)
  | .expire => some (handleExpire db parts)
  | .ttl => some (handleTtl db parts)
  | .flushdb => some (handleFlushdb db parts)
  | .flushall => some (handleFlushall parts)
  | .dbsize => some (handleDbsize db parts)
  | .setnx => some (handleSetnx db parts)
  | .setex => some (handleSetex db parts)
  | .psetex => some (handlePsetex db parts)
  | .sleep => some (handleSleep parts)
  | .config => some (handleConfig parts)
  | .mget => some (handleMget db parts)
  | .mset => some (handleMset db parts)
  | .getset => some (handleGetset db parts)
  | .append => some (handleAppend db parts)
  | .strlen => some (handleStrlen db parts)
  | .getrange => some (handleGetrange db parts)
  | .setrange => some (handleSetrange db parts)
  | .type => some (handleType db parts)
  | .rename => some (handleRename db parts)
  | .renamenx => some (handleRenamenx db parts)
  | .randomkey => some (handleRandomkey db parts)
  | .keys => some (handleKeys db parts)
  | .pexpire => some (handlePexpire db parts)
  | .pttl => some (handlePttl db parts)
  | .persist => some (handlePersist db parts)
  | .lpop => some (handleLpop db parts)
  | .rpop => some (handleRpop db parts)
  | .llen => some (handleLlen db parts)
  | .lrange => some (handleLrange db parts)
  | .lindex => some (handleLindex db parts)
  | .lset => some (handleLset db parts)
  | .ltrim => some (handleLtrim db parts)
  | .lrem => some (handleLrem db parts)
  | .sadd => some (handleSadd db parts)
  | .srem => some (handleSrem db parts)
  | .smembers => some (handleSmembers db parts)
  | .sismember => some (handleSismember db parts)
  | .scard => some (handleScard db parts)
  | .sunion => some (handleSunion db parts)
  | .sinter => some (handleSinter db parts)
  | .sdiff => some (handleSdiff db parts)
  | .srandmember => some (handleSrandmember db parts)
  | .spop => some (handleSpop db parts)
  | .hset => some (handleHset db parts)
  | .hget => some (handleHget db parts)
  | .hmset => some (handleHmset db parts)
  | .hmget => some (handleHmget db parts)
  | .hgetall => some (handleHgetall db parts)
  | .hdel => some (handleHdel db parts)
  | .hlen => some (handleHlen db parts)
  | .hexists => some (handleHexists db parts)
  | .hkeys => some (handleHkeys db parts)
  | .hvals => some (handleHvals db parts)
  | .hincrby => some (handleHincrby db parts)
  | .zadd => some (handleZadd db parts)
  | .zrem => some (handleZrem db parts)
  | .zscore => some (handleZscore db parts)
  | .zcard => some (handleZcard db parts)
  | .zrank => some (handleZrank db parts)
  | .zrevrank => some (handleZrevrank db parts)
  | .zrange => some (handleZrange db parts)
  | .zrevrange => some (handleZrevrange db parts)
  | .zrangebyscore => some (handleZrangebyscore db parts)
  | .zrevrangebyscore => some (handleZrevrangebyscore db parts)
  | .zcount => some (handleZcount db parts)
  | .zincrby => some (handleZincrby db parts)
  | .zpopmin => some (handleZpopmin db parts)
  | .zpopmax => some (handleZpopmax db parts)
  | .xadd => some (handleXadd db parts)
  | .xrange => some (handleXrange db parts)
  | .xrevrange => some (handleXrevrange db parts)
  | .xlen => some (handleXlen db parts)
  | .xread => some (handleXread db parts)
  | .xtrim => some (handleXtrim db parts)
  | .xdel => some (handleXdel db parts)
  | .xgroup => some (handleXgroup db parts)
  | .xreadgroup => some (handleXreadgroup db parts)
  | .xack => some (handleXack db parts)
  | .xclaim => some (handleXclaim db parts)
  | .xpending => some (handleXpending db parts)
  | .xinfo => some (handleXinfo db parts)
  | .scan => some (handleScan db parts)
  | .hscan => some (handleHscan db parts)
  | .sscan => some (handleSscan db parts)
  | .zscan => some (handleZscan db parts)
  | .info => some (handleInfo proc parts)
  | .slowlog => some (handleSlowlog proc parts)
  | .memory => some (handleMemory env.lay db parts)
  | .eval => some (handleEval env.lua db parts)
  | .command => some (handleCommand parts)
  | _ => none

namespace Server

variable (env : Env)

/-! ## Dispatch -/

/-- The reply to a name that is in no table. -/
def unknownCommand (name : String) : RespFrame := .err ("ERR unknown command '" ++ name ++ "'")

/-- The commands whose handler works on more than the store. -/
def serverHandler (db : Nat) (id : ConnId) (parts : Parts) : Command → Option Action
  | .select => some (handleSelect id parts)
  | .blpop => some (handleBlpop env db id parts)
  | .brpop => some (handleBrpop env db id parts)
  | .lpush => some (pushAndNotify env handleLpush db parts)
  | .rpush => some (pushAndNotify env handleRpush db parts)
  | .save => some (handleSave env parts)
  | .bgsave => some (handleBgsave env parts)
  | .lastsave => some (handleLastsave env parts)
  | .bgrewriteaof => some (handleBgrewriteaof env)
  | .client => some (handleClient env id parts)
  -- the connection is not passed on, so this one changes no state
  | .auth => some (handleAuth env 0 parts)
  | .replicaof => some (handleReplicaof env parts)
  | .slaveof => some (handleReplicaof env parts)
  | .sync => some (handleSync env)
  | .psync => some (psyncReply parts)
  | .quit => some (.reply .ok)
  | .evalsha => some (handleEvalsha env parts)
  | .shutdown => some (handleShutdown env parts)
  | .script => some (handleScript env parts)
  | _ => none

/-- The `match` of `process_normal_command`. -/
def dispatch (db : Nat) (id : ConnId) (parts : Parts) (name : String) : Action := fun s =>
  match Command.parse name with
  | none => (.ok (unknownCommand name), s)
  | some c =>
      match c.storeHandler env (s.proc env) db parts with
      | some p => s.onStore env p
      | none =>
          match serverHandler env db id parts c with
          | some a => a s
          | none => (.ok (unknownCommand name), s)

/-- Append a write command to the log before it runs. -/
def logCommand (write : Bool) (parts : Parts) (s : Server) : Server :=
  if env.aofEnabled && write then { s with aof := s.aof ++ [parts] } else s

theorem logCommand_connections (write : Bool) (parts : Parts) (s : Server) :
    (logCommand env write parts s).connections = s.connections := by
  unfold logCommand
  split <;> rfl

/-- Send a write command that succeeded to every replica. -/
def propagate (write : Bool) (parts : Parts) (r : Outcome RespFrame) (s : Server) : Server :=
  match r with
  | .ok f =>
      if write && !f.isError then
        let cmd : RespFrame := .list parts
        let (ids, replication) := s.replication.propagateCommand cmd
        ids.foldl (fun s id => s.send id (.frame cmd)) { s with replication := replication }
      else s
  | _ => s

/-- What neither a send nor the offset touches, the replicas' copy leaves alone. -/
theorem propagate_keeps {γ : Type} {π : Server → γ} (hsend : ∀ s i x, π (s.send i x) = π s)
    (hrep : ∀ s m, π ({ s with replication := m } : Server) = π s) (write : Bool) (parts : Parts)
    (r : Outcome RespFrame) (s : Server) : π (propagate write parts r s) = π s := by
  unfold propagate
  split
  · split
    · exact (sendEach_keeps _ hsend id _ _).trans (hrep s _)
    · rfl
  · rfl

/-- `process_normal_command`. -/
def processNormalCommand (parts : Parts) (db : Nat) (id : ConnId) : Action := fun s =>
  match (parts.head?).bind RespFrame.bulk? with
  | none => (.ok (.err "ERR invalid command format"), s)
  | some bytes =>
      let name := Command.rawName bytes
      let write := ((Command.parse name).map Command.isWrite).getD false
      let (r, s') := dispatch env db id parts name (logCommand env write parts s)
      (r, propagate write parts r s')

/-! ## EXEC -/

/-- Whether some watched key has changed; an error counts as a change. -/
def checkWatched (db : Nat) : List (Key × Nat) → StoreProg Bool
  | [] => return false
  | (key, baseline) :: rest => do
      let r ← Prog.attempt (.store (.wasModifiedSince db key baseline))
      match r with
      | .ok false => checkWatched db rest
      | _ => return true

/-- The loop of EXEC: each command runs for connection 0, and an error becomes
its reply. -/
def runQueued (db : Nat) : List Parts → List RespFrame → Action
  | [], results => .reply (.list results)
  | parts :: rest, results => fun s =>
      match processNormalCommand env parts db 0 s with
      | (.ok f, s') => runQueued db rest (results ++ [f]) s'
      | (.err e, s') => runQueued db rest (results ++ [.err e.display]) s'
      | (.panic, s') => (.panic, s')

/-- `handle_exec`. -/
def handleExec (id : ConnId) : Action := fun s =>
  match s.connections.get? id with
  | none => (.ok (.err "ERR EXEC without MULTI"), s)
  | some c =>
      let t := c.transactionState
      if !t.inTransaction then (.ok (.err "ERR EXEC without MULTI"), s)
      else
        Action.storing env (checkWatched c.dbIndex t.watchedKeys.toPairs) (fun violated s =>
          let s := s.setTransaction id {}
          if violated || t.aborted then (.ok .nullArray, s)
          else runQueued env c.dbIndex t.queuedCommands [] s) s

/-! ## The gate -/

/-- What a connection that is not authenticated may do. -/
def beforeAuth (id : ConnId) (parts : Parts) : Option Command → Action
  | some .auth => handleAuth env id parts
  | some .ping => .reply (handlePing parts)
  | some .quit => .reply .ok
  | _ => .error "NOAUTH Authentication required"

/-- The commands that are neither queued nor paused. -/
def immediate (id : ConnId) (parts : Parts) : Command → Option Action
  | .monitor => some (handleMonitor id parts)
  | .multi => some (handleMulti id)
  | .exec => some (handleExec env id)
  | .discard => some (handleDiscard id)
  | .watch => some (handleWatch env id parts)
  | .unwatch => some (handleUnwatch env id)
  | .publish => some (handlePublish parts)
  | .subscribe => some (subscribing "subscribe" .channel id parts)
  | .unsubscribe => some (unsubscribing "unsubscribe" .channel id parts)
  | .psubscribe => some (subscribing "psubscribe" .pattern id parts)
  | .punsubscribe => some (unsubscribing "punsubscribe" .pattern id parts)
  | .auth => some (handleAuth env id parts)
  | .replconf => some (handleReplconf id parts)
  | _ => none

/-- Whether CLIENT PAUSE holds a command back. -/
def held (s : Server) (c : Option Command) : Bool :=
  decide ((env.ω s.world.calls).sysNow < s.pausedUntil) &&
    !(c == some .auth || c == some .client || c == some .quit)

/-- What is done with a command of an authenticated connection. -/
def afterAuth (id : ConnId) (conn : Connection) (parts : Parts) (c : Option Command) : Action :=
  match c.bind (immediate env id parts) with
  | some a => a
  | none =>
      if conn.transactionState.inTransaction then queueCommand id parts
      else fun s =>
        if s.held env c then (.ok (.err "ERR CLIENT PAUSE active, please retry later"), s)
        else processNormalCommand env parts conn.dbIndex id s

/-- The command of a frame, on the connection it came from. -/
def processParts (id : ConnId) (parts : Parts) (c : Option Command) : Action :=
  withConnection id fun conn =>
    if env.password.isSome ∧ conn.state ≠ .authenticated then beforeAuth env id parts c
    else afterAuth env id conn parts c

/-- `process_frame`. -/
def processFrame (id : ConnId) : RespFrame → Action
  | .array (some (first :: rest)) =>
      match first.bulk? with
      | none => .error "ERR invalid command format"
      | some bytes =>
          processParts env id (first :: rest) (Command.parse (Command.cleanName bytes))
  | _ => .error "ERR invalid request format"

end Server

end Ferrous
