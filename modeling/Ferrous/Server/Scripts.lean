/-
# `Server.Scripts` — scripts by their text and by their hash

SCRIPT LOAD is the one command that adds to the script cache and SCRIPT FLUSH
the one that empties it, so whatever the server does, a cached script has been
loaded under its hash (`Loaded`).  EVALSHA rewrites its arguments to those of
EVAL and runs the script in database 0, where EVAL runs it in the database the
connection has selected.
-/
import Ferrous.Server.Teardown

namespace Ferrous

open Lib Args

namespace Server

/-- The cache holds scripts that SCRIPT LOAD takes, under the hashes it gives. -/
def Loaded (env : Env) (s : Server) : Prop :=
  ∀ sha1 script, s.scriptCache.get? sha1 = some script → env.lua.scriptLoad script = .ok sha1

variable {env : Env} {id : ConnId} {db : Nat} {parts : Parts} {s s' : Server}

theorem Loaded.of_cache (h : s.Loaded env) (hs : s'.scriptCache = s.scriptCache) : s'.Loaded env :=
  fun sha1 script hget => h sha1 script (hs ▸ hget)

end Server

/-! ## Actions that keep the cache -/

/-- Wherever the action runs, the cache holds loaded scripts after it. -/
def Action.Caches (env : Env) (a : Action) : Prop := ∀ s, s.Loaded env → (a s).2.Loaded env

namespace Action.Caches

variable {env : Env} {α : Type}

theorem of_cache {a : Action} (h : ∀ s, (a s).2.scriptCache = s.scriptCache) : a.Caches env :=
  fun s hs => hs.of_cache (h s)

theorem reply (f : RespFrame) : (Action.reply f).Caches env := fun _ h => h

theorem error (msg : String) : (Action.error msg).Caches env := reply _

theorem fail (e : FerrousError) : (Action.fail e).Caches env := fun _ h => h

theorem reading {args : Args α} {body : α → Action} (h : ∀ a, (body a).Caches env) :
    (Action.reading args body).Caches env := by
  cases args with
  | ok a => exact h a
  | error f => exact reply f

theorem storing {p : StoreProg α} {body : α → Action} (h : ∀ a, (body a).Caches env) :
    (Action.storing env p body).Caches env := by
  intro s hs
  simp only [Action.storing, Server.onStore]
  rcases p.run (World.step env.ω) s.world with ⟨a | e | _, w⟩
  · exact h a _ hs
  · exact hs
  · exact hs

theorem withConnection {i : ConnId} {body : Connection → Action} (h : ∀ c, (body c).Caches env) :
    (Server.withConnection i body).Caches env := by
  intro s hs
  unfold Server.withConnection
  split
  · exact h _ s hs
  · exact hs

end Action.Caches

namespace Server

open Ferrous.Action (Caches)

variable {env : Env} (id : ConnId) (db : Nat) (parts : Parts)

/-! ## The dispatch table -/

theorem caches_orReply {lead : String} {a : Action} (h : Caches env a) : Caches env (orReply lead a) := by
  intro s hs
  have hafter := h s hs
  unfold orReply
  rcases hr : a s with ⟨f | e | _, s'⟩
  all_goals
    rw [hr] at hafter
    exact hafter

theorem caches_pushAndNotify (handler : Nat → Parts → StoreProg RespFrame) :
    Caches env (pushAndNotify env handler db parts) := by
  refine .storing fun frame => .of_cache fun s => ?_
  split
  · dsimp only
    split
    · unfold notify
      split <;> rfl
    · rfl
  · rfl

theorem caches_handleSelect : Caches env (handleSelect id parts) := by
  refine .reading fun n => .of_cache fun s => ?_
  split
  · rfl
  · exact onConnection_scriptCache ..

theorem caches_handleAuth : Caches env (handleAuth env id parts) := by
  refine .of_cache fun s => ?_
  rcases handleAuth_cases id parts env s with hs | ⟨-, hs⟩
  · rw [hs]
  · rw [hs, onConnection_scriptCache]

theorem foldl_closeConnection_scriptCache (ids : List ConnId) (s : Server) :
    (ids.foldl closeConnection s).scriptCache = s.scriptCache := by
  induction ids generalizing s with
  | nil => rfl
  | cons i ids ih => exact (ih _).trans (onConnection_scriptCache ..)

/-- Only the end of the pause is another. -/
theorem scriptCache_withPausedUntil (s : Server) (n : Nat) :
    ({ s with pausedUntil := n } : Server).scriptCache = s.scriptCache := rfl

theorem caches_handleClient : Caches env (handleClient env id parts) := by
  have harity {sub : String} {n : Nat} {body : Action} (h : Caches env body) :
      Caches env (clientArity sub n parts body) := .reading fun _ => h
  refine .reading fun sub => ?_
  split
  · exact harity (.of_cache fun _ => rfl)
  · refine .reading fun target => .of_cache fun s => ?_
    cases target with
    | id j =>
        dsimp only
        split
        · rfl
        · exact onConnection_scriptCache ..
    | addr addr => exact foldl_closeConnection_scriptCache _ _
  · refine harity ?_
    split
    · exact .error _
    · refine .of_cache fun s => ?_
      split
      · exact onConnection_scriptCache ..
      · rfl
  · refine harity (.of_cache fun s => ?_)
    split <;> rfl
  · exact harity (.reply _)
  · exact harity (.reading fun _ => .of_cache fun s => scriptCache_withPausedUntil s _)
  · exact harity (.of_cache fun s => scriptCache_withPausedUntil s 0)
  · exact .error _

theorem caches_handleSave : Caches env (handleSave env parts) := by
  refine .reading fun _ s hs => ?_
  split
  · exact hs
  · exact caches_orReply (.storing fun _ => .reply _) s hs

theorem caches_handleShutdown : Caches env (handleShutdown env parts) := by
  refine handleShutdown_rule env (fun _ => .error _) (fun save => .of_cache fun s => ?_) parts
  unfold ending
  split
  · simp only [Server.onStore]
    rcases (Rdb.writeSnapshot env.overflowChecks s.world.engine.databases.length).run
      (World.step env.ω) s.world with ⟨a | e | _, w⟩ <;> rfl
  · rfl

theorem caches_handleEvalsha : Caches env (handleEvalsha env parts) := by
  refine .reading fun sha1 s hs => ?_
  split
  · exact hs
  · exact Caches.storing (fun _ => .reply _) s hs

/-- SCRIPT LOAD puts a script under the hash it gets, FLUSH empties the cache. -/
theorem caches_handleScript : Caches env (handleScript env parts) := by
  refine .reading fun sub => ?_
  split
  · refine .reading fun _ s hs => ?_
    cases hload : scriptLoad env parts[2]? with
    | error e => exact hs
    | ok p =>
        obtain ⟨sha1, script⟩ := p
        have hsha : env.lua.scriptLoad script = .ok sha1 := by
          unfold scriptLoad at hload
          split at hload
          · cases hload
          · split at hload
            · cases hload
            · next bytes _ text _ =>
                cases hr : env.lua.scriptLoad text with
                | error e => simp [hr, Except.map] at hload
                | ok sha =>
                    simp only [hr, Except.map, Except.ok.injEq, Prod.mk.injEq] at hload
                    obtain ⟨rfl, rfl⟩ := hload
                    exact hr
        intro sha1' script' hget
        change (s.scriptCache.set sha1 script).get? sha1' = some script' at hget
        rw [Map.get?_set] at hget
        split at hget
        · next heq =>
            obtain rfl := Option.some.inj hget
            exact heq ▸ hsha
        · exact hs sha1' script' hget
  · exact .reading fun _ _ hs => hs
  · refine .reading fun _ s _ sha1 script hget => ?_
    change (∅ : Map String String).get? sha1 = some script at hget
    rw [Map.get?_empty] at hget
    cases hget
  · exact .reading fun _ => .reply _
  · exact .error _

theorem caches_follow (host port : String) : Caches env (follow env host port) := by
  refine .of_cache fun s => ?_
  unfold follow
  split
  · rfl
  · split <;> rfl

theorem caches_handleReplicaof : Caches env (handleReplicaof env parts) :=
  handleReplicaof_rule env (fun _ => .error _) (fun _ => .fail _) (.of_cache fun _ => rfl) caches_follow parts

theorem caches_handleSync : Caches env (handleSync env) := by
  intro s hs
  unfold handleSync
  split
  · exact hs
  · exact caches_orReply (.storing fun _ => .reply _) s hs

theorem caches_psyncReply : Caches env (psyncReply parts) := by
  refine .of_cache fun s => ?_
  unfold psyncReply
  split <;> rfl

theorem caches_blockingPop (cmd : String) (op : BlockingOp) :
    Caches env (blockingPop env cmd op db id parts) := by
  have hpop (timeout : Option Duration) : Caches env (popOrBlock env op db id parts timeout) := by
    refine .reading fun keys => .storing fun found => ?_
    cases found with
    | some p => exact .reply _
    | none =>
        refine .of_cache fun s => ?_
        dsimp only
        unfold block
        split
        · rfl
        · split
          · rfl
          · exact onConnection_scriptCache ..
  refine .reading fun t => ?_
  split
  · exact hpop none
  · split
    · exact fun s hs => hs
    · exact hpop _

theorem caches_serverHandler {c : Command} {a : Action} (h : serverHandler env db id parts c = some a) :
    Caches env a := by
  cases c with
  | select => exact Option.some.inj h ▸ caches_handleSelect id parts
  | blpop => exact Option.some.inj h ▸ caches_blockingPop id db parts _ _
  | brpop => exact Option.some.inj h ▸ caches_blockingPop id db parts _ _
  | lpush => exact Option.some.inj h ▸ caches_pushAndNotify db parts _
  | rpush => exact Option.some.inj h ▸ caches_pushAndNotify db parts _
  | save => exact Option.some.inj h ▸ caches_handleSave parts
  | bgsave => exact Option.some.inj h ▸ .reading fun _ s hs => hs
  | lastsave => exact Option.some.inj h ▸ .reading fun _ s hs => hs
  | bgrewriteaof =>
      refine Option.some.inj h ▸ .of_cache fun s => ?_
      unfold handleBgrewriteaof
      split <;> rfl
  | client => exact Option.some.inj h ▸ caches_handleClient id parts
  | auth => exact Option.some.inj h ▸ caches_handleAuth 0 parts
  | replicaof => exact Option.some.inj h ▸ caches_handleReplicaof parts
  | slaveof => exact Option.some.inj h ▸ caches_handleReplicaof parts
  | sync => exact Option.some.inj h ▸ caches_handleSync
  | psync => exact Option.some.inj h ▸ caches_psyncReply parts
  | quit => exact Option.some.inj h ▸ .reply _
  | evalsha => exact Option.some.inj h ▸ caches_handleEvalsha parts
  | shutdown => exact Option.some.inj h ▸ caches_handleShutdown parts
  | script => exact Option.some.inj h ▸ caches_handleScript parts
  | _ => cases h

theorem propagate_scriptCache (write : Bool) (r : Outcome RespFrame) (s : Server) :
    (propagate write parts r s).scriptCache = s.scriptCache :=
  propagate_keeps (fun s => send_scriptCache s) (fun _ _ => rfl) write parts r s

theorem caches_processNormalCommand : Caches env (processNormalCommand env parts db id) := by
  intro s hs
  unfold processNormalCommand
  cases hb : (parts.head?).bind RespFrame.bulk? with
  | none => exact hs
  | some bytes =>
      dsimp only
      refine Loaded.of_cache ?_ (propagate_scriptCache parts _ _ _)
      generalize ((Command.parse (Command.rawName bytes)).map Command.isWrite).getD false = write
      have hlog : (logCommand env write parts s).Loaded env := by
        unfold logCommand
        split
        · exact hs
        · exact hs
      unfold dispatch
      split
      · exact hlog
      · split
        · exact hlog
        · split
          · next a ha => exact caches_serverHandler id db parts ha _ hlog
          · exact hlog

/-! ## The gate -/

theorem setTransaction_scriptCache (s : Server) (i : ConnId) (t : TransactionState) :
    (s.setTransaction i t).scriptCache = s.scriptCache := onConnection_scriptCache ..

theorem caches_runQueued (queue : List Parts) (results : List RespFrame) :
    Caches env (runQueued env db queue results) := by
  induction queue generalizing results with
  | nil => exact .reply _
  | cons parts queue ih =>
      intro s hs
      have hcmd := caches_processNormalCommand 0 db parts s hs
      unfold runQueued
      rcases hr : processNormalCommand env parts db 0 s with ⟨f | e | _, s'⟩
      all_goals rw [hr] at hcmd
      · exact ih _ s' hcmd
      · exact ih _ s' hcmd
      · exact hcmd

theorem caches_handleExec : Caches env (handleExec env id) := by
  intro s hs
  unfold handleExec
  split
  · exact hs
  · dsimp only
    split
    · exact hs
    · refine Caches.storing (fun violated s hs => ?_) s hs
      have htx := hs.of_cache (setTransaction_scriptCache s id {})
      split
      · exact htx
      · exact caches_runQueued _ _ _ _ htx

theorem caches_watchLoop (ps : Parts) : Caches env (watchLoop env id db ps) := by
  induction ps with
  | nil => exact .reply _
  | cons p ps ih =>
      unfold watchLoop
      split
      · exact .error _
      · intro s hs
        refine ih _ (hs.of_cache ?_)
        exact onConnection_scriptCache ..

theorem caches_immediate {c : Command} {a : Action} (h : immediate env id parts c = some a) :
    Caches env a := by
  cases c with
  | monitor =>
      exact Option.some.inj h ▸ .reading fun _ => .of_cache fun s => onConnection_scriptCache ..
  | multi =>
      refine Option.some.inj h ▸ .withConnection fun c => .of_cache fun s => ?_
      split
      · rfl
      · exact setTransaction_scriptCache ..
  | exec => exact Option.some.inj h ▸ caches_handleExec id
  | discard =>
      refine Option.some.inj h ▸ .withConnection fun c => .of_cache fun s => ?_
      split
      · exact setTransaction_scriptCache ..
      · rfl
  | watch =>
      refine Option.some.inj h ▸ .withConnection fun c => .reading fun _ => ?_
      split
      · exact .error _
      · exact caches_watchLoop id _ _
  | unwatch =>
      exact Option.some.inj h ▸ .withConnection fun c => .storing fun _ =>
        .of_cache fun s => setTransaction_scriptCache ..
  | publish =>
      exact Option.some.inj h ▸ .reading fun _ => .of_cache fun s => sendEach_keeps s (fun s => send_scriptCache s) _ _ _
  | subscribe =>
      exact Option.some.inj h ▸ .reading fun _ => .of_cache fun s => sendAll_scriptCache ..
  | unsubscribe =>
      exact Option.some.inj h ▸ .reading fun _ => .of_cache fun s => sendAll_scriptCache ..
  | psubscribe =>
      exact Option.some.inj h ▸ .reading fun _ => .of_cache fun s => sendAll_scriptCache ..
  | punsubscribe =>
      exact Option.some.inj h ▸ .reading fun _ => .of_cache fun s => sendAll_scriptCache ..
  | auth => exact Option.some.inj h ▸ caches_handleAuth id parts
  | replconf =>
      refine Option.some.inj h ▸ .reading fun sub => .of_cache fun s => ?_
      split
      · rfl
      · rfl
      · split
        · rfl
        · split
          · rfl
          · split <;> rfl
      · split <;> rfl
      · rfl
  | _ => cases h

theorem caches_processParts (c : Option Command) : Caches env (processParts env id parts c) := by
  refine .withConnection fun conn => ?_
  split
  · unfold beforeAuth
    split
    · exact caches_handleAuth id parts
    · exact .reply _
    · exact .reply _
    · exact .error _
  · unfold afterAuth
    split
    · next a ha =>
        obtain ⟨c', -, hc'⟩ := Option.bind_eq_some_iff.mp ha
        exact caches_immediate id parts hc'
    · split
      · exact .withConnection fun c => .of_cache fun s => setTransaction_scriptCache ..
      · intro s hs
        dsimp only
        split
        · exact hs
        · exact caches_processNormalCommand id _ parts s hs

theorem caches_handleSyncCommand (psync : Bool) : Caches env (handleSyncCommand env psync id parts) := by
  have hdump (response : RespFrame) : Caches env (sendDump env id response) := by
    intro s hs
    unfold sendDump
    split
    · exact hs
    · split
      · exact hs
      · exact Caches.storing (fun data => .of_cache fun s => sendAll_scriptCache ..) _ hs
  intro s hs
  unfold handleSyncCommand
  split
  · split
    · exact hs
    · exact hs
    · exact hdump _ s hs
  · have hsync := caches_handleSync s hs
    rcases hr : handleSync env s with ⟨f | e | _, s'⟩
    all_goals rw [hr] at hsync
    · exact hdump _ s' hsync
    · exact hsync
    · exact hsync

theorem caches_answerFrame (f : RespFrame) : Caches env (answerFrame env id f) := by
  unfold answerFrame
  split
  · exact caches_handleSyncCommand id _ false
  · exact caches_handleSyncCommand id _ true
  · rcases processFrame_cases env id f with ⟨msg, hf⟩ | hf
    · rw [hf]
      exact .error _
    · rw [hf]
      exact caches_processParts id _ _

/-! ## Whole runs -/

variable {s s' : Server}

/-- Whatever the loop does, the cache holds loaded scripts. -/
theorem Loaded.step {e : LoopEvent} (h : s.Loaded env) (hs : e.step env s = some s') : s'.Loaded env := by
  cases e with
  | wakeups =>
      refine processWakeups_inv (fun s₁ w s₂ h₁ hw => ?_) (h.of_cache rfl) hs
      obtain ⟨r, world', -, rfl | ⟨c, value, -, -, -, rfl⟩⟩ := wakeClient_cases hw
      · exact h₁.of_cache rfl
      · exact h₁.of_cache ((onConnection_scriptCache ..).trans (send_scriptCache ..))
  | accept addr =>
      obtain rfl := Option.some.inj hs
      refine h.of_cache ?_
      unfold Server.accept
      split <;> rfl
  | command id f =>
      obtain ⟨-, rfl⟩ := command_eq hs
      exact caches_answerFrame id f s h
  | replies id items => exact Option.some.inj hs ▸ h.of_cache (sendAll_scriptCache ..)
  | close id => exact Option.some.inj hs ▸ h.of_cache (onConnection_scriptCache ..)
  | fail id =>
      obtain rfl := Option.some.inj hs
      refine h.of_cache ?_
      unfold removeFailed
      split <;> rfl
  | timeouts now =>
      obtain rfl := Option.some.inj hs
      refine processBlockedTimeouts_inv (fun s₁ i h₁ => ?_) (h.of_cache rfl)
      unfold timeOut
      split
      · split
        · exact h₁.of_cache ((onConnection_scriptCache ..).trans (send_scriptCache ..))
        · exact h₁
      · exact h₁
  | cleanup =>
      obtain rfl := Option.some.inj hs
      unfold cleanupConnections
      generalize (s.connections.toPairs.filter fun p =>
        p.2.state == .closing && !s.pubsub.isSubscribed p.1).map Prod.fst = ids
      clear hs
      induction ids generalizing s with
      | nil => exact h
      | cons i ids ih => exact ih (h.of_cache rfl)

theorem loaded_initial (e : Engine) (replId : String) (backlogSize : Nat) :
    (initial e replId backlogSize).Loaded env := fun sha1 script hget => by
  rw [initial, Map.get?_empty] at hget
  cases hget

/-! ## EVALSHA and EVAL -/

/-- A request for a script by its hash, with the number of keys and what follows. -/
def evalshaParts (sha1 : String) (numKeys : RespFrame) (rest : Parts) : Parts :=
  .fromString "EVALSHA" :: .fromString sha1 :: numKeys :: rest

/-- The same request with the text of the script. -/
def evalParts (script : String) (numKeys : RespFrame) (rest : Parts) : Parts :=
  .fromString "EVAL" :: .fromString script :: numKeys :: rest

/-- The reply of a command and the store it leaves. -/
def replyAndStore (r : Outcome RespFrame × Server) : Outcome RespFrame × World := (r.1, r.2.world)

theorem logCommand_world (write : Bool) (parts : Parts) (s : Server) :
    (logCommand env write parts s).world = s.world := by
  unfold logCommand
  split <;> rfl

theorem logCommand_scriptCache (write : Bool) (parts : Parts) (s : Server) :
    (logCommand env write parts s).scriptCache = s.scriptCache := by
  unfold logCommand
  split <;> rfl

/-- A command shows what the dispatch table does with it. -/
theorem replyAndStore_processNormalCommand (name : String) (rest : Parts) (s : Server) :
    replyAndStore (processNormalCommand env (.fromString name :: rest) db id s) =
      replyAndStore (dispatch env db id (.fromString name :: rest) (Command.rawName name.toBytes)
        (logCommand env (((Command.parse (Command.rawName name.toBytes)).map Command.isWrite).getD false)
          (.fromString name :: rest) s)) := by
  unfold processNormalCommand replyAndStore
  dsimp only [List.head?_cons, Option.bind_some, RespFrame.fromString, RespFrame.bulk?]
  rw [propagate_keeps (fun s => send_world s) (fun _ _ => rfl)]

/-- EVAL runs the script in the database of the connection. -/
theorem processNormalCommand_eval (script : String) (numKeys : RespFrame) (rest : Parts) (s : Server) :
    replyAndStore (processNormalCommand env (evalParts script numKeys rest) db id s) =
      (handleEval env.lua db (evalParts script numKeys rest)).run (World.step env.ω) s.world := by
  have hparse : Command.parse (Command.rawName "EVAL".toBytes) = some .eval := rfl
  rw [evalParts, replyAndStore_processNormalCommand]
  unfold dispatch
  rw [hparse]
  dsimp only [Command.storeHandler]
  rw [replyAndStore, onStore, logCommand_world]

/-- The arguments of EVALSHA are turned into those of EVAL. -/
theorem handleEvalsha_cached {script sha1 : String} (numKeys : RespFrame) (rest : Parts)
    (hget : s.scriptCache.get? sha1 = some script) :
    handleEvalsha env (evalshaParts sha1 numKeys rest) s =
      Action.storing env (handleEval env.lua 0 (evalParts script numKeys rest)) .reply s := by
  have hlen : 3 ≤ (evalshaParts sha1 numKeys rest).length := by simp [evalshaParts]
  have hread : ((evalshaParts sha1 numKeys rest)[1]?.bind RespFrame.bulk?).bind fromUtf8 = some sha1 :=
    fromUtf8_toBytes sha1
  simp only [handleEvalsha, Args.arity, hlen, hread, decide_true, if_true]
  simp only [Action.reading, bind, Except.bind, pure, Except.pure, hget, evalshaParts, evalParts,
    List.drop_succ_cons, List.drop_zero]

/-- EVALSHA runs the cached script in database 0. -/
theorem processNormalCommand_evalsha {script sha1 : String} (numKeys : RespFrame) (rest : Parts)
    (hget : s.scriptCache.get? sha1 = some script) :
    replyAndStore (processNormalCommand env (evalshaParts sha1 numKeys rest) db id s) =
      (handleEval env.lua 0 (evalParts script numKeys rest)).run (World.step env.ω) s.world := by
  have hparse : Command.parse (Command.rawName "EVALSHA".toBytes) = some .evalsha := rfl
  rw [evalshaParts, replyAndStore_processNormalCommand]
  unfold dispatch
  rw [hparse]
  dsimp only [Command.storeHandler, serverHandler]
  rw [← evalshaParts, handleEvalsha_cached numKeys rest ((logCommand_scriptCache ..) ▸ hget)]
  unfold Action.storing onStore replyAndStore
  rw [logCommand_world]
  rcases (handleEval env.lua 0 (evalParts script numKeys rest)).run (World.step env.ω) s.world with
    ⟨f | e | _, w⟩ <;> rfl

/-! ## The two agree in database 0 -/

/-- A script that increments its key. -/
def countingScript : String := "return redis.call('INCR', KEYS[1])"

/-- A quiet server with that script. -/
def countingEnv : Env :=
  { Env.quiet none with
    lua :=
      { eval := fun _ keys _ db =>
          match keys with
          | [] => .ret .nullBulk
          | key :: _ => onKey .replyText db key (.incrBy 1) .integer
        scriptLoad := fun script =>
          if script = countingScript then .ok "61636018f4e6b5817b89791bbed242f93fa089e3"
          else .error (.luaError "unknown script") } }

theorem counting_loads :
    countingEnv.lua.scriptLoad countingScript = .ok "61636018f4e6b5817b89791bbed242f93fa089e3" :=
  rfl

theorem counting_injective (script script' sha1 : String)
    (h : countingEnv.lua.scriptLoad script = .ok sha1)
    (h' : countingEnv.lua.scriptLoad script' = .ok sha1) : script = script' := by
  have hone {t : String} (ht : countingEnv.lua.scriptLoad t = .ok sha1) : t = countingScript := by
    by_contra hne
    have hno : countingEnv.lua.scriptLoad t = .error (.luaError "unknown script") := if_neg hne
    rw [hno] at ht
    cases ht
  rw [hone h, hone h']

/-- A client comes, loads the script and selects database 1. -/
def counting : List LoopEvent :=
  [.accept "a", .command 1 (.list (words ["SCRIPT", "LOAD", countingScript])),
   .command 1 (.list (words ["SELECT", "1"]))]

theorem counting_reaches :
    ∃ s, Lib.Runs (fun _ _ => True) (LoopEvent.step countingEnv) (initial Engine.new "0" 16) counting s ∧
      s.scriptCache.contains "61636018f4e6b5817b89791bbed242f93fa089e3" ∧
      (s.connections.get? 1).map (·.dbIndex) = some 1 ∧ s.world = (initial Engine.new "0" 16).world := by
  refine ⟨_, .cons trivial rfl (.cons trivial rfl (.cons trivial rfl .nil)), ?_, ?_, ?_⟩
  · rfl
  · rfl
  · rfl

/-- The store after the script. -/
theorem handleEval_counting (w : World) :
    ((handleEval countingEnv.lua db (evalParts countingScript (.fromString "1") [.fromString "k"])).run
      (World.step countingEnv.ω) w).2 =
      (World.step countingEnv.ω _ (.key db "k".toBytes (.incrBy 1)) w).2 := by
  have hscript : handleEval countingEnv.lua db
      (evalParts countingScript (.fromString "1") [.fromString "k"]) =
        onKey .replyText db "k".toBytes (.incrBy 1) .integer := rfl
  rw [hscript]
  unfold onKey calling
  rw [Prog.run]
  rcases World.step countingEnv.ω _ (.key db "k".toBytes (.incrBy 1)) w with ⟨n | e | _, w'⟩ <;> rfl

/-- EVALSHA increments the key in database 0, and EVAL in its own. -/
theorem counting_differs (hdb : db ≠ 0) (id : ConnId) (s : Server)
    (hget : s.scriptCache.get? "61636018f4e6b5817b89791bbed242f93fa089e3" = some countingScript)
    (hs : s.world = (initial Engine.new "0" 16).world) :
    replyAndStore (processNormalCommand countingEnv
        (evalshaParts "61636018f4e6b5817b89791bbed242f93fa089e3" (.fromString "1") [.fromString "k"]) db id s) ≠
      replyAndStore (processNormalCommand countingEnv
        (evalParts countingScript (.fromString "1") [.fromString "k"]) db id s) := by
  intro h
  rw [processNormalCommand_evalsha id db _ _ hget, processNormalCommand_eval, hs] at h
  have hstore := congrArg (fun r => (r.2.engine.entryAt 0 "k".toBytes).isSome) h
  rw [handleEval_counting, handleEval_counting] at hstore
  have hsha : ((World.step countingEnv.ω _ (.key 0 "k".toBytes (.incrBy 1))
      (initial Engine.new "0" 16).world).2.engine.entryAt 0 "k".toBytes).isSome = true := rfl
  have heval : (World.step countingEnv.ω _ (.key db "k".toBytes (.incrBy 1))
      (initial Engine.new "0" 16).world).2.engine.entryAt 0 "k".toBytes = none :=
    (Engine.withEntry_other_database (fun h => hdb h.symm) ..).trans (Engine.entryAt_withConfig ..)
  rw [hsha, heval] at hstore
  cases hstore

/-- A cached script is the one that has its hash. -/
theorem get?_scriptCache (h : s.Loaded env)
    (hinj : ∀ script script' sha1, env.lua.scriptLoad script = .ok sha1 →
      env.lua.scriptLoad script' = .ok sha1 → script = script') {script sha1 : String}
    (hload : env.lua.scriptLoad script = .ok sha1) (hcached : s.scriptCache.contains sha1) :
    s.scriptCache.get? sha1 = some script := by
  obtain ⟨script', hget⟩ := Map.contains_iff.mp hcached
  rw [hget, hinj script script' sha1 hload (h sha1 script' hget)]

/-- A run leaves loaded scripts in the cache. -/
theorem loaded_run {e : Engine} {replId : String} {backlogSize : Nat} {es : List LoopEvent}
    (h : Lib.Runs (fun _ _ => True) (LoopEvent.step env) (initial e replId backlogSize) es s) :
    s.Loaded env :=
  h.inv (fun _ _ _ hs _ hstep => hs.step hstep) (loaded_initial e replId backlogSize)

/-- EVALSHA is EVAL of the cached script on a connection that has database 0
selected, and on no other. -/
theorem evalsha_is_eval_iff (db : Nat) :
    (∀ (env : Env) (e : Engine) (replId : String) (backlogSize : Nat) (es : List LoopEvent) (s : Server),
        (∀ script script' sha1, env.lua.scriptLoad script = .ok sha1 →
          env.lua.scriptLoad script' = .ok sha1 → script = script') →
        Lib.Runs (fun _ _ => True) (LoopEvent.step env) (initial e replId backlogSize) es s →
        ∀ script sha1, env.lua.scriptLoad script = .ok sha1 → s.scriptCache.contains sha1 →
        ∀ id numKeys rest,
          replyAndStore (processNormalCommand env (evalshaParts sha1 numKeys rest) db id s) =
            replyAndStore (processNormalCommand env (evalParts script numKeys rest) db id s)) ↔
      db = 0 := by
  constructor
  · intro h
    by_contra hdb
    obtain ⟨s, hrun, hcached, -, hs⟩ := counting_reaches
    have hget := get?_scriptCache (loaded_run hrun) counting_injective counting_loads hcached
    exact counting_differs db hdb 1 s hget hs
      (h countingEnv Engine.new "0" 16 counting s counting_injective hrun _ _ counting_loads hcached 1 _ _)
  · rintro rfl env e replId backlogSize es s hinj hrun script sha1 hload hcached id numKeys rest
    have hget := get?_scriptCache (loaded_run hrun) hinj hload hcached
    rw [processNormalCommand_evalsha id 0 numKeys rest hget, processNormalCommand_eval]

/-- With database 1 selected the script loaded from it runs in database 0. -/
theorem counting_not_eval :
    ∃ s, Lib.Runs (fun _ _ => True) (LoopEvent.step countingEnv) (initial Engine.new "0" 16) counting s ∧
      (s.connections.get? 1).map (·.dbIndex) = some 1 ∧
      countingEnv.lua.scriptLoad countingScript = .ok "61636018f4e6b5817b89791bbed242f93fa089e3" ∧
      s.scriptCache.contains "61636018f4e6b5817b89791bbed242f93fa089e3" ∧
      replyAndStore (processNormalCommand countingEnv
        (evalshaParts "61636018f4e6b5817b89791bbed242f93fa089e3" (.fromString "1") [.fromString "k"]) 1 1 s) ≠
      replyAndStore (processNormalCommand countingEnv
        (evalParts countingScript (.fromString "1") [.fromString "k"]) 1 1 s) := by
  obtain ⟨s, hrun, hcached, hconn, hs⟩ := counting_reaches
  exact ⟨s, hrun, hconn, counting_loads, hcached, counting_differs 1 (by decide) 1 s
    (get?_scriptCache (loaded_run hrun) counting_injective counting_loads hcached) hs⟩

end Server

end Ferrous
