/-
# `Server.Logged` — what changes the store without being logged

`process_normal_command` logs and propagates a command whose name is in the list
of `is_write_command`, and the list is kept by hand beside the dispatch table.
Every command outside it leaves the store alone but for six; and the pop that
wakes a waiting client is made outside dispatch, where nothing is logged.
-/
import Ferrous.Commands.Reads
import Ferrous.Server.Loop

namespace Ferrous

open Lib Args

/-! ## Actions that keep the store -/

/-- The action changes no entry, lazy expiry apart. -/
def Action.Quiet (env : Env) (a : Action) : Prop := ∀ s, Kept env.ω s.world (a s).2.world

namespace Action.Quiet

variable {env : Env} {α : Type}

theorem of_world {a : Action} (h : ∀ s, (a s).2.world = s.world) : a.Quiet env := by
  intro s
  rw [h s]
  exact .refl _ _

theorem reply (f : RespFrame) : (Action.reply f).Quiet env := of_world fun _ => rfl

theorem error (msg : String) : (Action.error msg).Quiet env := reply _

theorem fail (e : FerrousError) : (Action.fail e).Quiet env := of_world fun _ => rfl

theorem reading {args : Args α} {body : α → Action} (h : ∀ a, (body a).Quiet env) :
    (Action.reading args body).Quiet env := by
  cases args with
  | ok a => exact h a
  | error f => exact reply f

/-- A program that only looks, and an action that keeps the store. -/
theorem storing {p : StoreProg α} {body : α → Action} (hp : ReadOnly p)
    (h : ∀ a, (body a).Quiet env) : (Action.storing env p body).Quiet env := by
  intro s
  have hkept := hp.kept env.ω s.world
  simp only [Action.storing, Server.onStore]
  rcases hr : p.run (World.step env.ω) s.world with ⟨a | e | _, w⟩
  all_goals rw [hr] at hkept
  · exact hkept.trans (h a { s with world := w })
  · exact hkept
  · exact hkept

end Action.Quiet

namespace Server

variable (env : Env)

/-! ## The handlers of the server -/

section Handlers

variable {env} (id : ConnId) (db : Nat) (parts : Parts)

open Ferrous.Action (Quiet)

theorem quiet_onStore {p : StoreProg RespFrame} (hp : ReadOnly p) : Quiet env (Server.onStore env p) :=
  fun s => hp.kept env.ω s.world

theorem quiet_noArguments {cmd : String} {body : Action} (h : Quiet env body) :
    Quiet env (noArguments cmd parts body) :=
  .reading fun _ => h

theorem quiet_orReply {lead : String} {a : Action} (h : Quiet env a) : Quiet env (orReply lead a) := by
  intro s
  have hs := h s
  simp only [orReply]
  rcases hr : a s with ⟨f | e | _, s'⟩
  all_goals rw [hr] at hs
  · exact hs
  · exact hs
  · exact hs

theorem quiet_handleSelect : Quiet env (handleSelect id parts) := by
  refine .reading fun n => .of_world fun s => ?_
  split
  · rfl
  · exact onConnection_world _ _ _

theorem quiet_handleAuth : Quiet env (handleAuth env id parts) := by
  unfold handleAuth
  split
  · exact .error _
  · split
    · exact .error _
    · split
      · exact .error _
      · split
        · exact .of_world fun s => onConnection_world _ _ _
        · exact .error _

theorem foldl_closeConnection_world (ids : List ConnId) (s : Server) :
    (ids.foldl closeConnection s).world = s.world := by
  induction ids generalizing s with
  | nil => rfl
  | cons i ids ih => exact (ih _).trans (onConnection_world _ _ _)

theorem quiet_clientKill : Quiet env (clientKill id parts) := by
  refine .reading fun target => .of_world fun s => ?_
  cases target with
  | id j =>
      dsimp only
      split
      · rfl
      · exact onConnection_world _ _ _
  | addr addr => exact foldl_closeConnection_world _ _

/-- Only the end of the pause is another. -/
theorem world_withPausedUntil (s : Server) (n : Nat) :
    ({ s with pausedUntil := n } : Server).world = s.world := rfl

theorem quiet_clientArity {sub : String} {n : Nat} {body : Action} (h : Quiet env body) :
    Quiet env (clientArity sub n parts body) :=
  .reading fun _ => h

theorem quiet_handleClient : Quiet env (handleClient env id parts) := by
  refine .reading fun sub => ?_
  split
  · exact quiet_clientArity parts (.of_world fun _ => rfl)
  · exact quiet_clientKill id parts
  · refine quiet_clientArity parts ?_
    split
    · exact .error _
    · refine .of_world fun s => ?_
      split
      · exact onConnection_world _ _ _
      · rfl
  · refine quiet_clientArity parts (.of_world fun s => ?_)
    split <;> rfl
  · exact quiet_clientArity parts (.reply _)
  · exact quiet_clientArity parts (.reading fun _ => .of_world fun s => world_withPausedUntil s _)
  · exact quiet_clientArity parts (.of_world fun _ => rfl)
  · exact .error _

theorem quiet_handleSave : Quiet env (handleSave env parts) := by
  refine quiet_noArguments parts fun s => ?_
  split
  · exact .refl _ _
  · exact quiet_orReply (Quiet.storing (ReadOnly.writeSnapshot _ _) fun _ => .reply _) s

theorem quiet_handleShutdown : Quiet env (handleShutdown env parts) := by
  refine handleShutdown_rule env (fun _ => .error _) (fun save s => ?_) parts
  unfold ending
  split
  · have hkept := (ReadOnly.writeSnapshot env.overflowChecks
      s.world.engine.databases.length).kept env.ω s.world
    simp only [Server.onStore]
    rcases hr : (Rdb.writeSnapshot env.overflowChecks s.world.engine.databases.length).run
      (World.step env.ω) s.world with ⟨a | e | _, w⟩
    all_goals
      rw [hr] at hkept
      exact hkept
  · exact .refl _ _

theorem quiet_handleScript : Quiet env (handleScript env parts) := by
  refine .reading fun sub => ?_
  split
  · refine .reading fun _ => .of_world fun s => ?_
    split <;> rfl
  · exact .reading fun _ => .of_world fun _ => rfl
  · exact .reading fun _ => .of_world fun _ => rfl
  · exact .reading fun _ => .reply _
  · exact .error _

theorem quiet_follow (host port : String) : Quiet env (follow env host port) := by
  refine .of_world fun s => ?_
  unfold follow
  split
  · rfl
  · split <;> rfl

theorem quiet_handleReplicaof : Quiet env (handleReplicaof env parts) :=
  handleReplicaof_rule env (fun _ => .error _) (fun _ => .fail _) (.of_world fun _ => rfl) quiet_follow parts

theorem readOnly_generateKey (checks : Bool) (db : Nat) (key : Key) :
    ReadOnly (Rdb.generateKey checks db key) := by
  refine .need rfl fun found => ?_
  split
  · next value =>
      have hbody (deadline : Bytes) :
          ReadOnly (Rdb.orPanic (Rdb.generateValue checks value) >>= fun body =>
            pure (deadline ++ Rdb.typeCode value :: (Rdb.writeString key ++ body))) :=
        .bind (.orPanic _) fun _ => .ret _
      refine .need rfl fun ttl => ?_
      cases ttl with
      | none => exact hbody []
      | some ttl => exact .need rfl fun now => .bind (.orPanic _) fun t => hbody _
  · exact .ret _

theorem readOnly_generateKeys (checks : Bool) (db : Nat) :
    ∀ keys : List Key, ReadOnly (Rdb.generateKeys checks db keys)
  | [] => .ret _
  | key :: keys => .bind (readOnly_generateKey checks db key) fun _ =>
      .bind (readOnly_generateKeys checks db keys) fun _ => .ret _

theorem readOnly_generateDatabases (checks : Bool) :
    ∀ db n : Nat, ReadOnly (Rdb.generateDatabases checks db n)
  | _, 0 => .ret _
  | db, n + 1 => by
      have hrest (here : Bytes) :
          ReadOnly (Rdb.generateDatabases checks (db + 1) n >>= fun rest => pure (here ++ rest)) :=
        .bind (readOnly_generateDatabases checks (db + 1) n) fun _ => .ret _
      refine .need rfl fun keys => ?_
      dsimp only
      split
      · exact hrest []
      · exact .bind (readOnly_generateKeys checks db keys) fun _ => hrest _

/-- Making the dump for a replica changes nothing. -/
theorem readOnly_generateRdbBytes (checks : Bool) : ReadOnly (Rdb.generateRdbBytes checks) := by
  unfold Rdb.generateRdbBytes
  refine .need rfl fun _ => .need rfl fun _ => .need rfl fun _ =>
    .bind (readOnly_generateDatabases checks 0 _) fun _ => .ret _

theorem quiet_handleSync : Quiet env (handleSync env) := by
  intro s
  unfold handleSync
  split
  · exact .refl _ _
  · exact quiet_orReply (Quiet.storing (readOnly_generateRdbBytes _) fun _ => .reply _) s

theorem quiet_psyncReply : Quiet env (psyncReply parts) := by
  refine .of_world fun s => ?_
  unfold psyncReply
  split <;> rfl

end Handlers

/-! ## Commands outside the list -/

/-- The commands that change the store and are not in the list. -/
def unlogged : List Command := [.pexpire, .getset, .hmset, .blpop, .brpop, .xreadgroup]

variable {env} {db : Nat} {id : ConnId} {parts : Parts} {c : Command}

/-- The other handlers on the store only look. -/
theorem readOnly_storeHandler {proc : Process} {p : StoreProg RespFrame} (hw : c.isWrite = false)
    (hu : c ∉ unlogged) (h : c.storeHandler env proc db parts = some p) : ReadOnly p := by
  cases c with
  | ping => exact Option.some.inj h ▸ .ret _
  | echo => exact Option.some.inj h ▸ .ret _
  | get => exact Option.some.inj h ▸ .handleGet parts
  | exists? => exact Option.some.inj h ▸ .handleExists parts
  | ttl => exact Option.some.inj h ▸ .handleTtl parts
  | dbsize => exact Option.some.inj h ▸ .handleDbsize parts
  | sleep => exact Option.some.inj h ▸ .handleSleep parts
  | config => exact Option.some.inj h ▸ .handleConfig parts
  | mget => exact Option.some.inj h ▸ .handleMget parts
  | strlen => exact Option.some.inj h ▸ .handleStrlen parts
  | getrange => exact Option.some.inj h ▸ .handleGetrange parts
  | type => exact Option.some.inj h ▸ .handleType parts
  | randomkey => exact Option.some.inj h ▸ .handleRandomkey parts
  | keys => exact Option.some.inj h ▸ .handleKeys parts
  | pttl => exact Option.some.inj h ▸ .handlePttl parts
  | llen => exact Option.some.inj h ▸ .handleLlen parts
  | lrange => exact Option.some.inj h ▸ .handleLrange parts
  | lindex => exact Option.some.inj h ▸ .handleLindex parts
  | smembers => exact Option.some.inj h ▸ .handleSmembers parts
  | sismember => exact Option.some.inj h ▸ .handleSismember parts
  | scard => exact Option.some.inj h ▸ .handleScard parts
  | sunion => exact Option.some.inj h ▸ .combining (fun _ => rfl) parts
  | sinter => exact Option.some.inj h ▸ .combining (fun _ => rfl) parts
  | sdiff => exact Option.some.inj h ▸ .combining (fun _ => rfl) parts
  | srandmember => exact Option.some.inj h ▸ .handleSrandmember parts
  | hget => exact Option.some.inj h ▸ .handleHget parts
  | hmget => exact Option.some.inj h ▸ .handleHmget parts
  | hgetall => exact Option.some.inj h ▸ .handleHgetall parts
  | hlen => exact Option.some.inj h ▸ .handleHlen parts
  | hexists => exact Option.some.inj h ▸ .handleHexists parts
  | hkeys => exact Option.some.inj h ▸ .handleHkeys parts
  | hvals => exact Option.some.inj h ▸ .handleHvals parts
  | zscore => exact Option.some.inj h ▸ .handleZscore parts
  | zcard => exact Option.some.inj h ▸ .handleZcard parts
  | zrank => exact Option.some.inj h ▸ .ranking "zrank" false parts
  | zrevrank => exact Option.some.inj h ▸ .ranking "zrevrank" true parts
  | zrange => exact Option.some.inj h ▸ .rangeByIndex "zrange" false parts
  | zrevrange => exact Option.some.inj h ▸ .rangeByIndex "zrevrange" true parts
  | zrangebyscore => exact Option.some.inj h ▸ .handleZrangebyscore parts
  | zrevrangebyscore => exact Option.some.inj h ▸ .handleZrevrangebyscore parts
  | zcount => exact Option.some.inj h ▸ .handleZcount parts
  | xrange => exact Option.some.inj h ▸ .handleXrange parts
  | xrevrange => exact Option.some.inj h ▸ .handleXrevrange parts
  | xlen => exact Option.some.inj h ▸ .handleXlen parts
  | xread => exact Option.some.inj h ▸ .handleXread parts
  | xpending => exact Option.some.inj h ▸ .handleXpending parts
  | xinfo => exact Option.some.inj h ▸ .handleXinfo parts
  | scan => exact Option.some.inj h ▸ .handleScan parts
  | hscan => exact Option.some.inj h ▸ .scanningKey (fun _ _ => rfl) parts
  | sscan => exact Option.some.inj h ▸ .scanningKey (fun _ _ => rfl) parts
  | zscan => exact Option.some.inj h ▸ .scanningKey (fun _ _ => rfl) parts
  | info => exact Option.some.inj h ▸ .handleInfo proc parts
  | slowlog => exact Option.some.inj h ▸ .handleSlowlog proc parts
  | memory => exact Option.some.inj h ▸ .handleMemory env.lay parts
  | command => exact Option.some.inj h ▸ .ret _
  | pexpire => exact absurd (by decide) hu
  | getset => exact absurd (by decide) hu
  | hmset => exact absurd (by decide) hu
  | xreadgroup => exact absurd (by decide) hu
  | _ => first | (cases h; done) | cases hw

/-- The other handlers of the server keep the store. -/
theorem quiet_serverHandler {a : Action} (hw : c.isWrite = false) (hu : c ∉ unlogged)
    (h : serverHandler env db id parts c = some a) : a.Quiet env := by
  cases c with
  | select => exact Option.some.inj h ▸ quiet_handleSelect id parts
  | save => exact Option.some.inj h ▸ quiet_handleSave parts
  | bgsave => exact Option.some.inj h ▸ quiet_noArguments parts (.of_world fun _ => rfl)
  | lastsave => exact Option.some.inj h ▸ quiet_noArguments parts (.of_world fun _ => rfl)
  | bgrewriteaof =>
      refine Option.some.inj h ▸ .of_world fun s => ?_
      unfold handleBgrewriteaof
      split <;> rfl
  | client => exact Option.some.inj h ▸ quiet_handleClient id parts
  | auth => exact Option.some.inj h ▸ quiet_handleAuth 0 parts
  | replicaof => exact Option.some.inj h ▸ quiet_handleReplicaof parts
  | slaveof => exact Option.some.inj h ▸ quiet_handleReplicaof parts
  | sync => exact Option.some.inj h ▸ quiet_handleSync
  | psync => exact Option.some.inj h ▸ quiet_psyncReply parts
  | quit => exact Option.some.inj h ▸ .reply _
  | shutdown => exact Option.some.inj h ▸ quiet_handleShutdown parts
  | script => exact Option.some.inj h ▸ quiet_handleScript parts
  | blpop => exact absurd (by decide) hu
  | brpop => exact absurd (by decide) hu
  | _ => first | (cases h; done) | cases hw

/-- `is_write_command`. -/
def isWriteCommand (name : String) : Bool := ((Command.parse name).map Command.isWrite).getD false

/-- The name a command is dispatched by. -/
def commandName (parts : Parts) : Option String := ((parts.head?).bind RespFrame.bulk?).map Command.rawName

/-- The names that are in no list. -/
def unloggedNames : List String := ["PEXPIRE", "GETSET", "HMSET", "BLPOP", "BRPOP", "XREADGROUP"]

theorem parse_mem_unlogged {name : String} (h : Command.parse name = some c) (hc : c ∈ unlogged) :
    name ∈ unloggedNames := by
  have htable : ∀ p ∈ Command.table, p.2 ∈ unlogged → p.1 ∈ unloggedNames := by decide +kernel
  obtain ⟨l₁, l₂, hl, -⟩ := List.lookup_eq_some_iff.mp h
  exact htable (name, c) (hl ▸ List.mem_append_right _ List.mem_cons_self) hc

theorem quiet_dispatch {name : String} (hw : isWriteCommand name = false)
    (hu : name ∉ unloggedNames) : (dispatch env db id parts name).Quiet env := by
  intro s
  unfold dispatch
  cases hc : Command.parse name with
  | none => exact .refl _ _
  | some c =>
      have hw : c.isWrite = false := by simpa [isWriteCommand, hc] using hw
      have hu : c ∉ unlogged := fun h => hu (parse_mem_unlogged hc h)
      dsimp only
      cases hp : c.storeHandler env (s.proc env) db parts with
      | some p => exact quiet_onStore (readOnly_storeHandler hw hu hp) s
      | none =>
          cases ha : serverHandler env db id parts c with
          | some a => exact quiet_serverHandler hw hu ha s
          | none => exact .refl _ _

/-- A command outside both lists changes nothing. -/
theorem processNormalCommand_kept {name : String} (hname : commandName parts = some name)
    (hw : isWriteCommand name = false) (hu : name ∉ unloggedNames) (s : Server) :
    Kept env.ω s.world (processNormalCommand env parts db id s).2.world := by
  obtain ⟨bytes, hbytes, rfl⟩ := Option.map_eq_some_iff.mp hname
  have hquiet : Kept env.ω s.world (dispatch env db id parts (Command.rawName bytes) s).2.world :=
    quiet_dispatch hw hu s
  unfold isWriteCommand at hw
  simp only [processNormalCommand, hbytes, hw, logCommand, Bool.and_false, Bool.false_eq_true, if_false]
  rcases hr : dispatch env db id parts (Command.rawName bytes) s with ⟨f | e | _, s'⟩
  all_goals
    rw [hr] at hquiet
    exact hquiet

end Server

/-! ## Runs that change the store -/

/-- An entry that appears, that goes without a deadline, or whose deadline or
stream changes. -/
def visiblyChanged : Option StoredValue → Option StoredValue → Bool
  | none, none => false
  | none, some _ => true
  | some a, none => a.expiresAt.isNone
  | some a, some b =>
      decide (a.expiresAt ≠ b.expiresAt) ||
        match a.value, b.value with
        | .stream x, .stream y => decide (x ≠ y)
        | _, _ => false

theorem Kept.not_visiblyChanged {ω : Nat → Ctx} {w w' : World} (h : Kept ω w w') (db : Nat) (key : Key) :
    visiblyChanged (w.engine.entryAt db key) (w'.engine.entryAt db key) = false := by
  rcases h.entry db key with hs | ⟨hn, sv, i, hsv, -, -, he⟩
  · cases ha : w.engine.entryAt db key with
    | none =>
        cases hb : w'.engine.entryAt db key with
        | none => rfl
        | some b => rw [ha, hb] at hs; exact hs.elim
    | some a =>
        cases hb : w'.engine.entryAt db key with
        | none => rw [ha, hb] at hs; exact hs.elim
        | some b =>
            rw [ha, hb] at hs
            obtain ⟨hv, he⟩ := hs
            simp only [visiblyChanged, he, ne_eq, not_true_eq_false, decide_false, Bool.false_or]
            split
            · next x y hx hy =>
                rw [hx, hy] at hv
                exact decide_eq_false fun hne => hne hv
            · rfl
  · rw [hn, hsv]
    cases hd : sv.expiresAt with
    | none => simp [StoredValue.isExpired, hd] at he
    | some d => simp [visiblyChanged, hd]

namespace Server

/-- A command of words. -/
def words (ws : List String) : Parts := ws.map .fromString

/-- The server after some commands on database 0, one after the other. -/
def afterCommands (cmds : List (List String)) : Server :=
  cmds.foldl (fun s ws => (processNormalCommand (.quiet none) (words ws) 0 1 s).2)
    (initial Engine.new "0" 16)

/-- For each of the names a command that changes the key `k`, and the commands before it. -/
def changing : List (String × List (List String) × List String) :=
  [("PEXPIRE", [["SET", "k", "v"]], ["PEXPIRE", "k", "1000"]),
   ("GETSET", [], ["GETSET", "k", "v"]),
   ("HMSET", [], ["HMSET", "k", "f", "v"]),
   ("BLPOP", [["RPUSH", "k", "v"]], ["BLPOP", "k", "0"]),
   ("BRPOP", [["RPUSH", "k", "v"]], ["BRPOP", "k", "0"]),
   ("XREADGROUP", [["XADD", "k", "1-1", "f", "v"], ["XGROUP", "CREATE", "k", "g", "0"]],
    ["XREADGROUP", "GROUP", "g", "c", "STREAMS", "k", "0"])]

theorem changing_changes : ∀ p ∈ changing,
    commandName (words p.2.2) = some p.1 ∧ isWriteCommand p.1 = false ∧
      visiblyChanged ((afterCommands p.2.1).world.engine.entryAt 0 "k".toBytes)
        ((processNormalCommand (.quiet none) (words p.2.2) 0 1
          (afterCommands p.2.1)).2.world.engine.entryAt 0 "k".toBytes) = true := by
  decide

/-! ## The pop of a wake-up -/

/-- The elements of the list under a key. -/
def elements (s : Server) (db : Nat) (key : Key) : List Bytes :=
  match s.world.engine.entryAt db key with
  | some ⟨.list items, _⟩ => items
  | _ => []

/-- The wake-up of a client removes an element. -/
def Removes (s s' : Server) (w : WakeupRequest) : Prop :=
  (s'.elements w.db w.key).length < (s.elements w.db w.key).length

/-- Something has been logged or propagated. -/
def Recorded (s s' : Server) : Prop := s'.aof ≠ s.aof ∨ s'.replication ≠ s.replication

variable {env : Env}

theorem elements_ne_nil {s : Server} {db : Nat} {key : Key} (h : s.elements db key ≠ []) :
    ∃ d, s.world.engine.entryAt db key = some ⟨.list (s.elements db key), d⟩ := by
  unfold elements at h ⊢
  split at h
  · next items d hent => exact ⟨d, hent⟩
  · exact absurd rfl h

/-- A wake-up records nothing. -/
theorem wakeClient_not_recorded {s s' : Server} {w : WakeupRequest} (h : wakeClient env s w = some s') :
    ¬ Recorded s s' := by
  have hsame : s'.aof = s.aof ∧ s'.replication = s.replication := by
    obtain ⟨-, world', -, rfl | ⟨-, -, -, -, -, rfl⟩⟩ := wakeClient_cases h
    · exact ⟨rfl, rfl⟩
    · exact ⟨by rw [onConnection_aof, send_aof], by rw [onConnection_replication, send_replication]⟩
  exact fun hr => hr.elim (fun h => h hsame.1) fun h => h hsame.2

/-- What a pop makes of a list that has elements. -/
theorem popOp_step (op : BlockingOp) (key : Key) (ctx : Ctx) {items : List Bytes} (h : items ≠ [])
    (d : Option Instant) :
    ∃ value rest, ((popOp op).step key ctx (some ⟨.list items, d⟩)).result = .ok (some value) ∧
      ((popOp op).step key ctx (some ⟨.list items, d⟩)).charge = none ∧
      ((popOp op).step key ctx (some ⟨.list items, d⟩)).entry.leaves (some ⟨.list items, d⟩) =
        (if rest.isEmpty then none else some ⟨.list rest, d⟩) ∧
      rest.length < items.length := by
  have hpos := List.length_pos_iff.mpr h
  cases op with
  | blpop =>
      refine ⟨items.head h, items.tail, congrArg _ (List.head?_eq_some_head h), rfl, ?_, ?_⟩
      · simp only [popOp, KeyCmd.step, KeyOps.lpop, KeyOps.onList, KeyStep.shrink]
        split <;> rfl
      · rw [List.length_tail]
        omega
  | brpop =>
      refine ⟨items.getLast h, items.dropLast, congrArg _ (List.getLast?_eq_some_getLast h), rfl, ?_, ?_⟩
      · simp only [popOp, KeyCmd.step, KeyOps.rpop, KeyOps.onList, KeyStep.shrink]
        split <;> rfl
      · rw [List.length_dropLast]
        omega

/-- A wake-up for a list that has elements removes one. -/
theorem wakeClient_removes {s : Server} {w : WakeupRequest} (h : s.elements w.db w.key ≠ []) :
    ∃ s', wakeClient env s w = some s' ∧ Removes s s' w := by
  obtain ⟨d, hent⟩ := elements_ne_nil h
  obtain ⟨value, rest, hres, hcharge, hleaves, hlt⟩ := popOp_step w.opType w.key (env.ω s.world.calls) h d
  obtain ⟨e', hstep, -, he'⟩ := World.step_of_admitted (ω := env.ω) (w := s.world) w.key
    (popOp w.opType) (Engine.lt_of_entryAt hent) (by rw [hent, Engine.refuses, hcharge])
  rw [hent, hres] at hstep
  rw [hent, hleaves] at he'
  have hremoves (s' : Server) (hw : s'.world.engine = e') : Removes s s' w := by
    unfold Removes
    refine lt_of_le_of_lt ?_ hlt
    rw [elements, hw, he']
    split
    · next items d' heq =>
        split at heq
        · cases heq
        · cases heq
          exact le_rfl
    · exact Nat.zero_le _
  have hrun := Prog.run_perform_of_ok (World.step env.ω) hstep
  simp only [wakeClient, Server.onStore, need, hrun]
  split
  · split
    · exact ⟨_, rfl, hremoves _ (by simp)⟩
    · exact ⟨_, rfl, hremoves _ rfl⟩
  · exact ⟨_, rfl, hremoves _ rfl⟩

/-! ## The list of write commands -/

/-- Every command of a name that changes a key, a value or a deadline is in the
list of write commands, exactly if the name is not one of six; and a wake-up
that removes an element is recorded exactly if there is none to remove. -/
theorem mutations_logged_iff (name : String) :
    ((∀ (env : Env) (parts : Parts) (db : Nat) (id : ConnId) (s : Server),
        commandName parts = some name →
        ¬ Kept env.ω s.world (processNormalCommand env parts db id s).2.world →
        isWriteCommand name = true) ↔ name ∉ unloggedNames) ∧
      ∀ (env : Env) (s : Server) (w : WakeupRequest),
        (∀ s', wakeClient env s w = some s' → Removes s s' w → Recorded s s') ↔
          s.elements w.db w.key = [] := by
  refine ⟨⟨fun h hmem => ?_, fun hu env parts db id s hname hchange => ?_⟩,
    fun env s w => ⟨fun h => ?_, fun h s' _ hrem => ?_⟩⟩
  · have hall : ∀ n ∈ unloggedNames, ∃ p ∈ changing, p.1 = n := by decide
    obtain ⟨p, hp, rfl⟩ := hall name hmem
    obtain ⟨hname, hw, hchanged⟩ := changing_changes p hp
    have hwrite := h (.quiet none) (words p.2.2) 0 1 (afterCommands p.2.1) hname fun hkept => by
      rw [hkept.not_visiblyChanged 0 "k".toBytes] at hchanged
      cases hchanged
    rw [hw] at hwrite
    cases hwrite
  · cases hw : isWriteCommand name with
    | true => rfl
    | false => exact absurd (processNormalCommand_kept hname hw hu s) hchange
  · by_contra hne
    obtain ⟨s', hwake, hrem⟩ := @wakeClient_removes env _ _ hne
    exact wakeClient_not_recorded hwake (h s' hwake hrem)
  · rw [Removes, h] at hrem
    exact absurd hrem (Nat.not_lt_zero _)

/-- PEXPIRE changes a deadline and is not in the list. -/
theorem pexpire_not_logged :
    commandName (words ["PEXPIRE", "k", "1000"]) = some "PEXPIRE" ∧
      ¬ Kept (Env.quiet none).ω (afterCommands [["SET", "k", "v"]]).world
        (processNormalCommand (.quiet none) (words ["PEXPIRE", "k", "1000"]) 0 1
          (afterCommands [["SET", "k", "v"]])).2.world ∧
      isWriteCommand "PEXPIRE" = false := by
  obtain ⟨hname, hw, hchanged⟩ := changing_changes _ List.mem_cons_self
  refine ⟨hname, fun hkept => ?_, hw⟩
  rw [hkept.not_visiblyChanged 0 "k".toBytes] at hchanged
  cases hchanged

end Server

end Ferrous
