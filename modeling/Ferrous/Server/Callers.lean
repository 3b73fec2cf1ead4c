/-
# `Server.Callers` — the handlers never store an empty collection

Elements are put in by LPUSH, RPUSH, SADD, HSET and HMSET, whose handlers refuse a command
without any.  So the programs of the handlers call every operation as it should be called,
and no run of the server loop leads to a store with an empty collection.  The length of a
sorted set that is stored can be taken one from.
-/
import Ferrous.Commands.Emptiness
import Ferrous.Server.Heard

namespace Ferrous

open Lib Args

/-- Every operation of the program is called as it should be. -/
def CallsWell {α : Type} (p : StoreProg α) : Prop := p.Uses fun _ o => o.WellCalled

theorem Op.wellCalled_of_reads {α : Type} {o : Op α} (h : o.reads) : o.WellCalled := by
  cases o with
  | store c => trivial
  | key db key c => cases c <;> trivial

/-- A program that only looks puts no elements in. -/
theorem ReadOnly.callsWell {α : Type} {p : StoreProg α} (h : ReadOnly p) : CallsWell p :=
  Prog.Uses.mono (fun _ _ ho => Op.wellCalled_of_reads ho) h

namespace CallsWell

variable {db : Nat}

/-! ## Elements, members and fields -/

/-- A key with values behind it, of which there is one. -/
theorem keyAndAll {cmd what : String} {c : List Bytes → KeyCmd Nat}
    (hc : ∀ values, values ≠ [] → (c values).WellCalled) (parts : Parts) :
    CallsWell (reading (Ferrous.keyAndAll cmd what parts) fun (key, values) =>
      onKey .reply db key (c values) count) := by
  refine uses_reading_ok fun (key, values) hargs => uses_calling (hc values ?_)
  obtain ⟨hlen, -, hvalues⟩ := keyAndAll_ok hargs
  exact List.ne_nil_of_length_pos (by omega)

theorem handleLpush (parts : Parts) : CallsWell (Ferrous.handleLpush db parts) :=
  keyAndAll (c := .lpush) (fun _ hne => hne) parts

theorem handleRpush (parts : Parts) : CallsWell (Ferrous.handleRpush db parts) :=
  keyAndAll (c := .rpush) (fun _ hne => hne) parts

theorem handleSadd (parts : Parts) : CallsWell (Ferrous.handleSadd db parts) :=
  keyAndAll (c := .sadd) (fun _ hne => hne) parts

/-- HSET and HMSET. -/
theorem settingFields (cmd : String) (render : Nat → RespFrame) (parts : Parts) :
    CallsWell (Ferrous.settingFields cmd render db parts) := by
  refine uses_reading_ok fun (key, fvs) hargs => uses_calling ?_
  obtain ⟨_, harity, hargs⟩ := bind_ok hargs
  obtain ⟨key', -, hargs⟩ := bind_ok hargs
  obtain ⟨fvs', hfvs, hargs⟩ := bind_ok hargs
  cases hargs
  have hlen : 4 ≤ parts.length := of_decide_eq_true (Bool.and_eq_true_iff.mp (arity_ok harity)).1
  exact fieldValues_ne_nil hfvs (by rw [List.length_drop]; omega)

/-! ## Strings and keys -/

theorem handleSet (parts : Parts) : CallsWell (Ferrous.handleSet db parts) := by
  refine uses_reading fun ⟨key, value, o⟩ => ?_
  dsimp only
  split
  · split
    · exact uses_calling trivial
    · exact uses_calling trivial
  · split
    · refine uses_need trivial fun there => ?_
      cases there with
      | true => exact uses_calling trivial
      | false => trivial
    · exact uses_calling trivial

theorem msetLoop : ∀ ps : Parts, CallsWell (Ferrous.msetLoop db ps)
  | [] => trivial
  | [_] => trivial
  | _ :: _ :: ps => uses_reading fun _ => uses_need trivial fun _ => msetLoop ps

theorem handleMset (parts : Parts) : CallsWell (Ferrous.handleMset db parts) :=
  uses_reading fun _ => msetLoop _

theorem handleGetset (parts : Parts) : CallsWell (Ferrous.handleGetset db parts) :=
  uses_reading fun _ => uses_need trivial fun _ => uses_calling trivial

theorem handleSetnx (parts : Parts) : CallsWell (Ferrous.handleSetnx db parts) := by
  refine uses_reading fun ⟨key, value⟩ => uses_need trivial fun there => ?_
  cases there with
  | true => trivial
  | false => exact uses_calling trivial

theorem setWithExpiry (cmd : String) (unit : Nat → Duration) (parts : Parts) :
    CallsWell (Ferrous.setWithExpiry cmd unit db parts) :=
  uses_reading fun _ => uses_calling trivial

theorem handleAppend (parts : Parts) : CallsWell (Ferrous.handleAppend db parts) :=
  uses_reading fun _ => uses_calling trivial

theorem handleSetrange (parts : Parts) : CallsWell (Ferrous.handleSetrange db parts) :=
  uses_reading fun _ => uses_calling trivial

/-- INCR and DECR. -/
theorem stepBy (cmd : String) (keyArg : Parts → Nat → Args Bytes) (n : Int) (parts : Parts) :
    CallsWell (Ferrous.stepBy cmd keyArg n db parts) :=
  uses_reading fun _ => uses_calling trivial

theorem handleIncrby (parts : Parts) : CallsWell (Ferrous.handleIncrby db parts) :=
  uses_reading fun _ => uses_calling trivial

theorem handleDecrby (checks : Bool) (parts : Parts) : CallsWell (Ferrous.handleDecrby checks db parts) := by
  refine uses_reading fun ⟨key, n⟩ => ?_
  dsimp only
  split
  · trivial
  · exact uses_calling trivial

theorem countKeys {c : KeyCmd Bool} (hc : c.WellCalled) :
    ∀ (ps : Parts) (n : Nat), CallsWell (Ferrous.countKeys c db ps n)
  | [], _ => trivial
  | p :: ps, n => by
      unfold Ferrous.countKeys
      split
      · exact countKeys hc ps n
      · exact uses_need hc fun _ => countKeys hc ps _

theorem handleDel (parts : Parts) : CallsWell (Ferrous.handleDel db parts) :=
  uses_reading fun _ => countKeys (c := .delete) trivial _ _

theorem handleExpire (parts : Parts) : CallsWell (Ferrous.handleExpire db parts) := by
  refine uses_reading fun ⟨key, seconds⟩ => ?_
  dsimp only
  split
  · exact uses_calling trivial
  · exact uses_calling trivial

theorem handlePexpire (parts : Parts) : CallsWell (Ferrous.handlePexpire db parts) :=
  uses_reading fun _ => uses_calling trivial

theorem handleRename (parts : Parts) : CallsWell (Ferrous.handleRename db parts) :=
  uses_reading fun _ => uses_calling trivial

theorem handleRenamenx (parts : Parts) : CallsWell (Ferrous.handleRenamenx db parts) := by
  refine uses_reading fun ⟨old, new⟩ => uses_need trivial fun there => ?_
  split
  · trivial
  · refine uses_need trivial fun taken => ?_
    split
    · trivial
    · exact uses_calling trivial

theorem handleFlushdb (parts : Parts) : CallsWell (Ferrous.handleFlushdb db parts) :=
  uses_reading fun _ => uses_calling trivial

theorem flushFrom : ∀ db n : Nat, CallsWell (Ferrous.flushFrom db n)
  | _, 0 => trivial
  | db, n + 1 => by
      refine ⟨trivial, fun r => ?_⟩
      cases r with
      | ok _ => exact flushFrom (db + 1) n
      | error e => trivial

theorem handleFlushall (parts : Parts) : CallsWell (Ferrous.handleFlushall parts) :=
  uses_reading fun _ => uses_need trivial fun n => flushFrom 0 n

/-! ## Lists, sets and hashes -/

theorem handleLset (parts : Parts) : CallsWell (Ferrous.handleLset db parts) :=
  uses_reading fun _ => uses_calling trivial

theorem handleLtrim (parts : Parts) : CallsWell (Ferrous.handleLtrim db parts) :=
  uses_reading fun _ => uses_calling trivial

theorem handleLrem (parts : Parts) : CallsWell (Ferrous.handleLrem db parts) :=
  uses_reading fun _ => uses_calling trivial

theorem handleSrem (parts : Parts) : CallsWell (Ferrous.handleSrem db parts) :=
  uses_reading fun _ => uses_calling trivial

theorem handleSpop (parts : Parts) : CallsWell (Ferrous.handleSpop db parts) :=
  uses_reading fun _ => uses_calling trivial

theorem handleHdel (parts : Parts) : CallsWell (Ferrous.handleHdel db parts) :=
  uses_reading fun _ => uses_calling trivial

theorem handleHincrby (parts : Parts) : CallsWell (Ferrous.handleHincrby db parts) :=
  uses_reading fun _ => uses_calling trivial

/-! ## Sorted sets -/

theorem zaddLoop (key : Key) : ∀ (ps : Parts) (added : Nat), CallsWell (Ferrous.zaddLoop db key ps added)
  | [], _ => trivial
  | [_], _ => trivial
  | _ :: _ :: ps, _ => uses_reading fun _ => uses_need trivial fun _ => zaddLoop key ps _

theorem handleZadd (parts : Parts) : CallsWell (Ferrous.handleZadd db parts) :=
  uses_reading fun key => zaddLoop key _ _

theorem zremLoop (key : Key) : ∀ (ps : Parts) (removed : Nat), CallsWell (Ferrous.zremLoop db key ps removed)
  | [], _ => trivial
  | p :: ps, removed => by
      unfold Ferrous.zremLoop
      split
      · exact zremLoop key ps removed
      · exact uses_need trivial fun _ => zremLoop key ps _

theorem handleZrem (parts : Parts) : CallsWell (Ferrous.handleZrem db parts) :=
  uses_reading fun key => zremLoop key _ _

theorem handleZincrby (parts : Parts) : CallsWell (Ferrous.handleZincrby db parts) :=
  uses_reading fun _ => uses_calling trivial

theorem popLoop (key : Key) (position : Int) :
    ∀ (n : Nat) (results : List RespFrame), CallsWell (Ferrous.popLoop db key position n results)
  | 0, _ => trivial
  | n + 1, results => by
      refine uses_need trivial fun members => ?_
      split
      · trivial
      · exact uses_need trivial fun _ => popLoop key position n _

/-- ZPOPMIN and ZPOPMAX. -/
theorem popping (cmd : String) (position : Int) (parts : Parts) :
    CallsWell (Ferrous.popping cmd position db parts) :=
  uses_reading fun ⟨key, n⟩ => popLoop key position n []

/-! ## Streams and groups -/

theorem handleXadd (parts : Parts) : CallsWell (Ferrous.handleXadd db parts) := by
  refine uses_reading fun ⟨key, id, fields⟩ => ?_
  dsimp only
  split
  · exact uses_calling trivial
  · split
    · trivial
    · split
      · trivial
      · refine ⟨trivial, fun r => ?_⟩
        cases r <;> trivial

theorem handleXtrim (parts : Parts) : CallsWell (Ferrous.handleXtrim db parts) :=
  uses_reading fun _ => uses_calling trivial

theorem handleXdel (parts : Parts) : CallsWell (Ferrous.handleXdel db parts) :=
  uses_reading fun _ => uses_calling trivial

theorem grouping {α : Type} {key : Key} {c : KeyCmd (StreamAccess α)} {missing : RespFrame}
    {render : α → RespFrame} (hc : c.WellCalled) : CallsWell (Ferrous.grouping db key c missing render) := by
  refine uses_need hc fun r => ?_
  cases r with
  | found a => trivial
  | wrongType => trivial
  | missing => trivial

theorem handleXgroupCreate (parts : Parts) : CallsWell (Ferrous.handleXgroupCreate db parts) := by
  refine uses_reading fun ⟨key, group, id⟩ => ?_
  have habsent (mkstream : Bool) (reply : RespFrame) (andThen : StoreProg RespFrame) (h : CallsWell andThen) :
      CallsWell (if mkstream then do
        need (.key db key (.setValue (.stream Stream.new) none))
        andThen
      else .ret reply) := by
    cases mkstream with
    | true => exact uses_need trivial fun _ => h
    | false => trivial
  dsimp only
  split
  · refine uses_need trivial fun r => ?_
    cases r with
    | found a => trivial
    | wrongType => trivial
    | missing =>
        refine habsent _ _ _ ?_
        exact grouping trivial
  · refine uses_need trivial fun r => ?_
    split
    · trivial
    · trivial
    · exact habsent _ _ (.ret _) trivial

/-- XGROUP, subcommand by subcommand. -/
theorem handleXgroup (parts : Parts) : CallsWell (Ferrous.handleXgroup db parts) := by
  refine uses_reading fun sub => ?_
  dsimp only
  split
  · exact handleXgroupCreate parts
  · exact uses_reading fun _ => grouping trivial
  · exact uses_reading fun _ => grouping trivial
  · exact uses_reading fun _ => grouping trivial
  · refine uses_reading fun ⟨key, group, id⟩ => ?_
    dsimp only
    split
    · exact grouping trivial
    · exact (ReadOnly.fetching fun _ => .ret _).callsWell
  · trivial
  · trivial

theorem readGroupLoop (group consumer : String) (o : ReadGroupOptions) :
    ∀ (ps : List (RespFrame × RespFrame)) (acc : List RespFrame),
      CallsWell (Ferrous.readGroupLoop db group consumer o ps acc)
  | [], _ => trivial
  | (_, _) :: rest, acc => by
      refine uses_reading fun ⟨key, id⟩ => ?_
      dsimp only
      split
      · refine uses_need trivial fun r => ?_
        split
        · trivial
        · exact readGroupLoop group consumer o rest acc
        · trivial
        · exact readGroupLoop group consumer o rest _
      · refine uses_need trivial fun r => ?_
        split
        · trivial
        · exact readGroupLoop group consumer o rest acc
        · trivial

theorem handleXreadgroup (parts : Parts) : CallsWell (Ferrous.handleXreadgroup db parts) :=
  uses_reading fun ⟨group, consumer, o, pairs⟩ => readGroupLoop group consumer o pairs []

theorem handleXack (parts : Parts) : CallsWell (Ferrous.handleXack db parts) :=
  uses_reading fun _ => grouping trivial

theorem handleXclaim (parts : Parts) : CallsWell (Ferrous.handleXclaim db parts) :=
  uses_reading fun _ => grouping trivial

/-! ## Scripts -/

/-- A script whose own calls are well called. -/
theorem handleEval {lua : LuaEngine} (h : ∀ script keys args db, CallsWell (lua.eval script keys args db))
    (parts : Parts) : CallsWell (Ferrous.handleEval lua db parts) := by
  refine uses_reading fun ⟨script, n⟩ => ?_
  dsimp only
  split
  · trivial
  · exact uses_reading fun ⟨keys, args⟩ => h script keys args db

end CallsWell

namespace Server

variable {env : Env} {s s' : Server} {id : ConnId} {db : Nat} {parts : Parts} {c : Command}

/-! ## The dispatch table -/

/-- The calls of scripts go through parsers that refuse a command without elements. -/
def ScriptsCallWell (env : Env) : Prop :=
  ∀ script keys args db, CallsWell (env.lua.eval script keys args db)

theorem callsWell_storeHandler (hlua : ScriptsCallWell env) {proc : Process} {p : StoreProg RespFrame}
    (h : c.storeHandler env proc db parts = some p) : CallsWell p := by
  cases c with
  | set => exact Option.some.inj h ▸ .handleSet parts
  | incr => exact Option.some.inj h ▸ .stepBy _ _ _ parts
  | decr => exact Option.some.inj h ▸ .stepBy _ _ _ parts
  | incrby => exact Option.some.inj h ▸ .handleIncrby parts
  | decrby => exact Option.some.inj h ▸ .handleDecrby _ parts
  | del => exact Option.some.inj h ▸ .handleDel parts
  | expire => exact Option.some.inj h ▸ .handleExpire parts
  | flushdb => exact Option.some.inj h ▸ .handleFlushdb parts
  | flushall => exact Option.some.inj h ▸ .handleFlushall parts
  | setnx => exact Option.some.inj h ▸ .handleSetnx parts
  | setex => exact Option.some.inj h ▸ .setWithExpiry _ _ parts
  | psetex => exact Option.some.inj h ▸ .setWithExpiry _ _ parts
  | mset => exact Option.some.inj h ▸ .handleMset parts
  | getset => exact Option.some.inj h ▸ .handleGetset parts
  | append => exact Option.some.inj h ▸ .handleAppend parts
  | setrange => exact Option.some.inj h ▸ .handleSetrange parts
  | rename => exact Option.some.inj h ▸ .handleRename parts
  | renamenx => exact Option.some.inj h ▸ .handleRenamenx parts
  | pexpire => exact Option.some.inj h ▸ .handlePexpire parts
  | persist => exact Option.some.inj h ▸ uses_keyed (fun _ => trivial) parts
  | lpop => exact Option.some.inj h ▸ uses_keyed (fun _ => trivial) parts
  | rpop => exact Option.some.inj h ▸ uses_keyed (fun _ => trivial) parts
  | lset => exact Option.some.inj h ▸ .handleLset parts
  | ltrim => exact Option.some.inj h ▸ .handleLtrim parts
  | lrem => exact Option.some.inj h ▸ .handleLrem parts
  | sadd => exact Option.some.inj h ▸ .handleSadd parts
  | srem => exact Option.some.inj h ▸ .handleSrem parts
  | spop => exact Option.some.inj h ▸ .handleSpop parts
  | hset => exact Option.some.inj h ▸ .settingFields _ _ parts
  | hmset => exact Option.some.inj h ▸ .settingFields _ _ parts
  | hdel => exact Option.some.inj h ▸ .handleHdel parts
  | hincrby => exact Option.some.inj h ▸ .handleHincrby parts
  | zadd => exact Option.some.inj h ▸ .handleZadd parts
  | zrem => exact Option.some.inj h ▸ .handleZrem parts
  | zincrby => exact Option.some.inj h ▸ .handleZincrby parts
  | zpopmin => exact Option.some.inj h ▸ .popping _ _ parts
  | zpopmax => exact Option.some.inj h ▸ .popping _ _ parts
  | xadd => exact Option.some.inj h ▸ .handleXadd parts
  | xtrim => exact Option.some.inj h ▸ .handleXtrim parts
  | xdel => exact Option.some.inj h ▸ .handleXdel parts
  | xgroup => exact Option.some.inj h ▸ .handleXgroup parts
  | xreadgroup => exact Option.some.inj h ▸ .handleXreadgroup parts
  | xack => exact Option.some.inj h ▸ .handleXack parts
  | xclaim => exact Option.some.inj h ▸ .handleXclaim parts
  | eval => exact Option.some.inj h ▸ .handleEval hlua parts
  -- the others only read
  | _ => first | (cases h; done) | exact (readOnly_storeHandler rfl (by decide) h).callsWell

/-- Whatever program a command runs on the store, the elements it puts in are there. -/
theorem callsWell_storeProgram (hlua : ScriptsCallWell env) {p : StoreProg RespFrame}
    (h : s.storeProgram env db parts c = some p) : CallsWell p := by
  unfold storeProgram at h
  split at h
  · exact Option.some.inj h ▸ .handleLpush parts
  · exact Option.some.inj h ▸ .handleRpush parts
  · unfold cachedScript at h
    split at h
    · obtain ⟨script, -, rfl⟩ := Option.map_eq_some_iff.mp h
      exact .handleEval hlua _
    · cases h
  · exact callsWell_storeHandler hlua h

theorem callsWell_popOp (op : BlockingOp) (key : Key) : (Op.key db key (popOp op)).WellCalled := by
  cases op <;> trivial

theorem callsWell_tryPops (op : BlockingOp) : ∀ keys : List Key, CallsWell (tryPops op db keys)
  | [] => trivial
  | key :: keys => by
      refine uses_need (callsWell_popOp op key) fun value => ?_
      cases value with
      | some v => trivial
      | none => exact callsWell_tryPops op keys

/-! ## The server loop -/

/-- A handler of the server. -/
theorem filled_serverHandler (hlua : ScriptsCallWell env) {a : Action} (h : s.world.engine.Filled)
    (ha : serverHandler env db id parts c = some a) : (a s).2.world.engine.Filled := by
  have hpush {handler : Nat → Parts → StoreProg RespFrame} (hp : CallsWell (handler db parts)) :
      (pushAndNotify env handler db parts s).2.world.engine.Filled := by
    have hrun : (s.onStore env (handler db parts)).2.world.engine.Filled := h.run hp
    rcases @pushAndNotify_cases env handler db parts s with ⟨hs, -⟩ | ⟨key, -, hs⟩
    · rw [hs]
      exact hrun
    · rw [hs, notify_world]
      exact hrun
  have hpop (cmd : String) (op : BlockingOp) :
      (blockingPop env cmd op db id parts s).2.world.engine.Filled := by
    rcases @blockingPop_world env id db parts cmd op s with hw | ⟨keys, hw⟩
    · rw [hw]
      exact h
    · rw [hw]
      exact h.run (callsWell_tryPops op keys)
  cases c with
  | lpush => exact Option.some.inj ha ▸ hpush (.handleLpush parts)
  | rpush => exact Option.some.inj ha ▸ hpush (.handleRpush parts)
  | blpop => exact Option.some.inj ha ▸ hpop "blpop" .blpop
  | brpop => exact Option.some.inj ha ▸ hpop "brpop" .brpop
  | evalsha =>
      obtain rfl := Option.some.inj ha
      rcases @handleEvalsha_world env parts s db with hw | ⟨p, hp, hw⟩
      · rw [hw]
        exact h
      · rw [hw]
        exact h.run (callsWell_storeProgram hlua hp)
  | _ => first | (cases ha; done) | exact h.kept (quiet_serverHandler rfl (by decide) ha s)

theorem filled_dispatch (hlua : ScriptsCallWell env) (h : s.world.engine.Filled) (name : String) :
    (dispatch env db id parts name s).2.world.engine.Filled := by
  unfold dispatch
  cases Command.parse name with
  | none => exact h
  | some c =>
      dsimp only
      cases hp : c.storeHandler env (s.proc env) db parts with
      | some p => exact h.run (callsWell_storeHandler hlua hp)
      | none =>
          dsimp only
          cases ha : serverHandler env db id parts c with
          | some a => exact filled_serverHandler hlua h ha
          | none => exact h

theorem filled_processNormalCommand (hlua : ScriptsCallWell env) (h : s.world.engine.Filled) :
    (processNormalCommand env parts db id s).2.world.engine.Filled := by
  unfold processNormalCommand
  split
  · exact h
  · next bytes _ =>
      dsimp only
      generalize ((Command.parse (Command.rawName bytes)).map Command.isWrite).getD false = write
      have hlog : (logCommand env write parts s).world.engine.Filled := by
        unfold logCommand
        split
        · exact h
        · exact h
      rw [propagate_world]
      exact filled_dispatch hlua hlog _

theorem filled_runQueued (hlua : ScriptsCallWell env) (queue : List Parts) (results : List RespFrame)
    {s : Server} (h : s.world.engine.Filled) : (runQueued env db queue results s).2.world.engine.Filled := by
  induction queue generalizing s results with
  | nil => exact h
  | cons parts queue ih =>
      have hnext := @filled_processNormalCommand env s 0 db parts hlua h
      unfold runQueued
      rcases hr : processNormalCommand env parts db 0 s with ⟨f | err | _, s'⟩
      all_goals rw [hr] at hnext
      · exact ih _ hnext
      · exact ih _ hnext
      · exact hnext

theorem filled_handleExec (hlua : ScriptsCallWell env) (h : s.world.engine.Filled) :
    (handleExec env id s).2.world.engine.Filled := by
  unfold handleExec
  split
  · exact h
  · next conn _ =>
      dsimp only
      split
      · exact h
      · have hkept := h.kept ((readOnly_checkWatched conn.dbIndex
          conn.transactionState.watchedKeys.toPairs).kept env.ω s.world)
        unfold Action.storing onStore
        rcases hr : (checkWatched conn.dbIndex conn.transactionState.watchedKeys.toPairs).run
          (World.step env.ω) s.world with ⟨violated | err | _, w'⟩
        all_goals rw [hr] at hkept
        · have hset : (({ s with world := w' } : Server).setTransaction id {}).world.engine.Filled := by
            rw [setTransaction, onConnection_world]
            exact hkept
          dsimp only
          split
          · exact hset
          · exact filled_runQueued hlua _ _ hset
        · exact hkept
        · exact hkept

/-- One frame of a connection. -/
theorem filled_answerFrame (hlua : ScriptsCallWell env) (h : s.world.engine.Filled) (f : RespFrame) :
    (answerFrame env id f s).2.world.engine.Filled := by
  rcases @answerFrame_world env id f s with hkept | ⟨conn, -, -, ⟨-, heq⟩ | ⟨-, -, -, heq⟩⟩
  · exact h.kept hkept
  · rw [heq]
    exact filled_handleExec hlua h
  · rw [heq]
    exact filled_processNormalCommand hlua h

theorem filled_wakeClient {w : WakeupRequest} (h : s.world.engine.Filled) (hs : wakeClient env s w = some s') :
    s'.world.engine.Filled := by
  obtain ⟨r, world', hpop, hs'⟩ := wakeClient_cases hs
  have hrun : ((need (.key w.db w.key (popOp w.opType)) : StoreProg (Option Bytes)).run
      (World.step env.ω) s.world).2.engine.Filled :=
    h.run (Prog.Uses.perform (callsWell_popOp w.opType w.key))
  have hworld : ((need (.key w.db w.key (popOp w.opType)) : StoreProg (Option Bytes)).run
      (World.step env.ω) s.world).2 = world' := congrArg (fun r => r.2.world) hpop
  rw [hworld] at hrun
  rcases hs' with rfl | ⟨c, value, -, -, -, rfl⟩
  · exact hrun
  · rw [onConnection_world, send_world]
    exact hrun

/-- One event of the loop. -/
theorem filled_step (hlua : ScriptsCallWell env) {ev : LoopEvent} (h : s.world.engine.Filled)
    (hs : ev.step env s = some s') : s'.world.engine.Filled := by
  cases ev with
  | wakeups =>
      exact processWakeups_inv (I := fun s => s.world.engine.Filled)
        (fun _ _ _ h hs => filled_wakeClient h hs) h hs
  | accept addr =>
      obtain rfl := Option.some.inj hs
      unfold accept
      split
      · exact h
      · exact h
  | command id f =>
      obtain ⟨-, rfl⟩ := command_eq hs
      exact filled_answerFrame hlua h f
  | replies id items =>
      obtain rfl := Option.some.inj hs
      rw [sendAll_world]
      exact h
  | close id =>
      obtain rfl := Option.some.inj hs
      rw [closeConnection, onConnection_world]
      exact h
  | fail id =>
      obtain rfl := Option.some.inj hs
      unfold removeFailed
      split
      · exact h
      · exact h
  | timeouts now =>
      refine Option.some.inj hs ▸ processBlockedTimeouts_inv (I := fun s => s.world.engine.Filled)
        (fun s id h => ?_) h
      unfold timeOut
      split
      · split
        · rw [onConnection_world, send_world]
          exact h
        · exact h
      · exact h
  | cleanup =>
      obtain rfl := Option.some.inj hs
      exact List.foldlRecOn (motive := fun s : Server => s.world.engine.Filled) _ _ h fun _ h _ _ => h

/-- No run of the server loop from a store without empty collections stores one. -/
theorem run_filled (hlua : ScriptsCallWell env) {e : Engine} (he : e.Filled) (replId : String)
    (backlogSize : Nat) {es : List LoopEvent}
    (h : Lib.Runs (fun _ _ => True) (LoopEvent.step env) (initial e replId backlogSize) es s) :
    s.world.engine.Filled :=
  h.inv (I := fun s => s.world.engine.Filled) (fun _ _ _ hi _ hs => filled_step hlua hi hs) he

end Server

/-! ## Lengths that one is taken from -/

namespace Rdb

variable (checks : Bool)

theorem lastRank_of_filled {z : SkipList} (h : (Value.sortedSet z).Filled) :
    lastRank checks z = some (z.len - 1) :=
  if_neg h

/-- What is no empty collection can be written to a snapshot. -/
theorem writeValue_of_filled {v : Value} (h : v.Filled) : ∃ body, writeValue checks v = some body := by
  cases v with
  | sortedSet z =>
      rw [writeValue, lastRank_of_filled checks h]
      exact ⟨_, rfl⟩
  | _ => exact ⟨_, rfl⟩

/-- And to the dump for a replica. -/
theorem generateValue_of_filled {v : Value} (h : v.Filled) : ∃ body, generateValue checks v = some body := by
  cases v with
  | sortedSet z =>
      rw [generateValue, lastRank_of_filled checks h]
      exact ⟨_, rfl⟩
  | _ => exact ⟨_, rfl⟩

end Rdb

/-- ZSCAN does not panic where there is no empty collection. -/
theorem Engine.Filled.zscan {e : Engine} (h : e.Filled) (db : Nat) (key : Key) (ctx : Ctx) (cursor : Nat)
    (pattern : Option Bytes) (n : Nat) : ((Op.key db key (.zscan cursor pattern n)).run ctx e).1 ≠ .panic := by
  change (e.withEntry db key ctx (KeyCmd.step key (.zscan cursor pattern n))).1 ≠ .panic
  by_cases hdb : db < e.databases.length
  swap
  · rw [Engine.withEntry_missing hdb]
    rintro ⟨⟩
  rw [Engine.withEntry_fst hdb, Engine.answerOf]
  split
  · rintro ⟨⟩
  · refine KeyOps.viaGet_rule (P := fun st => st.result ≠ .panic) ctx ?_ (fun _ _ _ => ?_) fun sv hsv _ => ?_
    · intro hpanic
      cases hpanic
    · intro hpanic
      cases hpanic
    · have hfilled := h db key sv hsv
      dsimp only
      cases hv : sv.value with
      | sortedSet z =>
          rw [hv] at hfilled
          dsimp only
          rw [if_neg fun hempty => hfilled hempty.1, if_neg hfilled]
          split
          · rintro ⟨⟩
          · rintro ⟨⟩
      | _ => rintro ⟨⟩

/-- In every store that operations lead to when they are called as the handlers call
them, no key holds an empty list, set, hash or sorted set.  So ZSCAN does not panic, and
both writers of snapshots take one from a length above zero.  The programs that the
commands run on such a store lead to another. -/
theorem no_empty_collection {e : Engine} (h : e.WellReached) :
    (∀ (db : Nat) (d : Database), e.databases[db]? = some d → ∀ p ∈ Engine.entriesOf d,
      p.2.value.Filled ∧ ∀ checks,
        (∀ z, p.2.value = .sortedSet z → Rdb.lastRank checks z = some (z.len - 1)) ∧
        (∃ body, Rdb.writeValue checks p.2.value = some body) ∧
        ∃ body, Rdb.generateValue checks p.2.value = some body) ∧
    (∀ db key ctx cursor pattern n, ((Op.key db key (.zscan cursor pattern n)).run ctx e).1 ≠ .panic) ∧
    ∀ (env : Env) (s : Server) (db : Nat) (parts : Parts) (c : Command) (p : StoreProg RespFrame) (calls : Nat),
      Server.ScriptsCallWell env → s.storeProgram env db parts c = some p →
        (p.run (World.step env.ω) ⟨e, calls⟩).2.engine.WellReached := by
  have hfilled := h.filled
  refine ⟨fun db d hd p hp => ?_, hfilled.zscan, fun env s db parts c p calls hlua hp => ?_⟩
  · have hentry : e.entryAt db p.1 = some p.2 := (Engine.mem_entriesOf h.reachable.routed hd).mp hp
    have hvalue : p.2.value.Filled := hfilled db p.1 p.2 hentry
    refine ⟨hvalue, fun checks => ⟨fun z hz => ?_, ?_, ?_⟩⟩
    · rw [hz] at hvalue
      exact Rdb.lastRank_of_filled checks hvalue
    · exact Rdb.writeValue_of_filled checks hvalue
    · exact Rdb.generateValue_of_filled checks hvalue
  · exact Engine.WellReached.run (w := ⟨e, calls⟩) h (Server.callsWell_storeProgram hlua hp)

/-- A member in one sorted set, and one that has gone from another. -/
def scoredOnce : List CleanupEvent :=
  [.op (.key 0 "z".toBytes (.zadd "m".toBytes ⟨0⟩)) (.at 0),
    .op (.key 0 "y".toBytes (.zadd "m".toBytes ⟨0⟩)) (.at 0),
    .op (.key 0 "y".toBytes (.zrem "m".toBytes)) (.at 0)]

theorem no_empty_collection_scoredOnce :
    let e := (scoredOnce.foldl CleanupState.step (.initial 1 .unlimited)).engine
    e.entryAt 0 "y".toBytes = none ∧ (e.entryAt 0 "z".toBytes).isSome ∧
      ((Op.key 0 "z".toBytes (.zscan 0 none 10)).run (.at 0) e).1 ≠ .panic ∧
      ((handleHset 0 (Server.words ["HSET", "h", "f", "v"])).run (World.step Ctx.at) ⟨e, 0⟩).2.engine.WellReached := by
  intro e
  have hcalled : ∀ ev ∈ scoredOnce, ev.WellCalled := by
    rintro _ (_ | ⟨_, _ | ⟨_, _ | ⟨_, ⟨⟩⟩⟩⟩) <;> trivial
  obtain ⟨-, hscan, hhandlers⟩ := no_empty_collection (e := e) ⟨1, .unlimited, scoredOnce, hcalled, rfl⟩
  refine ⟨rfl, rfl, hscan 0 _ _ 0 none 10, ?_⟩
  exact hhandlers (.quiet none) (Server.initial Engine.new "0" 16) 0 _ .hset _ 0 (fun _ _ _ _ => trivial) rfl

end Ferrous
