/-
# `Server.ScriptCalls` — what a script can do to the store

A script reaches the store through `redis.call` and `redis.pcall`.  Each call names the database
of the script, but FLUSHDB, DBSIZE and KEYS, which work on the first one, and FLUSHALL; and it
puts no empty collection in.  So what is asked of scripts elsewhere is so for every script.
-/
import Ferrous.Server.Callers
import Ferrous.Server.Isolation
import Ferrous.Server.TwoPaths

namespace Ferrous

open Lib Args

/-! ## The executor -/

/-- The operation names this database, and puts in what is not empty. -/
def Op.Proper (db : Nat) {α : Type} (o : Op α) : Prop := o.Names (· = db) ∧ o.WellCalled

@[inherit_doc Op.Proper]
def Proper {α : Type} (db : Nat) (p : StoreProg α) : Prop := p.Uses fun _ o => o.Proper db

namespace Proper

variable {α β : Type} {db : Nat}

theorem ret (a : α) : Proper db (.ret a) := trivial

theorem need {o : Op β} {body : β → StoreProg α} (ho : o.Proper db) (h : ∀ b, Proper db (body b)) :
    Proper db (Ferrous.need o >>= body) :=
  uses_need ho h

theorem calling {o : Op α} {onError : OnError} {render : α → RespFrame} (ho : o.Proper db) :
    Proper db (Ferrous.calling onError o render) :=
  uses_calling ho

/-- A command on one key that does not fill it with nothing. -/
theorem onKey {onError : OnError} {key : Key} {c : KeyCmd α} {render : α → RespFrame} (hc : c.WellCalled) :
    Proper db (Ferrous.onKey onError db key c render) :=
  calling ⟨rfl, hc⟩

theorem callsWell {p : StoreProg α} (h : Proper db p) : CallsWell p := Prog.Uses.mono (fun _ _ ho => ho.2) h

theorem confined {p : StoreProg α} (h : Proper db p) : InDatabase db p := Prog.Uses.mono (fun _ _ ho => ho.1) h

/-- A handler of the network, on whatever frames. -/
theorem of_handler {handler : Nat → Parts → StoreProg α} (hdb : ∀ parts, InDatabase db (handler db parts))
    (hwell : ∀ parts, CallsWell (handler db parts)) (parts : Parts) : Proper db (handler db parts) :=
  Prog.Uses.and (hdb parts) (hwell parts)

open Unified

/-- The commands that put elements in. -/
def filling : Unified.Command → Bool
  | .list (.lPush _ _) | .list (.rPush _ _) | .set (.sAdd _ _) | .hash (.hSet _ _) | .hash (.hMSet _ _) => true
  | _ => false

theorem store (key : Key) (value : Bytes) (o : Unified.SetOptions) : Proper db (Executor.store db key value o) := by
  unfold Executor.store
  split
  · split
    · exact Prog.Uses.perform ⟨rfl, trivial⟩
    · exact Prog.Uses.perform ⟨rfl, trivial⟩
  · split
    · refine need ⟨rfl, trivial⟩ fun there => ?_
      cases there with
      | true => exact need ⟨rfl, trivial⟩ fun _ => ret _
      | false => exact ret _
    · exact need ⟨rfl, trivial⟩ fun _ => ret _

theorem executeSet (key : Key) (value : Bytes) (o : Unified.SetOptions) :
    Proper db (Executor.executeSet db key value o) := by
  unfold Executor.executeSet
  split
  · exact ret _
  · dsimp only
    split
    · exact need ⟨rfl, trivial⟩ fun old => Prog.Uses.bind (store key value o) fun success => ret _
    · exact Prog.Uses.bind (p := .ret none) trivial fun old => Prog.Uses.bind (store key value o) fun success => ret _

theorem countLoop {c : KeyCmd Bool} (hc : c.WellCalled) :
    ∀ (keys : List Key) (n : Nat), Proper db (Executor.countLoop c db keys n)
  | [], _ => ret _
  | _ :: keys, _ => need ⟨rfl, hc⟩ fun _ => countLoop hc keys _

theorem executeStrings (checks : Bool) (c : Unified.StringCommand) :
    Proper db (Executor.executeStrings checks db c) := by
  cases c with
  | set key value options => exact executeSet key value options
  | get key => exact onKey trivial
  | mGet keys => exact of_handler InDatabase.handleMget (fun parts => (ReadOnly.handleMget parts).callsWell) _
  | mSet pairs => exact of_handler InDatabase.handleMset CallsWell.handleMset _
  | counter c =>
      cases c with
      | decrBy key n =>
          show Proper db (ite _ _ _)
          split
          · trivial
          · exact onKey trivial
      | _ => exact onKey trivial
  | getSet key value => exact of_handler InDatabase.handleGetset CallsWell.handleGetset _
  | del keys => exact countLoop (c := .delete) trivial keys 0
  | _ => exact onKey trivial

theorem addLoop (key : Key) : ∀ (pairs : List (Float64 × Bytes)) (added : Nat),
    Proper db (Executor.addLoop db key pairs added)
  | [], _ => ret _
  | _ :: pairs, _ => need ⟨rfl, trivial⟩ fun _ => addLoop key pairs _

theorem remLoop (key : Key) : ∀ (members : List Bytes) (removed : Nat),
    Proper db (Executor.remLoop db key members removed)
  | [], _ => ret _
  | _ :: members, _ => need ⟨rfl, trivial⟩ fun _ => remLoop key members _

theorem popLoop (key : Key) (position : Int) : ∀ (n : Nat) (popped : List RespFrame),
    Proper db (Executor.popLoop db key position n popped)
  | 0, _ => ret _
  | n + 1, popped => by
      refine need ⟨rfl, trivial⟩ fun members => ?_
      split
      · exact ret _
      · refine need ⟨rfl, trivial⟩ fun gone => ?_
        cases gone with
        | true => exact popLoop key position n _
        | false => exact ret _

theorem removeLoop (key : Key) : ∀ (members : List (Bytes × Float64)) (removed : Nat),
    Proper db (Executor.removeLoop db key members removed)
  | [], _ => ret _
  | _ :: members, _ => need ⟨rfl, trivial⟩ fun _ => removeLoop key members _

theorem executeSortedSets (c : Unified.SortedSetCommand) : Proper db (Executor.executeSortedSets db c) := by
  cases c with
  | zAdd key pairs => exact addLoop key pairs 0
  | zRem key members => exact remLoop key members 0
  | zRemRangeByLex key lo hi => exact ret _
  | ranged c =>
      cases c with
      | zPopMin key n => exact popLoop key 0 _ _
      | zPopMax key n => exact popLoop key (-1) _ _
      | zRemRangeByRank key start stop => exact need ⟨rfl, trivial⟩ fun _ => removeLoop key _ _
      | zRemRangeByScore key lo hi => exact need ⟨rfl, trivial⟩ fun _ => removeLoop key _ _
      | _ => exact onKey trivial
  | _ => exact onKey trivial

theorem executeKey (c : KeyCommand) : Proper db (Executor.executeKey db c) := by
  cases c with
  | exists? keys => exact countLoop (c := .exists?) trivial keys 0
  | ttl key =>
      refine need ⟨rfl, trivial⟩ fun left => ?_
      cases left with
      | some d => exact ret _
      | none => exact onKey trivial
  | rename old new => exact calling ⟨rfl, trivial⟩
  | renameNx old new => exact of_handler InDatabase.handleRename CallsWell.handleRename _
  | randomKey =>
      refine need ⟨rfl, trivial⟩ fun keys => ?_
      split
      · exact ret _
      · exact need ⟨trivial, trivial⟩ fun _ => ret _
  | _ => exact onKey trivial

theorem executeServer (c : ServerCommand) : Proper db (Executor.executeServer c) := by
  cases c with
  | ping message => cases message <;> exact ret _
  | time => exact need ⟨trivial, trivial⟩ fun _ => ret _
  | _ => exact ret _

/-- The streams, whose frames go to the handlers of the network. -/
theorem executeStream (c : StreamCommand) : Proper db (Executor.executeStream db c) := by
  cases c with
  | xAdd key id fields =>
      rw [Executor.executeStream]
      exact of_handler InDatabase.handleXadd CallsWell.handleXadd _
  | xLen key =>
      rw [Executor.executeStream]
      exact of_handler InDatabase.handleXlen (fun parts => (ReadOnly.handleXlen parts).callsWell) _
  | xRange key start stop n =>
      rw [Executor.executeStream]
      exact of_handler InDatabase.handleXrange (fun parts => (ReadOnly.handleXrange parts).callsWell) _
  | xRevRange key start stop n =>
      rw [Executor.executeStream]
      exact of_handler InDatabase.handleXrevrange (fun parts => (ReadOnly.handleXrevrange parts).callsWell) _
  | xRead pairs n block =>
      rw [Executor.executeStream]
      exact of_handler InDatabase.handleXread (fun parts => (ReadOnly.handleXread parts).callsWell) _
  | xTrim key strategy threshold =>
      rw [Executor.executeStream]
      exact of_handler InDatabase.handleXtrim CallsWell.handleXtrim _
  | xDel key ids =>
      rw [Executor.executeStream]
      exact of_handler InDatabase.handleXdel CallsWell.handleXdel _

@[inherit_doc executeStream]
theorem executeConsumerGroup (c : ConsumerGroupCommand) : Proper db (Executor.executeConsumerGroup db c) := by
  cases c with
  | xGroup sub key group args =>
      rw [Executor.executeConsumerGroup]
      exact of_handler InDatabase.handleXgroup CallsWell.handleXgroup _
  | xReadGroup group consumer pairs n block noack =>
      rw [Executor.executeConsumerGroup]
      exact of_handler InDatabase.handleXreadgroup CallsWell.handleXreadgroup _
  | xAck key group ids =>
      rw [Executor.executeConsumerGroup]
      exact of_handler InDatabase.handleXack CallsWell.handleXack _
  | xPending key group range consumer =>
      rw [Executor.executeConsumerGroup.eq_def]
      exact of_handler InDatabase.handleXpending (fun parts => (ReadOnly.handleXpending parts).callsWell) _
  | xClaim key group consumer idle ids force justid =>
      rw [Executor.executeConsumerGroup]
      exact of_handler InDatabase.handleXclaim CallsWell.handleXclaim _
  | xInfo sub key group =>
      rw [Executor.executeConsumerGroup.eq_def]
      exact of_handler InDatabase.handleXinfo (fun parts => (ReadOnly.handleXinfo parts).callsWell) _

@[inherit_doc executeStream]
theorem executeScan (c : ScanCommand) : Proper db (Executor.executeScan db c) := by
  have hscanning {α : Type} (cmd : String) (knows : Bool) (f : Nat → ScanOptions → KeyCmd (Nat × α))
      (render : α → RespFrame) (parts : Parts) (hf : ∀ cursor o, (f cursor o).reads = true) :
      Proper db (scanningKey cmd knows f render db parts) :=
    of_handler (fun _ => .reading fun _ => .onKey) (fun parts => (ReadOnly.scanningKey hf parts).callsWell) parts
  cases c with
  | scan cursor pattern n type =>
      rw [Executor.executeScan]
      exact of_handler InDatabase.handleScan (fun parts => (ReadOnly.handleScan parts).callsWell) _
  | hScan key cursor pattern n =>
      rw [Executor.executeScan]
      exact hscanning "hscan" true (fun cur o => .hscan cur o.pattern o.count o.noValues) _ _ fun _ _ => rfl
  | sScan key cursor pattern n =>
      rw [Executor.executeScan]
      exact hscanning "sscan" false (fun cur o => .sscan cur o.pattern o.count) _ _ fun _ _ => rfl
  | zScan key cursor pattern n =>
      rw [Executor.executeScan]
      exact hscanning "zscan" false (fun cur o => .zscan cur o.pattern o.count) _ _ fun _ _ => rfl

theorem executeBit (c : BitCommand) : Proper db (Executor.executeBit db c) := by
  cases c with
  | getBit key offset =>
      refine need ⟨rfl, trivial⟩ fun value => ?_
      split
      · split
        · exact ret _
        · exact ret _
      · exact ret _
  | setBit key offset value =>
      refine need ⟨rfl, trivial⟩ fun existing => ?_
      dsimp only
      split
      · trivial
      · exact need ⟨rfl, trivial⟩ fun _ => ret _
  | bitCount key start stop =>
      refine need ⟨rfl, trivial⟩ fun value => ?_
      split
      · split
        · exact ret _
        · trivial
      · exact ret _

/-- What the executor makes of a command in a database, whole databases apart. -/
theorem executeCommand (checks : Bool) {cmd : Unified.Command} (hfill : filling cmd = false)
    (hdatabase : ∀ c, cmd ≠ .database c) : Proper db (Executor.executeCommand checks none (some db) cmd) := by
  cases cmd with
  | string c => exact executeStrings checks c
  | list c =>
      cases c with
      | lPush key values => cases hfill
      | rPush key values => cases hfill
      | _ => exact onKey trivial
  | set c =>
      cases c with
      | sAdd key members => cases hfill
      | sUnion keys => exact calling ⟨rfl, trivial⟩
      | sInter keys => exact calling ⟨rfl, trivial⟩
      | sDiff keys => exact calling ⟨rfl, trivial⟩
      | _ => exact onKey trivial
  | hash c =>
      cases c with
      | hSet key fields => cases hfill
      | hMSet key fields => cases hfill
      | counter c =>
          cases c
          exact onKey trivial
      | _ => exact onKey trivial
  | sortedSet c => exact executeSortedSets c
  | key c => exact executeKey c
  | server c => exact executeServer c
  | stream c => exact executeStream c
  | scan c => exact executeScan c
  | database c => exact absurd rfl (hdatabase c)
  | consumerGroup c => exact executeConsumerGroup c
  | persistence c =>
      cases c with
      | lastSave => exact need ⟨trivial, trivial⟩ fun _ => ret _
      | _ => exact ret _
  | bit c => exact executeBit c
  | config c =>
      cases c <;> exact ret _

/-- FLUSHDB, DBSIZE and KEYS of a script work in the first database, and FLUSHALL in all. -/
theorem executeDatabase {c : DatabaseCommand} (h : c ≠ .flushAll) : Proper 0 (Executor.executeDatabase none c) := by
  cases c with
  | flushDb => exact calling ⟨rfl, trivial⟩
  | flushAll => exact absurd rfl h
  | dbSize => exact calling ⟨rfl, trivial⟩
  | keys pattern => exact of_handler InDatabase.handleKeys (fun parts => (ReadOnly.handleKeys parts).callsWell) _

end Proper

theorem CallsWell.flushLoop : ∀ db n : Nat, CallsWell (Executor.flushLoop db n)
  | _, 0 => trivial
  | db, n + 1 => uses_need trivial fun _ => flushLoop (db + 1) n

section Parsed

variable {checks : Bool} {db : Nat} {args : List String} {cmd : Unified.Command}

/-- No command that puts elements in is a departure. -/
theorem not_departs_of_filling (hfill : Proper.filling cmd = true) : ¬ Departs db args cmd := by
  cases cmd with
  | list c => exact id
  | hash c => exact id
  | set c =>
      cases c with
      | sAdd key members => exact id
      | _ => cases hfill
  | _ => cases hfill

/-- Of what the parser accepts, the executor calls nothing with no elements. -/
theorem callsWell_executeCommand (h : CommandParser.parse (texts args) = .ok cmd) :
    CallsWell (Executor.executeCommand checks none (some db) cmd) := by
  cases hfill : Proper.filling cmd with
  | true =>
      let env : Env := { Env.quiet none with overflowChecks := checks }
      have hscripts : Server.ScriptsCallWell env := fun _ _ _ _ => trivial
      obtain ⟨c, p, -, -, hp, hlock⟩ := Server.lockstep_of_parse env db (Server.initial Engine.new "0" 16) h
        (not_departs_of_filling hfill)
      exact hlock.uses (Server.callsWell_storeProgram hscripts hp)
  | false =>
      cases cmd with
      | database c =>
          by_cases hall : c = .flushAll
          · subst hall
            exact uses_need trivial fun n => CallsWell.flushLoop 0 n
          · exact (Proper.executeDatabase hall).callsWell
      | _ => exact (Proper.executeCommand checks hfill fun c hc => by cases hc).callsWell

/-- The database a command of a script works in. -/
def scriptDatabase (db : Nat) : Unified.Command → Nat
  | .database _ => 0
  | _ => db

/-- But for FLUSHALL, the executor works in one database. -/
theorem confined_executeCommand (hall : cmd ≠ .database .flushAll) :
    InDatabase (scriptDatabase db cmd) (Executor.executeCommand checks none (some db) cmd) := by
  cases hfill : Proper.filling cmd with
  | true =>
      cases cmd with
      | list c =>
          cases c with
          | lPush key values => exact .onKey
          | rPush key values => exact .onKey
          | _ => cases hfill
      | set c =>
          cases c with
          | sAdd key members => exact .onKey
          | _ => cases hfill
      | hash c =>
          cases c with
          | hSet key fields => exact .onKey
          | hMSet key fields => exact .onKey
          | _ => cases hfill
      | _ => cases hfill
  | false =>
      cases cmd with
      | database c => exact (Proper.executeDatabase fun hc => hall (congrArg _ hc)).confined
      | _ => exact (Proper.executeCommand checks hfill fun c hc => by cases hc).confined

end Parsed

/-! ## Scripts -/

namespace LuaEngine

/-- One call of `redis.call` or `redis.pcall`.  Its answer is a value, the text the script is
aborted with, or a panic, which Lua's own `pcall` can catch. -/
inductive RedisCall : Type → Type
  | mk (isPcall : Bool) (cmd : List LuaValue) : RedisCall (Lib.Outcome String LuaValue)

/-- What a call is parsed to, unless a script may not call it. -/
def commandOf (cmd : List LuaValue) : Option Unified.Command :=
  match cmd.mapM argument with
  | .ok (name :: args) =>
      if (blocked (toUppercase name)).isSome then none else (CommandParser.parse (texts (name :: args))).toOption
  | _ => none

/-- The end of `redisCall` as an answer. -/
def answerOf : Lib.Outcome FerrousError (Except String LuaValue) → Lib.Outcome String LuaValue
  | .ok (.ok v) => .ok v
  | .ok (.error msg) => .err msg
  | .err e => .err e.display
  | .panic => .panic

/-- A call of a script, carried out on the store. -/
def carryOut (overflowChecks : Bool) (db : Nat) (β : Type) : RedisCall β → StoreProg (Except String β)
  | .mk isPcall cmd => (redisCall overflowChecks db isPcall cmd).reified.bind fun r => .ret (.ok (answerOf r))

/-- The interpreter, which is not part of the repository: it runs a script with `KEYS` and `ARGV`
up to its value, or to the text of its error.  All a script has of the server are the two
functions of `create_lua_context`. -/
structure Interpreter where
  run : String → LuaValue × LuaValue → Prog RedisCall String LuaValue

/-- `eval`. -/
def Interpreter.eval (lua : Interpreter) (overflowChecks : Bool) (script : String) (keys args : List Bytes) (db : Nat) :
    StoreProg RespFrame :=
  ((lua.run script (setupKeysAndArgs keys args)).translate (carryOut overflowChecks db)).bind fun
    | .ok v =>
        match luaValueToResp overflowChecks v with
        | some frame => .ret frame
        | none => .panic
    | .error msg => .ret (.err msg)

variable {checks : Bool} {db j : Nat}

/-- What the executor calls for the command of a call, the call does. -/
theorem uses_carryOut {P : ∀ β : Type, Op β → Prop} {isPcall : Bool} {cmd : List LuaValue}
    (h : ∀ args command, commandOf cmd = some command → CommandParser.parse (texts args) = .ok command →
      (Executor.executeCommand checks none (some db) command).Uses P) :
    (carryOut checks db _ (.mk isPcall cmd)).Uses P := by
  refine Prog.Uses.bind (Prog.Uses.reified ?_) fun _ => trivial
  unfold redisCall
  unfold commandOf at h
  split
  · trivial
  · trivial
  · next name args hargs =>
      rw [hargs] at h
      dsimp only at h
      split
      · trivial
      · next hblocked =>
          rw [hblocked] at h
          refine Prog.Uses.bind (Prog.Uses.catching ?_) fun r => ?_
          · cases hparse : CommandParser.parse (texts (name :: args)) with
            | ok command =>
                rw [Server.executeLuaCommand_of_parse hparse]
                rw [hparse] at h
                exact h _ command rfl hparse
            | error e =>
                unfold Executor.executeLuaCommand
                rw [show (name :: args).map RespFrame.fromString = texts (name :: args) from rfl, hparse]
                trivial
          · cases r <;> trivial

/-- What its calls do on the store, a script does. -/
theorem Interpreter.uses_eval {P : ∀ β : Type, Op β → Prop} {Q : ∀ β : Type, RedisCall β → Prop}
    (lua : Interpreter)
    (hcall : ∀ (β : Type) (call : RedisCall β), Q β call → (carryOut checks db β call).Uses P) {script : String}
    {keys args : List Bytes} (h : (lua.run script (setupKeysAndArgs keys args)).Uses Q) :
    (lua.eval checks script keys args db).Uses P := by
  refine Prog.Uses.bind (h.translate hcall) fun r => ?_
  cases r with
  | ok v =>
      dsimp only
      split
      · trivial
      · trivial
  | error msg => trivial

theorem Interpreter.callsWell_eval (lua : Interpreter) (script : String) (keys args : List Bytes) :
    CallsWell (lua.eval checks script keys args db) := by
  refine lua.uses_eval (fun _ call _ => ?_) (Prog.uses_true _)
  cases call
  exact uses_carryOut fun _ _ _ hparse => callsWell_executeCommand hparse

/-- The call is not FLUSHALL, nor, if the database is the first, FLUSHDB. -/
def RedisCall.Spares (j : Nat) {β : Type} : RedisCall β → Prop
  | .mk _ cmd => commandOf cmd ≠ some (.database .flushAll) ∧ (j = 0 → commandOf cmd ≠ some (.database .flushDb))

theorem RedisCall.Spares.carryOut {β : Type} {call : RedisCall β} (h : call.Spares j) (hdb : db ≠ j) :
    Ferrous.Spares j (carryOut checks db β call) := by
  cases call
  obtain ⟨hall, hfirst⟩ := h
  refine uses_carryOut fun args command hcommand hparse => ?_
  by_cases hj : scriptDatabase db command = j
  · cases command with
    | database c =>
        cases c with
        | flushDb => exact absurd hcommand (hfirst hj.symm)
        | flushAll => exact absurd hcommand hall
        | dbSize => exact Ferrous.Spares.of_readOnly (uses_calling rfl)
        | keys pattern =>
            have hreads : ReadOnly (handleKeys 0 [.fromString "KEYS", .fromBytes pattern]) := .handleKeys _
            exact Ferrous.Spares.of_readOnly hreads
    | _ => exact absurd hj hdb
  · exact Ferrous.Spares.of_confined (confined_executeCommand fun hc => hall (hc ▸ hcommand)) hj

end LuaEngine

namespace Server

variable {env : Env}

/-- The scripts are run by this interpreter. -/
def Interprets (env : Env) (lua : LuaEngine.Interpreter) : Prop :=
  ∀ script keys args db, env.lua.eval script keys args db = lua.eval env.overflowChecks script keys args db

/-- A script that is a single call. -/
def oneCall (cmd : List LuaValue) : LuaEngine.Interpreter where
  run _ _ := .call (.mk false cmd) fun
    | .ok (.ok v) => .ret v
    | .ok (.err msg) => .fail msg
    | .ok .panic => .panic
    | .error msg => .fail msg

/-- A process in which every script is that call. -/
def callingEnv (cmd : List LuaValue) : Env :=
  { Env.quiet none with lua := ⟨(oneCall cmd).eval false, fun _ => .ok "0"⟩ }

/-- A client that selects the second database and has the script run there. -/
def scriptInSecond : List LoopEvent :=
  [.accept "a", .command 1 (.list (words ["SELECT", "1"])), .command 1 (.list (words ["EVAL", "return", "0"]))]

/-- With scripts that reach the store through `redis.call` and `redis.pcall`, no run of the server
loop from a store without empty collections stores one, whatever they call. -/
theorem scripts_leave_filled (env : Env) (lua : LuaEngine.Interpreter) (hlua : Interprets env lua) {e : Engine}
    (he : e.Filled) (replId : String) (backlogSize : Nat) {es : List LoopEvent} {s : Server}
    (h : Lib.Runs (fun _ _ => True) (LoopEvent.step env) (initial e replId backlogSize) es s) :
    s.world.engine.Filled := by
  refine run_filled (fun script keys args db => ?_) he replId backlogSize h
  rw [hlua]
  exact lua.callsWell_eval script keys args

/-- A script that adds a member to a set. -/
theorem scripts_leave_filled_sadd :
    ∃ s, Lib.Runs (fun _ _ => True) (LoopEvent.step (callingEnv [.string "SADD".toBytes, .string [1], .string [2]]))
        (initial Engine.new "0" 16) scriptInSecond s ∧
      (s.world.engine.entryAt 1 [1]).isSome ∧ s.world.engine.Filled := by
  have hrun : ∃ s, Lib.Runs (fun _ _ => True)
      (LoopEvent.step (callingEnv [.string "SADD".toBytes, .string [1], .string [2]])) (initial Engine.new "0" 16)
      scriptInSecond s ∧ (s.world.engine.entryAt 1 [1]).isSome :=
    ⟨_, .cons trivial rfl (.cons trivial rfl (.cons trivial rfl .nil)), rfl⟩
  obtain ⟨s, hrun, hentry⟩ := hrun
  have hempty : Engine.new.Filled := .withConfig _ _
  exact ⟨s, hrun, hentry, scripts_leave_filled _ (oneCall _) (fun _ _ _ _ => rfl) hempty "0" 16 hrun⟩

/-- In every run in which each command avoids database `j`, no script calls FLUSHALL, or FLUSHDB if
`j` is the first, and nobody is woken for one of its lists, the database keeps its keys, values
and deadlines, except for keys whose deadline has passed. -/
theorem scripts_keep_database (env : Env) (lua : LuaEngine.Interpreter) (hlua : Interprets env lua) (j : Nat)
    (hcalls : ∀ script tables, (lua.run script tables).Uses fun _ call => call.Spares j) (es : List LoopEvent)
    (s s' : Server) (h : Lib.Runs (fun s ev => ev.Avoids j s) (LoopEvent.step env) s es s') (key : Key) :
    KeptEntry env.ω s.world s'.world j key := by
  refine database_kept env j (fun script keys args db hdb => ?_) es s s' h key
  rw [hlua]
  refine lua.uses_eval (fun _ call hcall => ?_) (hcalls script _)
  exact hcall.carryOut hdb

/-- A store with a set in the first database. -/
def setInFirst : Engine := ((Op.key 0 [1] (.sadd [[3]])).run (.at 0) Engine.new).2

/-- A script of the second database adds to a set there, and leaves the one of that name in the
first alone. -/
theorem scripts_keep_database_sadd :
    ∃ s', Lib.Runs (fun s ev => ev.Avoids 0 s)
        (LoopEvent.step (callingEnv [.string "SADD".toBytes, .string [1], .string [2]])) (initial setInFirst "0" 16)
        scriptInSecond s' ∧
      (setInFirst.entryAt 0 [1]).isSome ∧ (s'.world.engine.entryAt 1 [1]).isSome ∧
      KeptEntry Ctx.at (initial setInFirst "0" 16).world s'.world 0 [1] := by
  have hrun : ∃ s', Lib.Runs (fun s ev => ev.Avoids 0 s)
      (LoopEvent.step (callingEnv [.string "SADD".toBytes, .string [1], .string [2]])) (initial setInFirst "0" 16)
      scriptInSecond s' ∧ (s'.world.engine.entryAt 1 [1]).isSome := by
    refine ⟨_, .cons trivial rfl (.cons ?_ rfl (.cons ?_ rfl .nil)), rfl⟩
    · intro conn hconn c hc
      obtain rfl : Command.select = c := Option.some.inj hc
      exact .inl ⟨rfl, by decide⟩
    · intro conn hconn c hc
      obtain rfl : Command.eval = c := Option.some.inj hc
      obtain rfl := Option.some.inj hconn
      exact .inr ⟨by decide, by decide, by decide⟩
  obtain ⟨s', hrun, hadded⟩ := hrun
  refine ⟨s', hrun, rfl, hadded, scripts_keep_database (callingEnv _) (oneCall _) (fun _ _ _ _ => rfl) 0 (fun _ _ => ?_) _ _ _ hrun _⟩
  refine ⟨⟨?_, fun _ => ?_⟩, fun r => ?_⟩
  · intro h
    cases h
  · intro h
    cases h
  · rcases r with _ | (_ | _ | _) <;> trivial

end Server

end Ferrous
