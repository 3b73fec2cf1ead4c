/-
# `Server.Isolation` — the databases do not touch each other

A connection works in the database it has selected.  No command of another database changes
database `j`, but FLUSHALL, and EVALSHA if `j` is the first, in which it runs whatever is
selected; so a run without such commands keeps the database as it is.  And what a command on the
data replies depends on its own database only.
-/
import Ferrous.Commands.Confined
import Ferrous.Server.Carried

namespace Ferrous

open Lib Args

/-! ## What keeps a database -/

/-- The keys, values and deadlines of the database are what they were. -/
structure KeptIn (ω : Nat → Ctx) (j : Nat) (w w' : World) : Prop where
  calls_le : w.calls ≤ w'.calls
  entry : ∀ key, KeptEntry ω w w' j key

namespace KeptIn

variable {ω : Nat → Ctx} {j : Nat} {w w₁ w₂ : World}

theorem of_kept (h : Kept ω w w₁) : KeptIn ω j w w₁ := ⟨h.calls_le, h.entry j⟩

theorem refl (w : World) : KeptIn ω j w w := of_kept (.refl ω w)

theorem trans (h : KeptIn ω j w w₁) (g : KeptIn ω j w₁ w₂) : KeptIn ω j w w₂ where
  calls_le := h.calls_le.trans g.calls_le
  entry key := (h.entry key).trans h.calls_le g.calls_le (g.entry key)

theorem composes (env : Env) : env.Composes (KeptIn env.ω j) := ⟨of_kept, trans⟩

end KeptIn

/-- The operation only looks, or it names other databases. -/
def Op.Spares (j : Nat) {α : Type} (o : Op α) : Prop := o.reads = true ∨ o.Names (· ≠ j)

@[inherit_doc Op.Spares]
def Spares {α : Type} (j : Nat) (p : StoreProg α) : Prop := p.Uses fun _ o => o.Spares j

theorem World.step_spares {ω : Nat → Ctx} {j : Nat} {β : Type} {o : Op β} (ho : o.Spares j) (w : World) :
    KeptIn ω j w (World.step ω β o w).2 := by
  rcases ho with hreads | hnames
  · exact .of_kept (World.step_kept hreads w)
  · refine ⟨Nat.le_succ _, fun key => .inl ?_⟩
    have hsame : (o.run (ω w.calls) w.engine).2.databases[j]? = w.engine.databases[j]? :=
      Op.run_other (fun h => h rfl) hnames _ _
    show SameEntry (w.engine.entryAt j key) ((o.run (ω w.calls) w.engine).2.entryAt j key)
    unfold Engine.entryAt Engine.shard?
    rw [hsame]
    exact .refl _

namespace Spares

variable {α : Type} {j db : Nat} {p : StoreProg α}

theorem kept (h : Spares j p) (ω : Nat → Ctx) (w : World) : KeptIn ω j w (p.run (World.step ω) w).2 :=
  Prog.Uses.run_rel (R := KeptIn ω j) .refl (fun _ _ _ h g => h.trans g)
    (fun _ _ w ho => World.step_spares ho w) h w

theorem of_readOnly (h : ReadOnly p) : Spares j p := Prog.Uses.mono (fun _ _ ho => .inl ho) h

theorem of_confined (h : InDatabase db p) (hdb : db ≠ j) : Spares j p :=
  Prog.Uses.mono (fun _ _ ho => .inr (Op.Names.mono (fun _ hd => hd ▸ hdb) ho)) h

end Spares

namespace Server

variable {env : Env} {j db : Nat} {parts : Parts} {c : Command}

/-! ## The dispatch table -/

/-- FLUSHALL and the two that report on every database. -/
def wholeStore : List Command := [.flushall, .info, .memory]

/-- A handler works on the database it is given; scripts apart. -/
theorem confined_storeHandler {proc : Process} {p : StoreProg RespFrame} (hwhole : c ∉ wholeStore)
    (heval : c ≠ .eval) (h : c.storeHandler env proc db parts = some p) : InDatabase db p := by
  cases c with
  | ping => exact Option.some.inj h ▸ .ret _
  | echo => exact Option.some.inj h ▸ .ret _
  | command => exact Option.some.inj h ▸ .ret _
  | set => exact Option.some.inj h ▸ .handleSet parts
  | get => exact Option.some.inj h ▸ .reading fun _ => .onKey
  | incr => exact Option.some.inj h ▸ .stepBy _ _ _ parts
  | decr => exact Option.some.inj h ▸ .stepBy _ _ _ parts
  | incrby => exact Option.some.inj h ▸ .reading fun _ => .onKey
  | decrby => exact Option.some.inj h ▸ .handleDecrby _ parts
  | del => exact Option.some.inj h ▸ .reading fun _ => .countKeys _ _
  | exists? => exact Option.some.inj h ▸ .reading fun _ => .countKeys _ _
  | expire => exact Option.some.inj h ▸ .handleExpire parts
  | ttl => exact Option.some.inj h ▸ .handleTtl parts
  | flushdb => exact Option.some.inj h ▸ .reading fun _ => .calling rfl
  | dbsize => exact Option.some.inj h ▸ .reading fun _ => .calling rfl
  | setnx => exact Option.some.inj h ▸ .handleSetnx parts
  | setex => exact Option.some.inj h ▸ .setWithExpiry _ _ parts
  | psetex => exact Option.some.inj h ▸ .setWithExpiry _ _ parts
  | mget => exact Option.some.inj h ▸ .handleMget parts
  | mset => exact Option.some.inj h ▸ .handleMset parts
  | getset => exact Option.some.inj h ▸ .handleGetset parts
  | rename => exact Option.some.inj h ▸ .handleRename parts
  | renamenx => exact Option.some.inj h ▸ .handleRenamenx parts
  | randomkey => exact Option.some.inj h ▸ .handleRandomkey parts
  | keys => exact Option.some.inj h ▸ .handleKeys parts
  | srandmember => exact Option.some.inj h ▸ .handleSrandmember parts
  | spop => exact Option.some.inj h ▸ .handleSpop parts
  | zadd => exact Option.some.inj h ▸ .handleZadd parts
  | zrem => exact Option.some.inj h ▸ .handleZrem parts
  | zpopmin => exact Option.some.inj h ▸ .popping _ _ parts
  | zpopmax => exact Option.some.inj h ▸ .popping _ _ parts
  | xadd => exact Option.some.inj h ▸ .handleXadd parts
  | xread => exact Option.some.inj h ▸ .handleXread parts
  | xgroup => exact Option.some.inj h ▸ .handleXgroup parts
  | xreadgroup => exact Option.some.inj h ▸ .handleXreadgroup parts
  | xack => exact Option.some.inj h ▸ .handleXack parts
  | xclaim => exact Option.some.inj h ▸ .handleXclaim parts
  | xpending => exact Option.some.inj h ▸ .handleXpending parts
  | xinfo => exact Option.some.inj h ▸ .handleXinfo parts
  | sunion => exact Option.some.inj h ▸ .reading fun _ => .calling rfl
  | sinter => exact Option.some.inj h ▸ .reading fun _ => .calling rfl
  | sdiff => exact Option.some.inj h ▸ .reading fun _ => .calling rfl
  | scan => exact Option.some.inj h ▸ .handleScan parts
  | sleep => exact Option.some.inj h ▸ .reading fun _ => .ret _
  | config => exact Option.some.inj h ▸ .reading fun _ => .ret _
  | slowlog => exact Option.some.inj h ▸ .reading fun _ => .ret _
  | flushall => exact absurd (by decide) hwhole
  | info => exact absurd (by decide) hwhole
  | memory => exact absurd (by decide) hwhole
  | eval => exact absurd rfl heval
  -- the others are one operation on one key
  | _ =>
      first
      | (cases h; done)
      | exact Option.some.inj h ▸ .keyed parts
      | exact Option.some.inj h ▸ .reading fun _ => .onKey

theorem confined_tryPops (op : BlockingOp) : ∀ keys : List Key, InDatabase db (tryPops op db keys)
  | [] => trivial
  | key :: keys => by
      refine InDatabase.need rfl fun value => ?_
      cases value with
      | some v => trivial
      | none => exact confined_tryPops op keys

/-! ## Commands that avoid a database -/

/-- No script changes database `j` from another one. -/
def ScriptsSpare (env : Env) (j : Nat) : Prop :=
  ∀ script keys args db, db ≠ j → Spares j (env.lua.eval script keys args db)

theorem spares_handleEval (hlua : ScriptsSpare env j) (hdb : db ≠ j) (parts : Parts) :
    Spares j (handleEval env.lua db parts) := by
  refine uses_reading fun ⟨script, n⟩ => ?_
  dsimp only
  split
  · trivial
  · exact uses_reading fun ⟨keys, args⟩ => hlua script keys args db hdb

/-- The command only looks, or it is one of another database than `j`, and neither FLUSHALL nor,
for the first database, EVALSHA. -/
def Avoids (j db : Nat) (parts : Parts) : Prop :=
  ∀ c, rawCommand parts = some c → c.isWrite = false ∧ c ∉ unlogged ∨
    db ≠ j ∧ c ≠ .flushall ∧ (j = 0 → c ≠ .evalsha)

theorem spares_storeHandler (hlua : ScriptsSpare env j) {proc : Process} {p : StoreProg RespFrame} (hdb : db ≠ j)
    (hall : c ≠ .flushall) (h : c.storeHandler env proc db parts = some p) : Spares j p := by
  by_cases heval : c = .eval
  · subst heval
    exact Option.some.inj h ▸ spares_handleEval hlua hdb parts
  · by_cases hwhole : c ∈ wholeStore
    · have hreads : c = .info ∨ c = .memory := by simpa [wholeStore, hall] using hwhole
      rcases hreads with rfl | rfl
      · exact .of_readOnly (readOnly_storeHandler rfl (by decide) h)
      · exact .of_readOnly (readOnly_storeHandler rfl (by decide) h)
    · exact .of_confined (confined_storeHandler hwhole heval h) hdb

theorem spares_storeProgram (hlua : ScriptsSpare env j) {s : Server} {p : StoreProg RespFrame}
    (hraw : rawCommand parts = some c) (h : Avoids j db parts) (hp : s.storeProgram env db parts c = some p) :
    Spares j p := by
  have havoids := h c hraw
  unfold storeProgram at hp
  split at hp
  · have hdb : db ≠ j := (havoids.resolve_left fun hlooks => absurd hlooks.1 (by decide)).1
    exact Option.some.inj hp ▸ .of_confined (.reading fun _ => .onKey) hdb
  · have hdb : db ≠ j := (havoids.resolve_left fun hlooks => absurd hlooks.1 (by decide)).1
    exact Option.some.inj hp ▸ .of_confined (.reading fun _ => .onKey) hdb
  · obtain ⟨-, -, hfirst⟩ := havoids.resolve_left fun hlooks => absurd hlooks.1 (by decide)
    unfold cachedScript at hp
    split at hp
    · obtain ⟨script, -, rfl⟩ := Option.map_eq_some_iff.mp hp
      exact spares_handleEval hlua (fun h => hfirst h.symm rfl) _
    · cases hp
  · rcases havoids with ⟨hreads, hlogged⟩ | ⟨hdb, hall, -⟩
    · exact .of_readOnly (readOnly_storeHandler hreads hlogged hp)
    · exact spares_storeHandler hlua hdb hall hp

theorem carries_of_avoids (hlua : ScriptsSpare env j) (h : Avoids j db parts) :
    Carries env (KeptIn env.ω j) db parts where
  program s c p hraw hp := (spares_storeProgram hlua hraw h hp).kept env.ω s.world
  pops c hraw hc w op keys := by
    have hdb : db ≠ j := by
      refine ((h c hraw).resolve_left fun hlooks => hlooks.2 ?_).1
      rcases hc with rfl | rfl <;> decide
    exact (Spares.of_confined (confined_tryPops op keys) hdb).kept env.ω w

/-- What the frame of a connection carries out avoids the database, and what is popped for a
client that is woken comes from another one. -/
def LoopEvent.Avoids (j : Nat) (s : Server) : LoopEvent → Prop
  | .command id f => ∀ conn, s.connections.get? id = some conn →
      if cleanCommand f = some .exec then
        ∀ parts ∈ conn.transactionState.queuedCommands, Server.Avoids j conn.dbIndex parts
      else Server.Avoids j conn.dbIndex (frameParts f)
  | .wakeups => ∀ r ∈ s.blocking.processWakeups.1, r.db ≠ j
  | _ => True

theorem LoopEvent.Avoids.carries (hlua : ScriptsSpare env j) {s : Server} {ev : LoopEvent} (h : ev.Avoids j s) :
    ev.Carries env (KeptIn env.ω j) s := by
  cases ev with
  | command id f =>
      intro conn hconn
      have hconn' := h conn hconn
      split at hconn'
      · next hexec =>
          rw [if_pos hexec]
          exact fun parts hparts => carries_of_avoids hlua (hconn' parts hparts)
      · next hexec =>
          rw [if_neg hexec]
          exact carries_of_avoids hlua hconn'
  | wakeups =>
      intro r hr w
      have hpop : InDatabase r.db (need (.key r.db r.key (popOp r.opType)) : StoreProg (Option Bytes)) :=
        Prog.Uses.perform rfl
      exact (Spares.of_confined hpop (h r hr)).kept env.ω w
  | _ => trivial

/-- In every run in which each command avoids database `j`, and nobody is woken for one of its
lists, the database keeps its keys, values and deadlines, except for keys whose deadline has
passed. -/
theorem database_kept (env : Env) (j : Nat) (hlua : ScriptsSpare env j) (es : List LoopEvent) (s s' : Server)
    (h : Lib.Runs (fun s ev => ev.Avoids j s) (LoopEvent.step env) s es s') (key : Key) :
    KeptEntry env.ω s.world s'.world j key := by
  have hcarries : Lib.Runs (fun s ev => ev.Carries env (KeptIn env.ω j) s) (LoopEvent.step env) s es s' :=
    h.mono fun _ _ hev => hev.carries hlua
  exact (carried_run (KeptIn.composes env) hcarries).entry key

/-! ## Two stores with one database in common -/

/-- The server on another store. -/
def withWorld (s : Server) (w : World) : Server := { s with world := w }

/-- The two servers differ in their stores only, and there in other databases only. -/
structure Twins (db : Nat) (s s' : Server) : Prop where
  rest : s' = s.withWorld s'.world
  world : s.world.Agrees (· = db) s'.world

/-- The two commands have replied the same, and left twins. -/
structure TwinReplies (db : Nat) (r r' : Outcome RespFrame × Server) : Prop where
  reply : r.1 = r'.1
  left : Twins db r.2 r'.2

/-- A command on the data of one database: it has a handler that works on the store, which is no
script, nor one of those that go through all databases. -/
def OnData (env : Env) (db : Nat) (parts : Parts) : Prop :=
  ∀ c, rawCommand parts = some c → c ∉ wholeStore ∧ c ≠ .eval ∧ c ≠ .evalsha ∧
    ∀ s : Server, (s.storeProgram env db parts c).isSome = true

namespace Twins

variable {s s' : Server}

/-- What neither looks at the store nor changes it. -/
theorem map {f : Server → Server} (hf : ∀ s w, f (s.withWorld w) = (f s).withWorld w)
    (hworld : ∀ s, (f s).world = s.world) (h : Twins db s s') : Twins db (f s) (f s') where
  rest := by
    rw [hworld, h.rest]
    exact hf s _
  world := by
    rw [hworld, hworld]
    exact h.world

theorem logCommand (env : Env) (parts : Parts) (h : Twins db s s') (write : Bool) :
    Twins db (logCommand env write parts s) (logCommand env write parts s') := by
  refine h.map (fun s w => ?_) fun s => ?_
  · unfold Server.logCommand
    split
    · rfl
    · rfl
  · unfold Server.logCommand
    split
    · rfl
    · rfl

theorem notify (h : Twins db s s') (key : Key) : Twins db (s.notify db key) (s'.notify db key) := by
  refine h.map (fun s w => ?_) fun s => notify_world s db key
  unfold Server.notify withWorld
  dsimp only
  split
  · rfl
  · rfl

theorem propagate (h : Twins db s s') (write : Bool) (r : Outcome RespFrame) :
    Twins db (propagate write parts r s) (propagate write parts r s') := by
  refine h.map (fun s w => ?_) fun s => propagate_world write r s
  have hsend (s : Server) (id : ConnId) (item : Sent) :
      (s.withWorld w).send id item = (s.send id item).withWorld w := by
    unfold send withWorld
    dsimp only
    split
    · rfl
    · rfl
  have hsends (item : Sent) (ids : List ConnId) (s : Server) :
      ids.foldl (fun s id => s.send id item) (s.withWorld w) =
        (ids.foldl (fun s id => s.send id item) s).withWorld w := by
    induction ids generalizing s with
    | nil => rfl
    | cons id ids ih => rw [List.foldl_cons, hsend, ih, List.foldl_cons]
  unfold Server.propagate
  split
  · split
    · exact hsends _ _ { s with replication := (s.replication.propagateCommand _).2 }
    · rfl
  · rfl

/-- A program of the database, on both. -/
theorem onStore (env : Env) {α : Type} {p : StoreProg α} (hp : InDatabase db p) (h : Twins db s s') :
    (s.onStore env p).1 = (s'.onStore env p).1 ∧ Twins db (s.onStore env p).2 (s'.onStore env p).2 := by
  obtain ⟨hreply, hworld⟩ := h.world.run_names hp env.ω
  refine ⟨hreply, ?_, hworld⟩
  rw [h.rest]
  rfl

theorem pushAndNotify {handler : Nat → Parts → StoreProg RespFrame} (hp : InDatabase db (handler db parts))
    (h : Twins db s s') :
    TwinReplies db (pushAndNotify env handler db parts s) (pushAndNotify env handler db parts s') := by
  obtain ⟨hreply, hleft⟩ := h.onStore env hp
  unfold Server.pushAndNotify Action.storing
  rcases hr : s.onStore env (handler db parts) with ⟨f | e | _, s₁⟩
  all_goals
    rcases hr' : s'.onStore env (handler db parts) with ⟨r', s₁'⟩
    rw [hr, hr'] at hreply hleft
    cases hreply
  · dsimp only
    split
    · refine ⟨rfl, ?_⟩
      split
      · exact hleft.notify _
      · exact hleft
    · exact ⟨rfl, hleft⟩
  · exact ⟨rfl, hleft⟩
  · exact ⟨rfl, hleft⟩

/-- A command on the data: what it replies depends on its database only. -/
theorem processNormalCommand (hdata : OnData env db parts) (id : ConnId) (h : Twins db s s') :
    TwinReplies db (processNormalCommand env parts db id s) (processNormalCommand env parts db id s') := by
  unfold Server.processNormalCommand
  cases hbytes : (parts.head?).bind RespFrame.bulk? with
  | none => exact ⟨rfl, h⟩
  | some bytes =>
      dsimp only
      generalize ((Command.parse (Command.rawName bytes)).map Command.isWrite).getD false = write
      have hdispatch : TwinReplies db
          (dispatch env db id parts (Command.rawName bytes) (Server.logCommand env write parts s))
          (dispatch env db id parts (Command.rawName bytes) (Server.logCommand env write parts s')) := by
        have hlog := h.logCommand env parts write
        generalize Server.logCommand env write parts s = t at hlog
        generalize Server.logCommand env write parts s' = t' at hlog
        cases hc : Command.parse (Command.rawName bytes) with
        | none =>
            unfold dispatch
            rw [hc]
            exact ⟨rfl, hlog⟩
        | some c =>
            have hraw : rawCommand parts = some c := (rawCommand_of_bulk hbytes).trans hc
            obtain ⟨hwhole, heval, hsha, hsome⟩ := hdata c hraw
            obtain ⟨p, hp⟩ := Option.isSome_iff_exists.mp (hsome t)
            unfold storeProgram at hp
            split at hp
            · rw [dispatch_lpush hc, dispatch_lpush hc]
              exact hlog.pushAndNotify (.reading fun _ => .onKey)
            · rw [dispatch_rpush hc, dispatch_rpush hc]
              exact hlog.pushAndNotify (.reading fun _ => .onKey)
            · exact absurd rfl hsha
            · have hstore : Command.storeHandler env (t.proc env) db parts _ = some p := hp
              have hproc : t'.proc env = t.proc env := congrArg env.process hlog.world.1.symm
              obtain ⟨hreply, hleft⟩ := hlog.onStore env (confined_storeHandler hwhole heval hstore)
              rw [dispatch_of_storeHandler hc hstore, dispatch_of_storeHandler hc (hproc ▸ hstore)]
              exact ⟨hreply, hleft⟩
      generalize dispatch env db id parts (Command.rawName bytes) (Server.logCommand env write parts s) = r at hdispatch
      generalize dispatch env db id parts (Command.rawName bytes) (Server.logCommand env write parts s') = r'
        at hdispatch
      refine ⟨hdispatch.reply, ?_⟩
      rw [hdispatch.reply]
      exact hdispatch.left.propagate write _

/-- The commands of a queue, one after another. -/
theorem runQueued {queue : List Parts} (hdata : ∀ parts ∈ queue, OnData env db parts) (results : List RespFrame)
    (h : Twins db s s') :
    TwinReplies db (runQueued env db queue results s) (runQueued env db queue results s') := by
  induction queue generalizing s s' results with
  | nil => exact ⟨rfl, h⟩
  | cons parts queue ih =>
      have hrest {t t' : Server} (results : List RespFrame) (ht : Twins db t t') :=
        ih (fun parts hparts => hdata parts (List.mem_cons_of_mem _ hparts)) results ht
      obtain ⟨hreply, hleft⟩ := h.processNormalCommand (hdata parts List.mem_cons_self) 0
      unfold Server.runQueued
      rcases hr : Server.processNormalCommand env parts db 0 s with ⟨f | e | _, t⟩
      all_goals
        rcases hr' : Server.processNormalCommand env parts db 0 s' with ⟨r', t'⟩
        rw [hr, hr'] at hreply hleft
        cases hreply
      · exact hrest _ hleft
      · exact hrest _ hleft
      · exact ⟨rfl, hleft⟩

end Twins

/-- Commands on the data of one database, one after another, as EXEC runs them: on two servers
whose stores have this database in common they reply the same, and leave the rest of the servers
and the database the same. -/
theorem replies_of_own_database (env : Env) (db : Nat) (queue : List Parts)
    (hdata : ∀ parts ∈ queue, OnData env db parts) (s : Server) (w : World) (h : s.world.Agrees (· = db) w) :
    (runQueued env db queue [] (s.withWorld w)).1 = (runQueued env db queue [] s).1 ∧
      (runQueued env db queue [] (s.withWorld w)).2 =
        (runQueued env db queue [] s).2.withWorld (runQueued env db queue [] (s.withWorld w)).2.world ∧
      (runQueued env db queue [] s).2.world.Agrees (· = db) (runQueued env db queue [] (s.withWorld w)).2.world := by
  obtain ⟨hreply, hleft⟩ := Twins.runQueued hdata [] (⟨rfl, h⟩ : Twins db s (s.withWorld w))
  exact ⟨hreply.symm, hleft.rest, hleft.world⟩

/-- A store in whose second database there is a key, and one in which there is none. -/
theorem replies_of_own_database_second :
    ((Op.key 1 "k".toBytes (.setStringNx "v".toBytes)).run (.at 0) Engine.new).2.entryAt 1 "k".toBytes ≠ none ∧
      (runQueued (.quiet none) 0 [words ["EXISTS", "k"]] [] ((initial Engine.new "0" 16).withWorld
        ⟨((Op.key 1 "k".toBytes (.setStringNx "v".toBytes)).run (.at 0) Engine.new).2, 0⟩)).1 =
        (runQueued (.quiet none) 0 [words ["EXISTS", "k"]] [] (initial Engine.new "0" 16)).1 := by
  have hdata : ∀ parts ∈ [words ["EXISTS", "k"]], OnData (.quiet none) 0 parts := by
    rintro _ (_ | ⟨_, ⟨⟩⟩) c hc
    obtain rfl : Command.exists? = c := Option.some.inj hc
    exact ⟨by decide, by decide, by decide, fun _ => rfl⟩
  refine ⟨by decide, (replies_of_own_database (.quiet none) 0 _ hdata (initial Engine.new "0" 16) _ ?_).1⟩
  refine ⟨rfl, (Engine.withEntry_databases_length _ _ _ _ _).symm, fun db hdb => ?_, rfl, rfl⟩
  subst hdb
  have hnames : (Op.key 1 "k".toBytes (.setStringNx "v".toBytes)).Names (· = 1) := rfl
  exact (Op.run_other (j := 0) (by decide) hnames _ _).symm

end Server

end Ferrous
