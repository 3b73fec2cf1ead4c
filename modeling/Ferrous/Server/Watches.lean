/-
# `Server.Watches` — the watch counters of the shards

Each shard counts its watchers.  Beside the server a run keeps the watches that
are outstanding; `Exact` says that every counter is the number of them on its
shard.  WATCH counts up for every argument and UNWATCH counts down in the
database selected then, while EXEC, DISCARD and the end of a connection forget
the watches without counting down: the condition on a step (`Balanced`) is that
none of this shows.
-/
import Ferrous.Lib.Run
import Ferrous.Storage.Effects
import Ferrous.Server.Loop

namespace Ferrous

open Lib

/-! ## Counters and watches -/

/-- A connection watches a key of a database. -/
structure Watch where
  connId : ConnId
  db : Nat
  key : Key
  deriving DecidableEq

/-- The watches on a shard. -/
def onShardOf (ws : Finset Watch) (db : Nat) (i : Fin shardsPerDatabase) : Finset Watch :=
  ws.filter fun w => w.db = db ∧ getShardIndex w.key = i

/-- Every counter is the number of watches on its shard. -/
def Engine.Exact (e : Engine) (ws : Finset Watch) : Prop :=
  ∀ db i sh, e.shardAt db i = some sh → sh.watch.activeWatchers = (onShardOf ws db i).card

theorem card_onShardOf_le (ws : Finset Watch) (db : Nat) (i : Fin shardsPerDatabase) :
    (onShardOf ws db i).card ≤ ws.card := Finset.card_filter_le _ _

theorem onShardOf_insert (ws : Finset Watch) (w : Watch) (db : Nat) (i : Fin shardsPerDatabase) :
    onShardOf (insert w ws) db i =
      if w.db = db ∧ getShardIndex w.key = i then insert w (onShardOf ws db i)
      else onShardOf ws db i := Finset.filter_insert _ _ _

namespace Engine.Exact

variable {e : Engine} {ws : Finset Watch}

/-- A fresh watch is counted. -/
theorem register (h : e.Exact ws) {w : Watch} (hw : w ∉ ws) (hcard : ws.card + 1 < 2 ^ 64) (ctx : Ctx) :
    ((StoreCmd.registerWatch w.db w.key).run ctx e).2.Exact (insert w ws) := by
  intro db i sh hsh
  rw [StoreCmd.run_shardAt] at hsh
  obtain ⟨old, hold, rfl⟩ := Option.map_eq_some_iff.mp hsh
  have hle := card_onShardOf_le ws db i
  have hold := h db i old hold
  rw [onShardOf_insert]
  by_cases hc : w.db = db ∧ getShardIndex w.key = i
  · obtain ⟨rfl, rfl⟩ := hc
    have hnew : w ∉ onShardOf ws w.db (getShardIndex w.key) := fun hm => hw (Finset.mem_filter.mp hm).1
    simp only [StoreCmd.onShard, and_self, if_true, WatchTracker.registerWatch, hold,
      Finset.card_insert_of_notMem hnew]
    exact Nat.mod_eq_of_lt (by omega)
  · rw [if_neg hc, ← hold]
    have hc' : ¬ (db = w.db ∧ i = getShardIndex w.key) := fun h => hc ⟨h.1.symm, h.2.symm⟩
    simp only [StoreCmd.onShard, hc', if_false]

/-- A watch that ends is counted off. -/
theorem unregister (h : e.Exact ws) {w : Watch} (hw : w ∈ ws) (hcard : ws.card < 2 ^ 64) (ctx : Ctx) :
    ((StoreCmd.unregisterWatch w.db w.key).run ctx e).2.Exact (ws.erase w) := by
  intro db i sh hsh
  rw [StoreCmd.run_shardAt] at hsh
  obtain ⟨old, hold, rfl⟩ := Option.map_eq_some_iff.mp hsh
  have hle := card_onShardOf_le ws db i
  have hold := h db i old hold
  have herase : onShardOf (ws.erase w) db i = (onShardOf ws db i).erase w := Finset.filter_erase _ _ _
  rw [herase]
  by_cases hc : w.db = db ∧ getShardIndex w.key = i
  · obtain ⟨rfl, rfl⟩ := hc
    have hmem : w ∈ onShardOf ws w.db (getShardIndex w.key) := Finset.mem_filter.mpr ⟨hw, rfl, rfl⟩
    have hpos := Finset.card_pos.mpr ⟨w, hmem⟩
    simp only [StoreCmd.onShard, and_self, if_true, WatchTracker.unregisterWatch, hold,
      Finset.card_erase_of_mem hmem]
    omega
  · have hnot : w ∉ onShardOf ws db i := fun hm => hc (Finset.mem_filter.mp hm).2
    rw [Finset.erase_eq_of_notMem hnot, ← hold]
    have hc' : ¬ (db = w.db ∧ i = getShardIndex w.key) := fun h => hc ⟨h.1.symm, h.2.symm⟩
    simp only [StoreCmd.onShard, hc', if_false]

end Engine.Exact

/-! ## Runs -/

/-- The commands of a run. -/
inductive WatchCommand
  | watch
  | unwatch
  | select
  | multi
  | exec
  | discard
  deriving DecidableEq

/-- The entry of the command table. -/
def WatchCommand.command : WatchCommand → Command
  | watch => .watch
  | unwatch => .unwatch
  | select => .select
  | multi => .multi
  | exec => .exec
  | discard => .discard

/-- A way to write the name of a command. -/
abbrev Spelling (c : WatchCommand) :=
  { name : Bytes // Command.parse (Command.cleanName name) = some c.command }

/-- What happens to connections and their watches. -/
inductive WatchEvent
  | connect (addr : String)
  | request (id : ConnId) (c : WatchCommand) (name : Spelling c) (args : Parts)
  /-- The connection is removed, after a failure or after it was closed. -/
  | disconnect (failed : Bool) (id : ConnId)

/-- A server, and the watches that are outstanding. -/
structure Watching where
  server : Server
  outstanding : Finset Watch

namespace Server

/-- The connection, if its commands are carried out. -/
def served (env : Env) (s : Server) (id : ConnId) : Option Connection :=
  (s.connections.get? id).filter fun c => env.password.isNone || c.state == .authenticated

/-- The transaction state of a connection. -/
def transaction? (s : Server) (id : ConnId) : Option TransactionState :=
  (s.connections.get? id).map (·.transactionState)

end Server

/-- The keys WATCH gets to: those before an argument that is no byte string. -/
def watchKeys : Parts → List Key
  | [] => []
  | p :: ps =>
      match p.bulk? with
      | none => []
      | some key => key :: watchKeys ps

/-- The watches of a connection on keys of one database. -/
def watchesOf (id : ConnId) (db : Nat) (keys : List Key) : Finset Watch :=
  (keys.map fun key => ⟨id, db, key⟩).toFinset

/-- The watches of the other connections. -/
def endedFor (ws : Finset Watch) (id : ConnId) : Finset Watch := ws.filter fun w => w.connId ≠ id

namespace WatchEvent

variable (env : Env)

/-- The frame of a request. -/
def frame {c : WatchCommand} (name : Spelling c) (args : Parts) : RespFrame :=
  .list (.fromBytes name.1 :: args)

/-- The watches after a step: WATCH adds them, and UNWATCH, EXEC, DISCARD and
the end of the connection end them. -/
def outstanding (m : Watching) : WatchEvent → Finset Watch
  | connect _ => m.outstanding
  | disconnect _ id => endedFor m.outstanding id
  | request id c _ args =>
      match m.server.served env id with
      | none => m.outstanding
      | some conn =>
          match c with
          | .watch =>
              if conn.transactionState.inTransaction then m.outstanding
              else m.outstanding ∪ watchesOf id conn.dbIndex (watchKeys args)
          | .unwatch => endedFor m.outstanding id
          | .exec | .discard =>
              if conn.transactionState.inTransaction then endedFor m.outstanding id
              else m.outstanding
          | .select | .multi => m.outstanding

/-- The server after a step. -/
def server (s : Server) : WatchEvent → Server
  | connect addr => s.accept env addr
  | disconnect failed id => if failed then s.removeFailed id else s.removeClosed id
  | request id _ name args => (Server.processFrame env id (frame name args) s).2

/-- One step. -/
def step (m : Watching) (e : WatchEvent) : Watching :=
  ⟨e.server env m.server, e.outstanding env m⟩

/-- WATCH names fresh keys only, UNWATCH is given in the database of the
watches, and nothing else ends a watch. -/
def Balanced (m : Watching) : WatchEvent → Prop
  | connect _ => True
  | disconnect _ id => ∀ w ∈ m.outstanding, w.connId ≠ id
  | request id c _ args =>
      ∀ conn, m.server.served env id = some conn →
        match c with
        | .watch => conn.transactionState.inTransaction = false →
            (watchKeys args).Nodup ∧
              (∀ key ∈ watchKeys args, (⟨id, conn.dbIndex, key⟩ : Watch) ∉ m.outstanding) ∧
              m.outstanding.card + (watchKeys args).length < 2 ^ 64
        | .unwatch => ∀ w ∈ m.outstanding, w.connId = id → w.db = conn.dbIndex
        | .exec | .discard => conn.transactionState.inTransaction = true →
            ∀ w ∈ m.outstanding, w.connId ≠ id
        | .select | .multi => True

end WatchEvent

/-! ## The invariant -/

/-- A queued command that does nothing when it is run: SELECT, or an unknown name. -/
def SelectsAtMost (parts : Parts) : Prop :=
  ∀ bytes c, (parts.head?).bind RespFrame.bulk? = some bytes →
    Command.parse (Command.rawName bytes) = some c → c = .select

/-- The counters are exact, and the connections know the watches. -/
structure Server.Watched (s : Server) (ws : Finset Watch) : Prop where
  exact : s.world.engine.Exact ws
  few : ws.card < 2 ^ 64
  keys : ∀ id key, (∃ db, (⟨id, db, key⟩ : Watch) ∈ ws) ↔
    ∃ t, s.transaction? id = some t ∧ t.watchedKeys.contains key = true
  queued : ∀ id t, s.transaction? id = some t → ∀ parts ∈ t.queuedCommands, SelectsAtMost parts
  fresh : ∀ id t, s.transaction? id = some t → id < s.nextId

namespace Server

variable {env : Env} {s s' : Server} {ws : Finset Watch} {id : ConnId}

/-- Nothing the watches depend on has changed. -/
structure SameWatches (s s' : Server) : Prop where
  engine : s'.world.engine = s.world.engine
  transactions : ∀ id, s'.transaction? id = s.transaction? id
  nextId : s'.nextId = s.nextId

theorem SameWatches.refl (s : Server) : SameWatches s s := ⟨rfl, fun _ => rfl, rfl⟩

theorem SameWatches.trans {s'' : Server} (h : SameWatches s s') (h' : SameWatches s' s'') :
    SameWatches s s'' :=
  ⟨h'.engine.trans h.engine, fun id => (h'.transactions id).trans (h.transactions id),
    h'.nextId.trans h.nextId⟩

theorem Watched.same (h : s.Watched ws) (hs : SameWatches s s') : s'.Watched ws where
  exact := hs.engine ▸ h.exact
  few := h.few
  keys id key := by rw [h.keys, hs.transactions]
  queued id t ht := h.queued id t (hs.transactions id ▸ ht)
  fresh id t ht := hs.nextId ▸ h.fresh id t (hs.transactions id ▸ ht)

theorem transaction?_setTransaction (s : Server) (id : ConnId) (t : TransactionState) (j : ConnId) :
    (s.setTransaction id t).transaction? j =
      if j = id then (s.transaction? id).map fun _ => t else s.transaction? j := by
  rw [transaction?, setTransaction, onConnection_get?]
  split
  · rw [transaction?, Option.map_map, Option.map_map]
    rfl
  · rfl

/-- A transaction state of one connection is replaced. -/
theorem Watched.setTransaction (h : s.Watched ws) {t : TransactionState}
    (hkeys : ∀ key, (∃ db, (⟨id, db, key⟩ : Watch) ∈ ws) ↔
      s.transaction? id ≠ none ∧ t.watchedKeys.contains key = true)
    (hqueued : ∀ parts ∈ t.queuedCommands, SelectsAtMost parts) :
    (s.setTransaction id t).Watched ws where
  exact := by
    rw [Server.setTransaction, onConnection_world]
    exact h.exact
  few := h.few
  keys j key := by
    rw [transaction?_setTransaction]
    split
    · next hj =>
        rw [hj, hkeys]
        cases s.transaction? id with
        | none => simp
        | some t' => simp
    · exact h.keys j key
  queued j t' ht := by
    rw [transaction?_setTransaction] at ht
    split at ht
    · obtain ⟨-, -, rfl⟩ := Option.map_eq_some_iff.mp ht
      exact hqueued
    · exact h.queued j t' ht
  fresh j t' ht := by
    rw [transaction?_setTransaction] at ht
    rw [Server.setTransaction, onConnection_nextId]
    split at ht
    · next hj =>
        obtain ⟨t₀, ht₀, -⟩ := Option.map_eq_some_iff.mp ht
        exact hj ▸ h.fresh id t₀ ht₀
    · exact h.fresh j t' ht

/-! ## WATCH and UNWATCH -/

/-- One operation whose error is a value: its engine, whatever it answers. -/
theorem run_attempt {ω : Nat → Ctx} {α : Type} (c : StoreCmd α)
    (hpanic : ∀ ctx e, (c.run ctx e).1 ≠ .panic) (w : World) :
    ∃ r, (Prog.attempt (.store c) : StoreProg (Except FerrousError α)).run (World.step ω) w =
      (.ok r, ⟨(c.run (ω w.calls) w.engine).2, w.calls + 1⟩) := by
  have hne := hpanic (ω w.calls) w.engine
  simp only [Prog.attempt, Prog.run_call, World.step, Op.run]
  rcases hr : c.run (ω w.calls) w.engine with ⟨a | e | _, e'⟩
  · exact ⟨.ok a, rfl⟩
  · exact ⟨.error e, rfl⟩
  · rw [hr] at hne
    exact absurd rfl hne

theorem registerWatch_ne_panic (db : Nat) (key : Key) (ctx : Ctx) (e : Engine) :
    ((StoreCmd.registerWatch db key).run ctx e).1 ≠ .panic := by
  simp only [StoreCmd.run, Engine.registerWatch]
  split <;> rintro ⟨⟩

theorem unregisterWatch_ne_panic (db : Nat) (key : Key) (ctx : Ctx) (e : Engine) :
    ((StoreCmd.unregisterWatch db key).run ctx e).1 ≠ .panic := by
  simp only [StoreCmd.run, Engine.unregisterWatch]
  split <;> rintro ⟨⟩

theorem mem_watchesOf {ks : List Key} {db : Nat} {w : Watch} :
    w ∈ watchesOf id db ks ↔ w.connId = id ∧ w.db = db ∧ w.key ∈ ks := by
  obtain ⟨i, d, k⟩ := w
  simp only [watchesOf, List.mem_toFinset, List.mem_map, Watch.mk.injEq]
  constructor
  · rintro ⟨k', hk, rfl, rfl, rfl⟩
    exact ⟨rfl, rfl, hk⟩
  · rintro ⟨rfl, rfl, hk⟩
    exact ⟨k, hk, rfl, rfl, rfl⟩

theorem watchesOf_cons (id : ConnId) (db : Nat) (key : Key) (ks : List Key) :
    watchesOf id db (key :: ks) = insert ⟨id, db, key⟩ (watchesOf id db ks) := List.toFinset_cons

/-- What WATCH notes of a key. -/
def watchKey (s : Server) (id : ConnId) (key : Key) (baseline : Nat) : Server :=
  s.onConnection id fun c =>
    { c with transactionState :=
      { c.transactionState with watchedKeys := c.transactionState.watchedKeys.set key baseline } }

theorem transaction?_watchKey (s : Server) (id : ConnId) (key : Key) (baseline : Nat) (j : ConnId) :
    (s.watchKey id key baseline).transaction? j =
      if j = id then (s.transaction? id).map fun t =>
        { t with watchedKeys := t.watchedKeys.set key baseline }
      else s.transaction? j := by
  rw [transaction?, watchKey, onConnection_get?]
  split
  · rw [transaction?, Option.map_map, Option.map_map]
    rfl
  · rfl

/-- A fresh key is registered and noted. -/
theorem Watched.watchKey {db : Nat} {key : Key} (h : s.Watched ws) (hid : s.transaction? id ≠ none)
    (hnew : (⟨id, db, key⟩ : Watch) ∉ ws) (hfew : ws.card + 1 < 2 ^ 64) (ctx : Ctx)
    (calls baseline : Nat) :
    (Server.watchKey
      { s with world := ⟨((StoreCmd.registerWatch db key).run ctx s.world.engine).2, calls⟩ }
      id key baseline).Watched (insert ⟨id, db, key⟩ ws) where
  exact := by
    rw [Server.watchKey, onConnection_world]
    exact h.exact.register hnew hfew ctx
  few := by rwa [Finset.card_insert_of_notMem hnew]
  keys j key' := by
    have hkeys := h.keys j key'
    rw [transaction?_watchKey]
    simp only [Finset.mem_insert, Watch.mk.injEq, exists_or]
    split
    · next hj =>
        subst hj
        obtain ⟨t, ht⟩ := Option.ne_none_iff_exists'.mp hid
        rw [ht] at hkeys
        have ht' : ({ s with world :=
            ⟨((StoreCmd.registerWatch db key).run ctx s.world.engine).2, calls⟩ } : Server).transaction? j =
            some t := ht
        simp only [hkeys, ht', Option.map_some, Option.some_inj, exists_eq_left', Map.contains,
          Map.get?_set]
        by_cases hk : key' = key
        · simp [hk]
        · simp [hk]
    · next hj =>
        rw [hkeys]
        simp only [hj, false_and, exists_const, false_or]
        rfl
  queued j t ht := by
    rw [transaction?_watchKey] at ht
    split at ht
    · obtain ⟨t₀, ht₀, rfl⟩ := Option.map_eq_some_iff.mp ht
      exact h.queued id t₀ ht₀
    · exact h.queued j t ht
  fresh j t ht := by
    rw [transaction?_watchKey] at ht
    rw [Server.watchKey, onConnection_nextId]
    split at ht
    · next hj =>
        obtain ⟨t₀, ht₀, -⟩ := Option.map_eq_some_iff.mp ht
        exact hj ▸ h.fresh id t₀ ht₀
    · exact h.fresh j t ht

/-- One round of the loop of WATCH. -/
theorem watchLoop_cons {p : RespFrame} {key : Key} (hp : p.bulk? = some key) (env : Env) (id : ConnId)
    (db : Nat) (ps : Parts) (s : Server) :
    ∃ baseline, Server.watchLoop env id db (p :: ps) s = Server.watchLoop env id db ps
      (Server.watchKey
        { s with world := ⟨((StoreCmd.registerWatch db key).run (env.ω s.world.calls)
          s.world.engine).2, s.world.calls + 1⟩ } id key baseline) := by
  obtain ⟨r, hrun⟩ := run_attempt (ω := env.ω) (.registerWatch db key) (registerWatch_ne_panic db key)
    s.world
  cases r with
  | ok n =>
      refine ⟨n, ?_⟩
      simp only [Server.watchLoop, hp, onStore, hrun]
      rfl
  | error e =>
      refine ⟨0, ?_⟩
      simp only [Server.watchLoop, hp, onStore, hrun]
      rfl

/-- The loop of WATCH over fresh keys. -/
theorem Watched.watchLoop {db : Nat} (args : Parts) (h : s.Watched ws) (hid : s.transaction? id ≠ none)
    (hnodup : (watchKeys args).Nodup)
    (hfresh : ∀ key ∈ watchKeys args, (⟨id, db, key⟩ : Watch) ∉ ws)
    (hfew : ws.card + (watchKeys args).length < 2 ^ 64) :
    (Server.watchLoop env id db args s).2.Watched (ws ∪ watchesOf id db (watchKeys args)) := by
  induction args generalizing s ws with
  | nil => simpa [watchKeys, watchesOf, Server.watchLoop, Action.reply] using h
  | cons p ps ih =>
      cases hp : p.bulk? with
      | none => simpa [watchKeys, watchesOf, Server.watchLoop, hp, Action.error, Action.reply] using h
      | some key =>
          simp only [watchKeys, hp, List.nodup_cons, List.mem_cons, forall_eq_or_imp,
            List.length_cons] at hnodup hfresh hfew ⊢
          obtain ⟨baseline, hloop⟩ := watchLoop_cons hp env id db ps s
          have hkey := h.watchKey hid hfresh.1 (by omega) (env.ω s.world.calls) (s.world.calls + 1)
            baseline
          rw [hloop, watchesOf_cons, ← Finset.insert_union_comm]
          refine ih hkey ?_ hnodup.2 (fun k hk hm => ?_) ?_
          · rw [transaction?_watchKey, if_pos rfl]
            exact fun hnone => hid (Option.map_eq_none_iff.mp hnone)
          · rcases Finset.mem_insert.mp hm with heq | hm
            · exact hnodup.1 ((Watch.mk.inj heq).2.2 ▸ hk)
            · exact hfresh.2 k hk hm
          · rw [Finset.card_insert_of_notMem hfresh.1]
            omega

/-- UNWATCH counts off the watches on keys of one database. -/
theorem unregisterAll_exact (ω : Nat → Ctx) (id : ConnId) {db : Nat} (ks : List Key) {w : World}
    {ws : Finset Watch} (h : w.engine.Exact ws) (hfew : ws.card < 2 ^ 64) (hnodup : ks.Nodup)
    (hmem : ∀ key ∈ ks, (⟨id, db, key⟩ : Watch) ∈ ws) :
    ∃ w', (unregisterAll db ks).run (World.step ω) w = (.ok (), w') ∧
      w'.engine.Exact (ws \ watchesOf id db ks) := by
  induction ks generalizing w ws with
  | nil => exact ⟨w, rfl, by simpa [watchesOf] using h⟩
  | cons key ks ih =>
      obtain ⟨hnot, hnodup⟩ := List.nodup_cons.mp hnodup
      have herase := h.unregister (hmem key List.mem_cons_self) hfew (ω w.calls)
      obtain ⟨r, hstep⟩ := run_attempt (ω := ω) (.unregisterWatch db key)
        (unregisterWatch_ne_panic db key) w
      obtain ⟨w', hrun, hexact⟩ := ih (w := ⟨_, w.calls + 1⟩) herase
        (Nat.lt_of_le_of_lt Finset.card_erase_le hfew) hnodup fun k hk =>
          Finset.mem_erase.mpr ⟨fun heq => hnot ((Watch.mk.inj heq).2.2 ▸ hk),
            hmem k (List.mem_cons_of_mem key hk)⟩
      refine ⟨w', (Prog.run_bind_of_ok _ hstep _).trans hrun, ?_⟩
      rwa [watchesOf_cons, Finset.sdiff_insert, ← Finset.erase_sdiff_comm]

/-! ## The queue -/

theorem sameWatches_handleSelect (parts : Parts) (s : Server) :
    SameWatches s (handleSelect id parts s).2 := by
  refine Action.reading_rule (P := fun r => SameWatches s r.2) (fun _ => .refl s) fun n => ?_
  split
  · exact .refl s
  · refine ⟨congrArg World.engine (onConnection_world _ _ _), fun j => ?_, onConnection_nextId _ _ _⟩
    rw [transaction?, onConnection_get?]
    split
    · next hj =>
        rw [hj, transaction?, Option.map_map]
        rfl
    · rfl

/-- Such a command leaves the watches alone when it is run. -/
theorem sameWatches_of_selectsAtMost {parts : Parts} (h : SelectsAtMost parts) (env : Env) (db : Nat)
    (id : ConnId) (s : Server) :
    SameWatches s (processNormalCommand env parts db id s).2 := by
  unfold processNormalCommand
  cases hbytes : (parts.head?).bind RespFrame.bulk? with
  | none => exact .refl s
  | some bytes =>
      have hparse := h bytes
      dsimp only
      cases hc : Command.parse (Command.rawName bytes) with
      | none =>
          have hlog : logCommand env false parts s = s := by simp [logCommand]
          simp only [Option.map_none, Option.getD_none, hlog, dispatch, hc, propagate,
            Bool.false_and, Bool.false_eq_true, if_false]
          exact .refl s
      | some c =>
          obtain rfl := hparse c hbytes hc
          have hlog : logCommand env false parts s = s := by simp [logCommand]
          have hwrite : Command.isWrite .select = false := rfl
          have hprop (r : Outcome RespFrame) (s' : Server) : propagate false parts r s' = s' := by
            cases r <;> simp [propagate]
          have hstore : Command.storeHandler env (s.proc env) db parts .select = none := rfl
          have hserver : serverHandler env db id parts .select = some (handleSelect id parts) := rfl
          simp only [Option.map_some, Option.getD_some, hwrite, hlog, dispatch, hc, hstore, hserver,
            hprop]
          exact sameWatches_handleSelect parts s

/-- Nor does a queue of them. -/
theorem sameWatches_runQueued {db : Nat} (queue : List Parts) (results : List RespFrame)
    (h : ∀ parts ∈ queue, SelectsAtMost parts) (s : Server) :
    SameWatches s (runQueued env db queue results s).2 := by
  induction queue generalizing results s with
  | nil => exact .refl s
  | cons parts queue ih =>
      have hstep := sameWatches_of_selectsAtMost (h parts List.mem_cons_self) env db 0 s
      have hrest := fun results s => ih results (fun q hq => h q (List.mem_cons_of_mem parts hq)) s
      simp only [runQueued]
      rcases hr : processNormalCommand env parts db 0 s with ⟨f | e | _, s'⟩
      all_goals rw [hr] at hstep
      · exact hstep.trans (hrest _ s')
      · exact hstep.trans (hrest _ s')
      · exact hstep

/-- What is queued in a transaction is SELECT, or unknown when it is run. -/
theorem selectsAtMost_frame (name : Spelling .select) (args : Parts) :
    SelectsAtMost (.fromBytes name.1 :: args) := by
  intro bytes c hbytes hc
  obtain rfl : name.1 = bytes := Option.some.inj hbytes
  have hclean := name.2
  rw [Command.cleanName_of_parse hc, hc] at hclean
  exact Option.some.inj hclean

theorem checkWatched_engine (ω : Nat → Ctx) (db : Nat) (ps : List (Key × Nat)) (w : World) :
    ∃ b w', (checkWatched db ps).run (World.step ω) w = (.ok b, w') ∧ w'.engine = w.engine := by
  induction ps generalizing w with
  | nil => exact ⟨false, w, rfl, rfl⟩
  | cons p ps ih =>
      obtain ⟨key, baseline⟩ := p
      have hne : ∀ ctx e, ((StoreCmd.wasModifiedSince db key baseline).run ctx e).1 ≠ .panic := by
        intro ctx e
        simp only [StoreCmd.run, Engine.wasModifiedSince]
        split <;> rintro ⟨⟩
      have heng : ∀ ctx e, ((StoreCmd.wasModifiedSince db key baseline).run ctx e).2 = e := by
        intro ctx e
        simp only [StoreCmd.run, Engine.wasModifiedSince]
        split <;> rfl
      obtain ⟨r, hstep⟩ := run_attempt (ω := ω) (.wasModifiedSince db key baseline) hne w
      rw [heng] at hstep
      rw [checkWatched, Prog.bind_eq, Prog.run_bind_of_ok _ hstep]
      rcases r with e | _ | _
      · exact ⟨true, _, rfl, rfl⟩
      · exact ih ⟨w.engine, w.calls + 1⟩
      · exact ⟨true, _, rfl, rfl⟩

/-! ## Requests -/

theorem served_eq_some {conn : Connection} :
    s.served env id = some conn ↔ s.connections.get? id = some conn ∧
      ¬ (env.password.isSome ∧ conn.state ≠ .authenticated) := by
  rw [served, Option.filter_eq_some_iff]
  refine and_congr_right fun _ => ?_
  cases env.password with
  | none => simp
  | some p => simp

/-- A request of a connection that is not served changes nothing. -/
theorem processFrame_unserved {c : WatchCommand} (name : Spelling c) (args : Parts)
    (h : s.served env id = none) :
    ∃ f, processFrame env id (WatchEvent.frame name args) s = (.ok f, s) := by
  have hframe : processFrame env id (WatchEvent.frame name args) =
      processParts env id (.fromBytes name.1 :: args) (Command.parse (Command.cleanName name.1)) := rfl
  rw [hframe, name.2]
  simp only [processParts, withConnection]
  cases hconn : s.connections.get? id with
  | none => exact ⟨_, rfl⟩
  | some conn =>
      have hgate : env.password.isSome ∧ conn.state ≠ .authenticated := by
        by_contra hc
        rw [served_eq_some.mpr ⟨hconn, hc⟩] at h
        cases h
      simp only [if_pos hgate]
      cases c <;> exact ⟨_, rfl⟩

/-- A request of a connection that is served. -/
theorem processFrame_served {c : WatchCommand} (name : Spelling c) (args : Parts) {conn : Connection}
    (h : s.served env id = some conn) :
    processFrame env id (WatchEvent.frame name args) s =
      afterAuth env id conn (.fromBytes name.1 :: args) (some c.command) s := by
  have hframe : processFrame env id (WatchEvent.frame name args) =
      processParts env id (.fromBytes name.1 :: args) (Command.parse (Command.cleanName name.1)) := rfl
  obtain ⟨hconn, hgate⟩ := served_eq_some.mp h
  rw [hframe, name.2]
  simp only [processParts, withConnection, hconn, if_neg hgate]

theorem transaction?_of_served {conn : Connection} (h : s.served env id = some conn) :
    s.transaction? id = some conn.transactionState := by
  rw [transaction?, (served_eq_some.mp h).1]
  rfl

/-- Without watches of its own a connection ends none. -/
theorem endedFor_eq (h : ∀ w ∈ ws, w.connId ≠ id) : endedFor ws id = ws :=
  Finset.filter_true_of_mem h

/-- The watches of one connection have ended, and it knows none. -/
theorem Watched.ended (h : s.Watched ws) (hexact : s'.world.engine.Exact (endedFor ws id))
    (hnext : s.nextId ≤ s'.nextId) (hothers : ∀ j ≠ id, s'.transaction? j = s.transaction? j)
    (hid : ∀ t, s'.transaction? id = some t → (∀ key, t.watchedKeys.contains key = false) ∧
      (∀ parts ∈ t.queuedCommands, SelectsAtMost parts) ∧ id < s'.nextId) :
    s'.Watched (endedFor ws id) where
  exact := hexact
  few := Nat.lt_of_le_of_lt (Finset.card_filter_le _ _) h.few
  keys j key := by
    simp only [endedFor, Finset.mem_filter]
    by_cases hj : j = id
    · subst hj
      constructor
      · rintro ⟨_, hw⟩
        exact absurd rfl hw.2
      · rintro ⟨t, ht, hc⟩
        rw [(hid t ht).1 key] at hc
        cases hc
    · rw [hothers j hj, ← h.keys]
      simp [hj]
  queued j t ht := by
    by_cases hj : j = id
    · exact (hid t (hj ▸ ht)).2.1
    · exact h.queued j t (hothers j hj ▸ ht)
  fresh j t ht := by
    by_cases hj : j = id
    · exact hj ▸ (hid t (hj ▸ ht)).2.2
    · exact Nat.lt_of_lt_of_le (h.fresh j t (hothers j hj ▸ ht)) hnext

/-- The connection gets a transaction state without watches. -/
theorem Watched.forget (h : s.Watched ws) (hexact : s.world.engine.Exact (endedFor ws id))
    {t : TransactionState} (ht : ∀ key, t.watchedKeys.contains key = false)
    (hqueued : ∀ parts ∈ t.queuedCommands, SelectsAtMost parts) :
    (s.setTransaction id t).Watched (endedFor ws id) := by
  refine h.ended (by rwa [Server.setTransaction, onConnection_world])
    (by rw [Server.setTransaction, onConnection_nextId]) (fun j hj => ?_) fun t' ht' => ?_
  · rw [transaction?_setTransaction, if_neg hj]
  · rw [transaction?_setTransaction, if_pos rfl] at ht'
    obtain ⟨t₀, ht₀, rfl⟩ := Option.map_eq_some_iff.mp ht'
    refine ⟨ht, hqueued, ?_⟩
    rw [Server.setTransaction, onConnection_nextId]
    exact h.fresh id t₀ ht₀

/-- A transaction state with the same watches. -/
theorem Watched.keepKeys (h : s.Watched ws) {t t₀ : TransactionState} (ht₀ : s.transaction? id = some t₀)
    (hkeys : t.watchedKeys = t₀.watchedKeys)
    (hqueued : ∀ parts ∈ t.queuedCommands, SelectsAtMost parts) :
    (s.setTransaction id t).Watched ws := by
  refine h.setTransaction (fun key => ?_) hqueued
  rw [h.keys, ht₀, hkeys]
  simp

theorem Watched.handleWatch (h : s.Watched ws) {conn : Connection} (hs : s.served env id = some conn)
    (name : RespFrame) (args : Parts)
    (hbal : conn.transactionState.inTransaction = false →
      (watchKeys args).Nodup ∧
        (∀ key ∈ watchKeys args, (⟨id, conn.dbIndex, key⟩ : Watch) ∉ ws) ∧
        ws.card + (watchKeys args).length < 2 ^ 64) :
    (Server.handleWatch env id (name :: args) s).2.Watched
      (if conn.transactionState.inTransaction then ws
        else ws ∪ watchesOf id conn.dbIndex (watchKeys args)) := by
  have ht := transaction?_of_served hs
  simp only [Server.handleWatch, withConnection, (served_eq_some.mp hs).1]
  cases args with
  | nil =>
      have hnone : ws ∪ watchesOf id conn.dbIndex (watchKeys []) = ws := by
        simp [watchKeys, watchesOf]
      rw [hnone, ite_self]
      exact h
  | cons p ps =>
      have harity : Args.arity "watch" (decide (2 ≤ (name :: p :: ps).length)) = .ok () := by
        simp [Args.arity]
      simp only [harity, Action.reading]
      cases hin : conn.transactionState.inTransaction with
      | true => exact h
      | false =>
          obtain ⟨hnodup, hfresh, hfew⟩ := hbal hin
          exact h.watchLoop (p :: ps) (by rw [ht]; exact Option.some_ne_none _) hnodup hfresh hfew

theorem Watched.handleUnwatch (h : s.Watched ws) {conn : Connection} (hs : s.served env id = some conn)
    (hbal : ∀ w ∈ ws, w.connId = id → w.db = conn.dbIndex) :
    (Server.handleUnwatch env id s).2.Watched (endedFor ws id) := by
  have ht := transaction?_of_served hs
  have hmem (key : Key) : key ∈ conn.transactionState.watchedKeys.keyList ↔
      (⟨id, conn.dbIndex, key⟩ : Watch) ∈ ws := by
    have hkeys := h.keys id key
    rw [ht] at hkeys
    simp only [Option.some_inj, exists_eq_left', Map.contains_iff] at hkeys
    rw [Map.mem_keyList, ← hkeys]
    constructor
    · rintro ⟨db, hw⟩
      rwa [← hbal _ hw rfl]
    · exact fun hw => ⟨_, hw⟩
  have hended : ws \ watchesOf id conn.dbIndex conn.transactionState.watchedKeys.keyList =
      endedFor ws id := by
    ext ⟨i, db, key⟩
    simp only [Finset.mem_sdiff, mem_watchesOf, endedFor, Finset.mem_filter, hmem]
    refine and_congr_right fun hw => ⟨fun hn hi => hn ?_, fun hne hc => hne hc.1⟩
    obtain rfl := hi
    have hdb : db = conn.dbIndex := hbal _ hw rfl
    exact ⟨rfl, hdb, hdb ▸ hw⟩
  obtain ⟨w', hrun, hexact⟩ := unregisterAll_exact env.ω id
    conn.transactionState.watchedKeys.keyList h.exact h.few (Map.nodup_keyList _)
    fun key hk => (hmem key).mp hk
  rw [hended] at hexact
  simp only [Server.handleUnwatch, withConnection, (served_eq_some.mp hs).1, Action.storing, onStore,
    hrun]
  refine h.ended ?_ ?_ (fun j hj => ?_) fun t ht' => ?_
  · rwa [Server.setTransaction, onConnection_world]
  · rw [Server.setTransaction, onConnection_nextId]
  · rw [transaction?_setTransaction, if_neg hj]
    rfl
  · rw [transaction?_setTransaction, if_pos rfl] at ht'
    obtain ⟨t₀, ht₀, rfl⟩ := Option.map_eq_some_iff.mp ht'
    refine ⟨fun _ => rfl, h.queued id conn.transactionState ht, ?_⟩
    rw [Server.setTransaction, onConnection_nextId]
    exact h.fresh id t₀ ht₀

theorem Watched.handleExec (h : s.Watched ws) {conn : Connection} (hs : s.served env id = some conn)
    (hbal : conn.transactionState.inTransaction = true → ∀ w ∈ ws, w.connId ≠ id) :
    (Server.handleExec env id s).2.Watched
      (if conn.transactionState.inTransaction then endedFor ws id else ws) := by
  have ht := transaction?_of_served hs
  simp only [Server.handleExec, (served_eq_some.mp hs).1]
  cases hin : conn.transactionState.inTransaction with
  | false => exact h
  | true =>
      obtain ⟨violated, w', hrun, heng⟩ := checkWatched_engine env.ω conn.dbIndex
        conn.transactionState.watchedKeys.toPairs s.world
      simp only [Bool.not_true, Bool.false_eq_true, if_false, if_true, Action.storing, onStore, hrun]
      have hcleared : (Server.setTransaction { s with world := w' } id {}).Watched (endedFor ws id) := by
        have hsame : ({ s with world := w' } : Server).Watched ws :=
          h.same ⟨heng, fun _ => rfl, rfl⟩
        refine hsame.forget ?_ (fun _ => rfl) (List.forall_mem_nil _)
        rw [endedFor_eq (hbal hin)]
        exact hsame.exact
      split
      · exact hcleared
      · exact hcleared.same (sameWatches_runQueued _ _ (h.queued id _ ht) _)

/-- DISCARD in a transaction without watches. -/
theorem Watched.handleDiscard (h : s.Watched ws) {conn : Connection} (hs : s.served env id = some conn)
    (hbal : conn.transactionState.inTransaction = true → ∀ w ∈ ws, w.connId ≠ id) :
    (Server.handleDiscard id s).2.Watched
      (if conn.transactionState.inTransaction then endedFor ws id else ws) := by
  simp only [Server.handleDiscard, withConnection, (served_eq_some.mp hs).1]
  cases hin : conn.transactionState.inTransaction with
  | false => exact h
  | true =>
      refine h.forget ?_ (fun _ => rfl) (List.forall_mem_nil _)
      rw [endedFor_eq (hbal hin)]
      exact h.exact

theorem Watched.handleMulti (h : s.Watched ws) {conn : Connection} (hs : s.served env id = some conn) :
    (Server.handleMulti id s).2.Watched ws := by
  simp only [Server.handleMulti, withConnection, (served_eq_some.mp hs).1]
  split
  · exact h
  · exact h.keepKeys (transaction?_of_served hs) rfl (List.forall_mem_nil _)

/-- SELECT is queued in a transaction and carried out otherwise. -/
theorem Watched.select (h : s.Watched ws) {conn : Connection} (hs : s.served env id = some conn)
    (name : Spelling .select) (args : Parts) :
    (afterAuth env id conn (.fromBytes name.1 :: args) (some .select) s).2.Watched ws := by
  have ht := transaction?_of_served hs
  have himm : immediate env id (.fromBytes name.1 :: args) .select = none := rfl
  simp only [afterAuth, Option.bind_some, himm]
  split
  · simp only [queueCommand, withConnection, (served_eq_some.mp hs).1]
    refine h.keepKeys ht rfl fun parts hparts => ?_
    rcases List.mem_append.mp hparts with hp | hp
    · exact h.queued id _ ht parts hp
    · exact List.mem_singleton.mp hp ▸ selectsAtMost_frame name args
  · dsimp only
    split
    · exact h
    · exact h.same (sameWatches_of_selectsAtMost (selectsAtMost_frame name args) env _ id s)

end Server

/-! ## Runs keep the counters exact -/

namespace WatchEvent

variable {env : Env} {m : Watching}

/-- A new connection watches nothing. -/
theorem watched_accept (h : m.server.Watched m.outstanding) (addr : String) :
    (m.server.accept env addr).Watched m.outstanding := by
  unfold Server.accept
  split
  · exact ⟨h.exact, h.few, h.keys, h.queued, fun id t ht => Nat.lt_succ_of_lt (h.fresh id t ht)⟩
  · have hnew (j : ConnId) : Server.transaction? { m.server with
        nextId := m.server.nextId + 1
        connections := m.server.connections.set m.server.nextId
          { addr := addr, state := if env.password.isSome then .connected else .authenticated } } j =
        if j = m.server.nextId then some {} else m.server.transaction? j := by
      rw [Server.transaction?, Map.get?_set]
      split
      · rfl
      · rfl
    refine ⟨h.exact, h.few, fun j key => ?_, fun j t ht => ?_, fun j t ht => ?_⟩
    · rw [hnew, h.keys]
      split
      · next hj =>
          constructor
          · rintro ⟨t, ht, -⟩
            exact absurd (h.fresh j t ht) (by rw [hj]; exact Nat.lt_irrefl _)
          · rintro ⟨t, ht, hc⟩
            cases ht
            cases hc
      · rfl
    · rw [hnew] at ht
      split at ht
      · cases ht
        exact List.forall_mem_nil _
      · exact h.queued j t ht
    · rw [hnew] at ht
      split at ht
      · next hj => exact hj ▸ Nat.lt_succ_self _
      · exact Nat.lt_succ_of_lt (h.fresh j t ht)

/-- A connection without watches is removed. -/
theorem watched_remove {s' : Server} {id : ConnId} (h : m.server.Watched m.outstanding)
    (hnone : ∀ w ∈ m.outstanding, w.connId ≠ id) (hengine : s'.world.engine = m.server.world.engine)
    (hnext : s'.nextId = m.server.nextId)
    (hconn : ∀ j, s'.connections.get? j =
      if j = id then none else m.server.connections.get? j) :
    s'.Watched (endedFor m.outstanding id) := by
  refine h.ended ?_ hnext.ge (fun j hj => ?_) fun t ht => ?_
  · rw [Server.endedFor_eq hnone, hengine]
    exact h.exact
  · rw [Server.transaction?, hconn, if_neg hj]
    rfl
  · rw [Server.transaction?, hconn, if_pos rfl] at ht
    cases ht

/-- A balanced step keeps the counters exact. -/
theorem step_watched (e : WatchEvent) (h : m.server.Watched m.outstanding) (hbal : e.Balanced env m) :
    (e.step env m).server.Watched (e.step env m).outstanding := by
  cases e with
  | connect addr => exact watched_accept h addr
  | disconnect failed id =>
      cases failed with
      | true =>
          show (m.server.removeFailed id).Watched (endedFor m.outstanding id)
          unfold Server.removeFailed
          split
          · exact watched_remove h hbal rfl rfl fun j => Map.get?_del _ _ _
          · next hc =>
              refine watched_remove h hbal rfl rfl fun j => ?_
              split
              · next hj => simpa [hj, Map.contains] using hc
              · rfl
      | false => exact watched_remove h hbal rfl rfl fun j => Map.get?_del _ _ _
  | request id c name args =>
      simp only [step, server, outstanding]
      cases hs : m.server.served env id with
      | none =>
          obtain ⟨f, hf⟩ := Server.processFrame_unserved name args hs
          rw [hf]
          exact h
      | some conn =>
          have hbal := hbal conn hs
          rw [Server.processFrame_served name args hs]
          cases c with
          | watch => exact h.handleWatch hs _ args hbal
          | unwatch => exact h.handleUnwatch hs hbal
          | select => exact h.select hs name args
          | multi => exact h.handleMulti hs
          | exec => exact h.handleExec hs hbal
          | discard => exact h.handleDiscard hs hbal

/-- A server that starts, with no watches. -/
def initial (e : Engine) (replId : String) (backlogSize : Nat) : Watching :=
  ⟨Server.initial e replId backlogSize, ∅⟩

/-- In a run of balanced steps every counter is the number of outstanding
watches on its shard, in every state. -/
theorem exact_run (e : Engine) (replId : String) (backlogSize : Nat)
    (hnone : ∀ db i sh, e.shardAt db i = some sh → sh.watch.activeWatchers = 0) (es : List WatchEvent)
    (h : Guarded (fun m e => e.Balanced env m) (step env) (initial e replId backlogSize) es) :
    (es.foldl (step env) (initial e replId backlogSize)).server.world.engine.Exact
      (es.foldl (step env) (initial e replId backlogSize)).outstanding := by
  have hstart : (initial e replId backlogSize).server.Watched (initial e replId backlogSize).outstanding :=
    { exact := hnone
      few := by simp [initial]
      keys := fun id key => ⟨fun ⟨_, hw⟩ => absurd hw (Finset.notMem_empty _), fun ⟨_, ht, _⟩ => by cases ht⟩
      queued := fun _ _ ht => by cases ht
      fresh := fun _ _ ht => by cases ht }
  exact (h.inv (I := fun m : Watching => m.server.Watched m.outstanding)
    (fun m e hm hbal => step_watched e hm hbal) hstart).exact

theorem unwatched_withConfig (n : Nat) (memory : MemoryManager) (db : Nat) (i : Fin shardsPerDatabase)
    (sh : Shard) (h : (Engine.withConfig n memory).shardAt db i = some sh) :
    sh.watch.activeWatchers = 0 := by
  obtain ⟨d, hd, rfl⟩ := Option.map_eq_some_iff.mp h
  rw [List.eq_of_mem_replicate (List.mem_of_getElem? hd)]
  rfl

/-- A request by its usual name. -/
def watchK : WatchEvent := .request 1 .watch ⟨"WATCH".toBytes, rfl⟩ [.fromString "k"]

/-- The state after some steps of a server with one database. -/
def after (es : List WatchEvent) : Watching :=
  es.foldl (step (.quiet none)) (initial (.withConfig 1 .unlimited) "0" 16)

/-- WATCH and UNWATCH of one connection. -/
def watchUnwatch : List WatchEvent :=
  [.connect "peer", watchK, .request 1 .unwatch ⟨"UNWATCH".toBytes, rfl⟩ []]

theorem watchUnwatch_exact :
    (after watchUnwatch).server.world.engine.Exact (after watchUnwatch).outstanding := by
  refine exact_run _ _ _ (unwatched_withConfig _ _) _ ⟨trivial, ?_, ?_, trivial⟩
  · intro conn _ _
    have hempty : (after [.connect "peer"]).outstanding = ∅ := rfl
    refine ⟨List.nodup_singleton _, fun key _ hm => ?_, ?_⟩
    · exact absurd (hempty ▸ hm : _ ∈ (∅ : Finset Watch)) (Finset.notMem_empty _)
    · exact hempty ▸ (by decide)
  · intro conn hconn w hw _
    have hdb : ((after [.connect "peer", watchK]).server.served (.quiet none) 1).map (·.dbIndex) =
        some 0 := by decide
    have hall : ∀ w ∈ (after [.connect "peer", watchK]).outstanding, w.db = 0 := by decide
    rw [show (after [.connect "peer", watchK]).server.served (.quiet none) 1 = some conn from hconn] at hdb
    exact (hall w hw).trans (Option.some.inj hdb).symm

/-- WATCH, and a transaction without commands. -/
def watchExec : List WatchEvent :=
  [.connect "peer", watchK, .request 1 .multi ⟨"MULTI".toBytes, rfl⟩ [],
    .request 1 .exec ⟨"EXEC".toBytes, rfl⟩ []]

/-- After it nothing is watched, and the counter stands at 1. -/
theorem watchExec_not_exact :
    ¬ (after watchExec).server.world.engine.Exact (after watchExec).outstanding := by
  intro h
  have hcount : ((after watchExec).server.world.engine.shardAt 0 (getShardIndex "k".toBytes)).map
      (·.watch.activeWatchers) = some 1 := rfl
  have hnone : (after watchExec).outstanding = ∅ := rfl
  obtain ⟨sh, hsh, hone⟩ := Option.map_eq_some_iff.mp hcount
  have hzero := h 0 _ sh hsh
  rw [hnone, hone] at hzero
  exact absurd hzero (by decide)

end WatchEvent

end Ferrous
