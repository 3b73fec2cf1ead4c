/-
# `Server.Calm` — the footprint of every handler

One lemma a handler, along the dispatch table and the gate in front of it: what
is done for a connection is of no concern to the others, and leaves its own
state as it is or closes it.  The exceptions are AUTH with the right password
and the two blocking pops; what it takes for these to block is in
`Server.Asleep`.
-/
import Ferrous.Server.Footprint

namespace Ferrous

open Lib Args

namespace Action

variable {env : Env} {id : ConnId} {α : Type}

/-- Wherever the action runs, it is calm. -/
def Gentle (id : ConnId) (a : Action) : Prop := ∀ s, Server.Calm id s (a s).2

namespace Gentle

theorem reply (f : RespFrame) : (Action.reply f).Gentle id := fun s => .refl id s

theorem error (msg : String) : (Action.error msg).Gentle id := reply _

theorem fail (e : FerrousError) : (Action.fail e).Gentle id := fun s => .refl id s

theorem reading {args : Args α} {body : α → Action} (h : ∀ a, (body a).Gentle id) :
    (Action.reading args body).Gentle id := by
  cases args with
  | ok a => exact h a
  | error f => exact reply f

theorem storing {p : StoreProg α} {body : α → Action} (h : ∀ a, (body a).Gentle id) :
    (Action.storing env p body).Gentle id := by
  intro s
  have hstore := Server.Calm.onStore env p id s
  unfold Action.storing
  rcases hr : s.onStore env p with ⟨a | e | _, s'⟩
  all_goals rw [hr] at hstore
  · exact hstore.trans (h a s')
  · exact hstore
  · exact hstore

theorem onStore (p : StoreProg RespFrame) : Gentle id (Server.onStore env p) :=
  Server.Calm.onStore env p id

theorem withConnection {i : ConnId} {body : Connection → Action} (h : ∀ c, (body c).Gentle id) :
    (Server.withConnection i body).Gentle id := by
  intro s
  unfold Server.withConnection
  split
  · exact h _ s
  · exact .refl id s

end Gentle

end Action

namespace Server

variable {env : Env} (id : ConnId) (db : Nat) (parts : Parts)

open Ferrous.Action (Gentle)

/-! ## The handlers of the dispatch table -/

theorem gentle_noArguments {cmd : String} {body : Action} (h : Gentle id body) :
    Gentle id (noArguments cmd parts body) :=
  .reading fun _ => h

theorem gentle_orReply {lead : String} {a : Action} (h : Gentle id a) : Gentle id (orReply lead a) := by
  intro s
  have hs := h s
  unfold orReply
  rcases hr : a s with ⟨f | e | _, s'⟩
  all_goals rw [hr] at hs
  · exact hs
  · exact hs
  · exact hs

theorem gentle_pushAndNotify (handler : Nat → Parts → StoreProg RespFrame) :
    Gentle id (pushAndNotify env handler db parts) := by
  refine .storing fun frame s => ?_
  split
  · dsimp only
    split
    · exact .notify s id db _
    · exact .refl id s
  · exact .refl id s

theorem gentle_handleSelect : Gentle id (handleSelect id parts) := by
  refine .reading fun n s => ?_
  split
  · exact .refl id s
  · exact .onConnection_same s id fun _ => rfl

/-- AUTH with the right password. -/
def givesPassword (env : Env) (parts : Parts) : Bool :=
  parts.length == 2 &&
    match ((parts[1]?).bind RespFrame.bulk?).bind fromUtf8, env.password with
    | some given, some password => given == password
    | _, _ => false

theorem handleAuth_cases (env : Env) (s : Server) :
    (handleAuth env id parts s).2 = s ∨ givesPassword env parts = true ∧
      (handleAuth env id parts s).2 = s.onConnection id fun c => { c with state := .authenticated } := by
  unfold handleAuth
  split
  · exact .inl rfl
  · next hlen =>
      have hlen : parts.length = 2 := by simpa using hlen
      cases hgiven : ((parts[1]?).bind RespFrame.bulk?).bind fromUtf8 with
      | none => exact .inl rfl
      | some given =>
          cases hp : env.password with
          | none => exact .inl rfl
          | some password =>
              by_cases heq : given = password
              · refine .inr ⟨?_, ?_⟩
                · simp only [givesPassword, hlen, hgiven, hp, heq, beq_self_eq_true, Bool.and_self]
                · simp only [heq, if_true]
              · simp only [heq, if_false]
                exact .inl rfl

theorem gentle_handleAuth (h : givesPassword env parts = false) : Gentle id (handleAuth env id parts) := by
  intro s
  rcases handleAuth_cases id parts env s with hs | ⟨hgive, -⟩
  · rw [hs]
    exact .refl id s
  · rw [h] at hgive
    cases hgive

theorem within_handleAuth (s : Server) : Footprint id s (handleAuth env id parts s).2 := by
  rcases handleAuth_cases id parts env s with hs | ⟨-, hs⟩
  · rw [hs]
    exact (Server.Calm.refl id s).toFootprint
  · rw [hs]
    exact .onConnection s id fun _ => .inr (.inr rfl)

/-- AUTH puts nobody to sleep. -/
theorem isBlocked_handleAuth {s : Server} (h : (handleAuth env id parts s).2.isBlocked id = true) :
    s.isBlocked id = true := by
  rcases handleAuth_cases id parts env s with hs | ⟨-, hs⟩
  · rwa [hs] at h
  · rw [hs, isBlocked, onConnection_get?_self] at h
    cases hc : s.connections.get? id with
    | none => simp [hc] at h
    | some c =>
        rw [hc] at h
        cases h

theorem calm_foldl_closeConnection (ids : List ConnId) (s : Server) :
    Server.Calm id s (ids.foldl closeConnection s) := by
  induction ids generalizing s with
  | nil => exact .refl id s
  | cons i ids ih => exact (Server.Calm.closeConnection s id i).trans (ih _)

theorem gentle_clientKill : Gentle id (clientKill id parts) := by
  refine .reading fun target s => ?_
  cases target with
  | id j =>
      dsimp only
      split
      · exact .refl id s
      · exact .closeConnection s id j
  | addr addr => exact calm_foldl_closeConnection id _ s

/-- Only the end of the pause is another. -/
theorem calm_withPausedUntil (s : Server) (n : Nat) :
    Server.Calm id s { s with pausedUntil := n } :=
  .of_same id rfl rfl rfl rfl rfl rfl rfl

theorem gentle_clientArity {sub : String} {n : Nat} {body : Action} (h : Gentle id body) :
    Gentle id (clientArity sub n parts body) :=
  .reading fun _ => h

theorem gentle_handleClient : Gentle id (handleClient env id parts) := by
  refine .reading fun sub => ?_
  split
  · exact gentle_clientArity id parts fun s => .refl id s
  · exact gentle_clientKill id parts
  · refine gentle_clientArity id parts ?_
    split
    · exact .error _
    · intro s
      dsimp only
      split
      · exact .onConnection_same s id fun _ => rfl
      · exact .refl id s
  · refine gentle_clientArity id parts fun s => ?_
    split
    · exact .refl id s
    · exact .refl id s
  · exact gentle_clientArity id parts (.reply _)
  · exact gentle_clientArity id parts (.reading fun _ s => calm_withPausedUntil id s _)
  · exact gentle_clientArity id parts fun s => calm_withPausedUntil id s 0
  · exact .error _

theorem gentle_handleSave : Gentle id (handleSave env parts) := by
  refine gentle_noArguments id parts fun s => ?_
  split
  · exact .refl id s
  · exact gentle_orReply id (Gentle.storing fun _ => .reply _) s

theorem gentle_handleBgrewriteaof : Gentle id (handleBgrewriteaof env) := by
  intro s
  unfold handleBgrewriteaof
  split
  · exact .refl id s
  · exact .refl id s

theorem gentle_handleShutdown : Gentle id (handleShutdown env parts) := by
  refine handleShutdown_rule env (fun _ => .error _) (fun save s => ?_) parts
  unfold ending
  split
  · have hstore := Server.Calm.onStore env
      (Rdb.writeSnapshot env.overflowChecks s.world.engine.databases.length) id s
    rcases hr : s.onStore env
      (Rdb.writeSnapshot env.overflowChecks s.world.engine.databases.length) with ⟨a | e | _, s'⟩
    all_goals
      rw [hr] at hstore
      exact hstore
  · exact .refl id s

theorem gentle_handleEvalsha : Gentle id (handleEvalsha env parts) := by
  refine .reading fun sha1 s => ?_
  split
  · exact .refl id s
  · exact Gentle.storing (fun _ => .reply _) s

theorem gentle_handleScript : Gentle id (handleScript env parts) := by
  have hcache (s : Server) (cache : Map String String) :
      Server.Calm id s { s with scriptCache := cache } :=
    .of_same id rfl rfl rfl rfl rfl rfl rfl
  refine .reading fun sub => ?_
  split
  · refine .reading fun _ s => ?_
    split
    · exact hcache s _
    · exact .refl id s
  · exact .reading fun _ s => .refl id s
  · exact .reading fun _ s => hcache s _
  · exact .reading fun _ => .reply _
  · exact .error _

/-- A new role makes no replica. -/
theorem calm_setMaster (s : Server) (addr : Option String) (replId : String) :
    Server.Calm id s { s with replication := s.replication.setMaster addr replId } := by
  refine .withReplication fun j _ h => ?_
  cases addr with
  | none => exact h
  | some a => cases h

theorem gentle_follow (host port : String) : Gentle id (follow env host port) := by
  intro s
  unfold follow
  split
  · exact .refl id s
  · split
    · exact .refl id s
    · exact .refl id s
    · exact calm_setMaster id s _ _

theorem gentle_handleReplicaof : Gentle id (handleReplicaof env parts) :=
  handleReplicaof_rule env (fun _ => .error _) (fun _ => .fail _) (fun s => calm_setMaster id s _ _)
    (gentle_follow id) parts

theorem gentle_handleSync : Gentle id (handleSync env) := by
  intro s
  unfold handleSync
  split
  · exact .refl id s
  · exact gentle_orReply id (Gentle.storing fun _ => .reply _) s

theorem gentle_psyncReply : Gentle id (psyncReply parts) := by
  intro s
  unfold psyncReply
  split
  · exact .refl id s
  · exact .refl id s
  · exact .refl id s


/-! ## The blocking pops -/

/-- Registering a client and putting it to sleep: that fails and changes
nothing, or the connection sleeps. -/
theorem block_cases (op : BlockingOp) (keys : List Key) (timeout : Option Duration) (s : Server) :
    (block env op db id keys timeout s).2 = s ∧
        (block env op db id keys timeout s).1 ≠ .ok .noResponse ∨
      (timeout.mapM fun t => instantAdd (env.ω s.world.calls).now t) ≠ none ∧
        db < s.blocking.registries.length ∧
        (block env op db id keys timeout s).1 = .ok .noResponse ∧
        Footprint id s (block env op db id keys timeout s).2 ∧
        (s.connections.contains id → (block env op db id keys timeout s).2.isBlocked id = true) := by
  unfold block
  cases hd : timeout.mapM fun t => instantAdd (env.ω s.world.calls).now t with
  | none => exact .inl ⟨rfl, by simp⟩
  | some deadline =>
      cases hm : s.blocking.registerBlocked db id keys op deadline with
      | none => simp [hm]
      | some m =>
          simp only [hm]
          refine .inr ⟨by simp, (BlockingManager.length_registerBlocked hm).1, trivial, ?_, fun hc => ?_⟩
          · exact (Footprint.registerBlocked hm).trans
              (Footprint.onConnection _ id fun _ => .inr (.inr rfl))
          · obtain ⟨c, hc⟩ := Option.isSome_iff_exists.mp hc
            simp only [isBlocked, onConnection_get?_self, hc, Option.map_some, Option.getD_some]
            rfl

theorem within_popOrBlock (op : BlockingOp) (timeout : Option Duration) (s : Server) :
    Footprint id s (popOrBlock env op db id parts timeout s).2 := by
  refine Action.reading_rule (P := fun r => Footprint id s r.2)
    (fun _ => (Server.Calm.refl id s).toFootprint) fun keys => ?_
  have hstore := (Server.Calm.onStore env (tryPops op db keys) id s).toFootprint
  unfold Action.storing
  rcases hr : s.onStore env (tryPops op db keys) with ⟨found | e | _, s'⟩
  all_goals rw [hr] at hstore
  · cases found with
    | some p => exact hstore
    | none =>
        rcases @block_cases env id db op keys timeout s' with ⟨hs, -⟩ | ⟨-, -, -, hf, -⟩
        · exact hs.symm ▸ hstore
        · exact hstore.trans hf
  · exact hstore
  · exact hstore

theorem within_blockingPop (cmd : String) (op : BlockingOp) (s : Server) :
    Footprint id s (blockingPop env cmd op db id parts s).2 := by
  refine Action.reading_rule (P := fun r => Footprint id s r.2)
    (fun _ => (Server.Calm.refl id s).toFootprint) fun t => ?_
  split
  · exact within_popOrBlock id db parts op none s
  · cases fromSecsF64 t with
    | none => exact (Server.Calm.refl id s).toFootprint
    | some d => exact within_popOrBlock id db parts op (some d) s

/-! ## Dispatch -/

/-- Commands that may put a connection to sleep. -/
def blockers : List Command := [.blpop, .brpop]

theorem within_serverHandler {c : Command} {a : Action} (h : serverHandler env db id parts c = some a)
    (s : Server) :
    Footprint id s (a s).2 ∧ (id ≠ 0 → c ∉ blockers → Server.Calm id s (a s).2) := by
  have hgentle (hg : Gentle id a) :
      Footprint id s (a s).2 ∧ (id ≠ 0 → c ∉ blockers → Server.Calm id s (a s).2) :=
    ⟨(hg s).toFootprint, fun _ _ => hg s⟩
  cases c with
  | select => exact hgentle (Option.some.inj h ▸ gentle_handleSelect id parts)
  | blpop =>
      refine ⟨Option.some.inj h ▸ within_blockingPop id db parts "blpop" .blpop s, fun _ hc => ?_⟩
      exact absurd (by decide) hc
  | brpop =>
      refine ⟨Option.some.inj h ▸ within_blockingPop id db parts "brpop" .brpop s, fun _ hc => ?_⟩
      exact absurd (by decide) hc
  | lpush => exact hgentle (Option.some.inj h ▸ gentle_pushAndNotify id db parts _)
  | rpush => exact hgentle (Option.some.inj h ▸ gentle_pushAndNotify id db parts _)
  | save => exact hgentle (Option.some.inj h ▸ gentle_handleSave id parts)
  | bgsave => exact hgentle (Option.some.inj h ▸ gentle_noArguments id parts fun s => .refl id s)
  | lastsave => exact hgentle (Option.some.inj h ▸ gentle_noArguments id parts fun s => .refl id s)
  | bgrewriteaof => exact hgentle (Option.some.inj h ▸ gentle_handleBgrewriteaof id)
  | client => exact hgentle (Option.some.inj h ▸ gentle_handleClient id parts)
  | auth =>
      obtain rfl := Option.some.inj h
      have hzero := @within_handleAuth env 0 parts s
      exact ⟨hzero.of_zero id, fun hid _ => hzero.calm hid⟩
  | replicaof => exact hgentle (Option.some.inj h ▸ gentle_handleReplicaof id parts)
  | slaveof => exact hgentle (Option.some.inj h ▸ gentle_handleReplicaof id parts)
  | sync => exact hgentle (Option.some.inj h ▸ gentle_handleSync id)
  | psync => exact hgentle (Option.some.inj h ▸ gentle_psyncReply id parts)
  | quit => exact hgentle (Option.some.inj h ▸ .reply _)
  | evalsha => exact hgentle (Option.some.inj h ▸ gentle_handleEvalsha id parts)
  | shutdown => exact hgentle (Option.some.inj h ▸ gentle_handleShutdown id parts)
  | script => exact hgentle (Option.some.inj h ▸ gentle_handleScript id parts)
  | _ => cases h

theorem within_dispatch (name : String) (s : Server) :
    Footprint id s (dispatch env db id parts name s).2 ∧
      (id ≠ 0 → (∀ c ∈ blockers, Command.parse name ≠ some c) →
        Server.Calm id s (dispatch env db id parts name s).2) := by
  have hcalm {s' : Server} (h : Server.Calm id s s') : Footprint id s s' ∧
      (id ≠ 0 → (∀ c ∈ blockers, Command.parse name ≠ some c) → Server.Calm id s s') :=
    ⟨h.toFootprint, fun _ _ => h⟩
  unfold dispatch
  split
  · exact hcalm (.refl id s)
  · next c hc =>
      split
      · exact hcalm (.onStore env _ id s)
      · split
        · next a ha =>
            obtain ⟨hw, hg⟩ := within_serverHandler id db parts ha s
            exact ⟨hw, fun hid h => hg hid fun hmem => h c hmem hc⟩
        · exact hcalm (.refl id s)

theorem calm_logCommand (write : Bool) (s : Server) : Server.Calm id s (logCommand env write parts s) := by
  unfold logCommand
  split
  · exact .of_same id rfl rfl rfl rfl rfl rfl rfl
  · exact .refl id s

theorem calm_sendEach {β : Type} (target : β → ConnId) (item : β → Sent) (rs : List β) (s : Server) :
    Server.Calm id s (rs.foldl (fun s r => s.send (target r) (item r)) s) := by
  induction rs generalizing s with
  | nil => exact .refl id s
  | cons r rs ih => exact (Server.Calm.send s id _ _).trans (ih _)

theorem propagateCommand_replicas (m : ReplicationManager) (cmd : RespFrame) :
    (m.propagateCommand cmd).2.replicas = m.replicas := by
  unfold ReplicationManager.propagateCommand
  split
  · rfl
  · split <;> rfl

theorem calm_propagate (write : Bool) (r : Outcome RespFrame) (s : Server) :
    Server.Calm id s (propagate write parts r s) := by
  unfold propagate
  split
  · split
    · have hsame : (s.replication.propagateCommand (.list parts)).2.replicas = s.replication.replicas :=
        propagateCommand_replicas _ _
      exact .trans (.withReplication fun j _ h => hsame ▸ h) (calm_sendEach id _ _ _ _)
    · exact .refl id s
  · exact .refl id s

theorem within_processNormalCommand (s : Server) :
    Footprint id s (processNormalCommand env parts db id s).2 ∧
      (id ≠ 0 → (∀ c ∈ blockers, (((parts.head?).bind RespFrame.bulk?).map Command.rawName).bind
          Command.parse ≠ some c) →
        Server.Calm id s (processNormalCommand env parts db id s).2) := by
  unfold processNormalCommand
  cases hb : (parts.head?).bind RespFrame.bulk? with
  | none => exact ⟨(Server.Calm.refl id s).toFootprint, fun _ _ => .refl id s⟩
  | some bytes =>
      dsimp only [Option.map_some, Option.bind_some]
      have hlog := @calm_logCommand env id parts
        (((Command.parse (Command.rawName bytes)).map Command.isWrite).getD false) s
      obtain ⟨hw, hc⟩ := @within_dispatch env id db parts (Command.rawName bytes)
        (logCommand env (((Command.parse (Command.rawName bytes)).map Command.isWrite).getD false) parts s)
      have hprop := calm_propagate id parts
        (((Command.parse (Command.rawName bytes)).map Command.isWrite).getD false)
      exact ⟨hlog.toFootprint.trans (hw.trans (hprop _ _).toFootprint),
        fun hid h => hlog.trans ((hc hid h).trans (hprop _ _))⟩

/-! ## EXEC and the gate -/

variable {id} (hid : id ≠ 0)

include hid in
/-- The commands of a queue run for connection 0. -/
theorem gentle_runQueued (queue : List Parts) (results : List RespFrame) :
    Gentle id (runQueued env db queue results) := by
  induction queue generalizing results with
  | nil => exact .reply _
  | cons parts queue ih =>
      intro s
      have hcmd := (@within_processNormalCommand env 0 db parts s).1.calm hid
      unfold runQueued
      rcases hr : processNormalCommand env parts db 0 s with ⟨f | e | _, s'⟩
      all_goals rw [hr] at hcmd
      · exact hcmd.trans (ih _ s')
      · exact hcmd.trans (ih _ s')
      · exact hcmd

theorem calm_setTransaction (s : Server) (i : ConnId) (t : TransactionState) :
    Server.Calm id s (s.setTransaction i t) :=
  .onConnection_same s id fun _ => rfl

include hid in
theorem gentle_handleExec : Gentle id (handleExec env id) := by
  intro s
  unfold handleExec
  split
  · exact .refl id s
  · dsimp only
    split
    · exact .refl id s
    · refine Gentle.storing (fun violated s => ?_) s
      split
      · exact calm_setTransaction s id _
      · exact (calm_setTransaction s id _).trans (gentle_runQueued _ hid _ _ _)

theorem gentle_watchLoop (db : Nat) (ps : Parts) : Gentle id (watchLoop env id db ps) := by
  induction ps with
  | nil => exact .reply _
  | cons p ps ih =>
      unfold watchLoop
      split
      · exact .error _
      · next key _ =>
          intro s
          have hstore := Server.Calm.onStore env (Prog.attempt (.store (.registerWatch db key))) id s
          dsimp only
          refine hstore.trans (Server.Calm.trans ?_ (ih _))
          exact .onConnection_same _ id fun _ => rfl

theorem gentle_subscribing (word : String) (kind : PubSubManager.Kind) :
    Gentle id (subscribing word kind id parts) :=
  .reading fun names s => .trans
    (.subscriptions (PubSubManager.spares_subscribe kind s.pubsub id names)) (.sendAll _ id id _)

theorem gentle_unsubscribing (word : String) (kind : PubSubManager.Kind) :
    Gentle id (unsubscribing word kind id parts) :=
  .reading fun _ s => .trans
    (.subscriptions (PubSubManager.spares_unsubscribe kind s.pubsub id _)) (.sendAll _ id id _)

theorem calm_acknowledge (offset : Nat) (s : Server) :
    Server.Calm id s { s with replication := s.replication.acknowledge id offset } := by
  refine .withReplication fun j hj h => ?_
  unfold ReplicationManager.acknowledge at h
  split at h
  · rwa [Map.contains, Map.get?_set_ne _ _ hj] at h
  · exact h

theorem gentle_handleReplconf : Gentle id (handleReplconf id parts) := by
  refine .reading fun sub s => ?_
  split
  · exact .refl id s
  · exact .refl id s
  · split
    · exact .refl id s
    · split
      · exact .refl id s
      · split
        · exact .refl id s
        · exact calm_acknowledge _ s
  · split
    · exact .refl id s
    · exact .refl id s
  · exact .refl id s

theorem gentle_handlePublish : Gentle id (handlePublish parts) :=
  .reading fun _ s => calm_sendEach id _ _ _ s

include hid in
theorem gentle_immediate {c : Command} {a : Action} (h : immediate env id parts c = some a)
    (hauth : c = .auth → givesPassword env parts = false) : Gentle id a := by
  cases c with
  | monitor =>
      refine Option.some.inj h ▸ .reading fun _ s => ?_
      exact (Server.Calm.monitor s id).trans (.onConnection_same _ id fun _ => rfl)
  | multi =>
      refine Option.some.inj h ▸ .withConnection fun c s => ?_
      split
      · exact .refl id s
      · exact calm_setTransaction s id _
  | exec => exact Option.some.inj h ▸ gentle_handleExec hid
  | discard =>
      refine Option.some.inj h ▸ .withConnection fun c s => ?_
      split
      · exact calm_setTransaction s id _
      · exact .refl id s
  | watch =>
      refine Option.some.inj h ▸ .withConnection fun c => .reading fun _ => ?_
      split
      · exact .error _
      · exact gentle_watchLoop _ _
  | unwatch =>
      exact Option.some.inj h ▸ .withConnection fun c => .storing fun _ s => calm_setTransaction s id _
  | publish => exact Option.some.inj h ▸ gentle_handlePublish parts
  | subscribe => exact Option.some.inj h ▸ gentle_subscribing parts "subscribe" .channel
  | unsubscribe => exact Option.some.inj h ▸ gentle_unsubscribing parts "unsubscribe" .channel
  | psubscribe => exact Option.some.inj h ▸ gentle_subscribing parts "psubscribe" .pattern
  | punsubscribe => exact Option.some.inj h ▸ gentle_unsubscribing parts "punsubscribe" .pattern
  | auth => exact Option.some.inj h ▸ gentle_handleAuth id parts (hauth rfl)
  | replconf => exact Option.some.inj h ▸ gentle_handleReplconf parts
  | _ => cases h


/-! ## Frames -/

variable {parts : Parts}

/-- The command a frame's first part names, as `process_normal_command` reads it. -/
def rawCommand (parts : Parts) : Option Command :=
  (((parts.head?).bind RespFrame.bulk?).map Command.rawName).bind Command.parse

/-- The command of a frame, as `process_frame` reads it. -/
def cleanCommand (f : RespFrame) : Option Command :=
  ((frameParts f).head?.bind RespFrame.bulk?).bind fun bytes => Command.parse (Command.cleanName bytes)

theorem frameName_eq (f : RespFrame) : frameName f = rawCommand (frameParts f) := by
  unfold frameName rawCommand
  split
  · next first rest =>
      rw [frameParts, List.head?_cons, Option.bind_some]
      cases first.bulk? <;> rfl
  · unfold frameParts
    split
    · next ps hne =>
        cases ps with
        | nil => rfl
        | cons p ps => exact absurd rfl (hne p ps)
    · rfl

theorem cleanCommand_of_frameName {f : RespFrame} {c : Command} (h : frameName f = some c) :
    cleanCommand f = some c := by
  rw [frameName_eq, rawCommand] at h
  unfold cleanCommand
  cases hb : (frameParts f).head?.bind RespFrame.bulk? with
  | none => simp [hb] at h
  | some bytes =>
      rw [hb] at h
      have hparse : Command.parse (Command.rawName bytes) = some c := h
      rw [Option.bind_some, Command.cleanName_of_parse hparse, hparse]

/-- A frame whose first part is no bulk string is refused. -/
theorem processFrame_cases (env : Env) (id : ConnId) (f : RespFrame) :
    (∃ msg, processFrame env id f = .error msg) ∨
      processFrame env id f = processParts env id (frameParts f) (cleanCommand f) := by
  unfold processFrame
  split
  · next first rest =>
      cases hb : first.bulk? with
      | none => exact .inl ⟨_, rfl⟩
      | some bytes =>
          refine .inr ?_
          simp only [cleanCommand, frameParts, List.head?_cons, Option.bind_some, hb]
  · exact .inl ⟨_, rfl⟩

theorem gentle_processNormalCommand (db : Nat) (hid : id ≠ 0)
    (h : ∀ c ∈ blockers, rawCommand parts ≠ some c) :
    Gentle id (processNormalCommand env parts db id) :=
  fun s => (within_processNormalCommand id db parts s).2 hid h

theorem gentle_beforeAuth {c : Option Command} (h : c = some .auth → givesPassword env parts = false) :
    Gentle id (beforeAuth env id parts c) := by
  unfold beforeAuth
  split
  · exact gentle_handleAuth id parts (h rfl)
  · exact .reply _
  · exact .reply _
  · exact .error _

include hid in
theorem gentle_afterAuth (conn : Connection) {c : Option Command}
    (hauth : c = some .auth → givesPassword env parts = false)
    (h : ∀ c ∈ blockers, rawCommand parts ≠ some c) : Gentle id (afterAuth env id conn parts c) := by
  unfold afterAuth
  split
  · next a ha =>
      obtain ⟨c', hc, hc'⟩ := Option.bind_eq_some_iff.mp ha
      exact gentle_immediate parts hid hc' fun heq => hauth (heq ▸ hc)
  · split
    · exact .withConnection fun c s => calm_setTransaction s id _
    · intro s
      dsimp only
      split
      · exact .refl id s
      · exact gentle_processNormalCommand _ hid h s

/-- The frame is AUTH with the right password. -/
def authenticates (env : Env) (f : RespFrame) : Bool :=
  cleanCommand f == some .auth && givesPassword env (frameParts f)

include hid in
theorem gentle_processFrame {f : RespFrame} (hauth : authenticates env f = false)
    (h : ∀ c ∈ blockers, frameName f ≠ some c) : Gentle id (processFrame env id f) := by
  have hno : cleanCommand f = some .auth → givesPassword env (frameParts f) = false := fun hc => by
    simpa [authenticates, hc] using hauth
  rcases processFrame_cases env id f with ⟨msg, hf⟩ | hf
  · rw [hf]
    exact .error _
  · rw [hf]
    refine .withConnection fun conn => ?_
    split
    · exact gentle_beforeAuth hno
    · exact gentle_afterAuth hid _ hno fun c hc => frameName_eq f ▸ h c hc

theorem gentle_sendDump (response : RespFrame) : Gentle id (sendDump env id response) := by
  intro s
  unfold sendDump
  split
  · exact .refl id s
  · next c hc =>
      cases hr : s.replication.addReplica id c.addr with
      | none => exact .refl id s
      | some r =>
          refine .trans (.withReplication fun j hj h => ?_)
            (Gentle.storing (fun data s => .sendAll s id id _) _)
          unfold ReplicationManager.addReplica at hr
          split at hr
          · cases hr
            rwa [Map.contains, Map.get?_set_ne _ _ hj] at h
          · cases hr

theorem gentle_handleSyncCommand (psync : Bool) (ps : Parts) :
    Gentle id (handleSyncCommand env psync id ps) := by
  intro s
  unfold handleSyncCommand
  split
  · split
    · exact .refl id s
    · exact .refl id s
    · exact gentle_sendDump _ s
  · have hsync := @gentle_handleSync env id s
    rcases hr : handleSync env s with ⟨f | e | _, s'⟩
    all_goals rw [hr] at hsync
    · exact hsync.trans (gentle_sendDump _ s')
    · exact hsync
    · exact hsync

/-- Only the synchronisation commands go past the gate. -/
theorem answerFrame_of_ne {f : RespFrame} (h : frameName f ≠ some .sync) (h' : frameName f ≠ some .psync) :
    answerFrame env id f = processFrame env id f := by
  unfold answerFrame
  split
  · next hf => exact absurd hf h
  · next hf => exact absurd hf h'
  · rfl

include hid in
theorem gentle_answerFrame {f : RespFrame} (hauth : authenticates env f = false)
    (h : ∀ c ∈ blockers, frameName f ≠ some c) : Gentle id (answerFrame env id f) := by
  unfold answerFrame
  split
  · exact gentle_handleSyncCommand false _
  · exact gentle_handleSyncCommand true _
  · exact gentle_processFrame hid hauth h

/-- AUTH, before or after the gate. -/
theorem answerFrame_auth {f : RespFrame} (hc : cleanCommand f = some .auth) (s : Server) :
    (answerFrame env id f s).2 = s ∨
      (answerFrame env id f s).2 = (handleAuth env id (frameParts f) s).2 := by
  have hne {c : Command} (hc' : c ≠ .auth) : frameName f ≠ some c := fun h =>
    hc' (Option.some.inj ((cleanCommand_of_frameName h).symm.trans hc))
  rw [answerFrame_of_ne (hne nofun) (hne nofun)]
  rcases processFrame_cases env id f with ⟨msg, hf⟩ | hf
  · rw [hf]
    exact .inl rfl
  · rw [hf, hc]
    unfold processParts withConnection
    split
    · refine .inr ?_
      dsimp only
      split
      · rfl
      · rfl
    · exact .inl rfl

end Server

end Ferrous
