/-
# `Server.Carried` — from the programs of the commands to the server loop

What a frame does to the store is what the programs of its commands do.  So a relation of stores
that composes, and that holds where commands only look, holds across an event of the loop if it
holds across the programs the event carries out, and across a run of such events.
-/
import Ferrous.Server.Heard

namespace Ferrous

open Lib Args

/-- A relation of stores that composes, and that what only looks is in. -/
structure Env.Composes (env : Env) (R : World → World → Prop) : Prop where
  kept : ∀ {w w' : World}, Kept env.ω w w' → R w w'
  trans : ∀ {u v w : World}, R u v → R v w → R u w

namespace Server

variable {env : Env} {R : World → World → Prop} {s s' : Server} {id : ConnId} {db : Nat} {parts : Parts}

/-- Whatever a command of these parts runs on the store is in `R`. -/
structure Carries (env : Env) (R : World → World → Prop) (db : Nat) (parts : Parts) : Prop where
  program : ∀ (s : Server) c p, rawCommand parts = some c → s.storeProgram env db parts c = some p →
    R s.world (p.run (World.step env.ω) s.world).2
  pops : ∀ c, rawCommand parts = some c → c = .blpop ∨ c = .brpop → ∀ (w : World) op keys,
    R w ((tryPops op db keys).run (World.step env.ω) w).2

/-! ## Commands -/

theorem rawCommand_of_bulk {bytes : Bytes} (h : (parts.head?).bind RespFrame.bulk? = some bytes) :
    rawCommand parts = Command.parse (Command.rawName bytes) := by
  rw [rawCommand, h, Option.map_some, Option.bind_some]

/-- The commands the dispatch table has no program for are handled by the server. -/
theorem dispatch_of_serverHandler {name : String} {c : Command} {a : Action} (hname : Command.parse name = some c)
    (hstore : ∀ proc, c.storeHandler env proc db parts = none) (hserver : serverHandler env db id parts c = some a)
    (s : Server) : dispatch env db id parts name s = a s := by
  unfold dispatch
  rw [hname]
  dsimp only
  rw [hstore, hserver]

theorem dispatch_lpush {name : String} (hname : Command.parse name = some .lpush) (s : Server) :
    dispatch env db id parts name s = pushAndNotify env handleLpush db parts s :=
  dispatch_of_serverHandler hname (fun _ => rfl) rfl s

theorem dispatch_rpush {name : String} (hname : Command.parse name = some .rpush) (s : Server) :
    dispatch env db id parts name s = pushAndNotify env handleRpush db parts s :=
  dispatch_of_serverHandler hname (fun _ => rfl) rfl s

theorem dispatch_of_storeHandler {name : String} {c : Command} {p : StoreProg RespFrame}
    (hname : Command.parse name = some c) {s : Server} (hp : c.storeHandler env (s.proc env) db parts = some p) :
    dispatch env db id parts name s = s.onStore env p := by
  unfold dispatch
  rw [hname]
  dsimp only
  rw [hp]

theorem carried_pushAndNotify {handler : Nat → Parts → StoreProg RespFrame}
    (h : R s.world ((handler db parts).run (World.step env.ω) s.world).2) :
    R s.world (pushAndNotify env handler db parts s).2.world := by
  rcases pushAndNotify_cases handler db parts s with ⟨hs, -⟩ | ⟨key, -, hs⟩
  · rw [hs]
    exact h
  · rw [hs, notify_world]
    exact h

theorem carried_blockingPop (hR : env.Composes R) (h : ∀ (w : World) op keys,
      R w ((tryPops op db keys).run (World.step env.ω) w).2) (cmd : String) (op : BlockingOp) (s : Server) :
    R s.world (blockingPop env cmd op db id parts s).2.world := by
  rcases blockingPop_world cmd op s with hw | ⟨keys, hw⟩
  · rw [hw]
    exact hR.kept (.refl _ _)
  · rw [hw]
    exact h _ _ _

/-- A handler of the server. -/
theorem carried_serverHandler (hR : env.Composes R) (h : Carries env R db parts) {c : Command} {a : Action}
    (hc : rawCommand parts = some c) (ha : serverHandler env db id parts c = some a) (s : Server) :
    R s.world (a s).2.world := by
  cases c with
  | lpush => exact Option.some.inj ha ▸ carried_pushAndNotify (h.program s _ _ hc rfl)
  | rpush => exact Option.some.inj ha ▸ carried_pushAndNotify (h.program s _ _ hc rfl)
  | blpop => exact Option.some.inj ha ▸ carried_blockingPop hR (h.pops _ hc (.inl rfl)) "blpop" .blpop s
  | brpop => exact Option.some.inj ha ▸ carried_blockingPop hR (h.pops _ hc (.inr rfl)) "brpop" .brpop s
  | evalsha =>
      obtain rfl := Option.some.inj ha
      rcases handleEvalsha_world s db with hw | ⟨p, hp, hw⟩
      · rw [hw]
        exact hR.kept (.refl _ _)
      · rw [hw]
        exact h.program s _ _ hc hp
  | _ => first | (cases ha; done) | exact hR.kept (quiet_serverHandler rfl (by decide) ha s)

theorem carried_dispatch (hR : env.Composes R) (h : Carries env R db parts) {name : String}
    (hname : ∀ c, Command.parse name = some c → rawCommand parts = some c) (s : Server) :
    R s.world (dispatch env db id parts name s).2.world := by
  unfold dispatch
  cases hc : Command.parse name with
  | none => exact hR.kept (.refl _ _)
  | some c =>
      dsimp only
      cases hp : c.storeHandler env (s.proc env) db parts with
      | some p =>
          refine h.program s c p (hname c hc) ?_
          cases c with
          | lpush => cases hp
          | rpush => cases hp
          | evalsha => cases hp
          | _ => exact hp
      | none =>
          dsimp only
          cases ha : serverHandler env db id parts c with
          | some a => exact carried_serverHandler hR h (hname c hc) ha s
          | none => exact hR.kept (.refl _ _)

/-- One command. -/
theorem carried_processNormalCommand (hR : env.Composes R) (h : Carries env R db parts) (s : Server) :
    R s.world (processNormalCommand env parts db id s).2.world := by
  unfold processNormalCommand
  split
  · exact hR.kept (.refl _ _)
  · next bytes hbytes =>
      dsimp only
      generalize ((Command.parse (Command.rawName bytes)).map Command.isWrite).getD false = write
      have hlog : (logCommand env write parts s).world = s.world := by
        unfold logCommand
        split
        · rfl
        · rfl
      rw [propagate_world, ← hlog]
      exact carried_dispatch hR h (fun c hc => (rawCommand_of_bulk hbytes).trans hc) _

/-! ## Frames -/

/-- The commands of a queue, one after another. -/
theorem carried_runQueued (hR : env.Composes R) {queue : List Parts} (h : ∀ parts ∈ queue, Carries env R db parts)
    (results : List RespFrame) (s : Server) : R s.world (runQueued env db queue results s).2.world := by
  induction queue generalizing s results with
  | nil => exact hR.kept (.refl _ _)
  | cons parts queue ih =>
      have hnext : R s.world (processNormalCommand env parts db 0 s).2.world :=
        carried_processNormalCommand hR (h parts List.mem_cons_self) s
      have hrest := fun results s => ih (fun parts hparts => h parts (List.mem_cons_of_mem _ hparts)) results s
      unfold runQueued
      rcases hr : processNormalCommand env parts db 0 s with ⟨f | err | _, s'⟩
      all_goals rw [hr] at hnext
      · exact hR.trans hnext (hrest _ _)
      · exact hR.trans hnext (hrest _ _)
      · exact hnext

theorem carried_handleExec (hR : env.Composes R) {conn : Connection} (hconn : s.connections.get? id = some conn)
    (h : ∀ parts ∈ conn.transactionState.queuedCommands, Carries env R conn.dbIndex parts) :
    R s.world (handleExec env id s).2.world := by
  unfold handleExec
  rw [hconn]
  dsimp only
  split
  · exact hR.kept (.refl _ _)
  · have hkept := (readOnly_checkWatched conn.dbIndex conn.transactionState.watchedKeys.toPairs).kept env.ω s.world
    unfold Action.storing onStore
    rcases hr : (checkWatched conn.dbIndex conn.transactionState.watchedKeys.toPairs).run
      (World.step env.ω) s.world with ⟨violated | err | _, w'⟩
    all_goals rw [hr] at hkept
    · have hset : (({ s with world := w' } : Server).setTransaction id {}).world = w' := by
        rw [setTransaction, onConnection_world]
      dsimp only
      split
      · rw [hset]
        exact hR.kept hkept
      · refine hR.trans (hR.kept hkept) ?_
        have hrun := carried_runQueued hR h [] (({ s with world := w' } : Server).setTransaction id {})
        rw [hset] at hrun
        exact hrun
    · exact hR.kept hkept
    · exact hR.kept hkept

/-- Whatever a frame of the connection carries out is in `R`: its own command, or those of the
queue that it runs. -/
def FrameCarries (env : Env) (R : World → World → Prop) (s : Server) (id : ConnId) (f : RespFrame) : Prop :=
  ∀ conn, s.connections.get? id = some conn →
    if cleanCommand f = some .exec then
      ∀ parts ∈ conn.transactionState.queuedCommands, Carries env R conn.dbIndex parts
    else Carries env R conn.dbIndex (frameParts f)

/-- One frame of a connection. -/
theorem carried_answerFrame (hR : env.Composes R) {f : RespFrame} (h : FrameCarries env R s id f) :
    R s.world (answerFrame env id f s).2.world := by
  rcases answerFrame_world id f s with hkept | ⟨conn, hconn, -, ⟨hexec, heq⟩ | ⟨himm, -, -, heq⟩⟩
  · exact hR.kept hkept
  · have hqueue := h conn hconn
    rw [if_pos hexec] at hqueue
    rw [heq]
    exact carried_handleExec hR hconn hqueue
  · have hcarries := h conn hconn
    have hne : cleanCommand f ≠ some .exec := by
      intro hexec
      rw [hexec] at himm
      cases himm
    rw [if_neg hne] at hcarries
    rw [heq]
    exact carried_processNormalCommand hR hcarries s

/-! ## The loop -/

/-- Whatever the event carries out is in `R`; a wake-up pops from its list. -/
def LoopEvent.Carries (env : Env) (R : World → World → Prop) (s : Server) : LoopEvent → Prop
  | .command id f => FrameCarries env R s id f
  | .wakeups => ∀ r ∈ s.blocking.processWakeups.1, ∀ w : World,
      R w ((need (.key r.db r.key (popOp r.opType)) : StoreProg (Option Bytes)).run (World.step env.ω) w).2
  | _ => True

theorem carried_wakeClient {r : WakeupRequest} (h : ∀ w : World,
      R w ((need (.key r.db r.key (popOp r.opType)) : StoreProg (Option Bytes)).run (World.step env.ω) w).2)
    (hs : wakeClient env s r = some s') : R s.world s'.world := by
  obtain ⟨answer, world', hpop, hs'⟩ := wakeClient_cases hs
  have hworld : ((need (.key r.db r.key (popOp r.opType)) : StoreProg (Option Bytes)).run
      (World.step env.ω) s.world).2 = world' := congrArg (fun r => r.2.world) hpop
  have hrun := h s.world
  rw [hworld] at hrun
  rcases hs' with rfl | ⟨c, value, -, -, -, rfl⟩
  · exact hrun
  · rw [onConnection_world, send_world]
    exact hrun

theorem carried_wakeups (hR : env.Composes R) {rs : List WakeupRequest}
    (h : ∀ r ∈ rs, ∀ w : World,
      R w ((need (.key r.db r.key (popOp r.opType)) : StoreProg (Option Bytes)).run (World.step env.ω) w).2)
    (hs : rs.foldlM (wakeClient env) s = some s') : R s.world s'.world := by
  induction rs generalizing s with
  | nil =>
      cases hs
      exact hR.kept (.refl _ _)
  | cons r rs ih =>
      rw [List.foldlM_cons] at hs
      obtain ⟨s₁, hw, hrest⟩ := Option.bind_eq_some_iff.mp hs
      exact hR.trans (carried_wakeClient (h r List.mem_cons_self) hw)
        (ih (fun r hr => h r (List.mem_cons_of_mem _ hr)) hrest)

/-- One event of the loop. -/
theorem LoopEvent.carried_step (hR : env.Composes R) {ev : LoopEvent} (h : ev.Carries env R s)
    (hs : ev.step env s = some s') : R s.world s'.world := by
  have hrefl (s : Server) : R s.world s.world := hR.kept (.refl _ _)
  cases ev with
  | wakeups => exact carried_wakeups hR (s := { s with blocking := s.blocking.processWakeups.2 }) h hs
  | accept addr =>
      obtain rfl := Option.some.inj hs
      unfold Server.accept
      split
      · exact hrefl s
      · exact hrefl s
  | command id f =>
      obtain ⟨-, rfl⟩ := command_eq hs
      exact carried_answerFrame hR h
  | replies id items =>
      obtain rfl := Option.some.inj hs
      rw [sendAll_world]
      exact hrefl s
  | close id =>
      obtain rfl := Option.some.inj hs
      rw [closeConnection, onConnection_world]
      exact hrefl s
  | fail id =>
      obtain rfl := Option.some.inj hs
      unfold removeFailed
      split
      · exact hrefl s
      · exact hrefl s
  | timeouts now =>
      refine Option.some.inj hs ▸ processBlockedTimeouts_inv (I := fun s' => R s.world s'.world)
        (fun s' id h => ?_) (hrefl s)
      unfold timeOut
      split
      · split
        · rw [onConnection_world, send_world]
          exact h
        · exact h
      · exact h
  | cleanup =>
      obtain rfl := Option.some.inj hs
      exact List.foldlRecOn (motive := fun s' : Server => R s.world s'.world) _ _ (hrefl s) fun _ h _ _ => h

/-- Every run of such events. -/
theorem carried_run (hR : env.Composes R) {es : List LoopEvent}
    (h : Lib.Runs (fun s ev => ev.Carries env R s) (LoopEvent.step env) s es s') : R s.world s'.world :=
  h.inv (I := fun s' => R s.world s'.world)
    (fun _ _ _ hs hev hstep => hR.trans hs (LoopEvent.carried_step hR hev hstep)) (hR.kept (.refl _ _))

end Server

end Ferrous
