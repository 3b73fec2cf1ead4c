/-
# `Server.Loop` — the server loop

One turn of `Server::run`: the wake-ups that are due, new connections, the
input of every connection that is not blocked, the timeouts, the writes that
were left over, and the removal of what is closed.  `Turn` is what the outside
world contributes to a turn; a turn without result is the end of the process,
by a panic or by an error the loop passes on.
-/
import Ferrous.Server.Dispatch

namespace Ferrous

open Lib

/-- What reading from a connection gave. -/
inductive Input
  /-- The frames that are complete, if any. -/
  | frames (fs : List RespFrame)
  /-- The peer has closed: the state is set, and nothing else happens. -/
  | eof
  /-- A hard failure, or the idle timeout: `process_connection` fails. -/
  | failed

/-- What the outside world contributes to one turn. -/
structure Turn where
  /-- The addresses of new connections. -/
  accepted : List String
  /-- The connections that are processed, in order, with their input. -/
  inputs : List (ConnId × Input)
  /-- The reading of the clock the timeouts are compared with. -/
  now : Instant
  /-- Connections whose left-over writes failed. -/
  broken : List ConnId

namespace Server

variable (env : Env)

/-! ## One connection -/

/-- The command name a frame starts with, as the connection loop reads it. -/
def frameName : RespFrame → Option Command
  | .array (some (first :: _)) =>
      first.bulk?.bind fun bytes => Command.parse (Command.rawName bytes)
  | _ => none

/-- The parts of a frame. -/
def frameParts : RespFrame → Parts
  | .array (some parts) => parts
  | _ => []

/-- One frame of a batch: the synchronisation commands go past the gate. -/
def answerFrame (id : ConnId) (f : RespFrame) : Action :=
  match frameName f with
  | some .sync => handleSyncCommand env false id (frameParts f)
  | some .psync => handleSyncCommand env true id (frameParts f)
  | _ => processFrame env id f

/-- The replies to a batch, or its first failure. -/
def answerAll (id : ConnId) : List RespFrame → Server → Outcome (List RespFrame) × Server
  | [], s => (.ok [], s)
  | f :: fs, s =>
      match answerFrame env id f s with
      | (.err e, s') => (.err e, s')
      | (.panic, s') => (.panic, s')
      | (.ok r, s') =>
          match answerAll id fs s' with
          | (.ok rs, s'') => (.ok (r :: rs), s'')
          | (.err e, s'') => (.err e, s'')
          | (.panic, s'') => (.panic, s'')

/-- The replies that are written: the marker is left out. -/
def written (replies : List RespFrame) : List Sent :=
  (replies.filter fun
    | .noResponse => false
    | _ => true).map .frame

/-- `process_connection`: whether it succeeded, and the state after it.  `none`
is a panic. -/
def processConnection (id : ConnId) (i : Input) (s : Server) : Option (Bool × Server) :=
  match i with
  | .failed => some (false, s)
  | .eof => some (true, s.closeConnection id)
  | .frames fs =>
      match answerAll env id fs s with
      | (.panic, _) => none
      | (.err _, s') => some (false, s')
      | (.ok replies, s') =>
          let s' := s'.sendAll id (written replies)
          some (true, if fs.any (frameName · == some .quit) then s'.closeConnection id else s')

/-- `process_connections`, its loop: the connections that failed. -/
def processInputs (ready : List ConnId) :
    List (ConnId × Input) → List ConnId → Server → Option (List ConnId × Server)
  | [], failed, s => some (failed, s)
  | (id, i) :: rest, failed, s =>
      if id ∈ ready ∧ ((s.connections.get? id).map (·.state.isBlocked)).getD true = false then
        (processConnection env id i s).bind fun r =>
          processInputs ready rest (if r.1 then failed else failed ++ [id]) r.2
      else processInputs ready rest failed s

/-- Remove a connection that failed; its registrations stay. -/
def removeFailed (s : Server) (id : ConnId) : Server :=
  if s.connections.contains id then
    { s with connections := s.connections.del id, pubsub := s.pubsub.unsubscribeAll id }
  else s

/-- The connections that are not blocked. -/
def ready (s : Server) : List ConnId :=
  (s.connections.toPairs.filter fun p => !p.2.state.isBlocked).map Prod.fst

/-- `process_connections`. -/
def processConnections (inputs : List (ConnId × Input)) (s : Server) : Option Server :=
  (processInputs env s.ready inputs [] s).map fun r => r.1.foldl removeFailed r.2

/-! ## Waiting clients -/

/-- `wake_client`: the element is popped first; `none` is an error, which ends
the loop. -/
def wakeClient (s : Server) (w : WakeupRequest) : Option Server :=
  match s.onStore env (need (.key w.db w.key (popOp w.opType))) with
  | (.ok (some value), s') =>
      match s'.connections.get? w.connId with
      | some c =>
          if c.state.isBlocked then
            some ((s'.send w.connId (.frame (popFrame w.key value))).onConnection w.connId
              fun c => { c with state := .authenticated })
          else some s'
      | none => some s'
  | (.ok none, s') => some s'
  | _ => none

/-- A wake-up pops, and then answers a client that is still blocked. -/
theorem wakeClient_cases {env : Env} {s s' : Server} {w : WakeupRequest}
    (h : wakeClient env s w = some s') :
    ∃ r world', s.onStore env (need (.key w.db w.key (popOp w.opType))) =
        (.ok r, { s with world := world' }) ∧
      (s' = { s with world := world' } ∨ ∃ c value, r = some value ∧
        s.connections.get? w.connId = some c ∧ c.state.isBlocked = true ∧
        s' = (({ s with world := world' } : Server).send w.connId
            (.frame (popFrame w.key value))).onConnection w.connId
          fun c => { c with state := .authenticated }) := by
  have hpop : (s.onStore env (need (.key w.db w.key (popOp w.opType)))).2 =
      { s with world := (s.onStore env (need (.key w.db w.key (popOp w.opType)))).2.world } := rfl
  unfold wakeClient at h
  rcases hr : s.onStore env (need (.key w.db w.key (popOp w.opType))) with ⟨⟨value⟩ | _ | _, s₁⟩
  all_goals simp only [hr] at h hpop
  · cases value with
    | none =>
        cases h
        exact ⟨none, _, by rw [hpop], .inl hpop⟩
    | some value =>
        refine ⟨some value, s₁.world, by rw [← hpop], ?_⟩
        have hconns : s₁.connections = s.connections := by rw [hpop]
        dsimp only at h
        rw [hconns] at h
        split at h
        · next c hc =>
            split at h
            · next hb =>
                cases h
                exact .inr ⟨c, value, rfl, hc, hb, by rw [← hpop]⟩
            · cases h
              exact .inl hpop
        · cases h
          exact .inl hpop
  · cases h
  · cases h

/-- `process_wakeups`. -/
def processWakeups (s : Server) : Option Server :=
  (s.blocking.processWakeups.1).foldlM (wakeClient env)
    { s with blocking := s.blocking.processWakeups.2 }

/-- What every wake-up keeps, all of them keep. -/
theorem processWakeups_inv {env : Env} {I : Server → Prop} {s s' : Server}
    (hstep : ∀ s w s', I s → wakeClient env s w = some s' → I s')
    (hs : I { s with blocking := s.blocking.processWakeups.2 }) (h : processWakeups env s = some s') :
    I s' := by
  unfold processWakeups at h
  generalize s.blocking.processWakeups.1 = ws at h
  generalize ({ s with blocking := s.blocking.processWakeups.2 } : Server) = s₁ at h hs
  induction ws generalizing s₁ with
  | nil => exact Option.some.inj h ▸ hs
  | cons w ws ih =>
      rw [List.foldlM_cons] at h
      obtain ⟨s₂, hw, hrest⟩ := Option.bind_eq_some_iff.mp h
      exact ih s₂ hrest (hstep _ _ _ hs hw)

/-- A blocked client whose time is up. -/
def timeOut (s : Server) (id : ConnId) : Server :=
  match s.connections.get? id with
  | some c =>
      if c.state.isBlocked then
        (s.send id (.frame .nullArray)).onConnection id fun c => { c with state := .authenticated }
      else s
  | none => s

/-- `process_blocked_timeouts`. -/
def processBlockedTimeouts (now : Instant) (s : Server) : Server :=
  (s.blocking.processTimeouts now).1.foldl timeOut
    { s with blocking := (s.blocking.processTimeouts now).2 }

/-- What every timeout keeps, all of them keep. -/
theorem processBlockedTimeouts_inv {I : Server → Prop} {s : Server} {now : Instant}
    (hstep : ∀ s id, I s → I (timeOut s id))
    (hs : I { s with blocking := (s.blocking.processTimeouts now).2 }) :
    I (processBlockedTimeouts now s) := by
  unfold processBlockedTimeouts
  generalize (s.blocking.processTimeouts now).1 = ids
  generalize ({ s with blocking := (s.blocking.processTimeouts now).2 } : Server) = s₁ at hs
  induction ids generalizing s₁ with
  | nil => exact hs
  | cons id ids ih => exact ih _ (hstep _ _ hs)

/-! ## Arrivals and departures -/

/-- `accept_single_connection`. -/
def accept (s : Server) (addr : String) : Server :=
  if env.maxClients ≤ s.connections.size then { s with nextId := s.nextId + 1 }
  else
    { s with
      nextId := s.nextId + 1
      connections := s.connections.set s.nextId
        { addr := addr, state := if env.password.isSome then .connected else .authenticated } }

/-- Remove a closed connection, with its registrations in every database. -/
def removeClosed (s : Server) (id : ConnId) : Server :=
  { s with
    connections := s.connections.del id
    blocking := (List.range s.world.engine.databases.length).foldl
      (fun m db => m.unregisterClient db id) s.blocking
    pubsub := s.pubsub.unsubscribeAll id
    monitorSubscribers := s.monitorSubscribers.del id }

/-- `cleanup_connections`: closed connections that are subscribed stay. -/
def cleanupConnections (s : Server) : Server :=
  ((s.connections.toPairs.filter fun p =>
    p.2.state == .closing && !s.pubsub.isSubscribed p.1).map Prod.fst).foldl removeClosed s

/-! ## Turns -/

/-- One turn of the loop. -/
def turn (s : Server) (t : Turn) : Option Server := do
  let s ← processWakeups env s
  let s := t.accepted.foldl (accept env) s
  let s ← processConnections env t.inputs s
  let s := processBlockedTimeouts t.now s
  let s := t.broken.foldl closeConnection s
  return s.cleanupConnections

/-- The turns of a run. -/
def run (s : Server) (ts : List Turn) : Option Server := ts.foldlM (turn env) s

end Server

end Ferrous
