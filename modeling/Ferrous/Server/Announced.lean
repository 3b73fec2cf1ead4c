/-
# `Server.Announced` — pushes and the wake-ups they ask for

A push asks for one wake-up, whatever the number of its elements, and only when
it comes as LPUSH or RPUSH through the dispatch table; a script and a RENAME ask
for none.  `Announces` says of an event, in the state it is taken from, that
what it brings to a list somebody waits for is no more than the requests that
are then pending for the list.
-/
import Ferrous.Commands.Lengths
import Ferrous.Server.Teardown

namespace Ferrous

open Lib Args

namespace Server

variable (env : Env)

/-! ## Who waits for what -/

/-- The number of requests that are pending for a key. -/
def requests (q : List WakeupRequest) (db : Nat) (key : Key) : Nat :=
  q.countP fun w => decide (w.db = db ∧ w.key = key)

/-- A connection is blocked on the key, and no request for the key is to wake it. -/
def Expects (q : List WakeupRequest) (conns : Map ConnId Connection) (db : Nat) (key : Key)
    (j : ConnId) : Prop :=
  ∃ c b, conns.get? j = some c ∧ c.state = .blocked b ∧ (db, key) ∈ b.keys ∧
    ∀ w ∈ q, ¬ (w.connId = j ∧ w.db = db ∧ w.key = key)

/-- A list that a connection expects has no more elements than requests. -/
def Served (q : List WakeupRequest) (conns : Map ConnId Connection) (e : Engine) : Prop :=
  ∀ db key j, Expects q conns db key j → e.lengthAt db key ≤ requests q db key

/-- The client the next notification for a key wakes. -/
def nextClient (s : Server) (db : Nat) (key : Key) : Option BlockedClient :=
  if s.blocking.hasBlockedClients db key then (s.blocking.waiters db key).head? else none

/-! ## Operations -/

/-- What an operation brings to a list is covered by the requests; `notifies`
tells whether a notification for its key follows. -/
def announced (s : Server) (notifies : Bool) (β : Type) (o : Op β) (w : World) : Prop :=
  match o with
  | .key db key c => ∀ j, Expects s.blocking.wakeQueue s.connections db key j →
      let next := if notifies then s.nextClient db key else none
      next.map (·.connId) ≠ some j →
        w.engine.lengthAt db key + c.brought (w.engine.entryAt db key) ≤
          requests s.blocking.wakeQueue db key + next.toList.length
  | .store c =>
      match c.renames with
      | some (db, old, new) => ∀ j, Expects s.blocking.wakeQueue s.connections db new j →
          w.engine.lengthAt db old ≤ requests s.blocking.wakeQueue db new
      | none => True

/-! ## Commands -/

/-- The script EVALSHA names, as the program EVAL makes of it. -/
def cachedScript (s : Server) (parts : Parts) : Option (StoreProg RespFrame) :=
  if 3 ≤ parts.length then
    ((((parts[1]?).bind RespFrame.bulk?).bind fromUtf8).bind s.scriptCache.get?).map fun script =>
      handleEval env.lua 0 (.fromString "EVAL" :: .fromString script :: parts.drop 2)
  else none

/-- The program a command runs on the store, where it can add to a list. -/
def storeProgram (s : Server) (db : Nat) (parts : Parts) (c : Command) : Option (StoreProg RespFrame) :=
  match c with
  | .lpush => some (handleLpush db parts)
  | .rpush => some (handleRpush db parts)
  | .evalsha => s.cachedScript env parts
  | c => c.storeHandler env (s.proc env) db parts

/-- The commands after which the server notifies. -/
def notifying : Command → Bool
  | .lpush | .rpush => true
  | _ => false

/-- A command that is carried out. -/
def announcesCommand (db : Nat) (parts : Parts) (s : Server) : Prop :=
  ∀ c p, rawCommand parts = some c → s.storeProgram env db parts c = some p →
    p.Along (World.step env.ω) (s.announced (notifying c)) s.world

/-- The commands of a queue, one after the other. -/
def announcesQueue (db : Nat) : List Parts → Server → Prop
  | [], _ => True
  | parts :: rest, s => announcesCommand env db parts s ∧
      match processNormalCommand env parts db 0 s with
      | (.panic, _) => True
      | (_, s') => announcesQueue db rest s'

/-- An EXEC: the queue, if it is reached. -/
def announcesExec (id : ConnId) (conn : Connection) (s : Server) : Prop :=
  conn.transactionState.inTransaction = true →
    match s.onStore env (checkWatched conn.dbIndex conn.transactionState.watchedKeys.toPairs) with
    | (.ok false, s') => conn.transactionState.aborted = false →
        announcesQueue env conn.dbIndex conn.transactionState.queuedCommands (s'.setTransaction id {})
    | _ => True

/-- A frame: the command behind the gate, if it is reached. -/
def announcesFrame (id : ConnId) (f : RespFrame) (s : Server) : Prop :=
  ∀ conn, s.connections.get? id = some conn → admitted env conn = true →
    (cleanCommand f = some .exec → announcesExec env id conn s) ∧
      ((cleanCommand f).bind (immediate env id (frameParts f)) = none →
        conn.transactionState.inTransaction = false → s.held env (cleanCommand f) = false →
          announcesCommand env conn.dbIndex (frameParts f) s)

/-- What an event brings to the lists is covered by the requests for them. -/
def Announces (s : Server) : LoopEvent → Prop
  | .command id f => announcesFrame env id f s
  | _ => True

end Server

end Ferrous
