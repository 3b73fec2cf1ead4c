/-
# `Server.Requests` — a blocked connection is quiet

What the server does for each connection is written down as it happens: a frame
is carried out, the connection falls asleep over it, an answer is put into its
write buffer.  The frames of a batch are answered at its end, but for the
subscription commands and SYNC, which write at once; and a frame behind a pop
that blocks is carried out all the same.  A run without such batches, and in
which nobody closes a connection that sleeps and is subscribed, keeps every
connection quiet and its replies in order.
-/
import Ferrous.Lib.Dialogue
import Ferrous.Server.Asleep

namespace Ferrous

open Lib Args Dialogue

namespace Server

variable (env : Env)

/-! ## Frames that are answered at once -/

/-- A subscription command with arguments it accepts. -/
def subscriptionArgs (parts : Parts) : Option Command → Bool
  | some .subscribe => decide (2 ≤ parts.length) && (bulks "channel" (parts.drop 1)).isOk
  | some .psubscribe => decide (2 ≤ parts.length) && (bulks "pattern" (parts.drop 1)).isOk
  | some .unsubscribe => (bulks "channel" (parts.drop 1)).isOk
  | some .punsubscribe => (bulks "pattern" (parts.drop 1)).isOk
  | _ => false

/-- The frame is confirmed by its handler and has no answer at the end of its
batch. -/
def confirms (s : Server) (id : ConnId) (f : RespFrame) : Bool :=
  match s.connections.get? id with
  | none => false
  | some conn => admitted env conn && subscriptionArgs (frameParts f) (cleanCommand f)

/-- The handler of the frame writes into the buffer of the connection. -/
def writesAtOnce (s : Server) (id : ConnId) (f : RespFrame) : Bool :=
  match frameName f with
  | some .sync => s.replication.isMaster
  | some .psync =>
      match handlePsync s.replication (frameParts f) with
      | .full _ => true
      | _ => false
  | _ => confirms env s id f

/-- The frame has a handler that writes into the buffer of the connection. -/
def ownWriter (f : RespFrame) : Bool :=
  match frameName f with
  | some .sync => true
  | some .psync => true
  | _ => (cleanCommand f).any
      ([Command.subscribe, .unsubscribe, .psubscribe, .punsubscribe].contains ·)

/-! ## What is done for a connection -/

/-- Something has been put into the write buffer of a connection. -/
def spoke (s s' : Server) (id : ConnId) : Bool :=
  decide ((s.output id).length < (s'.output id).length)

/-- What has been done for every connection, in order. -/
abbrev Log := List (ConnId × Event)

/-- What has been done for one connection. -/
def Log.of (l : Log) (id : ConnId) : List Event := (l.filter (·.1 == id)).map Prod.snd

/-- One frame: it is carried out, may put the connection to sleep, and may be
answered at once. -/
def frameEvents (id : ConnId) (f : RespFrame) (n : Nat) (s : Server) : List Event :=
  .executed n :: ((if fellAsleep f (answerFrame env id f s).1 then [.asleep n] else []) ++
    if ownWriter f && spoke s (answerFrame env id f s).2 id then [.replied n] else [])

/-- The frames of a batch, the first one the `n`-th of its connection. -/
def batchEvents (id : ConnId) : List RespFrame → Nat → Server → List Event
  | [], _, _ => []
  | f :: fs, n, s => frameEvents env id f n s ++
      match answerFrame env id f s with
      | (.ok _, s') => batchEvents id fs (n + 1) s'
      | _ => []

/-- The replies that are written at the end of a batch. -/
def replyEvents : Nat → List RespFrame → List Event
  | _, [] => []
  | n, r :: rs =>
      (match r with
      | .noResponse => []
      | _ => [.replied n]) ++ replyEvents (n + 1) rs

/-- One turn of a connection. -/
def inputEvents (id : ConnId) (i : Input) (n : Nat) (s : Server) : List Event :=
  match i with
  | .frames fs => batchEvents env id fs n s ++
      match (answerAll env id fs s).1 with
      | .ok rs => replyEvents n rs
      | _ => []
  | _ => []

/-- The log of `processInputs`. -/
def inputsLog (ready : List ConnId) : List (ConnId × Input) → Log → Server → Log
  | [], l, _ => l
  | (id, i) :: rest, l, s =>
      if id ∈ ready ∧ ((s.connections.get? id).map (·.state.isBlocked)).getD true = false then
        let l' := l ++ (inputEvents env id i (executed (l.of id)) s).map (id, ·)
        match processConnection env id i s with
        | none => l'
        | some r => inputsLog ready rest l' r.2
      else inputsLog ready rest l s

/-- What is written to a connection that sleeps answers what it sleeps over. -/
def answerLog (s s' : Server) (id : ConnId) (l : Log) : Log :=
  if spoke s s' id then l ++ [(id, .replied ((lastAsleep (l.of id)).getD 0))] else l

/-- The log of the wake-ups. -/
def wakesLog : List WakeupRequest → Log → Server → Log
  | [], l, _ => l
  | w :: ws, l, s =>
      match wakeClient env s w with
      | none => l
      | some s' => wakesLog ws (answerLog s s' w.connId l) s'

/-- The log of the timeouts. -/
def timeoutsLog : List ConnId → Log → Server → Log
  | [], l, _ => l
  | id :: ids, l, s => timeoutsLog ids (answerLog s (s.timeOut id) id l) (s.timeOut id)

/-- The log of a turn, up to where it ends. -/
def turnLog (s : Server) (t : Turn) (l : Log) : Log :=
  let l := wakesLog env s.blocking.processWakeups.1 l
    { s with blocking := s.blocking.processWakeups.2 }
  match processWakeups env s with
  | none => l
  | some s =>
      let s := t.accepted.foldl (accept env) s
      let l := inputsLog env s.ready t.inputs l s
      match processConnections env t.inputs s with
      | none => l
      | some s => timeoutsLog (s.blocking.processTimeouts t.now).1 l
          { s with blocking := (s.blocking.processTimeouts t.now).2 }

/-- The log of a run, up to where it ends. -/
def runLog : List Turn → Log → Server → Log
  | [], l, _ => l
  | t :: ts, l, s =>
      match turn env s t with
      | none => turnLog env s t l
      | some s' => runLog ts (turnLog env s t l) s'

/-! ## Orderly runs -/

/-- No connection that sleeps and is subscribed is closed. -/
def sleepersKept (s s' : Server) : Bool :=
  s.connections.keyList.all fun j => !(s.isBlocked j && s.pubsub.isSubscribed j) || s'.isBlocked j

/-- A batch in which a pop that blocks is the last frame, and no frame that is
answered at the end comes before one that writes at once. -/
def orderlyBatch (id : ConnId) : Bool → List RespFrame → Server → Bool
  | _, [], _ => true
  | late, f :: fs, s =>
      (!wouldBlock env s id f || fs.isEmpty) && !(late && writesAtOnce env s id f) &&
        sleepersKept s (answerFrame env id f s).2 &&
        match answerFrame env id f s with
        | (.ok _, s') => orderlyBatch id (late || !confirms env s id f) fs s'
        | _ => true

/-- The batch is orderly; and if it ends the connection, that does not sleep
while it is subscribed. -/
def orderlyInput (id : ConnId) (i : Input) (s : Server) : Bool :=
  match i with
  | .frames fs => orderlyBatch env id false fs s &&
      (!fs.any (frameName · == some .quit) ||
        sleepersKept (answerAll env id fs s).2 ((answerAll env id fs s).2.closeConnection id))
  | _ => true

/-- The inputs of a turn, one after the other. -/
def orderlyInputs (ready : List ConnId) : List (ConnId × Input) → Server → Bool
  | [], _ => true
  | (id, i) :: rest, s =>
      if id ∈ ready ∧ ((s.connections.get? id).map (·.state.isBlocked)).getD true = false then
        orderlyInput env id i s &&
          match processConnection env id i s with
          | none => true
          | some r => orderlyInputs ready rest r.2
      else orderlyInputs ready rest s

/-- A turn: every connection is processed at most once. -/
def orderlyTurn (s : Server) (t : Turn) : Bool :=
  decide (t.inputs.map Prod.fst).Nodup &&
    match processWakeups env s with
    | none => true
    | some s =>
        let s := t.accepted.foldl (accept env) s
        orderlyInputs env s.ready t.inputs s &&
          match processConnections env t.inputs s with
          | none => true
          | some s =>
              let s := processBlockedTimeouts t.now s
              sleepersKept s (t.broken.foldl closeConnection s)

/-- A run all of whose turns are orderly. -/
def orderly : List Turn → Server → Bool
  | [], _ => true
  | t :: ts, s => orderlyTurn env s t &&
      match turn env s t with
      | none => true
      | some s' => orderly ts s'

end Server

end Ferrous
