/-
# `Server.State` — connections and the state of the server

The state one iteration of the server loop hands to the next, the surroundings
it runs in (`Env`), and how a connection is reached and written to.  What is
put into write buffers is kept in one list, in the order of writing, with the
connection each item went to: a buffer is the part of the list with its id.
-/
import Ferrous.Commands.Admin
import Ferrous.Server.PubSub
import Ferrous.Server.Replication

namespace Ferrous

open Lib

/-! ## Connections -/

/-- `BlockedState`. -/
structure BlockedState where
  keys : List (Nat × Key)
  deadline : Option Instant
  opType : BlockingOp
  deriving DecidableEq, Repr

/-- `ConnectionState`. -/
inductive ConnectionState
  | connected
  | authenticated
  | blocked (b : BlockedState)
  | closing
  deriving DecidableEq, Repr

/-- Whether the state is `Blocked`. -/
def ConnectionState.isBlocked : ConnectionState → Bool
  | blocked _ => true
  | _ => false

/-- `TransactionState`. -/
structure TransactionState where
  inTransaction : Bool := false
  queuedCommands : List Parts := []
  watchedKeys : Map Key Nat := ∅
  aborted : Bool := false

/-- `Connection`. -/
structure Connection where
  addr : String
  state : ConnectionState
  dbIndex : Nat := 0
  transactionState : TransactionState := {}
  isMonitoring : Bool := false
  name : Option String := none

/-- What `send_frame` and `send_raw` put into a write buffer. -/
inductive Sent
  | frame (f : RespFrame)
  | raw (bytes : Bytes)

/-- The bytes of an item; of a frame that cannot be written, those before the
failure. -/
def Sent.bytes : Sent → Bytes
  | frame f => f.serialize.1
  | raw bytes => bytes

/-! ## The server -/

/-- The configuration and the surroundings. -/
structure Env where
  /-- Clocks and draws of the `i`-th engine operation. -/
  ω : Nat → Ctx
  /-- What the process answers when `i` operations have been carried out. -/
  process : Nat → Process
  lua : LuaEngine
  lay : Layout
  password : Option String := none
  aofEnabled : Bool := false
  maxClients : Nat := 10000
  overflowChecks : Bool := false

/-- A process that has nothing to report and no scripts, in which the clock
stands at the number of operations carried out. -/
def Env.quiet (password : Option String) : Env where
  ω := .at
  process := fun _ =>
    { infoText := fun _ _ => "", slowlog := [], lastSave := none, saveError := none,
      bgsaveError := none, bgrewriteError := none, age := fun _ => 0, idle := fun _ => 0,
      resolve := fun _ => .ok none, replId := "0" }
  lua :=
    { eval := fun _ _ _ _ => .ret .nullBulk, scriptLoad := fun _ => .error (.luaError "no scripts") }
  lay := ⟨24, 64, 32, 48, 48, 80, 96⟩
  password := password

/-- `Server`. -/
structure Server where
  world : World
  connections : Map ConnId Connection
  /-- `CONN_ID_COUNTER`. -/
  nextId : ConnId
  blocking : BlockingManager
  pubsub : PubSubManager
  replication : ReplicationManager
  monitorSubscribers : FSet ConnId
  /-- Nanoseconds since the epoch. -/
  pausedUntil : Nat
  scriptCache : Map String String
  /-- The commands appended to the AOF. -/
  aof : List Parts
  /-- Everything put into write buffers. -/
  sent : List (ConnId × Sent)

namespace Server

/-- A server as `from_config` leaves it, if it can make the backlog. -/
def initial (e : Engine) (replId : String) (backlogSize : Nat) : Server where
  world := ⟨e, 0⟩
  connections := ∅
  nextId := 1
  blocking := BlockingManager.new 16
  pubsub := PubSubManager.new
  replication := ⟨.master replId 0, ∅, Backlog.empty backlogSize⟩
  monitorSubscribers := ∅
  pausedUntil := 0
  scriptCache := ∅
  aof := []
  sent := []

/-- `with_connection`, for a change. -/
def onConnection (s : Server) (id : ConnId) (f : Connection → Connection) : Server :=
  match s.connections.get? id with
  | some c => { s with connections := s.connections.set id (f c) }
  | none => s

/-- Put an item into the write buffer of a connection, if it is there. -/
def send (s : Server) (id : ConnId) (item : Sent) : Server :=
  match s.connections.get? id with
  | some _ => { s with sent := s.sent ++ [(id, item)] }
  | none => s

/-- Put several items into the write buffer of a connection. -/
def sendAll (s : Server) (id : ConnId) (items : List Sent) : Server :=
  items.foldl (fun s item => s.send id item) s

/-- The items written to a connection. -/
def output (s : Server) (id : ConnId) : List Sent :=
  (s.sent.filter fun p => p.1 == id).map Prod.snd

/-- Run a program on the store. -/
def onStore {α : Type} (env : Env) (p : StoreProg α) (s : Server) : Outcome α × Server :=
  ((p.run (World.step env.ω) s.world).1, { s with world := (p.run (World.step env.ω) s.world).2 })

/-- What the process answers now. -/
def proc (env : Env) (s : Server) : Process := env.process s.world.calls

/-! ### What the changes leave alone -/

section Frame

variable (s : Server) (id : ConnId)

@[simp] theorem onConnection_world (f : Connection → Connection) :
    (s.onConnection id f).world = s.world := by
  unfold onConnection
  split <;> rfl

@[simp] theorem onConnection_blocking (f : Connection → Connection) :
    (s.onConnection id f).blocking = s.blocking := by
  unfold onConnection
  split <;> rfl

@[simp] theorem onConnection_pubsub (f : Connection → Connection) :
    (s.onConnection id f).pubsub = s.pubsub := by
  unfold onConnection
  split <;> rfl

@[simp] theorem onConnection_replication (f : Connection → Connection) :
    (s.onConnection id f).replication = s.replication := by
  unfold onConnection
  split <;> rfl

@[simp] theorem onConnection_nextId (f : Connection → Connection) :
    (s.onConnection id f).nextId = s.nextId := by
  unfold onConnection
  split <;> rfl

@[simp] theorem onConnection_sent (f : Connection → Connection) :
    (s.onConnection id f).sent = s.sent := by
  unfold onConnection
  split <;> rfl

@[simp] theorem onConnection_aof (f : Connection → Connection) :
    (s.onConnection id f).aof = s.aof := by
  unfold onConnection
  split <;> rfl

@[simp] theorem onConnection_monitorSubscribers (f : Connection → Connection) :
    (s.onConnection id f).monitorSubscribers = s.monitorSubscribers := by
  unfold onConnection
  split <;> rfl

@[simp] theorem onConnection_scriptCache (f : Connection → Connection) :
    (s.onConnection id f).scriptCache = s.scriptCache := by
  unfold onConnection
  split <;> rfl

@[simp] theorem onConnection_get?_self (f : Connection → Connection) :
    (s.onConnection id f).connections.get? id = (s.connections.get? id).map f := by
  unfold onConnection
  cases h : s.connections.get? id with
  | none => exact h
  | some c => exact Map.get?_set_self ..

theorem onConnection_get?_ne {j : ConnId} (h : j ≠ id) (f : Connection → Connection) :
    (s.onConnection id f).connections.get? j = s.connections.get? j := by
  unfold onConnection
  split
  · exact Map.get?_set_ne _ _ h
  · rfl

theorem onConnection_get? (f : Connection → Connection) (j : ConnId) :
    (s.onConnection id f).connections.get? j =
      if j = id then (s.connections.get? id).map f else s.connections.get? j := by
  split
  · next h => rw [h, onConnection_get?_self]
  · next h => exact s.onConnection_get?_ne id h f

@[simp] theorem send_world (item : Sent) : (s.send id item).world = s.world := by
  unfold send
  split <;> rfl

@[simp] theorem send_connections (item : Sent) : (s.send id item).connections = s.connections := by
  unfold send
  split <;> rfl

@[simp] theorem send_blocking (item : Sent) : (s.send id item).blocking = s.blocking := by
  unfold send
  split <;> rfl

@[simp] theorem send_pubsub (item : Sent) : (s.send id item).pubsub = s.pubsub := by
  unfold send
  split <;> rfl

@[simp] theorem send_replication (item : Sent) :
    (s.send id item).replication = s.replication := by
  unfold send
  split <;> rfl

@[simp] theorem send_nextId (item : Sent) : (s.send id item).nextId = s.nextId := by
  unfold send
  split <;> rfl

@[simp] theorem send_aof (item : Sent) : (s.send id item).aof = s.aof := by
  unfold send
  split <;> rfl

@[simp] theorem send_monitorSubscribers (item : Sent) :
    (s.send id item).monitorSubscribers = s.monitorSubscribers := by
  unfold send
  split <;> rfl

@[simp] theorem send_scriptCache (item : Sent) : (s.send id item).scriptCache = s.scriptCache := by
  unfold send
  split <;> rfl

/-- Items go to a connection that is there. -/
theorem sendAll_eq (items : List Sent) :
    s.sendAll id items =
      if s.connections.contains id then { s with sent := s.sent ++ items.map (id, ·) } else s := by
  induction items generalizing s with
  | nil =>
      split
      · simp [sendAll]
      · rfl
  | cons item items ih =>
      have hs : s.sendAll id (item :: items) = (s.send id item).sendAll id items := rfl
      rw [hs, ih, send_connections]
      cases h : s.connections.get? id with
      | none => simp [Map.contains, h, send]
      | some c => simp [Map.contains, h, send]

@[simp] theorem sendAll_connections (items : List Sent) :
    (s.sendAll id items).connections = s.connections := by
  rw [sendAll_eq]
  split <;> rfl

@[simp] theorem sendAll_world (items : List Sent) : (s.sendAll id items).world = s.world := by
  rw [sendAll_eq]
  split <;> rfl

@[simp] theorem sendAll_blocking (items : List Sent) :
    (s.sendAll id items).blocking = s.blocking := by
  rw [sendAll_eq]
  split <;> rfl

@[simp] theorem sendAll_pubsub (items : List Sent) : (s.sendAll id items).pubsub = s.pubsub := by
  rw [sendAll_eq]
  split <;> rfl

@[simp] theorem sendAll_replication (items : List Sent) :
    (s.sendAll id items).replication = s.replication := by
  rw [sendAll_eq]
  split <;> rfl

@[simp] theorem sendAll_nextId (items : List Sent) : (s.sendAll id items).nextId = s.nextId := by
  rw [sendAll_eq]
  split <;> rfl

@[simp] theorem sendAll_monitorSubscribers (items : List Sent) :
    (s.sendAll id items).monitorSubscribers = s.monitorSubscribers := by
  rw [sendAll_eq]
  split <;> rfl

@[simp] theorem sendAll_scriptCache (items : List Sent) :
    (s.sendAll id items).scriptCache = s.scriptCache := by
  rw [sendAll_eq]
  split <;> rfl

/-- Whatever one send leaves alone, sends to many connections leave alone. -/
theorem sendEach_keeps {β γ : Type} {π : Server → γ} (h : ∀ s i x, π (s.send i x) = π s)
    (target : β → ConnId) (item : β → Sent) (rs : List β) :
    π (rs.foldl (fun s r => s.send (target r) (item r)) s) = π s := by
  induction rs generalizing s with
  | nil => rfl
  | cons r rs ih => exact (ih _).trans (h s _ _)

/-- The output of another connection does not change. -/
theorem output_sendAll_ne {j : ConnId} (h : j ≠ id) (items : List Sent) :
    (s.sendAll id items).output j = s.output j := by
  rw [sendAll_eq]
  split
  · have hnone : (items.map (id, ·)).filter (fun p => p.1 == j) = [] := by
      rw [List.filter_eq_nil_iff]
      intro p hp
      obtain ⟨item, -, rfl⟩ := List.mem_map.mp hp
      simp [Ne.symm h]
    simp [output, List.filter_append, hnone]
  · rfl

end Frame

end Server

/-- A handler of the server: a result and the state after it. -/
abbrev Action := Server → Outcome RespFrame × Server

namespace Action

/-- Answer and change nothing. -/
def reply (f : RespFrame) : Action := fun s => (.ok f, s)

/-- Answer with an error text. -/
def error (msg : String) : Action := reply (.err msg)

/-- Fail and change nothing. -/
def fail (e : FerrousError) : Action := fun s => (.err e, s)

/-- Go on with the arguments, or answer at once. -/
def reading {α : Type} (args : Args α) (body : α → Action) : Action :=
  match args with
  | .ok a => body a
  | .error f => reply f

/-- Run a program on the store and go on with its result; errors and panics end
the action. -/
def storing {α : Type} (env : Env) (p : StoreProg α) (body : α → Action) : Action := fun s =>
  match s.onStore env p with
  | (.ok a, s') => body a s'
  | (.err e, s') => (.err e, s')
  | (.panic, s') => (.panic, s')

/-- What holds of a refusal and of every way to go on holds of the whole. -/
theorem reading_rule {α : Type} {args : Args α} {body : α → Action} {s : Server}
    {P : Outcome RespFrame × Server → Prop} (hreply : ∀ f, P (.ok f, s)) (hbody : ∀ a, P (body a s)) :
    P (reading args body s) := by
  cases args with
  | ok a => exact hbody a
  | error f => exact hreply f

end Action

end Ferrous
