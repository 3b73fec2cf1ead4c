/-
# `Server.Footprint` — what a command can touch

Whatever a connection sends, the other connections keep their state, unless it
closes them, and nobody else is registered anywhere for it.  `Footprint` says
so for two states of the server.  `Calm` adds that the connection itself keeps
its state or is closed.  The primitive changes are calm; what the handlers make
of them is in `Server.Calm`.  The commands of a transaction run for connection
0, an id that no connection has.
-/
import Ferrous.Commands.Failures
import Ferrous.Server.Loop
import Ferrous.Server.Occurrences

namespace Ferrous

open Lib Args

/-- A program leaves the number of databases as it is. -/
theorem World.run_length {ω : Nat → Ctx} {α : Type} (p : StoreProg α) (w : World) :
    (p.run (World.step ω) w).2.engine.databases.length = w.engine.databases.length := by
  refine Prog.run_rel (World.step ω)
    (R := fun w w' => w'.engine.databases.length = w.engine.databases.length)
    (fun _ => rfl) (fun _ _ _ h g => g.trans h) (fun β o w => ?_) p w
  cases o with
  | key db key c => exact Engine.withEntry_databases_length _ _ _ _ _
  | store c => exact c.run_length _ _

namespace Server

/-- The connection is there and blocked. -/
def isBlocked (s : Server) (id : ConnId) : Bool :=
  ((s.connections.get? id).map (·.state.isBlocked)).getD false

theorem isBlocked_eq_of_get? {s s' : Server} {j : ConnId}
    (h : s'.connections.get? j = s.connections.get? j) : s'.isBlocked j = s.isBlocked j := by
  rw [isBlocked, h, isBlocked]

/-- A connection other than the one a command runs for. -/
def Other (id j : ConnId) : Prop := j ≠ id ∧ j ≠ 0

/-- What has been done for `id` is of no other connection's concern, except
that it may have been closed. -/
structure Footprint (id : ConnId) (s s' : Server) : Prop where
  nextId : s'.nextId = s.nextId
  databases : s'.world.engine.databases.length = s.world.engine.databases.length
  registries : s'.blocking.registries.length = s.blocking.registries.length
  present : ∀ j, s'.connections.contains j = s.connections.contains j
  state : ∀ j c', Other id j → s'.connections.get? j = some c' →
    ∃ c, s.connections.get? j = some c ∧ (c'.state = c.state ∨ c'.state = .closing)
  occurs : ∀ j, Other id j → s'.pubsub.Occurs j → s.pubsub.Occurs j
  subscribed : ∀ j, Other id j → s'.pubsub.isSubscribed j = s.pubsub.isSubscribed j
  waits : ∀ j, Other id j → s'.blocking.Waits j → s.blocking.Waits j
  woken : ∀ j, Other id j → s'.blocking.Woken j → s.blocking.Woken j ∨ s.blocking.Waits j
  queue : s.blocking.wakeQueue <+: s'.blocking.wakeQueue
  monitors : ∀ j, Other id j → s'.monitorSubscribers.contains j = true →
    s.monitorSubscribers.contains j = true
  replicas : ∀ j, Other id j → s'.replication.replicas.contains j = true →
    s.replication.replicas.contains j = true

/-- A footprint of `id` that leaves the state of `id` as well, or closes it. -/
structure Calm (id : ConnId) (s s' : Server) : Prop extends Footprint id s s' where
  own : ∀ c', s'.connections.get? id = some c' →
    ∃ c, s.connections.get? id = some c ∧ (c'.state = c.state ∨ c'.state = .closing)

namespace Footprint

variable {id : ConnId} {s s₁ s₂ : Server}

theorem trans (h : Footprint id s s₁) (g : Footprint id s₁ s₂) : Footprint id s s₂ where
  nextId := g.nextId.trans h.nextId
  databases := g.databases.trans h.databases
  registries := g.registries.trans h.registries
  present j := (g.present j).trans (h.present j)
  state j c' hj hc' := by
    obtain ⟨c₁, hc₁, hs₁⟩ := g.state j c' hj hc'
    obtain ⟨c, hc, hs⟩ := h.state j c₁ hj hc₁
    refine ⟨c, hc, ?_⟩
    rcases hs₁ with hs₁ | hs₁
    · rw [hs₁]
      exact hs
    · exact .inr hs₁
  occurs j hj ho := h.occurs j hj (g.occurs j hj ho)
  subscribed j hj := (g.subscribed j hj).trans (h.subscribed j hj)
  waits j hj hw := h.waits j hj (g.waits j hj hw)
  woken j hj hw := (g.woken j hj hw).elim (h.woken j hj) fun hw => .inr (h.waits j hj hw)
  queue := h.queue.trans g.queue
  monitors j hj hm := h.monitors j hj (g.monitors j hj hm)
  replicas j hj hr := h.replicas j hj (g.replicas j hj hr)

/-- Another connection is blocked only if it was. -/
theorem isBlocked (h : Footprint id s s₁) {j : ConnId} (hj : Other id j) (hb : s₁.isBlocked j = true) :
    s.isBlocked j = true := by
  unfold Server.isBlocked at hb ⊢
  cases hc' : s₁.connections.get? j with
  | none => simp [hc'] at hb
  | some c' =>
      obtain ⟨c, hc, hs⟩ := h.state j c' hj hc'
      rw [hc', Option.map_some, Option.getD_some] at hb
      rcases hs with hs | hs
      · rw [hc, Option.map_some, Option.getD_some, ← hs]
        exact hb
      · rw [hs] at hb
        cases hb

/-- A connection changes: another one than `id` keeps its state or is closed. -/
theorem onConnection {i : ConnId} {f : Connection → Connection} (s : Server) (id : ConnId)
    (hstate : ∀ c, (f c).state = c.state ∨ (f c).state = .closing ∨ i = id) :
    Footprint id s (s.onConnection i f) where
  nextId := by simp
  databases := by simp
  registries := by simp
  present j := by
    rw [Map.contains, onConnection_get?, Map.contains]
    split
    · next h => rw [h, Option.isSome_map]
    · rfl
  state j c' hj hc' := by
    rw [onConnection_get?] at hc'
    split at hc'
    · next h =>
        obtain ⟨c, hc, rfl⟩ := Option.map_eq_some_iff.mp hc'
        refine ⟨c, h ▸ hc, ?_⟩
        rcases hstate c with hs | hs | hi
        · exact .inl hs
        · exact .inr hs
        · exact absurd (h.trans hi) hj.1
    · exact ⟨c', hc', .inl rfl⟩
  occurs j _ h := by rwa [onConnection_pubsub] at h
  subscribed j _ := by rw [onConnection_pubsub]
  waits j _ h := by rwa [onConnection_blocking] at h
  woken j _ h := by
    rw [onConnection_blocking] at h
    exact .inl h
  queue := by rw [onConnection_blocking]
  monitors j _ h := by rwa [onConnection_monitorSubscribers] at h
  replicas j _ h := by rwa [onConnection_replication] at h

/-- The connection is registered as waiting. -/
theorem registerBlocked {s : Server} {m : BlockingManager} {db : Nat} {keys : List Key} {op : BlockingOp}
    {deadline : Option Instant} (h : s.blocking.registerBlocked db id keys op deadline = some m) :
    Footprint id s { s with blocking := m } where
  nextId := rfl
  databases := rfl
  registries := (BlockingManager.length_registerBlocked h).2
  present _ := rfl
  state _ c' _ hc := ⟨c', hc, .inl rfl⟩
  occurs _ _ h := h
  subscribed _ _ := rfl
  waits _ hj hw := (BlockingManager.waits_registerBlocked h hw).resolve_right hj.1
  woken j _ hw := by
    obtain ⟨w, hmem, hw⟩ := hw
    exact .inl ⟨w, BlockingManager.wakeQueue_registerBlocked h ▸ hmem, hw⟩
  queue := by rw [BlockingManager.wakeQueue_registerBlocked h]
  monitors _ _ h := h
  replicas _ _ h := h

/-- What is done for connection 0 has anyone's footprint. -/
theorem of_zero (h : Footprint 0 s s₁) (id : ConnId) : Footprint id s s₁ where
  nextId := h.nextId
  databases := h.databases
  registries := h.registries
  present := h.present
  state j c' hj := h.state j c' ⟨hj.2, hj.2⟩
  occurs j hj := h.occurs j ⟨hj.2, hj.2⟩
  subscribed j hj := h.subscribed j ⟨hj.2, hj.2⟩
  waits j hj := h.waits j ⟨hj.2, hj.2⟩
  woken j hj := h.woken j ⟨hj.2, hj.2⟩
  queue := h.queue
  monitors j hj := h.monitors j ⟨hj.2, hj.2⟩
  replicas j hj := h.replicas j ⟨hj.2, hj.2⟩

/-- What is done for connection 0 is calm for everyone. -/
theorem calm (h : Footprint 0 s s₁) (hid : id ≠ 0) : Calm id s s₁ where
  toFootprint := h.of_zero id
  own c' := h.state id c' ⟨hid, hid⟩

end Footprint

namespace Calm

variable {id : ConnId} {s s₁ s₂ : Server}

/-- Nothing about connections has changed. -/
theorem of_same (id : ConnId) (hdb : s₁.world.engine.databases.length = s.world.engine.databases.length)
    (hconn : s₁.connections = s.connections) (hnext : s₁.nextId = s.nextId)
    (hblock : s₁.blocking = s.blocking) (hpub : s₁.pubsub = s.pubsub)
    (hmon : s₁.monitorSubscribers = s.monitorSubscribers)
    (hrep : s₁.replication.replicas = s.replication.replicas) : Calm id s s₁ where
  nextId := hnext
  databases := hdb
  registries := by rw [hblock]
  present j := by rw [hconn]
  state j c' _ h := ⟨c', hconn ▸ h, .inl rfl⟩
  occurs j _ h := hpub ▸ h
  subscribed j _ := by rw [hpub]
  waits j _ h := hblock ▸ h
  woken j _ h := .inl (hblock ▸ h)
  queue := by rw [hblock]
  monitors j _ h := hmon ▸ h
  replicas j _ h := hrep ▸ h
  own c' h := ⟨c', hconn ▸ h, .inl rfl⟩

theorem refl (id : ConnId) (s : Server) : Calm id s s := of_same id rfl rfl rfl rfl rfl rfl rfl

theorem trans (h : Calm id s s₁) (g : Calm id s₁ s₂) : Calm id s s₂ :=
  ⟨h.toFootprint.trans g.toFootprint, fun c' hc' => by
    obtain ⟨c₁, hc₁, hs₁⟩ := g.own c' hc'
    obtain ⟨c, hc, hs⟩ := h.own c₁ hc₁
    exact ⟨c, hc, hs₁.elim (fun hs₁ => hs₁ ▸ hs) .inr⟩⟩

/-- The connection is blocked only if it was. -/
theorem isBlocked (h : Calm id s s₁) (hb : s₁.isBlocked id = true) : s.isBlocked id = true := by
  unfold Server.isBlocked at hb ⊢
  cases hc' : s₁.connections.get? id with
  | none => simp [hc'] at hb
  | some c' =>
      obtain ⟨c, hc, hs⟩ := h.own c' hc'
      rw [hc', Option.map_some, Option.getD_some] at hb
      rcases hs with hs | hs
      · rw [hc, Option.map_some, Option.getD_some, ← hs]
        exact hb
      · rw [hs] at hb
        cases hb

/-! ## Primitive changes -/

theorem world (id : ConnId) (s : Server) {w : World}
    (h : w.engine.databases.length = s.world.engine.databases.length) :
    Calm id s { s with world := w } :=
  of_same id h rfl rfl rfl rfl rfl rfl

theorem onStore (env : Env) {α : Type} (p : StoreProg α) (id : ConnId) (s : Server) :
    Calm id s (s.onStore env p).2 :=
  world id s (World.run_length p s.world)

theorem send (s : Server) (id i : ConnId) (item : Sent) : Calm id s (s.send i item) :=
  of_same id (by simp) (by simp) (by simp) (by simp) (by simp) (by simp) (by simp)

theorem sendAll (s : Server) (id i : ConnId) (items : List Sent) : Calm id s (s.sendAll i items) :=
  of_same id (by simp) (by simp) (by simp) (by simp) (by simp) (by simp) (by simp)

/-- A connection changes, and its state stays or it is closed. -/
theorem onConnection {i : ConnId} {f : Connection → Connection} (s : Server) (id : ConnId)
    (hstate : ∀ c, (f c).state = c.state ∨ (f c).state = .closing) :
    Calm id s (s.onConnection i f) where
  toFootprint := .onConnection s id fun c => (hstate c).imp_right .inl
  own c' hc' := by
    rw [onConnection_get?] at hc'
    split at hc'
    · next hi =>
        obtain ⟨c, hc, rfl⟩ := Option.map_eq_some_iff.mp hc'
        exact ⟨c, hi ▸ hc, hstate c⟩
    · exact ⟨c', hc', .inl rfl⟩

/-- A connection changes, and its state stays. -/
theorem onConnection_same {i : ConnId} {f : Connection → Connection} (s : Server) (id : ConnId)
    (hstate : ∀ c, (f c).state = c.state) : Calm id s (s.onConnection i f) :=
  onConnection s id fun c => .inl (hstate c)

theorem closeConnection (s : Server) (id i : ConnId) : Calm id s (s.closeConnection i) :=
  onConnection s id fun _ => .inr rfl

/-- The subscriptions of the connection itself change. -/
theorem subscriptions {m : PubSubManager} (h : PubSubManager.Spares id s.pubsub m) :
    Calm id s { s with pubsub := m } where
  nextId := rfl
  databases := rfl
  registries := rfl
  present _ := rfl
  state _ c' _ h := ⟨c', h, .inl rfl⟩
  occurs j hj := h.occurs j hj.1
  subscribed j hj := h.subscribed j hj.1
  waits _ _ h := h
  woken _ _ h := .inl h
  queue := List.prefix_rfl
  monitors _ _ h := h
  replicas _ _ h := h
  own c' h := ⟨c', h, .inl rfl⟩

/-- The replication changes, and only `id` may be a new replica. -/
theorem withReplication {r : ReplicationManager}
    (h : ∀ j ≠ id, r.replicas.contains j = true → s.replication.replicas.contains j = true) :
    Calm id s { s with replication := r } where
  nextId := rfl
  databases := rfl
  registries := rfl
  present _ := rfl
  state _ c' _ h := ⟨c', h, .inl rfl⟩
  occurs _ _ h := h
  subscribed _ _ := rfl
  waits _ _ h := h
  woken _ _ h := .inl h
  queue := List.prefix_rfl
  monitors _ _ h := h
  replicas j hj := h j hj.1
  own c' h := ⟨c', h, .inl rfl⟩

/-- The connection becomes a monitor. -/
theorem monitor (s : Server) (id : ConnId) :
    Calm id s { s with monitorSubscribers := s.monitorSubscribers.add id } where
  nextId := rfl
  databases := rfl
  registries := rfl
  present _ := rfl
  state _ c' _ h := ⟨c', h, .inl rfl⟩
  occurs _ _ h := h
  subscribed _ _ := rfl
  waits _ _ h := h
  woken _ _ h := .inl h
  queue := List.prefix_rfl
  monitors _ hj h := ((PubSubManager.contains_add _ _ _).mp h).resolve_left hj.1
  replicas _ _ h := h
  own c' h := ⟨c', h, .inl rfl⟩

/-- A push wakes the first client of a queue. -/
theorem notify (s : Server) (id : ConnId) (db : Nat) (key : Key) : Calm id s (s.notify db key) := by
  unfold Server.notify
  split
  · exact
      { nextId := rfl
        databases := rfl
        registries := BlockingManager.length_notifyKeyReady _ _ _
        present := fun _ => rfl
        state := fun _ c' _ h => ⟨c', h, .inl rfl⟩
        occurs := fun _ _ h => h
        subscribed := fun _ _ => rfl
        waits := fun _ _ h => BlockingManager.waits_notifyKeyReady h
        woken := fun _ _ h => BlockingManager.woken_notifyKeyReady h
        queue := BlockingManager.wakeQueue_notifyKeyReady _ _ _
        monitors := fun _ _ h => h
        replicas := fun _ _ h => h
        own := fun c' h => ⟨c', h, .inl rfl⟩ }
  · exact refl id s

end Calm

end Server

end Ferrous
