/-
# `Server.Teardown` — what a connection leaves behind

An id stands in the rows of publish and subscribe, in the queues of the
blocking registries, in the wake queue, in the set of monitors and in the table
of replicas.  A connection is taken out of the table on two paths, and each
releases only some of these; and a connection that is closed while it is
subscribed is not taken out at all.  In every run in which nothing else was
left to release, an id that is not in the table is registered nowhere, and a
closed connection is gone after the next cleanup.
-/
import Ferrous.Lib.Run
import Ferrous.Server.Asleep
import Ferrous.Server.Logged

namespace Ferrous

open Lib

namespace Server

variable (env : Env)

/-! ## The events of the loop -/

/-- What the loop does, piece by piece. -/
inductive LoopEvent
  | wakeups
  | accept (addr : String)
  /-- One frame of a connection. -/
  | command (id : ConnId) (f : RespFrame)
  | replies (id : ConnId) (items : List Sent)
  /-- The peer has closed, QUIT was read, or a left-over write failed. -/
  | close (id : ConnId)
  /-- Processing failed: an error of a command, of the socket, or the idle timeout. -/
  | fail (id : ConnId)
  | timeouts (now : Instant)
  | cleanup

/-- One event; `none` where it cannot happen or ends the process. -/
def LoopEvent.step : LoopEvent → Server → Option Server
  | wakeups, s => processWakeups env s
  | accept addr, s => some (Server.accept env s addr)
  | command id f, s =>
      if s.connections.contains id then
        match answerFrame env id f s with
        | (.panic, _) => none
        | (_, s') => some s'
      else none
  | replies id items, s => some (s.sendAll id items)
  | close id, s => some (s.closeConnection id)
  | fail id, s => some (s.removeFailed id)
  | timeouts now, s => some (processBlockedTimeouts now s)
  | cleanup, s => some s.cleanupConnections

/-! ## Registrations -/

/-- The id stands somewhere outside the connection table. -/
def Registered (s : Server) (id : ConnId) : Prop :=
  s.pubsub.Occurs id ∨ s.blocking.Waits id ∨ s.blocking.Woken id ∨
    s.monitorSubscribers.contains id = true ∨ s.replication.replicas.contains id = true

/-- The connection is there and closed. -/
def isClosing (s : Server) (id : ConnId) : Prop :=
  ∃ c, s.connections.get? id = some c ∧ c.state = .closing

/-- What has to hold for an event to leave nothing behind. -/
def Releases (s : Server) : LoopEvent → Prop
  -- a removal after a failure releases the subscriptions only
  | .fail id => s.connections.contains id = true → ¬ s.blocking.Waits id ∧ ¬ s.blocking.Woken id ∧
      s.monitorSubscribers.contains id = false ∧ s.replication.replicas.contains id = false
  -- a cleanup leaves subscribed connections, wake-up requests and replicas
  | .cleanup => ∀ id, s.isClosing id → s.pubsub.isSubscribed id = false ∧ ¬ s.blocking.Woken id ∧
      s.replication.replicas.contains id = false
  -- AUTH and a pop that blocks bring a closed connection back
  | .command id f => s.isClosing id → authenticates env f = false ∧ wouldBlock env s id f = false
  | _ => True

/-- Ids come from the counter; no id that is not in the table is registered; and
every registry has its database. -/
structure Released (s : Server) : Prop where
  next : 0 < s.nextId
  known : ∀ id, s.connections.contains id = true → 0 < id ∧ id < s.nextId
  databases : s.blocking.registries.length ≤ s.world.engine.databases.length
  registered : ∀ id, Registered s id → id = 0 ∨ s.connections.contains id = true

variable {env} {s s' : Server} {id : ConnId}

/-! ## One event -/

/-- What is done for `id` registers nobody else. -/
theorem Footprint.registered (h : Footprint id s s') {j : ConnId} (hj : Other id j)
    (hr : Registered s' j) : Registered s j := by
  rcases hr with hr | hr | hr | hr | hr
  · exact .inl (h.occurs j hj hr)
  · exact .inr (.inl (h.waits j hj hr))
  · exact (h.woken j hj hr).elim (fun hw => .inr (.inr (.inl hw))) fun hw => .inr (.inl hw)
  · exact .inr (.inr (.inr (.inl (h.monitors j hj hr))))
  · exact .inr (.inr (.inr (.inr (h.replicas j hj hr))))

theorem Released.footprint (h : Released s) (hf : Footprint id s s')
    (hid : id = 0 ∨ s.connections.contains id = true) : Released s' where
  next := hf.nextId ▸ h.next
  known j hj := hf.nextId ▸ h.known j (hf.present j ▸ hj)
  databases := by
    rw [hf.registries, hf.databases]
    exact h.databases
  registered j hr := by
    rw [hf.present j]
    by_cases hz : j = 0
    · exact .inl hz
    · by_cases hj : j = id
      · rw [hj]
        exact hid
      · exact h.registered j (hf.registered ⟨hj, hz⟩ hr)

/-- A connection that is removed and registered nowhere any more. -/
theorem Released.remove (h : Released s) (hn : s'.nextId = s.nextId)
    (hc : s'.connections = s.connections.del id)
    (hlen : s'.blocking.registries.length ≤ s'.world.engine.databases.length)
    (hkeep : ∀ j, Registered s' j → Registered s j) (hid : ¬ Registered s' id) : Released s' where
  next := hn ▸ h.next
  known j hj := by
    rw [hn]
    by_cases hj' : j = id
    · rw [hc, hj', Map.contains, Map.get?_del_self] at hj
      cases hj
    · rw [hc, Map.contains, Map.get?_del_ne _ hj'] at hj
      exact h.known j hj
  databases := hlen
  registered j hr := by
    have hj : j ≠ id := fun heq => hid (heq ▸ hr)
    rw [hc, Map.contains, Map.get?_del_ne _ hj]
    exact h.registered j (hkeep j hr)

/-- Nobody is registered that was not, and the table keeps its ids. -/
theorem Released.of_registered (h : Released s) (hn : s'.nextId = s.nextId)
    (hc : ∀ j, s'.connections.contains j = s.connections.contains j)
    (hlen : s'.blocking.registries.length ≤ s'.world.engine.databases.length)
    (hr : ∀ j, Registered s' j → Registered s j) : Released s' where
  next := hn ▸ h.next
  known j hj := hn ▸ h.known j (hc j ▸ hj)
  databases := hlen
  registered j hj := by
    rw [hc j]
    exact h.registered j (hr j hj)

/-- A connection that sleeps is answered. -/
theorem footprint_answered (s : Server) (id : ConnId) (item : Sent) :
    Footprint id s ((s.send id item).onConnection id fun c => { c with state := .authenticated }) :=
  (Calm.send s id id item).toFootprint.trans (.onConnection _ id fun _ => .inr (.inr rfl))

theorem wakeClient_footprint {w : WakeupRequest} (h : wakeClient env s w = some s') :
    Calm 0 s s' ∨ Footprint w.connId s s' ∧ s.isBlocked w.connId = true := by
  obtain ⟨r, world', hrun, hs⟩ := wakeClient_cases h
  have hworld : Calm 0 s { s with world := world' } := by
    have hlen := (Calm.onStore env (need (.key w.db w.key (popOp w.opType))) 0 s)
    rwa [hrun] at hlen
  rcases hs with rfl | ⟨c, value, -, hc, hb, rfl⟩
  · exact .inl hworld
  · refine .inr ⟨(hworld.toFootprint.of_zero _).trans (footprint_answered _ _ _), ?_⟩
    rw [isBlocked, hc]
    exact hb

theorem contains_of_isBlocked (h : s.isBlocked id = true) : s.connections.contains id = true := by
  by_contra hc
  unfold isBlocked at h
  cases hc' : s.connections.get? id with
  | none => simp [hc'] at h
  | some c => simp [Map.contains, hc'] at hc

theorem Released.wakeups (h : Released s) (hs : processWakeups env s = some s') : Released s' := by
  refine processWakeups_inv (fun s₁ w s₂ h₁ hw => ?_) ?_ hs
  · rcases wakeClient_footprint hw with hcalm | ⟨hfoot, hb⟩
    · exact h₁.footprint hcalm.toFootprint (.inl rfl)
    · exact h₁.footprint hfoot (.inr (contains_of_isBlocked hb))
  · refine h.of_registered rfl (fun _ => rfl) h.databases fun j hr => ?_
    rcases hr with hr | hr | ⟨w, hw, rfl⟩ | hr
    · exact .inl hr
    · exact .inr (.inl hr)
    · exact .inr (.inr (.inl ⟨w, List.mem_of_mem_drop hw, rfl⟩))
    · exact .inr (.inr (.inr hr))

theorem Released.accept (h : Released s) (addr : String) : Released (accept env s addr) := by
  unfold Server.accept
  split
  · exact ⟨Nat.succ_pos _, fun j hj => ⟨(h.known j hj).1, Nat.lt_succ_of_lt (h.known j hj).2⟩,
      h.databases, h.registered⟩
  · refine ⟨Nat.succ_pos _, fun j hj => ?_, h.databases, fun j hr => ?_⟩
    · by_cases hn : j = s.nextId
      · rw [hn]
        exact ⟨h.next, Nat.lt_succ_self _⟩
      · rw [Map.contains, Map.get?_set_ne _ _ hn] at hj
        exact ⟨(h.known j hj).1, Nat.lt_succ_of_lt (h.known j hj).2⟩
    · refine (h.registered j hr).imp_right fun hc => ?_
      by_cases hn : j = s.nextId
      · rw [hn, Map.contains, Map.get?_set_self]
        rfl
      · rwa [Map.contains, Map.get?_set_ne _ _ hn]

theorem timeOut_footprint (s : Server) (i : ConnId) :
    s.timeOut i = s ∨ Footprint i s (s.timeOut i) ∧ s.isBlocked i = true := by
  unfold timeOut
  split
  · next c hc =>
      split
      · next hb =>
          refine .inr ⟨footprint_answered s i _, ?_⟩
          rw [isBlocked, hc]
          exact hb
      · exact .inl rfl
  · exact .inl rfl

theorem Released.timeouts (h : Released s) (now : Instant) : Released (processBlockedTimeouts now s) := by
  refine processBlockedTimeouts_inv (fun s₁ i h₁ => ?_) ?_
  · rcases timeOut_footprint s₁ i with hs | ⟨hfoot, hb⟩
    · rwa [hs]
    · exact h₁.footprint hfoot (.inr (contains_of_isBlocked hb))
  · refine h.of_registered rfl (fun _ => rfl) ?_ fun j hr => ?_
    · exact (List.length_map _).trans_le h.databases
    · rcases hr with hr | hr | hr | hr
      · exact .inl hr
      · exact .inr (.inl (BlockingManager.waits_processTimeouts hr))
      · exact .inr (.inr (.inl hr))
      · exact .inr (.inr (.inr hr))

theorem Released.fail (h : Released s) (hok : Releases env s (.fail id)) : Released (s.removeFailed id) := by
  unfold Server.removeFailed
  split
  · next hc =>
      obtain ⟨hwaits, hwoken, hmon, hrep⟩ := hok hc
      refine h.remove rfl rfl h.databases (fun j hr => ?_) fun hr => ?_
      · rcases hr with hr | hr
        · by_cases hj : j = id
          · exact absurd (hj ▸ hr) (PubSubManager.not_occurs_unsubscribeAll _ _)
          · exact .inl ((PubSubManager.spares_unsubscribeAll s.pubsub id).occurs j hj hr)
        · exact .inr hr
      · rcases hr with hr | hr | hr | hr | hr
        · exact PubSubManager.not_occurs_unsubscribeAll _ _ hr
        · exact hwaits hr
        · exact hwoken hr
        · rw [hmon] at hr
          cases hr
        · rw [hrep] at hr
          cases hr
  · exact h

theorem Released.removeClosed (h : Released s) (hwoken : ¬ s.blocking.Woken id)
    (hrep : s.replication.replicas.contains id = false) : Released (s.removeClosed id) := by
  have hqueue := (BlockingManager.unregisterFrom_eq s.blocking s.world.engine.databases.length id).1
  refine h.remove rfl rfl ?_ (fun j hr => ?_) fun hr => ?_
  · exact (BlockingManager.length_unregisterFrom _ _ _).trans_le h.databases
  · rcases hr with hr | hr | ⟨w, hw, rfl⟩ | hr | hr
    · by_cases hj : j = id
      · exact absurd (hj ▸ hr) (PubSubManager.not_occurs_unsubscribeAll _ _)
      · exact .inl ((PubSubManager.spares_unsubscribeAll s.pubsub id).occurs j hj hr)
    · exact .inr (.inl (BlockingManager.waits_unregisterFrom hr))
    · exact .inr (.inr (.inl ⟨w, hqueue ▸ hw, rfl⟩))
    · exact .inr (.inr (.inr (.inl ((PubSubManager.contains_del _ _ _).mp hr).2)))
    · exact .inr (.inr (.inr (.inr hr)))
  · rcases hr with hr | hr | ⟨w, hw, hwid⟩ | hr | hr
    · exact PubSubManager.not_occurs_unsubscribeAll _ _ hr
    · exact BlockingManager.not_waits_unregisterFrom h.databases hr
    · exact hwoken ⟨w, hqueue ▸ hw, hwid⟩
    · exact ((PubSubManager.contains_del _ _ _).mp hr).1 rfl
    · exact absurd (hr.symm.trans hrep) (by decide)

/-- The connections a cleanup removes. -/
theorem mem_closed : id ∈ (s.connections.toPairs.filter fun p =>
      p.2.state == .closing && !s.pubsub.isSubscribed p.1).map Prod.fst ↔
    s.isClosing id ∧ s.pubsub.isSubscribed id = false := by
  simp only [List.mem_map, List.mem_filter, Map.mem_toPairs, Prod.exists, exists_and_right,
    exists_eq_right, isClosing, Bool.and_eq_true, beq_iff_eq, Bool.not_eq_true', ← and_assoc]

/-- Several removals in a row; none touches the wake queue or the replicas. -/
theorem Released.removeAll (ids : List ConnId) {s : Server} (h : Released s)
    (hids : ∀ i ∈ ids, ¬ s.blocking.Woken i ∧ s.replication.replicas.contains i = false) :
    Released (ids.foldl Server.removeClosed s) := by
  induction ids generalizing s with
  | nil => exact h
  | cons i ids ih =>
      obtain ⟨hwoken, hrep⟩ := hids i List.mem_cons_self
      have hqueue : (s.removeClosed i).blocking.wakeQueue = s.blocking.wakeQueue :=
        (BlockingManager.unregisterFrom_eq s.blocking s.world.engine.databases.length i).1
      refine ih (h.removeClosed hwoken hrep) fun j hj => ?_
      obtain ⟨hwoken', hrep'⟩ := hids j (List.mem_cons_of_mem _ hj)
      exact ⟨fun ⟨w, hw, hwid⟩ => hwoken' ⟨w, hqueue ▸ hw, hwid⟩, hrep'⟩

theorem command_eq {f : RespFrame} (h : LoopEvent.step env (.command id f) s = some s') :
    s.connections.contains id = true ∧ s' = (answerFrame env id f s).2 := by
  simp only [LoopEvent.step] at h
  split at h
  · next hc =>
      refine ⟨hc, ?_⟩
      rcases hr : answerFrame env id f s with ⟨r | e | _, s₁⟩
      all_goals rw [hr] at h
      · exact (Option.some.inj h).symm
      · exact (Option.some.inj h).symm
      · cases h
  · cases h

/-- One event keeps every registration with a connection of the table. -/
theorem Released.step {e : LoopEvent} (h : Released s) (hok : Releases env s e)
    (hs : e.step env s = some s') : Released s' := by
  cases e with
  | wakeups => exact h.wakeups hs
  | accept addr => exact Option.some.inj hs ▸ h.accept addr
  | command id f =>
      obtain ⟨hc, rfl⟩ := command_eq hs
      exact h.footprint (within_answerFrame (h.known id hc).1.ne' f s) (.inr hc)
  | replies id items =>
      exact Option.some.inj hs ▸ h.footprint (Calm.sendAll s 0 id items).toFootprint (.inl rfl)
  | close id =>
      exact Option.some.inj hs ▸ h.footprint (Calm.closeConnection s 0 id).toFootprint (.inl rfl)
  | fail id => exact Option.some.inj hs ▸ h.fail hok
  | timeouts now => exact Option.some.inj hs ▸ h.timeouts now
  | cleanup =>
      exact Option.some.inj hs ▸ h.removeAll _ fun i hi => (hok i (mem_closed.mp hi).1).2

/-! ## Closed connections -/

/-- The connection was there once, and is closed or gone. -/
structure Doomed (id : ConnId) (s : Server) : Prop where
  old : id ≠ 0 ∧ id < s.nextId
  gone : s.connections.contains id = false ∨ s.isClosing id

theorem not_isBlocked_of_isClosing (h : s.isClosing id) : s.isBlocked id = false := by
  obtain ⟨c, hc, hcl⟩ := h
  rw [isBlocked, hc, Option.map_some, Option.getD_some, hcl]
  rfl

theorem Doomed.not_isBlocked (h : Doomed id s) : s.isBlocked id = false := by
  rcases h.gone with hc | hc
  · by_contra hb
    rw [contains_of_isBlocked (by simpa using hb)] at hc
    cases hc
  · exact not_isBlocked_of_isClosing hc

/-- A step that leaves the state of the connection alone, or closes it. -/
theorem Doomed.of_state (h : Doomed id s) (hn : s'.nextId = s.nextId)
    (hc : s'.connections.contains id = s.connections.contains id)
    (hs : ∀ c', s'.connections.get? id = some c' →
      ∃ c, s.connections.get? id = some c ∧ (c'.state = c.state ∨ c'.state = .closing)) : Doomed id s' where
  old := ⟨h.old.1, hn ▸ h.old.2⟩
  gone := by
    refine h.gone.imp (fun hno => hc.trans hno) fun ⟨c, hget, hcl⟩ => ?_
    have hpresent : s'.connections.contains id = true := by
      rw [hc, Map.contains, hget]
      rfl
    obtain ⟨c', hc'⟩ := Option.isSome_iff_exists.mp hpresent
    obtain ⟨c₀, hc₀, hs'⟩ := hs c' hc'
    obtain rfl := Option.some.inj (hc₀.symm.trans hget)
    exact ⟨c', hc', hs'.elim (fun heq => heq.trans hcl) fun heq => heq⟩

theorem Doomed.footprint {j : ConnId} (h : Doomed id s) (hf : Footprint j s s') (hj : id ≠ j) :
    Doomed id s' :=
  h.of_state hf.nextId (hf.present id) fun c' => hf.state id c' ⟨hj, h.old.1⟩

theorem Doomed.calm (h : Doomed id s) (hf : Server.Calm id s s') : Doomed id s' :=
  h.of_state hf.nextId (hf.present id) hf.own

theorem Doomed.accept (h : Doomed id s) (addr : String) : Doomed id (accept env s addr) := by
  have hne : id ≠ s.nextId := h.old.2.ne
  unfold Server.accept
  split
  · exact ⟨⟨h.old.1, Nat.lt_succ_of_lt h.old.2⟩, h.gone⟩
  · refine ⟨⟨h.old.1, Nat.lt_succ_of_lt h.old.2⟩, ?_⟩
    rw [isClosing, Map.contains, Map.get?_set_ne _ _ hne]
    exact h.gone

theorem Doomed.removed {j : ConnId} (h : Doomed id s) (hn : s'.nextId = s.nextId)
    (hc : s'.connections = s.connections.del j) : Doomed id s' where
  old := ⟨h.old.1, hn ▸ h.old.2⟩
  gone := by
    by_cases hj : id = j
    · left
      rw [hc, hj, Map.contains, Map.get?_del_self]
      rfl
    · rw [isClosing, hc, Map.contains, Map.get?_del_ne _ hj]
      exact h.gone

theorem Doomed.foldl {β : Type} {f : Server → β → Server} (h : Doomed id s)
    (hf : ∀ {s : Server} (b : β), Doomed id s → Doomed id (f s b)) (bs : List β) :
    Doomed id (bs.foldl f s) := by
  induction bs generalizing s with
  | nil => exact h
  | cons b bs ih => exact ih (hf b h)

/-- A connection that is answered slept. -/
theorem Doomed.answered {j : ConnId} (h : Doomed id s) (hf : Footprint j s s')
    (hb : s.isBlocked j = true) : Doomed id s' := by
  refine h.footprint hf ?_
  rintro rfl
  rw [h.not_isBlocked] at hb
  cases hb

theorem Doomed.step {e : LoopEvent} (h : Doomed id s) (hr : Released s) (hok : Releases env s e)
    (hs : e.step env s = some s') : Doomed id s' := by
  cases e with
  | wakeups =>
      refine processWakeups_inv (fun s₁ w s₂ h₁ hw => ?_) ⟨h.old, h.gone⟩ hs
      rcases wakeClient_footprint hw with hcalm | ⟨hfoot, hb⟩
      · exact h₁.calm (hcalm.toFootprint.calm h.old.1)
      · exact h₁.answered hfoot hb
  | accept addr => exact Option.some.inj hs ▸ h.accept addr
  | command j f =>
      obtain ⟨hc, rfl⟩ := command_eq hs
      by_cases hj : id = j
      · obtain rfl := hj
        have hclosing := h.gone.resolve_left fun hno => by
          rw [hno] at hc
          cases hc
        obtain ⟨hauth, hblock⟩ := hok hclosing
        rcases @answerFrame_sleeps env id h.old.1 f s with hawake | ⟨hno, -⟩
        · exact h.calm (hawake.calm hauth)
        · rw [hblock] at hno
          cases hno
      · exact h.footprint (within_answerFrame (hr.known j hc).1.ne' f s) hj
  | replies j items => exact Option.some.inj hs ▸ h.calm (.sendAll s id j items)
  | close j => exact Option.some.inj hs ▸ h.calm (.closeConnection s id j)
  | fail j =>
      obtain rfl := Option.some.inj hs
      unfold removeFailed
      split
      · exact h.removed rfl rfl
      · exact h
  | timeouts now =>
      obtain rfl := Option.some.inj hs
      refine processBlockedTimeouts_inv (fun s₁ i h₁ => ?_) ⟨h.old, h.gone⟩
      rcases timeOut_footprint s₁ i with hsame | ⟨hfoot, hb⟩
      · rwa [hsame]
      · exact h₁.answered hfoot hb
  | cleanup =>
      obtain rfl := Option.some.inj hs
      refine h.foldl (fun {s₁} j h₁ => ?_) _
      have hremoved : (s₁.removeClosed j).connections = s₁.connections.del j := rfl
      exact h₁.removed rfl hremoved

theorem ne_zero_of_contains (hz : s.connections.contains 0 = false)
    (hc : s.connections.contains id = true) : id ≠ 0 := by
  rintro rfl
  rw [hz] at hc
  cases hc

theorem Released.nobody (h : Released s) : s.connections.contains 0 = false := by
  by_contra hc
  exact Nat.lt_irrefl 0 (h.known 0 (by simpa using hc)).1

/-- The connection was there once, and is gone. -/
def Gone (id : ConnId) (s : Server) : Prop := id < s.nextId ∧ s.connections.contains id = false

theorem Gone.footprint {j : ConnId} (h : Gone id s) (hf : Footprint j s s') : Gone id s' :=
  ⟨hf.nextId ▸ h.1, (hf.present id).trans h.2⟩

theorem Gone.removed {j : ConnId} (h : Gone id s) (hn : s'.nextId = s.nextId)
    (hc : s'.connections = s.connections.del j) : Gone id s' := by
  refine ⟨hn ▸ h.1, ?_⟩
  by_cases hj : id = j
  · rw [hc, hj, Map.contains, Map.get?_del_self]
    rfl
  · rw [hc, Map.contains, Map.get?_del_ne _ hj]
    exact h.2

theorem Gone.accept (h : Gone id s) (addr : String) : Gone id (accept env s addr) := by
  unfold Server.accept
  split
  · exact ⟨Nat.lt_succ_of_lt h.1, h.2⟩
  · refine ⟨Nat.lt_succ_of_lt h.1, ?_⟩
    rw [Map.contains, Map.get?_set_ne _ _ h.1.ne]
    exact h.2

theorem Gone.wakeups (h : Gone id s) (hs : processWakeups env s = some s') : Gone id s' := by
  refine processWakeups_inv (fun s₁ w s₂ h₁ hw => ?_) h hs
  rcases wakeClient_footprint hw with hcalm | ⟨hfoot, -⟩
  · exact h₁.footprint hcalm.toFootprint
  · exact h₁.footprint hfoot

/-- Ids are not given twice. -/
theorem Gone.step {e : LoopEvent} (h : Gone id s) (hz : s.connections.contains 0 = false)
    (hs : e.step env s = some s') : Gone id s' := by
  cases e with
  | wakeups => exact h.wakeups hs
  | accept addr => exact Option.some.inj hs ▸ h.accept addr
  | command j f =>
      obtain ⟨hc, rfl⟩ := command_eq hs
      exact h.footprint (within_answerFrame (ne_zero_of_contains hz hc) f s)
  | replies j items => exact Option.some.inj hs ▸ h.footprint (Calm.sendAll s j j items).toFootprint
  | close j => exact Option.some.inj hs ▸ h.footprint (Calm.closeConnection s j j).toFootprint
  | fail j =>
      obtain rfl := Option.some.inj hs
      unfold removeFailed
      split
      · exact h.removed rfl rfl
      · exact h
  | timeouts now =>
      obtain rfl := Option.some.inj hs
      refine processBlockedTimeouts_inv (fun s₁ i h₁ => ?_) h
      rcases timeOut_footprint s₁ i with hsame | ⟨hfoot, -⟩
      · rwa [hsame]
      · exact h₁.footprint hfoot
  | cleanup =>
      obtain rfl := Option.some.inj hs
      unfold cleanupConnections
      generalize (s.connections.toPairs.filter fun p =>
        p.2.state == .closing && !s.pubsub.isSubscribed p.1).map Prod.fst = ids
      clear hz hs
      induction ids generalizing s with
      | nil => exact h
      | cons i ids ih => exact ih (h.removed rfl (j := i) rfl)

/-- A cleanup removes what is closed and not subscribed. -/
theorem Doomed.cleanup (h : Doomed id s) (hok : Releases env s .cleanup) : Gone id s.cleanupConnections := by
  have hremoved (ids : List ConnId) {s : Server} (hold : id < s.nextId)
      (hgone : s.connections.contains id = false ∨ id ∈ ids) : Gone id (ids.foldl removeClosed s) := by
    induction ids generalizing s with
    | nil => exact ⟨hold, hgone.resolve_right List.not_mem_nil⟩
    | cons i ids ih =>
        refine ih hold ?_
        have hdel : (s.removeClosed i).connections = s.connections.del i := rfl
        by_cases hi : id = i
        · left
          rw [hdel, hi, Map.contains, Map.get?_del_self]
          rfl
        · rw [hdel, Map.contains, Map.get?_del_ne _ hi]
          exact hgone.imp_right fun hmem => (List.mem_cons.mp hmem).resolve_left hi
  exact hremoved _ h.old.2 (h.gone.imp_right fun hc => mem_closed.mpr ⟨hc, (hok id hc).1⟩)

/-! ## Runs -/

theorem released_initial (e : Engine) (replId : String) (backlogSize : Nat) (h : e.databases.length = 16) :
    Released (initial e replId backlogSize) where
  next := Nat.one_pos
  known _ h := by cases h
  databases := by
    rw [show (initial e replId backlogSize).world.engine.databases.length = 16 from h]
    exact le_of_eq (List.length_replicate ..)
  registered id hr := by
    rcases hr with (⟨_, _, hget, -⟩ | ⟨_, _, hget, -⟩ | hsub) | ⟨r, key, client, hmem, hmem', -⟩ |
      ⟨w, hmem, -⟩ | hr | hr
    · cases hget
    · cases hget
    · cases hsub
    · obtain rfl := List.eq_of_mem_replicate hmem
      cases hmem'
    · cases hmem
    · cases hr
    · cases hr

/-- What is closed is gone after a cleanup. -/
theorem Doomed.gone_of_step (h : Doomed id s) (hok : Releases env s .cleanup)
    (hs : LoopEvent.cleanup.step env s = some s') : Gone id s' := by
  obtain rfl := Option.some.inj hs
  exact h.cleanup hok

/-- In a run that releases what it has to, an id that is not in the table is
registered nowhere; and what is closed is gone after the next cleanup. -/
theorem teardown_complete (env : Env) (e : Engine) (replId : String) (backlogSize : Nat)
    (hdb : e.databases.length = 16) (es : List LoopEvent) (s : Server)
    (h : Lib.Runs (Releases env) (LoopEvent.step env) (initial e replId backlogSize) es s) :
    (∀ id, id ≠ 0 → s.connections.contains id = false → ¬ Registered s id) ∧
      ∀ id, s.isClosing id → ∀ es' s', Lib.Runs (Releases env) (LoopEvent.step env) s es' s' →
        .cleanup ∈ es' → s'.connections.contains id = false := by
  have hreleased : Released s :=
    h.inv (fun _ _ _ hr hok hs => hr.step hok hs) (released_initial e replId backlogSize hdb)
  refine ⟨fun id hid hc hr => ?_, fun id hcl es' s' hrun hmem => ?_⟩
  · have hpresent := (hreleased.registered id hr).resolve_left hid
    rw [hc] at hpresent
    cases hpresent
  · have hpresent : s.connections.contains id = true := by
      obtain ⟨c, hc, -⟩ := hcl
      rw [Map.contains, hc]
      rfl
    have hdoomed : Doomed id s :=
      ⟨⟨(hreleased.known id hpresent).1.ne', (hreleased.known id hpresent).2⟩, .inr hcl⟩
    refine (Lib.Runs.after (I := fun s => Released s ∧ Doomed id s)
      (J := fun s => Released s ∧ Gone id s) ?_ ?_ ?_ hrun ⟨hreleased, hdoomed⟩ hmem).2.2
    · exact fun _ _ _ hi hok hs => ⟨hi.1.step hok hs, hi.2.step hi.1 hok hs⟩
    · exact fun _ _ _ hj hok hs => ⟨hj.1.step hok hs, hj.2.step hj.1.nobody hs⟩
    · exact fun _ _ hi hok hs => ⟨hi.1.step hok hs, hi.2.gone_of_step hok hs⟩

/-- Two clients come: one subscribes and fails; the other monitors, waits for a list, and leaves. -/
def leaving : List LoopEvent :=
  [.accept "a", .accept "b", .command 1 (.list (words ["SUBSCRIBE", "news"])),
    .command 2 (.list (words ["MONITOR"])), .fail 1, .command 2 (.list (words ["BLPOP", "l", "0"])), .close 2, .cleanup]

theorem leaving_complete :
    ∃ s, Lib.Runs (Releases (.quiet none)) (LoopEvent.step (.quiet none))
        (initial Engine.new "0" 16) leaving s ∧
      ∀ id, id ≠ 0 → s.connections.contains id = false → ¬ Registered s id := by
  have hnone : ∀ id, ¬ (initial Engine.new "0" 16).blocking.Waits id := by
    rintro id ⟨r, key, client, hmem, hmem', -⟩
    obtain rfl := List.eq_of_mem_replicate hmem
    cases hmem'
  have hqueue : ∀ id, ¬ (initial Engine.new "0" 16).blocking.Woken id := by
    rintro id ⟨w, hmem, -⟩
    cases hmem
  have hrun : ∃ s, Lib.Runs (Releases (.quiet none)) (LoopEvent.step (.quiet none))
      (initial Engine.new "0" 16) leaving s := by
    refine ⟨_, .cons trivial rfl (.cons trivial rfl (.cons (fun _ => ⟨rfl, rfl⟩) rfl (.cons (fun _ => ⟨rfl, rfl⟩) rfl
      (.cons (fun _ => ⟨hnone 1, hqueue 1, rfl, rfl⟩) rfl (.cons ?_ rfl (.cons trivial rfl
        (.cons (fun id _ => ⟨rfl, hqueue id, rfl⟩) rfl .nil)))))))⟩
    rintro ⟨c, hc, hclosing⟩
    cases hc
    cases hclosing
  obtain ⟨s, hs⟩ := hrun
  exact ⟨s, hs, (teardown_complete (.quiet none) Engine.new "0" 16 rfl leaving s hs).1⟩

/-- A monitor whose connection fails. -/
def monitoring : List Turn :=
  [⟨["a"], [], 0, []⟩, ⟨[], [(1, .frames [.list (words ["MONITOR"])])], 0, []⟩, ⟨[], [(1, .failed)], 0, []⟩]

/-- It stays among the monitors. -/
theorem monitoring_registered :
    ¬ ∀ s, run (.quiet none) (initial Engine.new "0" 16) monitoring = some s →
      ∀ id, id ≠ 0 → s.connections.contains id = false → ¬ Registered s id := by
  intro h
  have hrun : ∃ s, run (.quiet none) (initial Engine.new "0" 16) monitoring = some s :=
    Option.isSome_iff_exists.mp rfl
  obtain ⟨s, hs⟩ := hrun
  have hstate : (run (.quiet none) (initial Engine.new "0" 16) monitoring).map (fun s =>
      (s.connections.contains 1, s.monitorSubscribers.contains 1)) = some (false, true) := by
    rfl
  rw [hs, Option.map_some, Option.some.injEq, Prod.mk.injEq] at hstate
  exact h s hs 1 (by decide) hstate.1 (.inr (.inr (.inr (.inl hstate.2))))

/-! ## Turns -/

/-- A state that events lead to, whatever they leave behind, with the same
connections. -/
structure Passes (env : Env) (s s' : Server) : Prop where
  events : ∃ es, Lib.Runs (fun _ _ => True) (LoopEvent.step env) s es s'
  present : ∀ j, s'.connections.contains j = s.connections.contains j

theorem runs_foldl {β : Type} (event : β → LoopEvent) (f : Server → β → Server)
    (hf : ∀ s b, (event b).step env s = some (f s b)) (bs : List β) (s : Server) :
    Lib.Runs (fun _ _ => True) (LoopEvent.step env) s (bs.map event) (bs.foldl f s) := by
  induction bs generalizing s with
  | nil => exact .nil
  | cons b bs ih => exact .cons trivial (hf s b) (ih _)

namespace Passes

variable {s₁ s₂ : Server}

theorem refl (s : Server) : Passes env s s := ⟨⟨[], .nil⟩, fun _ => rfl⟩

theorem trans (h : Passes env s s₁) (g : Passes env s₁ s₂) : Passes env s s₂ where
  events := by
    obtain ⟨es, h⟩ := h.events
    obtain ⟨fs, g⟩ := g.events
    exact ⟨es ++ fs, h.append g⟩
  present j := (g.present j).trans (h.present j)

theorem event {e : LoopEvent} {j : ConnId} (h : e.step env s = some s') (hf : Footprint j s s') :
    Passes env s s' :=
  ⟨⟨[e], .cons trivial h .nil⟩, hf.present⟩

/-- One frame of a connection that is there. -/
theorem frame {f : RespFrame} (hid : id ≠ 0) (hc : s.connections.contains id = true)
    (hno : (answerFrame env id f s).1 ≠ .panic) : Passes env s (answerFrame env id f s).2 := by
  refine event (e := .command id f) ?_ (within_answerFrame hid f s)
  simp only [LoopEvent.step, if_pos hc]

/-- The frames of a batch are events of the loop. -/
theorem answerAll (hid : id ≠ 0) (fs : List RespFrame) {s : Server}
    (hc : s.connections.contains id = true) (hno : (Server.answerAll env id fs s).1 ≠ .panic) :
    Passes env s (Server.answerAll env id fs s).2 := by
  induction fs generalizing s with
  | nil => exact refl s
  | cons f fs ih =>
      have hframe := @frame env s id f hid hc
      rw [Server.answerAll] at hno ⊢
      rcases hr : answerFrame env id f s with ⟨r | e | _, s₁⟩
      all_goals rw [hr] at hframe hno
      · have hrest := @ih s₁ (((hframe nofun).present id).trans hc)
        dsimp only at hno ⊢
        rcases hrs : Server.answerAll env id fs s₁ with ⟨rs | e | _, s₂⟩
        all_goals rw [hrs] at hrest hno
        · exact (hframe nofun).trans (hrest nofun)
        · exact (hframe nofun).trans (hrest nofun)
        · exact absurd rfl hno
      · exact hframe nofun
      · exact absurd rfl hno

theorem connection (hid : id ≠ 0) (hc : s.connections.contains id = true) {i : Input} {b : Bool}
    (h : processConnection env id i s = some (b, s')) : Passes env s s' := by
  cases i with
  | failed =>
      cases h
      exact refl s
  | eof =>
      cases h
      exact event (e := .close id) rfl (Calm.closeConnection s id id).toFootprint
  | frames fs =>
      have hbatch := @answerAll env id hid fs s hc
      rw [processConnection] at h
      rcases hr : Server.answerAll env id fs s with ⟨rs | e | _, s₁⟩
      all_goals rw [hr] at hbatch h
      · have hwrite : Passes env s₁ (s₁.sendAll id (written rs)) :=
          event (e := .replies id (written rs)) rfl (Calm.sendAll s₁ id id _).toFootprint
        obtain ⟨-, rfl⟩ := Prod.mk.inj (Option.some.inj h)
        refine ((hbatch nofun).trans hwrite).trans ?_
        split
        · exact event (e := .close id) rfl (Calm.closeConnection _ id id).toFootprint
        · exact refl _
      · cases h
        exact hbatch nofun
      · cases h

theorem inputs {ready : List ConnId} (inputs : List (ConnId × Input)) {failed : List ConnId}
    {s : Server} {r : List ConnId × Server}
    (hready : ∀ i ∈ ready, i ≠ 0 ∧ s.connections.contains i = true)
    (h : processInputs env ready inputs failed s = some r) : Passes env s r.2 := by
  induction inputs generalizing s failed with
  | nil =>
      cases h
      exact refl s
  | cons p inputs ih =>
      rw [processInputs] at h
      split at h
      · next hp =>
          obtain ⟨⟨b, s₁⟩, hone, hrest⟩ := Option.bind_eq_some_iff.mp h
          have hstep := connection (hready p.1 hp.1).1 (hready p.1 hp.1).2 hone
          exact hstep.trans (ih (fun i hi => ⟨(hready i hi).1, (hstep.present i).trans (hready i hi).2⟩) hrest)
      · exact ih hready h

end Passes

/-- A turn of the loop is a run of its events, the last of which is a cleanup.
No connection has id 0. -/
theorem turn_runs {t : Turn} (h : Gone 0 s) (hs : turn env s t = some s') :
    ∃ es, Lib.Runs (fun _ _ => True) (LoopEvent.step env) s (es ++ [.cleanup]) s' := by
  obtain ⟨s₁, hwakes, hs⟩ := Option.bind_eq_some_iff.mp hs
  obtain ⟨s₃, hprocess, hs⟩ := Option.bind_eq_some_iff.mp hs
  obtain rfl := Option.some.inj hs
  obtain ⟨r, hinputs, rfl⟩ := Option.map_eq_some_iff.mp hprocess
  have haccept : Lib.Runs (fun _ _ => True) (LoopEvent.step env) s₁ (t.accepted.map .accept)
      (t.accepted.foldl (Server.accept env) s₁) := runs_foldl .accept _ (fun _ _ => rfl) _ _
  have haccepted : Gone 0 (t.accepted.foldl (Server.accept env) s₁) :=
    haccept.inv (fun _ _ _ h _ hs => h.step h.2 hs) (h.wakeups hwakes)
  have hready : ∀ i ∈ (t.accepted.foldl (Server.accept env) s₁).ready,
      i ≠ 0 ∧ (t.accepted.foldl (Server.accept env) s₁).connections.contains i = true := by
    intro i hi
    obtain ⟨p, hp, rfl⟩ := List.mem_map.mp hi
    have hpresent : (t.accepted.foldl (Server.accept env) s₁).connections.contains p.1 = true := by
      rw [Map.contains, Map.mem_toPairs.mp (List.mem_filter.mp hp).1]
      rfl
    exact ⟨ne_zero_of_contains haccepted.2 hpresent, hpresent⟩
  obtain ⟨es, hes⟩ := (Passes.inputs t.inputs hready hinputs).events
  refine ⟨.wakeups :: (t.accepted.map .accept ++ (es ++ (r.1.map .fail ++ (.timeouts t.now ::
    t.broken.map .close)))), ?_⟩
  refine Lib.Runs.append (.cons trivial hwakes (haccept.append (hes.append ?_)))
    (.cons trivial rfl .nil)
  refine (runs_foldl .fail removeFailed (fun _ _ => rfl) _ _).append (.cons trivial rfl ?_)
  exact runs_foldl .close closeConnection (fun _ _ => rfl) _ _

/-- The turns of the server are runs of the events of its loop. -/
theorem run_runs (ts : List Turn) (h : Gone 0 s) (hs : run env s ts = some s') :
    ∃ es, Lib.Runs (fun _ _ => True) (LoopEvent.step env) s es s' := by
  induction ts generalizing s with
  | nil => exact ⟨[], Option.some.inj hs ▸ .nil⟩
  | cons t ts ih =>
      obtain ⟨s₁, hturn, hrest⟩ := Option.bind_eq_some_iff.mp hs
      obtain ⟨es, hes⟩ := turn_runs h hturn
      obtain ⟨fs, hfs⟩ := ih (hes.inv (fun _ _ _ h _ hs => h.step h.2 hs) h) hrest
      exact ⟨_, hes.append hfs⟩

end Server

end Ferrous
