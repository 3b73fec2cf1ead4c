/-
# `Server.Occurrences` — where a connection id is registered

An id can stand in the queues of the blocking registries, in the queue of
wake-ups, and in the rows and the table of the subscriptions.  Every operation
of the two managers that is given an id adds no other, and the operations that
unregister an id leave it nowhere.
-/
import Ferrous.Server.PubSub

namespace Ferrous

open Lib

/-! ## Waiting clients -/

namespace BlockingRegistry

variable {r : BlockingRegistry} {client : BlockedClient}

theorem waiters_enqueue (key key' : Key) :
    (enqueue client r key).waiters key' =
      if key' = key then r.waiters key' ++ [client] else r.waiters key' := by
  simp only [waiters, enqueue, Map.get?_set]
  split
  · next h => rw [h, Option.getD_some]
  · rfl

theorem mem_waiters_register {c : BlockedClient} (keys : List Key) {key : Key}
    (h : c ∈ (r.registerBlockedClient client keys).waiters key) : c ∈ r.waiters key ∨ c = client := by
  induction keys generalizing r with
  | nil => exact .inl h
  | cons k ks ih =>
      rcases ih (r := enqueue client r k) h with hc | hc
      · rw [waiters_enqueue] at hc
        split at hc
        · exact (List.mem_append.mp hc).imp_right List.eq_of_mem_singleton
        · exact .inl hc
      · exact .inr hc

theorem waiters_retain (keep : BlockedClient → Bool) (key : Key) :
    (r.retain keep).waiters key = (r.waiters key).filter keep := by
  simp only [waiters, retain, Map.get?_filterMapValues]
  cases r.blockedOnKey.get? key with
  | none => rfl
  | some clients =>
      simp only [Option.bind_some, Option.getD_some]
      split
      · next h => exact (List.isEmpty_iff.mp h).symm
      · rfl

theorem waiters_popFirstWaiter (key key' : Key) :
    (r.popFirstWaiter key).2.waiters key' =
      if key' = key then (r.waiters key').tail else r.waiters key' := by
  cases hk : r.blockedOnKey.get? key with
  | none =>
      simp only [popFirstWaiter, hk]
      split
      · next h =>
          rw [h, waiters, hk]
          rfl
      · rfl
  | some clients =>
      simp only [popFirstWaiter, hk]
      split
      · next hempty =>
          simp only [waiters, Map.get?_del]
          split
          · next h =>
              rw [h, hk, Option.getD_some, Option.getD_none]
              exact (List.isEmpty_iff.mp hempty).symm
          · rfl
      · simp only [waiters, Map.get?_set]
        split
        · next h => rw [h, hk, Option.getD_some, Option.getD_some]
        · rfl

theorem popFirstWaiter_fst (key : Key) : (r.popFirstWaiter key).1 = (r.waiters key).head? := by
  unfold popFirstWaiter waiters
  cases r.blockedOnKey.get? key <;> rfl

end BlockingRegistry

namespace BlockingManager

variable {m : BlockingManager} {id j : ConnId}

/-- The id stands in a queue. -/
def Waits (m : BlockingManager) (id : ConnId) : Prop :=
  ∃ (r : BlockingRegistry) (key : Key) (client : BlockedClient),
    r ∈ m.registries ∧ client ∈ r.waiters key ∧ client.connId = id

/-- The id is to be woken. -/
def Woken (m : BlockingManager) (id : ConnId) : Prop := ∃ w ∈ m.wakeQueue, w.connId = id

theorem waits_registerBlocked {m' : BlockingManager} {db : Nat} {keys : List Key} {op : BlockingOp}
    {deadline : Option Instant} (h : m.registerBlocked db id keys op deadline = some m')
    (hj : m'.Waits j) : m.Waits j ∨ j = id := by
  unfold registerBlocked at h
  split at h
  · cases h
    obtain ⟨r, key, client, hr, hc, rfl⟩ := hj
    obtain ⟨n, hn⟩ := List.mem_iff_getElem?.mp hr
    rw [List.getElem?_modify] at hn
    split at hn
    · obtain ⟨r₀, hr₀, rfl⟩ := Option.map_eq_some_iff.mp hn
      rcases BlockingRegistry.mem_waiters_register keys hc with hc | rfl
      · exact .inl ⟨r₀, key, client, List.mem_of_getElem? hr₀, hc, rfl⟩
      · exact .inr rfl
    · obtain ⟨r₀, hr₀, rfl⟩ := Option.map_eq_some_iff.mp hn
      exact .inl ⟨r₀, key, client, List.mem_of_getElem? hr₀, hc, rfl⟩
  · cases h

theorem wakeQueue_registerBlocked {m' : BlockingManager} {db : Nat} {keys : List Key} {op : BlockingOp}
    {deadline : Option Instant} (h : m.registerBlocked db id keys op deadline = some m') :
    m'.wakeQueue = m.wakeQueue := by
  unfold registerBlocked at h
  split at h
  · cases h
    rfl
  · cases h

theorem length_registerBlocked {m' : BlockingManager} {db : Nat} {keys : List Key} {op : BlockingOp}
    {deadline : Option Instant} (h : m.registerBlocked db id keys op deadline = some m') :
    db < m.registries.length ∧ m'.registries.length = m.registries.length := by
  unfold registerBlocked at h
  split at h
  · next hdb =>
      cases h
      exact ⟨hdb, List.length_modify ..⟩
  · cases h

/-- What a wake-up call does: the first client of the queue moves to the wake queue. -/
theorem notifyKeyReady_cases (m : BlockingManager) (db : Nat) (key : Key) :
    m.notifyKeyReady db key = m ∨ ∃ r client, m.registries[db]? = some r ∧
      (r.waiters key).head? = some client ∧ m.notifyKeyReady db key =
        { registries := m.registries.set db (r.popFirstWaiter key).2
          wakeQueue := m.wakeQueue ++ [⟨client.connId, db, key, client.opType⟩] } := by
  unfold notifyKeyReady
  cases hr : m.registries[db]? with
  | none => exact .inl rfl
  | some r =>
      have hfst := r.popFirstWaiter_fst key
      rcases hp : r.popFirstWaiter key with ⟨_ | client, r'⟩
      · exact .inl (by simp only [hp])
      · rw [hp] at hfst
        exact .inr ⟨r, client, rfl, hfst.symm, by simp only [hp]⟩

theorem waits_notifyKeyReady {db : Nat} {key : Key} (h : (m.notifyKeyReady db key).Waits j) :
    m.Waits j := by
  rcases notifyKeyReady_cases m db key with he | ⟨r, client, hr, -, he⟩
  · rwa [he] at h
  · rw [he] at h
    obtain ⟨r', key', client', hr', hc', rfl⟩ := h
    rcases List.mem_or_eq_of_mem_set hr' with hr' | rfl
    · exact ⟨r', key', client', hr', hc', rfl⟩
    · refine ⟨r, key', client', List.mem_of_getElem? hr, ?_, rfl⟩
      rw [BlockingRegistry.waiters_popFirstWaiter] at hc'
      split at hc'
      · exact List.mem_of_mem_tail hc'
      · exact hc'

theorem woken_notifyKeyReady {db : Nat} {key : Key} (h : (m.notifyKeyReady db key).Woken j) :
    m.Woken j ∨ m.Waits j := by
  rcases notifyKeyReady_cases m db key with he | ⟨r, client, hr, hhead, he⟩
  · rw [he] at h
    exact .inl h
  · rw [he] at h
    obtain ⟨w, hw, rfl⟩ := h
    rcases List.mem_append.mp hw with hw | hw
    · exact .inl ⟨w, hw, rfl⟩
    · obtain rfl := List.eq_of_mem_singleton hw
      exact .inr ⟨r, key, client, List.mem_of_getElem? hr, List.mem_of_head? hhead, rfl⟩

theorem length_notifyKeyReady (m : BlockingManager) (db : Nat) (key : Key) :
    (m.notifyKeyReady db key).registries.length = m.registries.length := by
  rcases notifyKeyReady_cases m db key with he | ⟨r, client, -, -, he⟩
  · rw [he]
  · rw [he]
    exact List.length_set

theorem wakeQueue_notifyKeyReady (m : BlockingManager) (db : Nat) (key : Key) :
    m.wakeQueue <+: (m.notifyKeyReady db key).wakeQueue := by
  rcases notifyKeyReady_cases m db key with he | ⟨r, client, -, -, he⟩
  · rw [he]
  · rw [he]
    exact List.prefix_append _ _

/-- Who waits after some clients have been taken out. -/
theorem waits_retain {keep : BlockedClient → Bool} {rs : List BlockingRegistry} {q : List WakeupRequest}
    (h : (⟨rs.map fun r => r.retain keep, q⟩ : BlockingManager).Waits j) (q' : List WakeupRequest) :
    (⟨rs, q'⟩ : BlockingManager).Waits j := by
  obtain ⟨r', key, client, hr', hc, rfl⟩ := h
  obtain ⟨r, hr, rfl⟩ := List.mem_map.mp hr'
  rw [BlockingRegistry.waiters_retain] at hc
  exact ⟨r, key, client, hr, List.mem_of_mem_filter hc, rfl⟩

theorem waits_processTimeouts {now : Instant} (h : (m.processTimeouts now).2.Waits j) : m.Waits j :=
  waits_retain h m.wakeQueue

theorem waits_unregisterClient {db : Nat} (h : (m.unregisterClient db id).Waits j) : m.Waits j := by
  obtain ⟨r', key, client, hr', hc, rfl⟩ := h
  obtain ⟨n, hn⟩ := List.mem_iff_getElem?.mp hr'
  rw [unregisterClient, List.getElem?_modify] at hn
  obtain ⟨r, hr, rfl⟩ := Option.map_eq_some_iff.mp hn
  refine ⟨r, key, client, List.mem_of_getElem? hr, ?_, rfl⟩
  split at hc
  · rw [BlockingRegistry.unregisterClient, BlockingRegistry.waiters_retain] at hc
    exact List.mem_of_mem_filter hc
  · exact hc

/-- Unregister an id in the first `n` databases. -/
def unregisterFrom (m : BlockingManager) (n : Nat) (id : ConnId) : BlockingManager :=
  (List.range n).foldl (fun m db => m.unregisterClient db id) m

theorem unregisterFrom_eq (m : BlockingManager) (n : Nat) (id : ConnId) :
    (m.unregisterFrom n id).wakeQueue = m.wakeQueue ∧ ∀ i, (m.unregisterFrom n id).registries[i]? =
      (m.registries[i]?).map fun r => if i < n then r.unregisterClient id else r := by
  induction n with
  | zero => exact ⟨rfl, fun i => by simp [unregisterFrom]⟩
  | succ n ih =>
      have hsucc : m.unregisterFrom (n + 1) id = (m.unregisterFrom n id).unregisterClient n id := by
        simp [unregisterFrom, List.range_succ]
      rw [hsucc]
      refine ⟨ih.1, fun i => ?_⟩
      rw [unregisterClient, List.getElem?_modify, ih.2, Option.map_eq_map, Option.map_map]
      congr 1
      funext r
      by_cases hi : n = i
      · subst hi
        simp
      · have hiff : i < n + 1 ↔ i < n := by omega
        simp [hi, hiff]

theorem waits_unregisterFrom {n : Nat} (h : (m.unregisterFrom n id).Waits j) : m.Waits j := by
  suffices hs : ∀ (dbs : List Nat) (m : BlockingManager),
      (dbs.foldl (fun m db => m.unregisterClient db id) m).Waits j → m.Waits j from hs _ _ h
  intro dbs
  induction dbs with
  | nil => exact fun _ h => h
  | cons db dbs ih => exact fun m h => waits_unregisterClient (ih _ h)

theorem length_unregisterFrom (m : BlockingManager) (n : Nat) (id : ConnId) :
    (m.unregisterFrom n id).registries.length = m.registries.length := by
  induction n with
  | zero => rfl
  | succ n ih =>
      have hsucc : m.unregisterFrom (n + 1) id = (m.unregisterFrom n id).unregisterClient n id := by
        simp [unregisterFrom, List.range_succ]
      rw [hsucc, unregisterClient, List.length_modify, ih]

/-- Unregistered in every database, the id waits nowhere. -/
theorem not_waits_unregisterFrom {n : Nat} (hn : m.registries.length ≤ n) :
    ¬ (m.unregisterFrom n id).Waits id := by
  rintro ⟨r', key, client, hr', hc, hid⟩
  obtain ⟨i, hi⟩ := List.mem_iff_getElem?.mp hr'
  rw [(unregisterFrom_eq m n id).2] at hi
  obtain ⟨r, hr, rfl⟩ := Option.map_eq_some_iff.mp hi
  have hlt := (List.getElem?_eq_some_iff.mp hr).1
  rw [if_pos (by omega), BlockingRegistry.unregisterClient, BlockingRegistry.waiters_retain] at hc
  have hne := (List.mem_filter.mp hc).2
  simp [hid] at hne

end BlockingManager

/-! ## Subscriptions -/

namespace PubSubManager

variable {m : PubSubManager} {id j : ConnId}

/-- The id stands in a row. -/
def InRow (rows : Map Bytes (FSet ConnId)) (id : ConnId) : Prop :=
  ∃ name ids, rows.get? name = some ids ∧ ids.contains id = true

/-- The id stands in a row of a channel or a pattern, or in the table. -/
def Occurs (m : PubSubManager) (id : ConnId) : Prop :=
  InRow m.channels id ∨ InRow m.patterns id ∨ m.isSubscribed id = true

theorem contains_add (s : FSet ConnId) (i j : ConnId) :
    (s.add i).contains j = true ↔ j = i ∨ s.contains j = true := by
  rw [← Map.mem_members, Map.members_add, Finset.mem_insert, Map.mem_members]

theorem contains_del (s : FSet ConnId) (i j : ConnId) :
    (Map.del s i).contains j = true ↔ j ≠ i ∧ s.contains j = true := by
  rw [← Map.mem_members, Map.members_del, Finset.mem_erase, Map.mem_members]

theorem inRow_addRow {rows : Map Bytes (FSet ConnId)} {name : Bytes} (h : InRow (addRow rows name id) j) :
    InRow rows j ∨ j = id := by
  obtain ⟨name', ids, hget, hj⟩ := h
  rw [addRow, Map.get?_set] at hget
  split at hget
  · cases hget
    rcases (contains_add _ _ _).mp hj with rfl | hj
    · exact .inr rfl
    · cases hrow : rows.get? name with
      | none =>
          rw [hrow] at hj
          simp [Map.contains] at hj
      | some ids =>
          rw [hrow] at hj
          exact .inl ⟨name, ids, hrow, hj⟩
  · exact .inl ⟨name', ids, hget, hj⟩

theorem inRow_dropRow {rows : Map Bytes (FSet ConnId)} {name : Bytes}
    (h : InRow (dropRow rows name id) j) : InRow rows j := by
  unfold dropRow at h
  split at h
  · exact h
  · next ids hrow =>
      obtain ⟨name', ids', hget, hj⟩ := h
      split at hget
      · rw [Map.get?_del] at hget
        split at hget
        · cases hget
        · exact ⟨name', ids', hget, hj⟩
      · rw [Map.get?_set] at hget
        split at hget
        · cases hget
          exact ⟨name, ids, hrow, ((contains_del _ _ _).mp hj).2⟩
        · exact ⟨name', ids', hget, hj⟩

theorem inRow_clearRows {rows : Map Bytes (FSet ConnId)} (h : InRow (clearRows rows id) j) :
    InRow rows j ∧ j ≠ id := by
  obtain ⟨name, ids', hget, hj⟩ := h
  rw [clearRows, Map.get?_filterMapValues] at hget
  obtain ⟨ids, hrow, hids⟩ := Option.bind_eq_some_iff.mp hget
  split at hids
  · cases hids
  · cases hids
    have hdel := (contains_del _ _ _).mp hj
    exact ⟨⟨name, ids, hrow, hdel.2⟩, hdel.1⟩

theorem isSubscribed_set_ne (h : j ≠ id) (connections : Map ConnId SubscriberInfo) (info : SubscriberInfo) :
    (connections.set id info).contains j = connections.contains j := by
  rw [Map.contains, Map.get?_set_ne _ _ h, Map.contains]

theorem isSubscribed_del_ne (h : j ≠ id) (connections : Map ConnId SubscriberInfo) :
    (connections.del id).contains j = connections.contains j := by
  rw [Map.contains, Map.get?_del_ne _ h, Map.contains]

/-- What a change of the manager on behalf of `id` is for another connection. -/
structure Spares (id : ConnId) (m m' : PubSubManager) : Prop where
  occurs : ∀ j ≠ id, m'.Occurs j → m.Occurs j
  subscribed : ∀ j ≠ id, m'.isSubscribed j = m.isSubscribed j

namespace Spares

theorem refl (id : ConnId) (m : PubSubManager) : Spares id m m := ⟨fun _ _ h => h, fun _ _ => rfl⟩

theorem trans {m₁ m₂ : PubSubManager} (h : Spares id m m₁) (g : Spares id m₁ m₂) : Spares id m m₂ :=
  ⟨fun j hj ho => h.occurs j hj (g.occurs j hj ho),
    fun j hj => (g.subscribed j hj).trans (h.subscribed j hj)⟩

/-- Only the table changes, and only for `id`. -/
theorem table {connections : Map ConnId SubscriberInfo}
    (h : ∀ j ≠ id, connections.contains j = m.connections.contains j) :
    Spares id m { m with connections := connections } where
  occurs j hj ho := by
    rcases ho with ho | ho | ho
    · exact .inl ho
    · exact .inr (.inl ho)
    · exact .inr (.inr ((h j hj).symm.trans ho))
  subscribed j hj := h j hj

/-- Only the rows of one kind change, and only for `id`. -/
theorem setRows (kind : Kind) {rows : Map Bytes (FSet ConnId)}
    (h : ∀ j ≠ id, InRow rows j → InRow (kind.rows m) j) : Spares id m (kind.setRows m rows) where
  occurs j hj ho := by
    cases kind with
    | channel =>
        rcases ho with ho | ho | ho
        · exact .inl (h j hj ho)
        · exact .inr (.inl ho)
        · exact .inr (.inr ho)
    | pattern =>
        rcases ho with ho | ho | ho
        · exact .inl ho
        · exact .inr (.inl (h j hj ho))
        · exact .inr (.inr ho)
  subscribed j _ := by cases kind <;> rfl

end Spares

theorem spares_subscribeLoop (kind : Kind) (id : ConnId) : ∀ (names : List Bytes) (info : SubscriberInfo)
    (m : PubSubManager), Spares id m (subscribeLoop kind id names info m).2
  | [], _, m => .table fun _ hj => isSubscribed_set_ne hj _ _
  | name :: names, info, m => by
      refine Spares.trans ?_ (spares_subscribeLoop kind id names _ _)
      split
      · exact .setRows kind fun j hj h => (inRow_addRow h).resolve_right hj
      · exact .refl id m

theorem spares_subscribe (kind : Kind) (m : PubSubManager) (id : ConnId) (names : List Bytes) :
    Spares id m (subscribe kind m id names).2 :=
  spares_subscribeLoop kind id names _ m

theorem spares_unsubscribeLoop (kind : Kind) (id : ConnId) : ∀ (names : List Bytes)
    (info : SubscriberInfo) (m : PubSubManager), Spares id m (unsubscribeLoop kind id names info m).2
  | [], info, m => by
      refine .table fun j hj => ?_
      split
      · exact isSubscribed_del_ne hj _
      · exact isSubscribed_set_ne hj _ _
  | name :: names, info, m => by
      refine Spares.trans ?_ (spares_unsubscribeLoop kind id names _ _)
      split
      · exact .setRows kind fun j _ h => inRow_dropRow h
      · exact .refl id m

theorem spares_unsubscribe (kind : Kind) (m : PubSubManager) (id : ConnId) (names : Option (List Bytes)) :
    Spares id m (unsubscribe kind m id names).2 := by
  unfold unsubscribe
  split
  · exact .refl id m
  · exact spares_unsubscribeLoop kind id _ _ m

theorem spares_unsubscribeAll (m : PubSubManager) (id : ConnId) : Spares id m (m.unsubscribeAll id) where
  occurs j hj ho := by
    rcases ho with ho | ho | ho
    · exact .inl (inRow_clearRows ho).1
    · exact .inr (.inl (inRow_clearRows ho).1)
    · exact .inr (.inr ((isSubscribed_del_ne hj _).symm.trans ho))
  subscribed j hj := isSubscribed_del_ne hj _

/-- Unsubscribed from everything, the id stands nowhere. -/
theorem not_occurs_unsubscribeAll (m : PubSubManager) (id : ConnId) : ¬ (m.unsubscribeAll id).Occurs id := by
  rintro (h | h | h)
  · exact (inRow_clearRows h).2 rfl
  · exact (inRow_clearRows h).2 rfl
  · simp [isSubscribed, unsubscribeAll, Map.contains] at h

end PubSubManager

end Ferrous
