/-
# `Server.Registry` — the queues of waiting clients and the index of their keys

The registry of a database keeps its queues in one map and the keys that have a
queue in a set beside it.  What it stands for is one log: the registrations that
remain, in the order they came.  Registering appends to the log, unregistering
and expiring filter it, and popping drops the first registration of a key.
Every run of the four operations keeps the queues and the index in step with the
log, although expiry takes clients out of the middle of queues by positions it
found before.
-/
import Ferrous.Lib.Queues
import Ferrous.Server.Occurrences

namespace Ferrous

open Lib

namespace BlockingRegistry

/-! ## The loops of `unregister_client` and `get_expired_clients` -/

/-- Every queue, edited where it stands. -/
def editedQueues (r : BlockingRegistry) (edit : List BlockedClient → List BlockedClient) :
    Map Key (List BlockedClient) :=
  r.blockedOnKey.filterMapValues fun clients => some (edit clients)

/-- The keys whose queues an edit leaves empty. -/
def keysToRemove (r : BlockingRegistry) (edit : List BlockedClient → List BlockedClient) : List Key :=
  ((r.editedQueues edit).toPairs.filter fun p => p.2.isEmpty).map Prod.fst

/-- Edit every queue, then remove the keys of those left empty. -/
def editQueues (r : BlockingRegistry) (edit : List BlockedClient → List BlockedClient) :
    BlockingRegistry where
  blockedOnKey := (r.keysToRemove edit).foldl Map.del (r.editedQueues edit)
  blockedKeys := (r.keysToRemove edit).foldl Map.del r.blockedKeys

/-- `unregister_client`. -/
def unregisterClientLoop (r : BlockingRegistry) (id : ConnId) : BlockingRegistry :=
  r.editQueues fun clients => clients.filter fun client => client.connId != id

/-- The positions of the expired clients of a queue are noted, then removed from
the last to the first: the queue, and the ids in the order of removal. -/
def removeExpired (now : Instant) (clients : List BlockedClient) :
    List BlockedClient × List ConnId :=
  let expiredInKey := clients.findIdxs (expired now)
  expiredInKey.reverse.foldl (takeOut (·.connId)) (clients, [])

/-- `get_expired_clients`. -/
def getExpiredClientsLoop (r : BlockingRegistry) (now : Instant) : List ConnId × BlockingRegistry :=
  (r.blockedOnKey.toPairs.flatMap fun p => (removeExpired now p.2).2,
    r.editQueues fun clients => (removeExpired now clients).1)

theorem removeExpired_eq (now : Instant) (clients : List BlockedClient) :
    removeExpired now clients =
      (clients.filter fun client => !expired now client,
        ((clients.filter (expired now)).map (·.connId)).reverse) :=
  foldl_takeOut BlockedClient.connId (expired now) clients

section Edit

variable (r : BlockingRegistry) (edit : List BlockedClient → List BlockedClient) (key : Key)

theorem get?_editedQueues :
    (r.editedQueues edit).get? key = (r.blockedOnKey.get? key).map edit := by
  rw [editedQueues, Map.get?_filterMapValues]
  cases r.blockedOnKey.get? key <;> rfl

theorem mem_keysToRemove :
    key ∈ r.keysToRemove edit ↔ (r.blockedOnKey.get? key).map edit = some [] := by
  rw [← get?_editedQueues, ← Map.mem_toPairs, keysToRemove]
  constructor
  · intro h
    obtain ⟨⟨key', clients⟩, hp, rfl⟩ := List.mem_map.mp h
    obtain ⟨hp, hempty⟩ := List.mem_filter.mp hp
    obtain rfl : clients = [] := List.isEmpty_iff.mp hempty
    exact hp
  · intro h
    exact List.mem_map.mpr ⟨(key, []), List.mem_filter.mpr ⟨h, rfl⟩, rfl⟩

theorem get?_editQueues :
    (r.editQueues edit).blockedOnKey.get? key =
      if (r.blockedOnKey.get? key).map edit = some [] then none
      else (r.blockedOnKey.get? key).map edit := by
  rw [editQueues, Map.get?_foldl_del, get?_editedQueues]
  simp only [mem_keysToRemove]

theorem contains_editQueues :
    (r.editQueues edit).blockedKeys.contains key = true ↔
      r.blockedKeys.contains key = true ∧ (r.blockedOnKey.get? key).map edit ≠ some [] := by
  rw [editQueues, Map.contains, Map.get?_foldl_del, Map.contains]
  simp only [mem_keysToRemove]
  split
  · next h => simp [h]
  · next h => simp [h]

end Edit

/-! ## The log of the registrations that remain -/

/-- A call on the registry. -/
inductive RegistryEvent
  | register (client : BlockedClient) (keys : List Key)
  | unregister (id : ConnId)
  | pop (key : Key)
  | expire (now : Instant)

/-- The registry after a call. -/
def step (r : BlockingRegistry) : RegistryEvent → BlockingRegistry
  | .register client keys => r.registerBlockedClient client keys
  | .unregister id => r.unregisterClientLoop id
  | .pop key => (r.popFirstWaiter key).2
  | .expire now => (r.getExpiredClientsLoop now).2

/-- A registration: a key and the client that waits for it. -/
abbrev Registration := Key × BlockedClient

/-- What a call registers, in order. -/
def registrations : RegistryEvent → List Registration
  | .register client keys => keys.map (·, client)
  | _ => []

/-- The registrations that remain after a call. -/
def remaining (log : List Registration) : RegistryEvent → List Registration
  | .register client keys => log ++ keys.map (·, client)
  | .unregister id => log.filter fun e => e.2.connId != id
  | .pop key => dropFirst log key
  | .expire now => log.filter fun e => !expired now e.2

/-- The registry is the log, queue by queue: a key has an entry in the map and in
the set if and only if a registration for it remains. -/
structure Holds (r : BlockingRegistry) (log : List Registration) : Prop where
  queues : ∀ key, r.blockedOnKey.get? key =
    if queueOf log key = [] then none else some (queueOf log key)
  keys : ∀ key, r.blockedKeys.contains key = true ↔ queueOf log key ≠ []

namespace Holds

variable {r : BlockingRegistry} {log : List Registration}

theorem new : Holds new [] where
  queues key := by rw [queueOf_nil, if_pos rfl]; exact Map.get?_empty key
  keys key := by simp [BlockingRegistry.new, Map.contains]

theorem waiters (h : Holds r log) (key : Key) : r.waiters key = queueOf log key := by
  rw [BlockingRegistry.waiters, h.queues]
  split
  · next hnil => exact hnil.symm
  · rfl

theorem enqueue (h : Holds r log) (client : BlockedClient) (key : Key) :
    Holds (enqueue client r key) (log ++ [(key, client)]) where
  queues key' := by
    rw [BlockingRegistry.enqueue, Map.get?_set, queueOf_append, queueOf_cons, queueOf_nil, h.waiters,
      h.queues]
    by_cases hk : key' = key
    · simp [hk]
    · simp [hk, Ne.symm hk]
  keys key' := by
    rw [BlockingRegistry.enqueue, Map.contains, Map.add, Map.get?_set, queueOf_append, queueOf_cons,
      queueOf_nil]
    by_cases hk : key' = key
    · simp [hk]
    · simp [hk, Ne.symm hk, ← h.keys, Map.contains]

theorem register (h : Holds r log) (client : BlockedClient) (keys : List Key) :
    Holds (r.registerBlockedClient client keys) (log ++ keys.map (·, client)) := by
  induction keys generalizing r log with
  | nil =>
      rw [List.map_nil, List.append_nil]
      exact h
  | cons key keys ih =>
      have hkeys := ih (h.enqueue client key)
      rw [List.append_assoc] at hkeys
      exact hkeys

/-- An edit that filters every queue filters the log. -/
theorem edit (h : Holds r log) {edit : List BlockedClient → List BlockedClient}
    {keep : BlockedClient → Bool} (hedit : ∀ clients, edit clients = clients.filter keep) :
    Holds (r.editQueues edit) (log.filter fun e => keep e.2) where
  queues key := by
    rw [get?_editQueues, queueOf_filter, h.queues]
    by_cases hnil : queueOf log key = []
    · simp [hnil]
    · rw [if_neg hnil, Option.map_some, hedit]
      simp only [Option.some.injEq]
  keys key := by
    rw [contains_editQueues, queueOf_filter, h.queues, h.keys]
    by_cases hnil : queueOf log key = []
    · simp [hnil]
    · rw [if_neg hnil, Option.map_some, hedit]
      simp [hnil]

theorem pop (h : Holds r log) (key : Key) : Holds (r.popFirstWaiter key).2 (dropFirst log key) := by
  unfold popFirstWaiter
  by_cases hnil : queueOf log key = []
  · have hnone : r.blockedOnKey.get? key = none := by rw [h.queues, if_pos hnil]
    have hsame : ∀ key', queueOf (dropFirst log key) key' = queueOf log key' := by
      intro key'
      rw [queueOf_dropFirst]
      split
      · next hk => rw [hk, hnil, List.tail_nil]
      · rfl
    simp only [hnone]
    exact ⟨fun key' => by rw [hsame, h.queues], fun key' => by rw [hsame, h.keys]⟩
  · have hsome : r.blockedOnKey.get? key = some (queueOf log key) := by rw [h.queues, if_neg hnil]
    simp only [hsome]
    split
    · next hempty =>
        have htail : (queueOf log key).tail = [] := List.isEmpty_iff.mp hempty
        constructor
        · intro key'
          rw [Map.get?_del, queueOf_dropFirst, h.queues]
          by_cases hk : key' = key
          · simp [hk, htail]
          · simp [hk]
        · intro key'
          rw [Map.contains, Map.get?_del, queueOf_dropFirst]
          by_cases hk : key' = key
          · simp [hk, htail]
          · simp [hk, ← h.keys, Map.contains]
    · next hmore =>
        have htail : (queueOf log key).tail ≠ [] := fun he => hmore (List.isEmpty_iff.mpr he)
        constructor
        · intro key'
          rw [Map.get?_set, queueOf_dropFirst, h.queues]
          by_cases hk : key' = key
          · simp [hk, htail]
          · simp [hk]
        · intro key'
          rw [queueOf_dropFirst, h.keys]
          by_cases hk : key' = key
          · simp [hk, htail, hnil]
          · simp [hk]

/-- What one call does to the registry it does to the log. -/
theorem step (h : Holds r log) (e : RegistryEvent) : Holds (r.step e) (remaining log e) := by
  cases e with
  | register client keys => exact h.register client keys
  | unregister id => exact h.edit fun _ => rfl
  | pop key => exact h.pop key
  | expire now => exact h.edit fun clients => congrArg Prod.fst (removeExpired_eq now clients)

/-- Every run keeps the registry and the log in step. -/
theorem run (h : Holds r log) (es : List RegistryEvent) :
    Holds (es.foldl BlockingRegistry.step r) (es.foldl remaining log) := by
  induction es generalizing r log with
  | nil => exact h
  | cons e es ih => exact ih (h.step e)

/-- The ids that expiry reports, in another order than the log has them. -/
theorem expired_perm (h : Holds r log) (now : Instant) :
    (r.getExpiredClientsLoop now).1.Perm
      ((log.filter fun e => expired now e.2).map fun e => e.2.connId) := by
  have hqueue : ∀ p ∈ r.blockedOnKey.toPairs, p.2 = queueOf log p.1 := by
    intro p hp
    rw [← h.waiters, BlockingRegistry.waiters, Map.mem_toPairs.mp hp, Option.getD_some]
  have hcover : ∀ e ∈ log.filter fun e => expired now e.2, e.1 ∈ r.blockedOnKey.keyList := by
    intro e he
    have hne : queueOf log e.1 ≠ [] := fun hnil =>
      queueOf_eq_nil.mp hnil e (List.mem_of_mem_filter he) rfl
    exact Map.mem_keyList.mpr ⟨_, (h.queues e.1).trans (if_neg hne)⟩
  have hall := (perm_queueOf r.blockedOnKey.nodup_keyList hcover).map BlockedClient.connId
  rw [List.map_flatMap, List.map_map, Map.keyList, List.flatMap_map] at hall
  refine List.Perm.trans ?_ hall
  refine List.Perm.flatMap_left _ fun p hp => ?_
  rw [removeExpired_eq, queueOf_filter, ← hqueue p hp]
  exact List.reverse_perm _

end Holds

/-- A call takes registrations away or adds new ones at the end. -/
theorem remaining_sublist (log : List Registration) (e : RegistryEvent) :
    (remaining log e).Sublist (log ++ registrations e) := by
  cases e with
  | register client keys => exact List.Sublist.refl _
  | unregister id => exact List.filter_sublist.trans (List.sublist_append_left _ _)
  | pop key => exact List.eraseP_sublist.trans (List.sublist_append_left _ _)
  | expire now => exact List.filter_sublist.trans (List.sublist_append_left _ _)

/-- What remains after a run is in the order in which it was registered. -/
theorem foldl_remaining_sublist (es : List RegistryEvent) (log : List Registration) :
    (es.foldl remaining log).Sublist (log ++ es.flatMap registrations) := by
  induction es generalizing log with
  | nil => simp
  | cons e es ih =>
      refine (ih (remaining log e)).trans ?_
      rw [List.flatMap_cons, ← List.append_assoc]
      exact (remaining_sublist log e).append (List.Sublist.refl _)

/-! ## The loops and the filters -/

/-- The loops leave the queues that `retain` leaves. -/
theorem waiters_editQueues (r : BlockingRegistry) {edit : List BlockedClient → List BlockedClient}
    {keep : BlockedClient → Bool} (hedit : ∀ clients, edit clients = clients.filter keep) (key : Key) :
    (r.editQueues edit).waiters key = (r.retain keep).waiters key := by
  rw [waiters_retain, waiters, get?_editQueues, waiters]
  cases hq : r.blockedOnKey.get? key with
  | none => rfl
  | some clients =>
      rw [Option.map_some, hedit, Option.getD_some]
      split
      · next hempty => exact (Option.some.inj hempty).symm
      · rfl

theorem waiters_unregisterClientLoop (r : BlockingRegistry) (id : ConnId) (key : Key) :
    (r.unregisterClientLoop id).waiters key = (r.unregisterClient id).waiters key :=
  r.waiters_editQueues (fun _ => rfl) key

/-- Removal by positions reports what the filters report, and leaves the same. -/
theorem getExpiredClientsLoop_eq (r : BlockingRegistry) (now : Instant) :
    (r.getExpiredClientsLoop now).1 = (r.getExpiredClients now).1 ∧
    ∀ key, (r.getExpiredClientsLoop now).2.waiters key = (r.getExpiredClients now).2.waiters key := by
  have hedit : ∀ clients, (removeExpired now clients).1 =
      clients.filter fun client => !expired now client :=
    fun clients => congrArg Prod.fst (removeExpired_eq now clients)
  refine ⟨?_, fun key => r.waiters_editQueues hedit key⟩
  simp only [getExpiredClientsLoop, getExpiredClients, removeExpired_eq]

/-! ## Every run -/

/-- After any run of calls on an empty registry the set holds exactly the keys
with a queue that is not empty, and no queue is empty; every queue is what
remains of the registrations for its key, in the order they came; a pop answers
the earliest of them and takes it away; expiry reports each client whose deadline
has passed, once for every queue it stands in, and takes away exactly these. -/
theorem registry_run (es : List RegistryEvent) :
    let r := es.foldl step new
    let log := es.foldl remaining []
    (∀ key, r.hasBlockedClients key = true ↔
      ∃ clients, r.blockedOnKey.get? key = some clients ∧ clients ≠ []) ∧
    (∀ key clients, r.blockedOnKey.get? key = some clients → clients ≠ []) ∧
    log.Sublist (es.flatMap registrations) ∧
    (∀ key, r.waiters key = queueOf log key) ∧
    (∀ key, (r.popFirstWaiter key).1 = (log.find? fun e => e.1 = key).map Prod.snd ∧
      ∀ key', (r.popFirstWaiter key).2.waiters key' =
        if key' = key then (r.waiters key').tail else r.waiters key') ∧
    (∀ now, (r.getExpiredClientsLoop now).1.Perm
        ((log.filter fun e => expired now e.2).map fun e => e.2.connId) ∧
      ∀ key, (r.getExpiredClientsLoop now).2.waiters key =
        (r.waiters key).filter fun client => !expired now client) := by
  intro r log
  have h : Holds r log := Holds.new.run es
  have hnone : ∀ key clients, r.blockedOnKey.get? key = some clients → clients ≠ [] := by
    intro key clients hc hnil
    rw [h.queues] at hc
    split at hc
    · cases hc
    · next hne => exact hne (Option.some.inj (hc.trans (congrArg some hnil)))
  refine ⟨fun key => ?_, hnone, foldl_remaining_sublist es [], h.waiters, fun key => ⟨?_, ?_⟩,
    fun now => ⟨h.expired_perm now, fun key => ?_⟩⟩
  · refine (h.keys key).trans ⟨fun hne => ⟨_, (h.queues key).trans (if_neg hne), hne⟩, ?_⟩
    rintro ⟨clients, hc, hne⟩ hnil
    rw [h.queues, if_pos hnil] at hc
    cases hc
  · rw [popFirstWaiter_fst, h.waiters, head?_queueOf]
  · exact waiters_popFirstWaiter key
  · rw [(r.getExpiredClientsLoop_eq now).2 key]
    exact waiters_retain _ key

end BlockingRegistry

end Ferrous
