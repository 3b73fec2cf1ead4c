/-
# `Storage.World` — programs over the engine, and the states it can reach

A caller of the engine is a program over its operations.  `World` is the store
a program runs on, with the number of operations carried out so far; the
`i`-th operation reads the clocks and draws of `ω i`.

`Engine.Reachable` are the stores some run of operations and cleanup phases
builds from a fresh engine.  In each of them every key lies in the shard its
hash names (`Routed`), so the keys a database lists are those that can be
looked up.
-/
import Ferrous.Storage.Expiry

namespace Ferrous

open Lib

/-- A program over the engine's operations. -/
abbrev StoreProg (α : Type) := Prog Op FerrousError α

/-- The store, and how many operations it has carried out. -/
structure World where
  engine : Engine
  calls : Nat

namespace World

/-- Carry out one operation; the `i`-th reads `ω i`. -/
def step (ω : Nat → Ctx) (β : Type) (o : Op β) (w : World) : Outcome β × World :=
  ((o.run (ω w.calls) w.engine).1, ⟨(o.run (ω w.calls) w.engine).2, w.calls + 1⟩)

end World

/-! ## Where keys lie -/

/-- Every key lies in the shard its hash names. -/
def Engine.Routed (e : Engine) : Prop :=
  ∀ db i sh key sv, e.shardAt db i = some sh → sh.data.get? key = some sv → getShardIndex key = i

namespace Engine.Routed

variable {e : Engine}

theorem key_op (h : e.Routed) {α : Type} (db : Nat) (k : Key) (c : KeyCmd α) (ctx : Ctx) :
    (e.withEntry db k ctx (c.step k)).2.Routed := by
  intro db' i sh' key sv hsh' hsv
  rw [Engine.withEntry_shardAt] at hsh'
  obtain ⟨sh, hsh, rfl⟩ := Option.map_eq_some_iff.mp hsh'
  split at hsv
  · next hc =>
      by_cases hk : key = k
      · rw [hk, hc.2.1]
      · rw [Shard.applyStep_data_ne hk] at hsv
        exact h db' i sh key sv hsh hsv
  · exact h db' i sh key sv hsh hsv

theorem store_op (h : e.Routed) {α : Type} (c : StoreCmd α) (ctx : Ctx) :
    (c.run ctx e).2.Routed := by
  intro db' i sh' key sv hsh' hsv
  rw [c.run_shardAt ctx e db' i] at hsh'
  obtain ⟨sh, hsh, rfl⟩ := Option.map_eq_some_iff.mp hsh'
  cases c with
  | rename db old new =>
      simp only [StoreCmd.onShard] at hsv
      cases hv : e.entryAt db old with
      | none =>
          rw [hv] at hsv
          exact h db' i sh key sv hsh hsv
      | some moved =>
          rw [hv] at hsv
          -- the shard the old key was taken out of holds fewer keys
          have hout : ∀ sh₁, sh₁ = (if db' = db ∧ i = getShardIndex old then sh.takeOut old else sh) →
              ∀ v, sh₁.data.get? key = some v → getShardIndex key = i := by
            rintro sh₁ rfl v hv₁
            split at hv₁
            · by_cases hk : key = old
              · rw [hk] at hv₁
                simp [Shard.takeOut] at hv₁
              · rw [Shard.takeOut, Map.get?_del_ne _ hk] at hv₁
                exact h db' i sh key v hsh hv₁
            · exact h db' i sh key v hsh hv₁
          dsimp only at hsv
          split at hsv
          · next hc =>
              by_cases hk : key = new
              · rw [hk, hc.2]
              · rw [Shard.putIn, Map.get?_set_ne _ _ hk] at hsv
                exact hout _ rfl sv hsv
          · exact hout _ rfl sv hsv
  | flushDb db =>
      simp only [StoreCmd.onShard] at hsv
      split at hsv
      · simp [Shard.flush] at hsv
      · exact h db' i sh key sv hsh hsv
  | registerWatch db k =>
      simp only [StoreCmd.onShard] at hsv
      split at hsv <;> exact h db' i sh key sv hsh hsv
  | unregisterWatch db k =>
      simp only [StoreCmd.onShard] at hsv
      split at hsv <;> exact h db' i sh key sv hsh hsv
  | _ => exact h db' i sh key sv hsh hsv

/-- Every operation keeps the keys where they belong. -/
theorem op (h : e.Routed) {α : Type} (o : Op α) (ctx : Ctx) : (o.run ctx e).2.Routed := by
  cases o with
  | key db k c => exact h.key_op db k c ctx
  | store c => exact h.store_op c ctx

theorem withConfig (n : Nat) (m : MemoryManager) : (Engine.withConfig n m).Routed := by
  intro db i sh key sv hsh hsv
  obtain ⟨d, hd, rfl⟩ := Option.map_eq_some_iff.mp hsh
  obtain rfl := List.eq_of_mem_replicate (List.mem_of_getElem? hd)
  simp [Database.new, Shard.new] at hsv

end Engine.Routed

/-- A fresh store is empty. -/
theorem Engine.entryAt_withConfig (n : Nat) (m : MemoryManager) (db : Nat) (key : Key) :
    (Engine.withConfig n m).entryAt db key = none := by
  refine Option.eq_none_iff_forall_ne_some.mpr fun sv hsv => ?_
  obtain ⟨sh, hsh, hget⟩ := Option.bind_eq_some_iff.mp hsv
  obtain ⟨d, hd, rfl⟩ := Option.map_eq_some_iff.mp hsh
  obtain rfl := List.eq_of_mem_replicate (List.mem_of_getElem? hd)
  simp [Database.new, Shard.new] at hget

theorem Shard.foldl_sweepOut_data {key : Key} {sv : StoredValue} (keys : List Key) (sh : Shard)
    (h : (keys.foldl Shard.sweepOut sh).data.get? key = some sv) : sh.data.get? key = some sv := by
  induction keys generalizing sh with
  | nil => exact h
  | cons k ks ih =>
      have hk := ih _ h
      unfold Shard.sweepOut at hk
      split at hk
      · exact hk
      · rw [Map.get?_del] at hk
        split at hk
        · cases hk
        · exact hk

theorem Engine.Routed.sweep {e : Engine} (h : e.Routed) (db : Nat) (i : Fin shardsPerDatabase)
    (keys : List Key) : (e.sweep db i keys).Routed := by
  intro db' j sh' key sv hsh' hsv
  rw [Engine.sweep_shardAt] at hsh'
  obtain ⟨sh, hsh, rfl⟩ := Option.map_eq_some_iff.mp hsh'
  split at hsv
  · exact h db' j sh key sv hsh (Shard.foldl_sweepOut_data keys sh hsv)
  · exact h db' j sh key sv hsh hsv

theorem World.run_routed {ω : Nat → Ctx} {α : Type} {p : StoreProg α} {w w' : World} {r : Outcome α}
    (h : p.run (World.step ω) w = (r, w')) (hw : w.engine.Routed) : w'.engine.Routed := by
  have hinv := Prog.run_inv (World.step ω) (I := fun w => w.engine.Routed)
    (fun _ o w h => h.op o _) p hw
  rwa [h] at hinv

/-! ## Reachable stores -/

/-- Some run of operations and cleanup phases from a fresh engine ends here. -/
def Engine.Reachable (e : Engine) : Prop :=
  ∃ (n : Nat) (m : MemoryManager) (events : List CleanupEvent),
    (events.foldl CleanupState.step (.initial n m)).engine = e

theorem CleanupState.step_routed {s : CleanupState} (h : s.engine.Routed) (ev : CleanupEvent) :
    (s.step ev).engine.Routed := by
  cases ev with
  | op o ctx => exact h.op o ctx
  | collect db i now => exact h
  | remove =>
      unfold CleanupState.step
      cases s.batch with
      | none => exact h
      | some b => exact h.sweep b.db b.shard b.keys

theorem CleanupState.foldl_routed {s : CleanupState} (hs : s.engine.Routed) (events : List CleanupEvent) :
    (events.foldl CleanupState.step s).engine.Routed := by
  induction events generalizing s with
  | nil => exact hs
  | cons ev events ih => exact ih (CleanupState.step_routed hs ev)

theorem Engine.Reachable.routed {e : Engine} (h : e.Reachable) : e.Routed := by
  obtain ⟨n, m, events, rfl⟩ := h
  exact CleanupState.foldl_routed (Engine.Routed.withConfig n m) events

/-! ## The keys of a database -/

namespace Engine

variable {e : Engine} {db : Nat} {d : Database}

theorem shardAt_of_database (hd : e.databases[db]? = some d) (i : Fin shardsPerDatabase) :
    e.shardAt db i = some (d i) := by
  rw [shardAt, hd]
  rfl

theorem entryAt_of_database (hd : e.databases[db]? = some d) (key : Key) :
    e.entryAt db key = (d (getShardIndex key)).data.get? key := by
  rw [entryAt_eq, shardAt_of_database hd]
  rfl

/-- An entry lies in a database that exists. -/
theorem lt_of_entryAt {key : Key} {sv : StoredValue} (h : e.entryAt db key = some sv) :
    db < e.databases.length := by
  obtain ⟨sh, hsh, -⟩ := Option.bind_eq_some_iff.mp h
  obtain ⟨d, hd, -⟩ := Option.map_eq_some_iff.mp hsh
  exact (List.getElem?_eq_some_iff.mp hd).1

/-- The entries a database lists are those that can be looked up. -/
theorem mem_entriesOf (h : e.Routed) (hd : e.databases[db]? = some d) {key : Key}
    {sv : StoredValue} : (key, sv) ∈ entriesOf d ↔ e.entryAt db key = some sv := by
  rw [entryAt_of_database hd, entriesOf, List.mem_flatMap]
  constructor
  · rintro ⟨i, -, hi⟩
    have hget := Map.mem_toPairs.mp hi
    rw [h db i (d i) key sv (shardAt_of_database hd i) hget]
    exact hget
  · intro hget
    exact ⟨getShardIndex key, List.mem_finRange _, Map.mem_toPairs.mpr hget⟩

/-- What holds of every listed entry holds of every entry. -/
theorem forall_entryAt (h : e.Routed) {P : Key → StoredValue → Prop}
    (hP : ∀ d ∈ e.databases, ∀ p ∈ entriesOf d, P p.1 p.2) {db : Nat} {key : Key}
    {sv : StoredValue} (hsv : e.entryAt db key = some sv) : P key sv := by
  obtain ⟨sh, hsh, -⟩ := Option.bind_eq_some_iff.mp hsv
  obtain ⟨d, hd, -⟩ := Option.map_eq_some_iff.mp hsh
  exact hP d (List.mem_of_getElem? hd) (key, sv) ((mem_entriesOf h hd).mpr hsv)

/-- No key is listed twice. -/
theorem nodup_keys_entriesOf (h : e.Routed) (hd : e.databases[db]? = some d) :
    ((entriesOf d).map Prod.fst).Nodup := by
  rw [entriesOf, List.map_flatMap]
  refine List.nodup_flatMap.mpr ⟨fun i _ => (d i).data.nodup_keyList, ?_⟩
  refine (List.nodup_finRange _).pairwise_of_forall_ne fun i _ j _ hij => ?_
  intro key hi hj
  obtain ⟨v, hv⟩ := Map.mem_keyList.mp hi
  obtain ⟨w, hw⟩ := Map.mem_keyList.mp hj
  exact hij ((h db i (d i) key v (shardAt_of_database hd i) hv).symm.trans
    (h db j (d j) key w (shardAt_of_database hd j) hw))

end Engine

end Ferrous
