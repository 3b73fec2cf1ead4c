/-
# `Storage.Effects` — what an operation does to each shard

`Op.run_shardAt` says it once, for every operation and every shard: an
operation on one key carries out its step on the shard of that key (unless it
was refused memory), RENAME moves an entry, FLUSHDB empties data and index, the
watch operations touch a tracker, everything else touches nothing.  The
invariants of the later modules are read off this equation shard by shard.
-/
import Ferrous.Storage.Ops

namespace Ferrous

open Lib

/-- What a step leaves under the key. -/
def EntryStep.leaves (old : Option StoredValue) : EntryStep → Option StoredValue
  | .keep => old
  | .store sv => some sv
  | .remove => none

namespace Engine

/-- The shard at a position of a database. -/
def shardAt (e : Engine) (db : Nat) (i : Fin shardsPerDatabase) : Option Shard :=
  (e.databases[db]?).map (· i)

theorem shard?_eq_shardAt (e : Engine) (db : Nat) (key : Key) :
    e.shard? db key = e.shardAt db (getShardIndex key) := rfl

theorem entryAt_eq (e : Engine) (db : Nat) (key : Key) :
    e.entryAt db key = (e.shardAt db (getShardIndex key)).bind fun sh => sh.data.get? key := rfl

/-- Replacing the shard of a key changes that shard and no other. -/
theorem shardAt_setShard (e : Engine) (db db' : Nat) (key : Key) (sh : Shard)
    (i : Fin shardsPerDatabase) :
    (e.setShard db key sh).shardAt db' i =
      if db' = db ∧ i = getShardIndex key then (e.shardAt db' i).map fun _ => sh
      else e.shardAt db' i := by
  unfold shardAt setShard
  rw [List.getElem?_modify]
  by_cases hdb : db = db'
  · subst hdb
    cases hd : e.databases[db]? with
    | none => simp
    | some d =>
        by_cases hi : i = getShardIndex key
        · subst hi
          simp
        · simp [hi]
  · have hdb' : ¬ db' = db := fun h => hdb h.symm
    simp [hdb, hdb']

@[simp] theorem shardAt_setShard_self (e : Engine) (db : Nat) (key : Key) (sh : Shard) :
    (e.setShard db key sh).shardAt db (getShardIndex key) =
      (e.shardAt db (getShardIndex key)).map fun _ => sh := by
  rw [shardAt_setShard, if_pos ⟨rfl, rfl⟩]

theorem shardAt_setShard_ne (e : Engine) {db db' : Nat} {key : Key} {i : Fin shardsPerDatabase}
    (sh : Shard) (h : ¬ (db' = db ∧ i = getShardIndex key)) :
    (e.setShard db key sh).shardAt db' i = e.shardAt db' i := by
  rw [shardAt_setShard, if_neg h]

/-- The shards do not depend on the memory counter. -/
@[simp] theorem shardAt_memory (e : Engine) (m : MemoryManager) (db : Nat)
    (i : Fin shardsPerDatabase) : ({ e with memory := m } : Engine).shardAt db i = e.shardAt db i :=
  rfl

@[simp] theorem memory_setShard (e : Engine) (db : Nat) (key : Key) (sh : Shard) :
    (e.setShard db key sh).memory = e.memory := rfl

@[simp] theorem length_setShard (e : Engine) (db : Nat) (key : Key) (sh : Shard) :
    (e.setShard db key sh).databases.length = e.databases.length := by
  simp [setShard]

/-- The memory an operation asks for is refused. -/
def refuses {α : Type} (e : Engine) (st : KeyStep α) : Bool :=
  match st.charge with
  | some n => e.memory.exceeds n
  | none => false

/-- The answer of an operation on one key, in a database that exists. -/
theorem withEntry_result {α : Type} {e : Engine} {db : Nat} {key : Key} {sh : Shard} (ctx : Ctx)
    (f : KeyOp α) (h : e.shardAt db (getShardIndex key) = some sh) :
    (e.withEntry db key ctx f).1 =
      if e.refuses (f ctx (sh.data.get? key)) then .err (.storage .outOfMemory)
      else (f ctx (sh.data.get? key)).result := by
  have hs : e.shard? db key = some sh := h
  unfold withEntry refuses
  rw [hs]
  dsimp only
  cases (f ctx (sh.data.get? key)).charge with
  | none => rfl
  | some n =>
      dsimp only
      split <;> rfl

/-- The shards after an operation on one key. -/
theorem withEntry_shardAt {α : Type} (e : Engine) (db : Nat) (key : Key) (ctx : Ctx) (f : KeyOp α)
    (db' : Nat) (i : Fin shardsPerDatabase) :
    (e.withEntry db key ctx f).2.shardAt db' i =
      (e.shardAt db' i).map fun sh =>
        if db' = db ∧ i = getShardIndex key ∧ !e.refuses (f ctx (sh.data.get? key)) then
          sh.applyStep key (f ctx (sh.data.get? key))
        else sh := by
  unfold withEntry
  rw [shard?_eq_shardAt]
  cases hsh : e.shardAt db (getShardIndex key) with
  | none =>
      dsimp only
      by_cases hc : db' = db ∧ i = getShardIndex key
      · obtain ⟨rfl, rfl⟩ := hc
        rw [hsh]
        rfl
      · have hf : ∀ b : Bool, ¬ (db' = db ∧ i = getShardIndex key ∧ b) :=
          fun b h => hc ⟨h.1, h.2.1⟩
        simp only [hf, if_false, Option.map_id']
  | some sh =>
      dsimp only
      by_cases hc : db' = db ∧ i = getShardIndex key
      · obtain ⟨rfl, rfl⟩ := hc
        unfold refuses
        cases hch : (f ctx (sh.data.get? key)).charge with
        | none => simp [hsh, hch]
        | some n =>
            by_cases hx : e.memory.exceeds n <;> simp [hsh, hch, hx]
      · have hf : ∀ b : Bool, ¬ (db' = db ∧ i = getShardIndex key ∧ b) :=
          fun b h => hc ⟨h.1, h.2.1⟩
        simp only [hf, if_false, Option.map_id']
        cases (f ctx (sh.data.get? key)).charge with
        | none => exact shardAt_setShard_ne _ _ hc
        | some n =>
            dsimp only
            split
            · rfl
            · exact shardAt_setShard_ne _ _ hc

/-- An operation on one key changes its own database only. -/
theorem withEntry_other_database {α : Type} {e : Engine} {db db' : Nat} (h : db' ≠ db) (key : Key)
    (ctx : Ctx) (f : KeyOp α) (key' : Key) :
    (e.withEntry db key ctx f).2.entryAt db' key' = e.entryAt db' key' := by
  have hf : ∀ b : Prop, ¬ (db' = db ∧ b) := fun b hb => h hb.1
  rw [entryAt_eq, withEntry_shardAt]
  simp only [hf, if_false, Option.map_id']
  rfl

/-- An answer leaves the whole engine as it was. -/
theorem withEntry_answer {α : Type} {e : Engine} {db : Nat} {key : Key} {sh : Shard} {ctx : Ctx}
    {f : KeyOp α} {a : α} (h : e.shardAt db (getShardIndex key) = some sh)
    (hf : f ctx (sh.data.get? key) = .answer a) : e.withEntry db key ctx f = (.ok a, e) := by
  have hs : e.shard? db key = some sh := h
  obtain ⟨d, hd, rfl⟩ := Option.map_eq_some_iff.mp h
  have hself : e.databases.modify db (fun d' => Function.update d' (getShardIndex key)
      (d (getShardIndex key))) = e.databases := by
    refine List.ext_getElem? fun n => ?_
    rw [List.getElem?_modify]
    by_cases hn : db = n
    · rw [← hn, hd]
      simp
    · simp [hn]
  unfold withEntry
  rw [hs]
  simp only [hf, KeyStep.answer, setShard, Shard.applyStep, MemoryManager.remove]
  have hzero : e.memory.usedMemory - UInt64.ofNat 0 = e.memory.usedMemory := by simp
  simp only [Bool.false_eq_true, if_false, hself, hzero]

/-- On a database that does not exist nothing happens. -/
theorem withEntry_missing {α : Type} {e : Engine} {db : Nat} (hdb : ¬ db < e.databases.length) (k : Key)
    (ctx : Ctx) (f : KeyOp α) : e.withEntry db k ctx f = (.err invalidDatabase, e) := by
  unfold withEntry shard?
  rw [List.getElem?_eq_none (by omega)]
  rfl

/-- In a database that exists, the entries after an operation on one key. -/
theorem withEntry_entryAt {α : Type} {e : Engine} {db : Nat} (hdb : db < e.databases.length)
    (key : Key) (ctx : Ctx) (f : KeyOp α) (db' : Nat) (key' : Key) :
    (e.withEntry db key ctx f).2.entryAt db' key' =
      if db' = db ∧ key' = key ∧ !e.refuses (f ctx (e.entryAt db key)) then
        (f ctx (e.entryAt db key)).entry.leaves (e.entryAt db key)
      else e.entryAt db' key' := by
  have hsh : e.shardAt db (getShardIndex key) = some (e.databases[db] (getShardIndex key)) := by
    rw [shardAt, List.getElem?_eq_getElem hdb]
    rfl
  rw [entryAt_eq, withEntry_shardAt, entryAt_eq, entryAt_eq]
  by_cases hd : db' = db
  · subst hd
    by_cases hi : getShardIndex key' = getShardIndex key
    · rw [hi, hsh]
      simp only [Option.map_some, Option.bind_some, true_and]
      by_cases hr : e.refuses (f ctx ((e.databases[db'] (getShardIndex key)).data.get? key))
      · simp [hr]
      · by_cases hk : key' = key
        · subst hk
          simp only [hr, Bool.not_false, and_self, if_true, Shard.applyStep, EntryStep.leaves]
          cases (f ctx ((e.databases[db'] (getShardIndex key')).data.get? key')).entry <;> simp
        · simp only [hr, hk, Bool.not_false, if_true, if_false, false_and, Shard.applyStep]
          cases (f ctx ((e.databases[db'] (getShardIndex key)).data.get? key)).entry with
          | keep => rfl
          | store sv => exact Map.get?_set_ne _ _ hk
          | remove => exact Map.get?_del_ne _ hk
    · have hk : key' ≠ key := fun h => hi (by rw [h])
      simp [hi, hk]
  · simp [hd]

theorem withEntry_maxMemory {α : Type} (e : Engine) (db : Nat) (key : Key) (ctx : Ctx)
    (f : KeyOp α) : (e.withEntry db key ctx f).2.memory.maxMemory = e.memory.maxMemory := by
  unfold withEntry
  split
  · rfl
  · dsimp only
    split
    · rfl
    · split <;> rfl

theorem withEntry_databases_length {α : Type} (e : Engine) (db : Nat) (key : Key) (ctx : Ctx)
    (f : KeyOp α) : (e.withEntry db key ctx f).2.databases.length = e.databases.length := by
  unfold withEntry
  split
  · rfl
  · dsimp only
    split
    · exact length_setShard _ _ _ _
    · split
      · rfl
      · exact length_setShard _ _ _ _

/-- Without a limit no memory is refused. -/
theorem refuses_of_unlimited {α : Type} {e : Engine} (h : e.memory.maxMemory = 0)
    (st : KeyStep α) : e.refuses st = false := by
  unfold refuses
  split
  · simp [MemoryManager.exceeds, h]
  · rfl

end Engine

/-! ## Every operation, shard by shard -/

/-- Take an entry out of a shard, without touching its row of the index. -/
def Shard.takeOut (sh : Shard) (key : Key) : Shard := { sh with data := sh.data.del key }

/-- Put an entry into a shard and mark its key. -/
def Shard.putIn (sh : Shard) (key : Key) (sv : StoredValue) : Shard :=
  { sh with data := sh.data.set key sv, watch := sh.watch.markKeyModified key }

/-- Empty the data and the index of a shard. -/
def Shard.flush (sh : Shard) : Shard := { sh with data := ∅, expiringKeys := ∅ }

/-- What an operation on several keys does to the shard at `(db, i)`, given the
engine before it. -/
def StoreCmd.onShard {α : Type} (e : Engine) (db : Nat) (i : Fin shardsPerDatabase)
    (sh : Shard) : StoreCmd α → Shard
  | rename db' old new =>
      match e.entryAt db' old with
      | none => sh
      | some sv =>
          let sh₁ := if db = db' ∧ i = getShardIndex old then sh.takeOut old else sh
          if db = db' ∧ i = getShardIndex new then sh₁.putIn new sv else sh₁
  | flushDb db' => if db = db' then sh.flush else sh
  | registerWatch db' k =>
      if db = db' ∧ i = getShardIndex k then { sh with watch := sh.watch.registerWatch } else sh
  | unregisterWatch db' k =>
      if db = db' ∧ i = getShardIndex k then { sh with watch := sh.watch.unregisterWatch } else sh
  | _ => sh

/-- What an operation does to the shard at `(db, i)`, given the engine before it. -/
def Op.onShard {α : Type} (ctx : Ctx) (e : Engine) (db : Nat) (i : Fin shardsPerDatabase)
    (sh : Shard) : Op α → Shard
  | key db' k c =>
      if db = db' ∧ i = getShardIndex k ∧ !e.refuses (c.step k ctx (sh.data.get? k)) then
        sh.applyStep k (c.step k ctx (sh.data.get? k))
      else sh
  | store c => c.onShard e db i sh

namespace Engine

theorem reading_snd {α : Type} (e : Engine) (db : Nat) (f : Database → Outcome α) :
    (e.reading db f).2 = e := by
  unfold reading
  split <;> rfl

theorem setShard_watch_shardAt (e : Engine) (db : Nat) (key : Key) (g : WatchTracker → WatchTracker)
    (db' : Nat) (i : Fin shardsPerDatabase) {sh : Shard} (h : e.shard? db key = some sh) :
    (e.setShard db key { sh with watch := g sh.watch }).shardAt db' i =
      (e.shardAt db' i).map fun sh' =>
        if db' = db ∧ i = getShardIndex key then { sh' with watch := g sh'.watch } else sh' := by
  rw [shardAt_setShard]
  split
  · next hc =>
      obtain ⟨rfl, rfl⟩ := hc
      rw [shard?_eq_shardAt] at h
      rw [h]
      rfl
  · simp

/-- A missing database has no shard. -/
theorem shardAt_none_of_shard? {e : Engine} {db : Nat} {key : Key} (h : e.shard? db key = none)
    (i : Fin shardsPerDatabase) : e.shardAt db i = none := by
  unfold shard? at h
  unfold shardAt
  rw [Option.map_eq_none_iff] at h ⊢
  exact h

theorem rename_shardAt (e : Engine) (db : Nat) (old new : Key) (db' : Nat)
    (i : Fin shardsPerDatabase) :
    (e.rename db old new).2.shardAt db' i =
      (e.shardAt db' i).map fun sh => (StoreCmd.rename db old new).onShard e db' i sh := by
  simp only [StoreCmd.onShard]
  unfold rename
  cases hs : e.shard? db old with
  | none =>
      have he : e.entryAt db old = none := by rw [entryAt, hs]; rfl
      simp [he]
  | some sh₀ =>
      dsimp only
      cases hv : sh₀.data.get? old with
      | none =>
          have he : e.entryAt db old = none := by rw [entryAt, hs]; exact hv
          simp [he]
      | some sv =>
          have he : e.entryAt db old = some sv := by rw [entryAt, hs]; exact hv
          have hd : e.shardAt db (getShardIndex old) = some sh₀ := hs
          have hmid : ∀ j, (e.setShard db old (sh₀.takeOut old)).shardAt db' j =
              (e.shardAt db' j).map fun sh =>
                if db' = db ∧ j = getShardIndex old then sh.takeOut old else sh := by
            intro j
            rw [shardAt_setShard]
            split
            · next hc =>
                obtain ⟨rfl, rfl⟩ := hc
                rw [hd]
                rfl
            · simp
          have htake : ({ sh₀ with data := sh₀.data.del old } : Shard) = sh₀.takeOut old := rfl
          simp only [he, htake]
          cases hn : (e.setShard db old (sh₀.takeOut old)).shard? db new with
          | none =>
              have := shardAt_none_of_shard? hn (getShardIndex old)
              rw [shardAt_setShard_self, hd] at this
              cases this
          | some shn =>
              change ((e.setShard db old (sh₀.takeOut old)).setShard db new (shn.putIn new sv)).shardAt db' i = _
              rw [shardAt_setShard, hmid]
              by_cases hc : db' = db ∧ i = getShardIndex new
              · obtain ⟨rfl, rfl⟩ := hc
                rw [shard?_eq_shardAt, hmid] at hn
                cases hsh : e.shardAt db' (getShardIndex new) with
                | none => rw [hsh] at hn; cases hn
                | some sh =>
                    rw [hsh] at hn
                    simp only [Option.map_some, Option.some.injEq] at hn
                    simp [← hn]
              · simp [hc]

theorem flushDb_shardAt (e : Engine) (db db' : Nat) (i : Fin shardsPerDatabase) :
    (e.flushDb db).2.shardAt db' i =
      (e.shardAt db' i).map fun sh => if db' = db then sh.flush else sh := by
  unfold flushDb
  cases hd : e.databases[db]? with
  | none =>
      by_cases h : db' = db
      · subst h
        simp [shardAt, hd]
      · simp [h]
  | some d =>
      dsimp only
      unfold shardAt
      rw [List.getElem?_set]
      by_cases h : db = db'
      · subst h
        have hlt : db < e.databases.length := (List.getElem?_eq_some_iff.mp hd).1
        rw [if_pos rfl, if_pos hlt, hd]
        simp only [Option.map_some, if_true, Shard.flush]
      · have h' : ¬ db' = db := fun x => h x.symm
        simp only [h, h', if_false, Option.map_id']

end Engine

/-- The shards after an operation on several keys. -/
theorem StoreCmd.run_shardAt {α : Type} (c : StoreCmd α) (ctx : Ctx) (e : Engine) (db : Nat)
    (i : Fin shardsPerDatabase) :
    (c.run ctx e).2.shardAt db i = (e.shardAt db i).map fun sh => c.onShard e db i sh := by
  cases c with
  | rename db' old new => exact Engine.rename_shardAt e db' old new db i
  | flushDb db' => exact Engine.flushDb_shardAt e db' db i
  | registerWatch db' k =>
      simp only [run, Engine.registerWatch, onShard]
      cases hs : e.shard? db' k with
      | none =>
          by_cases hdb : db = db'
          · subst hdb
            simp [Engine.shardAt_none_of_shard? hs]
          · simp [hdb]
      | some sh => exact Engine.setShard_watch_shardAt e db' k _ db i hs
  | unregisterWatch db' k =>
      simp only [run, Engine.unregisterWatch, onShard]
      cases hs : e.shard? db' k with
      | none =>
          by_cases hdb : db = db'
          · subst hdb
            simp [Engine.shardAt_none_of_shard? hs]
          · simp [hdb]
      | some sh => exact Engine.setShard_watch_shardAt e db' k _ db i hs
  | getAllKeys db' => simp [run, Engine.getAllKeys, Engine.reading_snd, onShard]
  | keys db' pattern => simp [run, Engine.keys, Engine.reading_snd, onShard]
  | scan db' cursor pattern typeFilter count =>
      simp [run, Engine.scan, Engine.reading_snd, onShard]
  | sunion db' ks =>
      simp only [run, Engine.sunion, onShard, Option.map_id']
      split <;> simp [Engine.reading_snd]
  | sinter db' ks =>
      simp only [run, Engine.sinter, onShard, Option.map_id']
      split <;> simp [Engine.reading_snd]
  | sdiff db' ks =>
      simp only [run, Engine.sdiff, onShard, Option.map_id']
      split <;> simp [Engine.reading_snd]
  | xread db' ks count block =>
      simp only [run, Engine.xread, onShard, Option.map_id']
      split
      · rfl
      · split <;> simp [Engine.reading_snd]
  | wasModifiedSince db' k baseline =>
      simp only [run, Engine.wasModifiedSince, onShard, Option.map_id']
      split <;> rfl
  | _ => simp [run, onShard]

/-- No operation makes or drops a database. -/
theorem StoreCmd.run_length {α : Type} (c : StoreCmd α) (ctx : Ctx) (e : Engine) :
    (c.run ctx e).2.databases.length = e.databases.length := by
  have hlen (e' : Engine) (h : ∀ db i, (e'.shardAt db i).isSome = (e.shardAt db i).isSome) :
      e'.databases.length = e.databases.length := by
    have hiff : ∀ n, n < e'.databases.length ↔ n < e.databases.length := by
      intro n
      have hn := h n 0
      have hsome (l : List Database) : l[n]?.isSome = true ↔ n < l.length := by simp
      simp only [Engine.shardAt, Option.isSome_map] at hn
      rw [← hsome, ← hsome, hn]
    have h₁ := hiff e'.databases.length
    have h₂ := hiff e.databases.length
    omega
  exact hlen _ fun db i => by rw [c.run_shardAt ctx e, Option.isSome_map]

/-- The shards after any operation. -/
theorem Op.run_shardAt {α : Type} (o : Op α) (ctx : Ctx) (e : Engine) (db : Nat)
    (i : Fin shardsPerDatabase) :
    (o.run ctx e).2.shardAt db i = (e.shardAt db i).map fun sh => o.onShard ctx e db i sh := by
  cases o with
  | key db' k c => exact Engine.withEntry_shardAt e db' k ctx (c.step k) db i
  | store c => exact c.run_shardAt ctx e db i

namespace Engine

/-- The entries after a RENAME. -/
theorem rename_entryAt (e : Engine) (db : Nat) (old new : Key) (db' : Nat) (key : Key) :
    (e.rename db old new).2.entryAt db' key =
      match e.entryAt db old with
      | none => e.entryAt db' key
      | some sv => if db' = db ∧ key = new then some sv
          else if db' = db ∧ key = old then none else e.entryAt db' key := by
  rw [entryAt_eq, rename_shardAt]
  cases hold : e.entryAt db old with
  | none => simp [StoreCmd.onShard, hold, ← entryAt_eq]
  | some sv =>
      dsimp only
      rw [entryAt_eq e db' key]
      cases hsh : e.shardAt db' (getShardIndex key) with
      | none =>
          -- a database that holds the old key has every shard
          have hne : ¬ db' = db := by
            rintro rfl
            obtain ⟨sh, hs, -⟩ := Option.bind_eq_some_iff.mp hold
            obtain ⟨d, hd, -⟩ := Option.map_eq_some_iff.mp hs
            rw [shardAt, hd] at hsh
            cases hsh
          simp [hne]
      | some sh =>
          simp only [Option.map_some, Option.bind_some, StoreCmd.onShard, hold]
          by_cases hdb : db' = db
          · subst hdb
            by_cases hn : key = new
            · subst hn
              simp [Shard.putIn]
            · simp only [hn, and_false, if_false, true_and]
              by_cases ho : key = old
              · subst ho
                by_cases hi : getShardIndex key = getShardIndex new
                · simp [hi, Shard.putIn, Shard.takeOut, Map.get?_set_ne _ _ hn]
                · simp [hi, Shard.takeOut]
              · simp only [ho, if_false]
                split <;> split <;>
                  simp [Shard.putIn, Shard.takeOut, Map.get?_set_ne _ _ hn, Map.get?_del_ne _ ho]
          · simp [hdb]

/-- The answer of a RENAME. -/
theorem rename_fst (e : Engine) (db : Nat) (old new : Key) :
    (e.rename db old new).1 =
      if db < e.databases.length then
        match e.entryAt db old with
        | none => .err (.command .noSuchKey)
        | some _ => .ok ()
      else .err invalidDatabase := by
  unfold rename
  by_cases hdb : db < e.databases.length
  · have hd : e.databases[db]? = some e.databases[db] := List.getElem?_eq_getElem hdb
    have hs : e.shard? db old = some (e.databases[db] (getShardIndex old)) := by
      rw [shard?, hd]
      rfl
    rw [if_pos hdb, hs, entryAt, hs]
    dsimp only [Option.bind_some]
    cases (e.databases[db] (getShardIndex old)).data.get? old with
    | none => rfl
    | some sv =>
        dsimp only
        cases hn : (e.setShard db old { e.databases[db] (getShardIndex old) with
            data := (e.databases[db] (getShardIndex old)).data.del old }).shard? db new with
        | some sh => rfl
        | none =>
            have hnone := shardAt_none_of_shard? hn (getShardIndex old)
            rw [shardAt_setShard_self, ← shard?_eq_shardAt, hs] at hnone
            cases hnone
  · have hs : e.shard? db old = none := by
      rw [shard?, List.getElem?_eq_none (by omega)]
      rfl
    rw [if_neg hdb, hs]

/-- The entries after a FLUSHDB. -/
theorem flushDb_entryAt (e : Engine) (db db' : Nat) (key : Key) :
    (e.flushDb db).2.entryAt db' key = if db' = db then none else e.entryAt db' key := by
  rw [entryAt_eq, flushDb_shardAt, entryAt_eq]
  by_cases h : db' = db
  · cases e.shardAt db' (getShardIndex key) <;> simp [h, Shard.flush]
  · simp [h]

/-- The watch operations leave every entry alone. -/
theorem setShard_watch_entryAt (e : Engine) (db : Nat) (key : Key)
    (g : WatchTracker → WatchTracker) {sh : Shard} (h : e.shard? db key = some sh) (db' : Nat)
    (key' : Key) :
    (e.setShard db key { sh with watch := g sh.watch }).entryAt db' key' = e.entryAt db' key' := by
  rw [entryAt_eq, setShard_watch_shardAt e db key g db' _ h, entryAt_eq]
  cases e.shardAt db' (getShardIndex key') with
  | none => rfl
  | some sh' =>
      simp only [Option.map_some, Option.bind_some]
      split <;> rfl

end Engine

end Ferrous
