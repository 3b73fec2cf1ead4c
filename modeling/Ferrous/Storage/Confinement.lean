/-
# `Storage.Confinement` — operations that name one database

An operation that names a database reads and writes the shards of this one.  So a program whose
operations all name `db` leaves the other databases as they are, and answers the same on two
stores that have the same `db`; only the counter of memory is shared, which is no matter as long
as it has no limit.
-/
import Ferrous.Commands.Failures
import Ferrous.Lib.Lockstep

namespace Ferrous

open Lib

/-! ## Which database -/

/-- The databases an operation on several keys names are these; the counter of memory, which is
the sum of all of them, is not asked for. -/
def StoreCmd.Names (dbs : Nat → Prop) {α : Type} : StoreCmd α → Prop
  | getAllKeys db => dbs db
  | keys db _ => dbs db
  | scan db _ _ _ _ => dbs db
  | sunion db _ => dbs db
  | sinter db _ => dbs db
  | sdiff db _ => dbs db
  | xread db _ _ _ => dbs db
  | rename db _ _ => dbs db
  | flushDb db => dbs db
  | registerWatch db _ => dbs db
  | unregisterWatch db _ => dbs db
  | wasModifiedSince db _ _ => dbs db
  | databaseCount => True
  | memoryUsage => False
  | systemTime => True
  | draw _ => True

@[inherit_doc StoreCmd.Names]
def Op.Names (dbs : Nat → Prop) {α : Type} : Op α → Prop
  | .key db _ _ => dbs db
  | .store c => c.Names dbs

theorem Op.Names.mono {dbs dbs' : Nat → Prop} (h : ∀ db, dbs db → dbs' db) {α : Type} {o : Op α}
    (ho : o.Names dbs) : o.Names dbs' := by
  cases o with
  | key db key c => exact h db ho
  | store c =>
      cases c
      case memoryUsage => cases ho
      case databaseCount => trivial
      case systemTime => trivial
      case draw => trivial
      all_goals exact h _ ho

/-! ## The other databases -/

namespace Engine

theorem database_eq_of_shardAt {e e' : Engine} {j : Nat} (h : ∀ i, e'.shardAt j i = e.shardAt j i) :
    e'.databases[j]? = e.databases[j]? := by
  have hall : ∀ i, (e'.databases[j]?).map (· i) = (e.databases[j]?).map (· i) := h
  cases hd : e.databases[j]? with
  | none =>
      have h₀ := hall 0
      rw [hd] at h₀
      exact Option.map_eq_none_iff.mp h₀
  | some d =>
      cases hd' : e'.databases[j]? with
      | none =>
          have h₀ := hall 0
          rw [hd, hd'] at h₀
          cases h₀
      | some d' =>
          refine congrArg some (funext fun i => ?_)
          have hi := hall i
          rw [hd, hd'] at hi
          exact Option.some.inj hi

end Engine

theorem StoreCmd.onShard_of_names {dbs : Nat → Prop} {j : Nat} (hj : ¬ dbs j) {α : Type} {c : StoreCmd α}
    (hc : c.Names dbs) (e : Engine) (i : Fin shardsPerDatabase) (sh : Shard) : c.onShard e j i sh = sh := by
  have hne : ∀ {db : Nat}, dbs db → j ≠ db := fun hdb hjdb => hj (hjdb ▸ hdb)
  cases c with
  | rename db old new =>
      have hdb : j ≠ db := hne hc
      simp only [onShard, hdb, false_and, if_false]
      split
      · rfl
      · rfl
  | flushDb db => exact if_neg (hne hc)
  | registerWatch db k => exact if_neg fun h => hne hc h.1
  | unregisterWatch db k => exact if_neg fun h => hne hc h.1
  | _ => rfl

/-- An operation leaves a database it does not name as it is. -/
theorem Op.run_other {dbs : Nat → Prop} {j : Nat} (hj : ¬ dbs j) {α : Type} {o : Op α} (ho : o.Names dbs)
    (ctx : Ctx) (e : Engine) : (o.run ctx e).2.databases[j]? = e.databases[j]? := by
  refine Engine.database_eq_of_shardAt fun i => ?_
  rw [o.run_shardAt]
  have hid : (fun sh => o.onShard ctx e j i sh) = id := by
    funext sh
    cases o with
    | key db key c =>
        refine if_neg ?_
        rintro ⟨rfl, -⟩
        exact hj ho
    | store c => exact StoreCmd.onShard_of_names hj ho e i sh
  rw [hid, Option.map_id_fun, id]

/-! ## Two stores with a database in common -/

/-- The two stores are of one size, have the same of these databases, and no limit of memory. -/
structure Engine.Agrees (dbs : Nat → Prop) (e e' : Engine) : Prop where
  size : e.databases.length = e'.databases.length
  same : ∀ db, dbs db → e.databases[db]? = e'.databases[db]?
  unlimited : e.memory.maxMemory = 0 ∧ e'.memory.maxMemory = 0

namespace Engine.Agrees

variable {dbs : Nat → Prop} {e e' : Engine}

theorem shardAt (h : e.Agrees dbs e') {db : Nat} (hdb : dbs db) (i : Fin shardsPerDatabase) :
    e.shardAt db i = e'.shardAt db i := by
  rw [Engine.shardAt, Engine.shardAt, h.same db hdb]

theorem entryAt (h : e.Agrees dbs e') {db : Nat} (hdb : dbs db) (key : Key) :
    e.entryAt db key = e'.entryAt db key := by
  rw [Engine.entryAt_eq, Engine.entryAt_eq, h.shardAt hdb]

theorem refuses (h : e.Agrees dbs e') {α : Type} (st : KeyStep α) : e.refuses st = e'.refuses st := by
  rw [Engine.refuses_of_unlimited h.unlimited.1, Engine.refuses_of_unlimited h.unlimited.2]

theorem reading (h : e.Agrees dbs e') {db : Nat} (hdb : dbs db) {α : Type} (f : Database → Outcome α) :
    (e.reading db f).1 = (e'.reading db f).1 := by
  unfold Engine.reading
  rw [h.same db hdb]
  split
  · rfl
  · rfl

/-- The answer of an operation on one key. -/
theorem withEntry (h : e.Agrees dbs e') {db : Nat} (hdb : dbs db) {α : Type} (key : Key) (ctx : Ctx) (f : KeyOp α) :
    (e.withEntry db key ctx f).1 = (e'.withEntry db key ctx f).1 := by
  cases hsh : e.shardAt db (getShardIndex key) with
  | none =>
      have hsh' := hsh
      rw [h.shardAt hdb] at hsh'
      unfold Engine.withEntry
      rw [Engine.shard?_eq_shardAt, hsh, Engine.shard?_eq_shardAt, hsh']
  | some sh =>
      have hsh' := hsh
      rw [h.shardAt hdb] at hsh'
      rw [Engine.withEntry_result ctx f hsh, Engine.withEntry_result ctx f hsh', h.refuses]

/-- The answer of an operation on several keys. -/
theorem store (h : e.Agrees dbs e') {α : Type} {c : StoreCmd α} (hc : c.Names dbs) (ctx : Ctx) :
    (c.run ctx e).1 = (c.run ctx e').1 := by
  have hshard {db : Nat} (hdb : dbs db) (key : Key) : e.shard? db key = e'.shard? db key := h.shardAt hdb _
  cases c with
  | getAllKeys db => exact h.reading hc _
  | keys db pattern => exact h.reading hc _
  | scan db cursor pattern typeFilter count => exact h.reading hc _
  | sunion db ks =>
      simp only [StoreCmd.run, Engine.sunion]
      split
      · rfl
      · exact h.reading hc _
  | sinter db ks =>
      simp only [StoreCmd.run, Engine.sinter]
      split
      · rfl
      · exact h.reading hc _
  | sdiff db ks =>
      simp only [StoreCmd.run, Engine.sdiff]
      split
      · rfl
      · exact h.reading hc _
  | xread db ks count block =>
      simp only [StoreCmd.run, Engine.xread]
      split
      · rfl
      · split
        · rfl
        · exact h.reading hc _
  | rename db old new =>
      simp only [StoreCmd.run, Engine.rename_fst, h.entryAt hc, h.size]
  | flushDb db =>
      simp only [StoreCmd.run, Engine.flushDb, h.same db hc]
      split
      · rfl
      · rfl
  | registerWatch db key =>
      simp only [StoreCmd.run, Engine.registerWatch, hshard hc]
      split
      · rfl
      · rfl
  | unregisterWatch db key =>
      simp only [StoreCmd.run, Engine.unregisterWatch, hshard hc]
      split
      · rfl
      · rfl
  | wasModifiedSince db key baseline =>
      simp only [StoreCmd.run, Engine.wasModifiedSince, hshard hc]
      split
      · rfl
      · rfl
  | databaseCount => exact congrArg Outcome.ok h.size
  | memoryUsage => cases hc
  | systemTime => rfl
  | draw n => rfl

theorem onShard (h : e.Agrees dbs e') {α : Type} (o : Op α) (ctx : Ctx) {db : Nat} (hdb : dbs db)
    (i : Fin shardsPerDatabase) (sh : Shard) : o.onShard ctx e db i sh = o.onShard ctx e' db i sh := by
  cases o with
  | key db' key c => simp only [Op.onShard, h.refuses]
  | store c =>
      cases c with
      | rename db' old new =>
          simp only [Op.onShard, StoreCmd.onShard]
          by_cases heq : db = db'
          · subst heq
            rw [h.entryAt hdb]
          · simp only [heq, false_and, if_false]
            split
            · split
              · rfl
              · rfl
            · split
              · rfl
              · rfl
      | _ => rfl

/-- The databases in common stay in common. -/
theorem run (h : e.Agrees dbs e') {α : Type} (o : Op α) (ctx : Ctx) :
    (o.run ctx e).2.Agrees dbs (o.run ctx e').2 where
  size := by
    cases o with
    | key db key c =>
        exact (Engine.withEntry_databases_length e db key ctx _).trans
          (h.size.trans (Engine.withEntry_databases_length e' db key ctx _).symm)
    | store c => exact (c.run_length ctx e).trans (h.size.trans (c.run_length ctx e').symm)
  same db hdb := by
    refine Engine.database_eq_of_shardAt fun i => ?_
    rw [o.run_shardAt, o.run_shardAt, h.shardAt hdb]
    refine congrArg (Option.map · _) (funext fun sh => ?_)
    exact h.onShard o ctx hdb i sh
  unlimited := by
    cases o with
    | key db key c =>
        exact ⟨(Engine.withEntry_maxMemory e db key ctx _).trans h.unlimited.1,
          (Engine.withEntry_maxMemory e' db key ctx _).trans h.unlimited.2⟩
    | store c => exact ⟨(c.run_maxMemory ctx e).trans h.unlimited.1, (c.run_maxMemory ctx e').trans h.unlimited.2⟩

end Engine.Agrees

/-! ## Programs -/

/-- The two worlds are at the same operation, and their stores agree on these databases. -/
def World.Agrees (dbs : Nat → Prop) (w w' : World) : Prop := w.calls = w'.calls ∧ w.engine.Agrees dbs w'.engine

/-- A program that names these databases ends the same in two worlds that agree on them, and
leaves them so. -/
theorem World.Agrees.run_names {dbs : Nat → Prop} {α : Type} {p : StoreProg α} (hp : p.Uses fun _ o => o.Names dbs)
    (ω : Nat → Ctx) {w w' : World} (h : w.Agrees dbs w') :
    (p.run (World.step ω) w).1 = (p.run (World.step ω) w').1 ∧
      (p.run (World.step ω) w).2.Agrees dbs (p.run (World.step ω) w').2 := by
  refine hp.run_alike (fun β o w w' ho hw => ?_) h
  obtain ⟨hcalls, hagrees⟩ := hw
  refine ⟨?_, congrArg (· + 1) hcalls, ?_⟩
  · show (o.run (ω w.calls) w.engine).1 = (o.run (ω w'.calls) w'.engine).1
    rw [hcalls]
    cases o with
    | key db key c => exact hagrees.withEntry ho key _ _
    | store c => exact hagrees.store ho _
  · show (o.run (ω w.calls) w.engine).2.Agrees dbs (o.run (ω w'.calls) w'.engine).2
    rw [hcalls]
    exact hagrees.run o _

/-- And it leaves every other database as it is. -/
theorem World.run_other {dbs : Nat → Prop} {j : Nat} (hj : ¬ dbs j) {α : Type} {p : StoreProg α}
    (hp : p.Uses fun _ o => o.Names dbs) (ω : Nat → Ctx) (w : World) :
    (p.run (World.step ω) w).2.engine.databases[j]? = w.engine.databases[j]? :=
  hp.run_rel (R := fun w w' => w'.engine.databases[j]? = w.engine.databases[j]?) (fun _ => rfl)
    (fun _ _ _ h g => g.trans h) (fun _ _ _ ho => Op.run_other hj ho _ _) w

end Ferrous
