/-
# `Commands.BuiltSets` — the sorted sets of a store are built

A skip list is made by `new` and changed by `insert` and `remove`, and nothing else puts one
together.  So a sorted set that is stored has come about by these, whatever operations and
cleanup phases the store has seen, as long as a sorted set that is handed to SET has.
-/
import Ferrous.Commands.Failures
import Ferrous.Storage.SkipScores

namespace Ferrous

open Lib

/-- A sorted set is built by insertions and removals. -/
def Value.Built : Value → Prop
  | .sortedSet z => z.Built
  | _ => True

/-- The sorted sets of the store are built by insertions and removals. -/
def Engine.ZsetsBuilt (e : Engine) : Prop :=
  ∀ db key z t, e.entryAt db key = some ⟨.sortedSet z, t⟩ → z.Built

/-- What is under the key, if anything, is built. -/
def BuiltEntry (entry : Option StoredValue) : Prop := ∀ sv, entry = some sv → sv.value.Built

theorem builtEntry_none : BuiltEntry none := nofun

theorem builtEntry_some {sv : StoredValue} (h : sv.value.Built) : BuiltEntry (some sv) := by
  rintro _ ⟨⟩
  exact h

theorem Engine.zsetsBuilt_iff {e : Engine} : e.ZsetsBuilt ↔ ∀ db key, BuiltEntry (e.entryAt db key) := by
  constructor
  · rintro h db key ⟨v, t⟩ hsv
    cases v with
    | sortedSet z => exact h db key z t hsv
    | _ => trivial
  · exact fun h db key z t hz => h db key _ hz

/-- A value that is set whole is built; the other commands get none. -/
def KeyCmd.SetsBuilt {α : Type} : KeyCmd α → Prop
  | setValue value _ => value.Built
  | _ => True

@[inherit_doc KeyCmd.SetsBuilt]
def CleanupEvent.SetsBuilt : CleanupEvent → Prop
  | .op (.key _ _ c) _ => c.SetsBuilt
  | _ => True

/-! ## One entry -/

/-- The step leaves what is built. -/
def KeyStep.Builds {α : Type} (entry : Option StoredValue) (st : KeyStep α) : Prop :=
  BuiltEntry (st.entry.leaves entry)

namespace KeyStep

variable {α : Type} {entry : Option StoredValue} {st : KeyStep α}

theorem builds_of_keep (h : BuiltEntry entry) (hst : st.entry = .keep) : st.Builds entry := by
  unfold Builds
  rw [hst]
  exact h

theorem builds_of_store {sv : StoredValue} (hst : st.entry = .store sv) (h : sv.value.Built) :
    st.Builds entry := by
  unfold Builds
  rw [hst]
  exact builtEntry_some h

theorem builds_of_remove (hst : st.entry = .remove) : st.Builds entry := by
  unfold Builds
  rw [hst]
  exact builtEntry_none

/-- What is left is stored, or removed if it is empty. -/
theorem builds_shrink {sv : StoredValue} {v : Value} {isEmpty marks : Bool} {a : α} (h : v.Built) :
    (shrink sv v isEmpty marks a).Builds entry := by
  cases isEmpty with
  | true => exact builds_of_remove rfl
  | false => exact builds_of_store rfl h

theorem builds_of_looks {ctx : Ctx} (h : BuiltEntry entry) (hst : st.Looks ctx entry) : st.Builds entry := by
  rcases hst with hsame | ⟨hgone, -⟩
  · unfold Builds
    rw [hsame]
    exact h
  · unfold Builds
    rw [hgone]
    exact builtEntry_none

end KeyStep

open KeyOps KeyStep in
/-- A command leaves a sorted set as it is, or changes it by an insertion or a removal. -/
theorem KeyCmd.step_builds {α : Type} {c : KeyCmd α} (hc : c.SetsBuilt) (key : Key) (ctx : Ctx)
    {entry : Option StoredValue} (h : BuiltEntry entry) : (c.step key ctx entry).Builds entry := by
  have hkeep {st : KeyStep α} (hst : st.entry = .keep) : st.Builds entry := builds_of_keep h hst
  have hzset {sv : StoredValue} {z : SkipList} (hsv : entry = some sv) (hz : sv.value = .sortedSet z) :
      z.Built := by
    have hbuilt := h sv hsv
    rwa [hz] at hbuilt
  cases hreads : c.reads with
  | true => exact builds_of_looks h (reads_looks hreads key ctx entry)
  | false =>
      cases c with
      | setStringNx value =>
          simp only [step, KeyOps.setStringNx]
          split
          · exact hkeep rfl
          · exact builds_of_store rfl trivial
      | setStringNxEx value d =>
          simp only [step, KeyOps.setStringNxEx]
          split
          · exact hkeep rfl
          · split
            · exact builds_of_store rfl trivial
            · exact hkeep rfl
      | setValue value d =>
          cases d with
          | none => exact builds_of_store rfl hc
          | some d =>
              simp only [step, KeyOps.setValue]
              split
              · exact builds_of_store rfl hc
              · exact hkeep rfl
      | delete =>
          simp only [step, KeyOps.delete]
          split
          · exact hkeep rfl
          · exact builds_of_remove rfl
      | expire d =>
          simp only [step, KeyOps.expire]
          split
          · exact hkeep rfl
          · next sv =>
              have hsv : sv.value.Built := h sv rfl
              split
              · exact hkeep rfl
              · split
                · exact builds_of_store rfl hsv
                · exact builds_of_store rfl hsv
      | persist =>
          simp only [step, KeyOps.persist]
          split
          · exact hkeep rfl
          · next sv =>
              have hsv : sv.value.Built := h sv rfl
              split
              · exact hkeep rfl
              · exact builds_of_store rfl hsv
      | incrBy n =>
          simp only [step, KeyOps.incrBy]
          split
          · split
            · exact hkeep rfl
            · split
              · exact builds_of_store rfl trivial
              · exact hkeep rfl
          · exact builds_of_store rfl trivial
      | append value =>
          exact onString_rule (P := fun st => st.Builds entry) ctx (fun _ => builds_of_store rfl trivial)
            (fun _ _ _ _ => builds_of_store rfl trivial) (hkeep rfl)
      | setrange offset value =>
          refine onString_rule (P := fun st => st.Builds entry) ctx (fun _ => ?_) (fun _ _ _ _ => ?_) (hkeep rfl)
          · split
            · exact hkeep rfl
            · exact builds_of_store rfl trivial
          · split
            · exact hkeep rfl
            · exact builds_of_store rfl trivial
      | lpush elements =>
          exact onList_rule (P := fun st => st.Builds entry) ctx (fun _ => builds_of_store rfl trivial)
            (fun _ _ _ _ => builds_of_store rfl trivial) (hkeep rfl)
      | rpush elements =>
          exact onList_rule (P := fun st => st.Builds entry) ctx (fun _ => builds_of_store rfl trivial)
            (fun _ _ _ _ => builds_of_store rfl trivial) (hkeep rfl)
      | lpop =>
          exact onList_rule (P := fun st => st.Builds entry) ctx (fun _ => hkeep rfl)
            (fun _ _ _ _ => builds_shrink trivial) (hkeep rfl)
      | rpop =>
          exact onList_rule (P := fun st => st.Builds entry) ctx (fun _ => hkeep rfl)
            (fun _ _ _ _ => builds_shrink trivial) (hkeep rfl)
      | lset index value =>
          refine onList_rule (P := fun st => st.Builds entry) ctx (fun _ => hkeep rfl) (fun _ _ _ _ => ?_) (hkeep rfl)
          split
          · exact builds_of_store rfl trivial
          · exact hkeep rfl
      | ltrim start stop =>
          exact onList_rule (P := fun st => st.Builds entry) ctx (fun _ => hkeep rfl)
            (fun _ _ _ _ => builds_shrink trivial) (hkeep rfl)
      | lrem count element =>
          refine onList_rule (P := fun st => st.Builds entry) ctx (fun _ => hkeep rfl) (fun _ _ _ _ => ?_) (hkeep rfl)
          split
          · exact hkeep rfl
          · exact builds_shrink trivial
      | sadd members =>
          exact onSet_rule (P := fun st => st.Builds entry) ctx (fun _ => builds_of_store rfl trivial)
            (fun _ _ _ _ => builds_of_store rfl trivial) (hkeep rfl)
      | srem members =>
          exact onSet_rule (P := fun st => st.Builds entry) ctx (fun _ => hkeep rfl)
            (fun _ _ _ _ => builds_shrink trivial) (hkeep rfl)
      | spop count =>
          refine onSet_rule (P := fun st => st.Builds entry) ctx (fun _ => hkeep rfl) (fun _ _ _ _ => ?_) (hkeep rfl)
          dsimp only
          split
          · exact hkeep rfl
          · exact builds_shrink trivial
      | hset fvs =>
          exact onHash_rule (P := fun st => st.Builds entry) ctx (fun _ => builds_of_store rfl trivial)
            (fun _ _ _ _ => builds_of_store rfl trivial) (hkeep rfl)
      | hdel fields =>
          exact onHash_rule (P := fun st => st.Builds entry) ctx (fun _ => hkeep rfl)
            (fun _ _ _ _ => builds_shrink trivial) (hkeep rfl)
      | hincrby field n =>
          refine onHash_rule (P := fun st => st.Builds entry) ctx (fun _ => builds_of_store rfl trivial)
            (fun _ _ _ _ => ?_) (hkeep rfl)
          dsimp only
          split
          · exact builds_of_store rfl trivial
          · split
            · exact hkeep rfl
            · split
              · exact hkeep rfl
              · exact builds_of_store rfl trivial
      | zadd member score =>
          exact onZset_rule (P := fun st => st.Builds entry) ctx
            (fun _ => builds_of_store rfl (.insert member score ctx.level .new))
            (fun sv z hsv hz => builds_of_store rfl (.insert member score ctx.level (hzset hsv hz))) (hkeep rfl)
      | zincrby member n =>
          exact onZset_rule (P := fun st => st.Builds entry) ctx
            (fun _ => builds_of_store rfl (.insert member n ctx.level .new))
            (fun sv z hsv hz => builds_of_store rfl (.insert member _ ctx.level (hzset hsv hz))) (hkeep rfl)
      | zrem member =>
          refine onZset_rule (P := fun st => st.Builds entry) ctx (fun _ => hkeep rfl) (fun sv z hsv hz => ?_)
            (hkeep rfl)
          have hremoved : (z.remove member).2.Built := .remove member (hzset hsv hz)
          split
          · next z' hz' =>
              rw [hz'] at hremoved
              have hshrink : (shrink sv (.sortedSet z') z'.isEmpty true true).Builds entry :=
                builds_shrink hremoved
              exact hshrink
          · exact hkeep rfl
      | xadd fields =>
          exact onStream_rule (P := fun st => st.Builds entry) ctx (fun _ => builds_of_store rfl trivial)
            (fun _ _ _ _ => builds_of_store rfl trivial) (hkeep rfl)
      | xaddWithId id fields =>
          refine onStream_rule (P := fun st => st.Builds entry) ctx (fun _ => ?_) (fun _ _ _ _ => ?_) (hkeep rfl)
          · split
            · exact builds_of_store rfl trivial
            · exact hkeep rfl
          · split
            · exact builds_of_store rfl trivial
            · exact hkeep rfl
      | xtrim maxLen =>
          exact onStream_rule (P := fun st => st.Builds entry) ctx (fun _ => hkeep rfl)
            (fun _ _ _ _ => builds_of_store rfl trivial) (hkeep rfl)
      | xdel ids =>
          exact onStream_rule (P := fun st => st.Builds entry) ctx (fun _ => hkeep rfl)
            (fun _ _ _ _ => builds_of_store rfl trivial) (hkeep rfl)
      | _ =>
          first
            | (cases hreads; done)
            | exact onGroups_rule (P := fun st => st.Builds entry) ctx (hkeep rfl)
                (fun _ _ _ => builds_of_remove rfl) (fun _ _ _ _ _ => builds_of_store rfl trivial) (hkeep rfl)

/-! ## The store -/

namespace Engine.ZsetsBuilt

variable {e : Engine}

theorem withConfig (n : Nat) (m : MemoryManager) : (Engine.withConfig n m).ZsetsBuilt := by
  intro db key z t h
  rw [Engine.entryAt_withConfig] at h
  cases h

theorem key_op (h : e.ZsetsBuilt) {α : Type} {c : KeyCmd α} (hc : c.SetsBuilt) (db : Nat) (key : Key)
    (ctx : Ctx) : (e.withEntry db key ctx (c.step key)).2.ZsetsBuilt := by
  rw [Engine.zsetsBuilt_iff] at h ⊢
  by_cases hdb : db < e.databases.length
  · intro db' key'
    rw [Engine.withEntry_entryAt hdb]
    split
    · exact KeyCmd.step_builds hc key ctx (h db key)
    · exact h db' key'
  · rw [Engine.withEntry_missing hdb]
    exact h

/-- RENAME moves a sorted set, FLUSHDB removes some, the rest of the operations on several
keys store nothing. -/
theorem store_op (h : e.ZsetsBuilt) {α : Type} (c : StoreCmd α) (ctx : Ctx) : (c.run ctx e).2.ZsetsBuilt := by
  rw [Engine.zsetsBuilt_iff] at h ⊢
  intro db' key'
  cases c with
  | rename db old new =>
      rw [StoreCmd.run, Engine.rename_entryAt]
      cases hold : e.entryAt db old with
      | none => exact h db' key'
      | some sv =>
          dsimp only
          split
          · exact builtEntry_some (h db old sv hold)
          · split
            · exact builtEntry_none
            · exact h db' key'
  | flushDb db =>
      rw [StoreCmd.run, Engine.flushDb_entryAt]
      split
      · exact builtEntry_none
      · exact h db' key'
  | _ =>
      rw [StoreCmd.run_entryAt (by rfl)]
      exact h db' key'

theorem sweep (h : e.ZsetsBuilt) (db : Nat) (i : Fin shardsPerDatabase) (keys : List Key) :
    (e.sweep db i keys).ZsetsBuilt := by
  intro db' key z t hz
  refine h db' key z t ?_
  rw [Engine.entryAt_eq, Engine.sweep_shardAt] at hz
  rw [Engine.entryAt_eq]
  cases hsh : e.shardAt db' (getShardIndex key) with
  | none =>
      rw [hsh] at hz
      cases hz
  | some sh =>
      rw [hsh, Option.map_some, Option.bind_some] at hz
      split at hz
      · exact Shard.foldl_sweepOut_data keys sh hz
      · exact hz

end Engine.ZsetsBuilt

theorem CleanupState.step_zsetsBuilt {s : CleanupState} (h : s.engine.ZsetsBuilt) {ev : CleanupEvent}
    (hev : ev.SetsBuilt) : (s.step ev).engine.ZsetsBuilt := by
  cases ev with
  | op o ctx =>
      cases o with
      | key db key c => exact h.key_op hev db key ctx
      | store c => exact h.store_op c ctx
  | collect db i now => exact h
  | remove =>
      unfold CleanupState.step
      cases s.batch with
      | none => exact h
      | some b => exact h.sweep b.db b.shard b.keys

/-- Every reachable store has its sorted sets built, if SET was handed no others. -/
theorem Engine.ZsetsBuilt.of_run (n : Nat) (m : MemoryManager) {events : List CleanupEvent}
    (hevents : ∀ ev ∈ events, ev.SetsBuilt) :
    (events.foldl CleanupState.step (.initial n m)).engine.ZsetsBuilt :=
  List.foldlRecOn events CleanupState.step (motive := fun s : CleanupState => s.engine.ZsetsBuilt)
    (Engine.ZsetsBuilt.withConfig n m) fun _ h ev hev => CleanupState.step_zsetsBuilt h (hevents ev hev)

/-- Two members come into a sorted set. -/
def scoredRun : List CleanupEvent :=
  [.op (.key 0 "z".toBytes (.zadd "a".toBytes ⟨0⟩)) (.at 0), .op (.key 0 "z".toBytes (.zadd "b".toBytes ⟨0⟩)) (.at 0)]

def scoredStore : Engine := (scoredRun.foldl CleanupState.step (.initial 16 .unlimited)).engine

theorem scoredStore_built : scoredStore.ZsetsBuilt := by
  refine .of_run 16 .unlimited fun ev hev => ?_
  simp only [scoredRun, List.mem_cons, List.not_mem_nil, or_false] at hev
  rcases hev with rfl | rfl <;> trivial

/-- The set of the two. -/
def scoredSet : SkipList :=
  ((SkipList.new.insert "a".toBytes ⟨0⟩ (Ctx.at 0).level).2.insert "b".toBytes ⟨0⟩ (Ctx.at 0).level).2

theorem scoredStore_entry : scoredStore.entryAt 0 "z".toBytes = some ⟨.sortedSet scoredSet, none⟩ := by
  rfl

end Ferrous
