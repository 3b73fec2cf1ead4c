/-
# `Commands.Emptiness` — no empty collection is stored

A command that takes elements out of a list, a set, a hash or a sorted set removes the
key with the last of them, and one that puts elements in is called with at least one.
So no key holds an empty collection.  ZSCAN and the two writers of snapshots rely on it:
they take one from the length of a sorted set without a look at it.
-/
import Ferrous.Commands.Counts

namespace Ferrous

open Lib

/-! ## Values with elements -/

/-- A collection has an element; a string and a stream may be empty. -/
def Value.Filled : Value → Prop
  | .list items => items ≠ []
  | .set members => members.size ≠ 0
  | .hash fields => fields.size ≠ 0
  | .sortedSet z => z.len ≠ 0
  | .string _ => True
  | .stream _ => True

/-- Under the key there is no empty collection. -/
def FilledEntry (entry : Option StoredValue) : Prop := ∀ sv, entry = some sv → sv.value.Filled

theorem filledEntry_none : FilledEntry none := nofun

theorem filledEntry_some {sv : StoredValue} (h : sv.value.Filled) : FilledEntry (some sv) := by
  rintro _ ⟨⟩
  exact h

/-- What has the same elements has elements. -/
theorem Value.Same.filled : ∀ {a b : Value}, a.Same b → a.Filled → b.Filled
  | .string _, .string _, _, _ => trivial
  | .list _, .list _, h, ha => by
      cases h
      exact ha
  | .set _, .set _, h, ha => by
      obtain ⟨m, hm⟩ := Map.size_ne_zero_iff.mp ha
      exact Map.size_ne_zero_iff.mpr ⟨m, (h m).symm.trans hm⟩
  | .hash _, .hash _, h, ha => by
      obtain ⟨f, hf⟩ := Map.size_ne_zero_iff.mp ha
      refine Map.size_ne_zero_iff.mpr ⟨f, ?_⟩
      rw [Map.contains, ← h f]
      exact hf
  | .sortedSet a, .sortedSet b, h, ha => by
      have hlen : a.len = b.len := by rw [← a.length_items, h.1, b.length_items]
      change b.len ≠ 0
      rw [← hlen]
      exact ha
  | .stream _, .stream _, _, _ => trivial

theorem SameEntry.filled : ∀ {a b : Option StoredValue}, SameEntry a b → FilledEntry a → FilledEntry b
  | none, none, _, _ => filledEntry_none
  | some a, some _, h, ha => filledEntry_some (h.1.filled (ha a rfl))

theorem SkipList.insert_len_ne_zero (z : SkipList) (member : Bytes) (score : Float64) (level : Nat) :
    (z.insert member score level).2.len ≠ 0 := by
  change (z.1.insert member score level).2.length ≠ 0
  unfold SkipChain.insert
  cases z.1.keyIndex.get? member with
  | none => exact Nat.succ_ne_zero _
  | some old => exact Nat.succ_ne_zero _

/-! ## How the commands are called -/

/-- Where the command puts elements in there are some.  A whole value is set by SET, which
makes it a string, and by XGROUP CREATE, which makes it a stream. -/
def KeyCmd.WellCalled {α : Type} : KeyCmd α → Prop
  | lpush elements => elements ≠ []
  | rpush elements => elements ≠ []
  | sadd members => members ≠ []
  | hset fvs => fvs ≠ []
  | setValue value _ => value.Filled
  | _ => True

@[inherit_doc KeyCmd.WellCalled]
def Op.WellCalled {α : Type} : Op α → Prop
  | .key _ _ c => c.WellCalled
  | .store _ => True

@[inherit_doc KeyCmd.WellCalled]
def CleanupEvent.WellCalled : CleanupEvent → Prop
  | .op o _ => o.WellCalled
  | _ => True

/-! ## One entry -/

/-- The step leaves no empty collection. -/
def KeyStep.Fills {α : Type} (entry : Option StoredValue) (st : KeyStep α) : Prop :=
  FilledEntry (st.entry.leaves entry)

namespace KeyStep

variable {α : Type} {ctx : Ctx} {entry : Option StoredValue}

theorem fills_of_keep (h : FilledEntry entry) {st : KeyStep α} (hst : st.entry = .keep) : st.Fills entry := by
  unfold Fills
  rw [hst]
  exact h

theorem fills_of_keeps (h : FilledEntry entry) {st : KeyStep α} (hst : st.Keeps ctx entry) : st.Fills entry := by
  rcases hst with hsame | ⟨hgone, -⟩
  · exact hsame.filled h
  · unfold Fills
    rw [hgone]
    exact filledEntry_none

theorem fills_of_store {st : KeyStep α} {sv : StoredValue} (hst : st.entry = .store sv)
    (h : sv.value.Filled) : st.Fills entry := by
  unfold Fills
  rw [hst]
  exact filledEntry_some h

theorem fills_of_remove {st : KeyStep α} (hst : st.entry = .remove) : st.Fills entry := by
  unfold Fills
  rw [hst]
  exact filledEntry_none

/-- What is left is stored unless it is empty. -/
theorem fills_shrink {sv : StoredValue} {v : Value} {isEmpty marks : Bool} {a : α}
    (h : isEmpty = false → v.Filled) : (shrink sv v isEmpty marks a).Fills entry := by
  cases isEmpty with
  | true => exact fills_of_remove rfl
  | false => exact fills_of_store rfl (h rfl)

end KeyStep

namespace KeyOps

variable {α : Type} (ctx : Ctx) {entry : Option StoredValue} {absent : KeyStep α}

/-! Typed accesses to what has elements. -/

theorem onList_fills (h : FilledEntry entry) {f : StoredValue → List Bytes → KeyStep α}
    (h₀ : absent.Fills entry) (h₁ : ∀ sv items, items ≠ [] → (f sv items).Fills entry) :
    (onList absent f ctx entry).Fills entry := by
  refine onList_rule (P := fun st => st.Fills entry) ctx (fun _ => h₀) (fun sv items he hv => ?_)
    (KeyStep.fills_of_keep h rfl)
  have hsv := h sv he
  rw [hv] at hsv
  exact h₁ sv items hsv

theorem onSet_fills (h : FilledEntry entry) {f : StoredValue → FSet Bytes → KeyStep α}
    (h₀ : absent.Fills entry) (h₁ : ∀ sv s, s.size ≠ 0 → (f sv s).Fills entry) :
    (onSet absent f ctx entry).Fills entry := by
  refine onSet_rule (P := fun st => st.Fills entry) ctx (fun _ => h₀) (fun sv s he hv => ?_)
    (KeyStep.fills_of_keep h rfl)
  have hsv := h sv he
  rw [hv] at hsv
  exact h₁ sv s hsv

theorem onHash_fills (h : FilledEntry entry) {f : StoredValue → Map Bytes Bytes → KeyStep α}
    (h₀ : absent.Fills entry) (h₁ : ∀ sv m, (f sv m).Fills entry) :
    (onHash absent f ctx entry).Fills entry :=
  onHash_rule (P := fun st => st.Fills entry) ctx (fun _ => h₀) (fun sv m _ _ => h₁ sv m)
    (KeyStep.fills_of_keep h rfl)

theorem onZset_fills (h : FilledEntry entry) {f : StoredValue → SkipList → KeyStep α}
    (h₀ : absent.Fills entry) (h₁ : ∀ sv z, (f sv z).Fills entry) :
    (onZset absent f ctx entry).Fills entry :=
  onZset_rule (P := fun st => st.Fills entry) ctx (fun _ => h₀) (fun sv z _ _ => h₁ sv z)
    (KeyStep.fills_of_keep h rfl)

theorem onString_fills (h : FilledEntry entry) {f : StoredValue → Bytes → KeyStep α}
    (h₀ : absent.Fills entry) (h₁ : ∀ sv b, (f sv b).Fills entry) :
    (onString absent f ctx entry).Fills entry :=
  onString_rule (P := fun st => st.Fills entry) ctx (fun _ => h₀) (fun sv b _ _ => h₁ sv b)
    (KeyStep.fills_of_keep h rfl)

theorem onStream_fills (h : FilledEntry entry) {f : StoredValue → Stream → KeyStep α}
    (h₀ : absent.Fills entry) (h₁ : ∀ sv s, (f sv s).Fills entry) :
    (onStream absent f ctx entry).Fills entry :=
  onStream_rule (P := fun st => st.Fills entry) ctx (fun _ => h₀) (fun sv s _ _ => h₁ sv s)
    (KeyStep.fills_of_keep h rfl)

end KeyOps

open KeyOps KeyStep in
/-- A command that is called as it should be leaves no empty collection under its key. -/
theorem KeyCmd.step_fills {α : Type} {c : KeyCmd α} (hc : c.WellCalled) (key : Key) (ctx : Ctx)
    {entry : Option StoredValue} (h : FilledEntry entry) : (c.step key ctx entry).Fills entry := by
  have hkeep {st : KeyStep α} (hst : st.entry = .keep) : st.Fills entry := fills_of_keep h hst
  cases hreads : c.reads with
  | true => exact fills_of_keeps h (reads_spec hreads key ctx entry)
  | false =>
      cases c with
      | setStringNx value =>
          simp only [step, KeyOps.setStringNx]
          split
          · exact hkeep rfl
          · exact fills_of_store rfl trivial
      | setStringNxEx value d =>
          simp only [step, KeyOps.setStringNxEx]
          split
          · exact hkeep rfl
          · split
            · exact fills_of_store rfl trivial
            · exact hkeep rfl
      | setValue value d =>
          cases d with
          | none => exact fills_of_store rfl hc
          | some d =>
              simp only [step, KeyOps.setValue]
              split
              · exact fills_of_store rfl hc
              · exact hkeep rfl
      | delete =>
          simp only [step, KeyOps.delete]
          split
          · exact hkeep rfl
          · exact fills_of_remove rfl
      | expire d =>
          simp only [step, KeyOps.expire]
          split
          · exact hkeep rfl
          · next sv =>
              have hsv : sv.value.Filled := h sv rfl
              split
              · exact hkeep rfl
              · split
                · exact fills_of_store rfl hsv
                · exact fills_of_store rfl hsv
      | persist =>
          simp only [step, KeyOps.persist]
          split
          · exact hkeep rfl
          · next sv =>
              have hsv : sv.value.Filled := h sv rfl
              split
              · exact hkeep rfl
              · exact fills_of_store rfl hsv
      | incrBy n =>
          simp only [step, KeyOps.incrBy]
          split
          · split
            · exact hkeep rfl
            · split
              · exact fills_of_store rfl trivial
              · exact hkeep rfl
          · exact fills_of_store rfl trivial
      | append value =>
          exact onString_fills ctx h (fills_of_store rfl trivial) fun _ _ => fills_of_store rfl trivial
      | setrange offset value =>
          refine onString_fills ctx h ?_ fun _ _ => ?_
          · split
            · exact hkeep rfl
            · exact fills_of_store rfl trivial
          · split
            · exact hkeep rfl
            · exact fills_of_store rfl trivial
      | lpush elements =>
          have hne : elements.reverse ≠ [] := List.reverse_ne_nil_iff.mpr hc
          exact onList_fills ctx h (fills_of_store rfl hne) fun _ items _ =>
            fills_of_store rfl (List.append_ne_nil_of_left_ne_nil hne items)
      | rpush elements =>
          exact onList_fills ctx h (fills_of_store rfl hc) fun _ items _ =>
            fills_of_store rfl (List.append_ne_nil_of_right_ne_nil items hc)
      | lpop =>
          exact onList_fills ctx h (hkeep rfl) fun _ _ _ => fills_shrink List.isEmpty_eq_false_iff.mp
      | rpop =>
          exact onList_fills ctx h (hkeep rfl) fun _ _ _ => fills_shrink List.isEmpty_eq_false_iff.mp
      | lset index value =>
          refine onList_fills ctx h (hkeep rfl) fun _ items hne => ?_
          split
          · next i _ =>
              refine fills_of_store rfl ?_
              change items.set i value ≠ []
              exact fun hnil => hne ((List.set_eq_nil_iff i value).mp hnil)
          · exact hkeep rfl
      | ltrim start stop =>
          exact onList_fills ctx h (hkeep rfl) fun _ _ _ => fills_shrink List.isEmpty_eq_false_iff.mp
      | lrem count element =>
          refine onList_fills ctx h (hkeep rfl) fun _ _ _ => ?_
          split
          · exact hkeep rfl
          · exact fills_shrink List.isEmpty_eq_false_iff.mp
      | sadd members =>
          exact onSet_fills ctx h (fills_of_store rfl ((addMembers_count ∅ members).2 hc)) fun _ s _ =>
            fills_of_store rfl ((addMembers_count s members).2 hc)
      | srem members =>
          exact onSet_fills ctx h (hkeep rfl) fun _ _ _ => fills_shrink beq_eq_false_iff_ne.mp
      | spop count =>
          refine onSet_fills ctx h (hkeep rfl) fun _ _ _ => ?_
          dsimp only
          split
          · exact hkeep rfl
          · exact fills_shrink beq_eq_false_iff_ne.mp
      | hset fvs =>
          exact onHash_fills ctx h (fills_of_store rfl ((setFields_count ∅ fvs).2.1 hc)) fun _ m =>
            fills_of_store rfl ((setFields_count m fvs).2.1 hc)
      | hdel fields =>
          exact onHash_fills ctx h (hkeep rfl) fun _ _ => fills_shrink beq_eq_false_iff_ne.mp
      | hincrby field n =>
          refine onHash_fills ctx h (fills_of_store rfl (Map.size_set_ne_zero _ _ _)) fun _ m => ?_
          dsimp only
          split
          · exact fills_of_store rfl (Map.size_set_ne_zero _ _ _)
          · split
            · exact hkeep rfl
            · split
              · exact hkeep rfl
              · exact fills_of_store rfl (Map.size_set_ne_zero _ _ _)
      | zadd member score =>
          exact onZset_fills ctx h (fills_of_store rfl (SkipList.insert_len_ne_zero _ _ _ _)) fun _ z =>
            fills_of_store rfl (z.insert_len_ne_zero _ _ _)
      | zincrby member n =>
          exact onZset_fills ctx h (fills_of_store rfl (SkipList.insert_len_ne_zero _ _ _ _)) fun _ z =>
            fills_of_store rfl (z.insert_len_ne_zero _ _ _)
      | zrem member =>
          refine onZset_fills ctx h (hkeep rfl) fun sv z => ?_
          split
          · next z' _ =>
              have hshrink : (shrink sv (.sortedSet z') z'.isEmpty true true).Fills entry :=
                fills_shrink beq_eq_false_iff_ne.mp
              exact hshrink
          · exact hkeep rfl
      | xadd fields =>
          exact onStream_fills ctx h (fills_of_store rfl trivial) fun _ _ => fills_of_store rfl trivial
      | xaddWithId id fields =>
          refine onStream_fills ctx h ?_ fun _ _ => ?_
          · split
            · exact fills_of_store rfl trivial
            · exact hkeep rfl
          · split
            · exact fills_of_store rfl trivial
            · exact hkeep rfl
      | xtrim maxLen => exact onStream_fills ctx h (hkeep rfl) fun _ _ => fills_of_store rfl trivial
      | xdel ids => exact onStream_fills ctx h (hkeep rfl) fun _ _ => fills_of_store rfl trivial
      | _ =>
          first
            | (cases hreads; done)
            | exact onGroups_rule (P := fun st => st.Fills entry) ctx (hkeep rfl)
                (fun _ _ _ => fills_of_remove rfl) (fun _ _ _ _ _ => fills_of_store rfl trivial) (hkeep rfl)

/-! ## The store -/

/-- No key holds an empty collection. -/
def Engine.Filled (e : Engine) : Prop := ∀ db key, FilledEntry (e.entryAt db key)

namespace Engine.Filled

variable {e : Engine}

theorem withConfig (n : Nat) (m : MemoryManager) : (Engine.withConfig n m).Filled := by
  intro db key
  rw [Engine.entryAt_withConfig]
  exact filledEntry_none

theorem key_op (h : e.Filled) {α : Type} {c : KeyCmd α} (hc : c.WellCalled) (db : Nat) (key : Key) (ctx : Ctx) :
    (e.withEntry db key ctx (c.step key)).2.Filled := by
  by_cases hdb : db < e.databases.length
  swap
  · rw [Engine.withEntry_missing hdb]
    exact h
  intro db' key'
  rw [Engine.withEntry_entryAt hdb]
  split
  · exact KeyCmd.step_fills hc key ctx (h db key)
  · exact h db' key'

/-- A RENAME moves what is stored, and the rest of the operations on several keys only
take away. -/
theorem store_op (h : e.Filled) {α : Type} (c : StoreCmd α) (ctx : Ctx) : (c.run ctx e).2.Filled := by
  intro db' key'
  cases c with
  | rename db old new =>
      rw [StoreCmd.run, Engine.rename_entryAt]
      cases hold : e.entryAt db old with
      | none => exact h db' key'
      | some sv =>
          dsimp only
          split
          · exact filledEntry_some (h db old sv hold)
          · split
            · exact filledEntry_none
            · exact h db' key'
  | flushDb db =>
      rw [StoreCmd.run, Engine.flushDb_entryAt]
      split
      · exact filledEntry_none
      · exact h db' key'
  | _ =>
      rw [StoreCmd.run_entryAt (by rfl)]
      exact h db' key'

theorem op (h : e.Filled) {α : Type} {o : Op α} (ho : o.WellCalled) (ctx : Ctx) : (o.run ctx e).2.Filled := by
  cases o with
  | key db key c => exact h.key_op ho db key ctx
  | store c => exact h.store_op c ctx

theorem sweep (h : e.Filled) (db : Nat) (i : Fin shardsPerDatabase) (keys : List Key) :
    (e.sweep db i keys).Filled := by
  intro db' key sv hsv
  refine h db' key sv ?_
  rw [Engine.entryAt_eq, Engine.sweep_shardAt] at hsv
  rw [Engine.entryAt_eq]
  cases hsh : e.shardAt db' (getShardIndex key) with
  | none =>
      rw [hsh] at hsv
      cases hsv
  | some sh =>
      rw [hsh, Option.map_some, Option.bind_some] at hsv
      split at hsv
      · exact Shard.foldl_sweepOut_data keys sh hsv
      · exact hsv

/-- A program of well-called operations keeps the store so. -/
theorem run {ω : Nat → Ctx} {w : World} (h : w.engine.Filled) {α : Type} {p : StoreProg α}
    (hp : p.Uses fun _ o => o.WellCalled) : (p.run (World.step ω) w).2.engine.Filled :=
  hp.run_inv (I := fun w : World => w.engine.Filled) (fun _ _ _ ho h => h.op ho _) h

/-- So does what keeps the entries. -/
theorem kept {ω : Nat → Ctx} {w w' : World} (h : w.engine.Filled) (hk : Kept ω w w') : w'.engine.Filled := by
  intro db key
  rcases hk.entry db key with hsame | ⟨hgone, -⟩
  · exact hsame.filled (h db key)
  · rw [hgone]
    exact filledEntry_none

end Engine.Filled

theorem CleanupState.step_filled {s : CleanupState} (h : s.engine.Filled) {ev : CleanupEvent}
    (hev : ev.WellCalled) : (s.step ev).engine.Filled := by
  cases ev with
  | op o ctx => exact h.op hev ctx
  | collect db i now => exact h
  | remove =>
      unfold CleanupState.step
      cases s.batch with
      | none => exact h
      | some b => exact h.sweep b.db b.shard b.keys

theorem CleanupState.foldl_filled {s : CleanupState} (h : s.engine.Filled) {events : List CleanupEvent}
    (hevents : ∀ ev ∈ events, ev.WellCalled) : (events.foldl CleanupState.step s).engine.Filled := by
  induction events generalizing s with
  | nil => exact h
  | cons ev events ih =>
      rw [List.forall_mem_cons] at hevents
      exact ih (CleanupState.step_filled h hevents.1) hevents.2

/-- Some run of operations that are called as they should be, and of cleanup phases, ends
here. -/
def Engine.WellReached (e : Engine) : Prop :=
  ∃ (n : Nat) (m : MemoryManager) (events : List CleanupEvent),
    (∀ ev ∈ events, ev.WellCalled) ∧ (events.foldl CleanupState.step (.initial n m)).engine = e

namespace Engine.WellReached

variable {e : Engine}

theorem reachable : e.WellReached → e.Reachable
  | ⟨n, m, events, _, he⟩ => ⟨n, m, events, he⟩

theorem filled : e.WellReached → e.Filled
  | ⟨n, m, _, hevents, he⟩ => he ▸ CleanupState.foldl_filled (Engine.Filled.withConfig n m) hevents

theorem op (h : e.WellReached) {α : Type} {o : Op α} (ho : o.WellCalled) (ctx : Ctx) :
    (o.run ctx e).2.WellReached := by
  obtain ⟨n, m, events, hevents, rfl⟩ := h
  refine ⟨n, m, events ++ [.op o ctx], ?_, ?_⟩
  · rw [List.forall_mem_append]
    exact ⟨hevents, List.forall_mem_singleton.mpr ho⟩
  · rw [List.foldl_append]
    rfl

/-- A program of such operations leads on to such a store. -/
theorem run {ω : Nat → Ctx} {w : World} (h : w.engine.WellReached) {α : Type} {p : StoreProg α}
    (hp : p.Uses fun _ o => o.WellCalled) : (p.run (World.step ω) w).2.engine.WellReached :=
  hp.run_inv (I := fun w : World => w.engine.WellReached) (fun _ _ _ ho h => h.op ho _) h

end Engine.WellReached

end Ferrous
