/-
# `Storage.Routing` — every key in its shard, and RENAME

A key is hashed again by every operation, and the listings go over all shards
without hashing: a key in two shards would be listed twice, a key in another
shard than its own would be listed and not found.  In a reachable store neither
happens, and RENAME, which takes an entry out of one shard and puts it into
another or the same, keeps it so.
-/
import Ferrous.Storage.ExactFilters

namespace Ferrous

open Lib

namespace Engine

/-! ## The two cases of RENAME -/

/-- `rename`: one shard is changed twice, or two shards are changed. -/
def renameByShards (e : Engine) (db : Nat) (oldKey newKey : Key) : Outcome Unit × Engine :=
  match e.shard? db oldKey, e.shard? db newKey with
  | some oldShard, some newShard =>
      if getShardIndex oldKey = getShardIndex newKey then
        match oldShard.data.get? oldKey with
        | some sv => (.ok (), e.setShard db oldKey ((oldShard.takeOut oldKey).putIn newKey sv))
        | none => (.err (.command .noSuchKey), e)
      else
        match oldShard.data.get? oldKey with
        | some sv =>
            (.ok (), (e.setShard db oldKey (oldShard.takeOut oldKey)).setShard db newKey
              (newShard.putIn newKey sv))
        | none => (.err (.command .noSuchKey), e)
  | _, _ => (.err invalidDatabase, e)

/-- Of two changes of one shard the second is seen. -/
theorem setShard_setShard (e : Engine) (db : Nat) {k k' : Key} (h : getShardIndex k = getShardIndex k')
    (sh sh' : Shard) : (e.setShard db k sh).setShard db k' sh' = e.setShard db k sh' := by
  unfold setShard
  rw [List.modify_modify_eq]
  simp only [h, Function.comp_def, Function.update_idem]

theorem renameByShards_eq (e : Engine) (db : Nat) (old new : Key) :
    e.renameByShards db old new = e.rename db old new := by
  unfold renameByShards rename
  cases hd : e.databases[db]? with
  | none =>
      have hnone (k : Key) : e.shard? db k = none := by rw [shard?, hd]; rfl
      simp only [hnone]
  | some d =>
      have hsome (k : Key) : e.shard? db k = some (d (getShardIndex k)) := by rw [shard?, hd]; rfl
      simp only [hsome]
      cases hv : (d (getShardIndex old)).data.get? old with
      | none => simp
      | some sv =>
          dsimp only
          by_cases hsame : getShardIndex old = getShardIndex new
          · have hmid : (e.setShard db old ((d (getShardIndex old)).takeOut old)).shard? db new =
                some ((d (getShardIndex old)).takeOut old) := by
              rw [shard?_eq_shardAt, ← hsame, shardAt_setShard_self, ← shard?_eq_shardAt, hsome]
              rfl
            unfold Shard.takeOut at hmid ⊢
            rw [if_pos hsame, hmid]
            dsimp only
            rw [setShard_setShard e db hsame]
            rfl
          · have hmid : (e.setShard db old ((d (getShardIndex old)).takeOut old)).shard? db new =
                some (d (getShardIndex new)) := by
              rw [shard?_eq_shardAt, shardAt_setShard_ne _ _ (fun h => hsame h.2.symm),
                ← shard?_eq_shardAt, hsome]
            unfold Shard.takeOut at hmid ⊢
            rw [if_neg hsame, hmid]
            rfl

end Engine

/-! ## A scan with nobody else about -/

section Alone

variable {β : Type} {call : Nat → Nat → Op (Nat × List β)}

/-- Calls that only read find the store they started with. -/
theorem mem_visits_alone (hcall : ∀ cursor count ctx e, ((call cursor count).run ctx e).2 = e)
    {turns : List ScanTurn} (hturns : ∀ t ∈ turns, t.others = []) {s : CleanupState} {cursor : Nat}
    {v : Visit β} (hv : v ∈ visits call s cursor turns) :
    v.engine = s.engine ∧ ∃ t ∈ turns, v.ctx = t.ctx := by
  induction turns generalizing s cursor with
  | nil => cases hv
  | cons t ts ih =>
      have hstay : t.others.foldl CleanupState.step s = s := by
        rw [hturns t List.mem_cons_self, List.foldl_nil]
      rw [visits, hstay] at hv
      rcases List.mem_cons.mp hv with rfl | hv
      · exact ⟨rfl, t, List.mem_cons_self, rfl⟩
      · split at hv
        · cases hv
        · split at hv
          · cases hv
          · obtain ⟨hengine, t', ht', hctx⟩ := ih (fun t' ht' => hturns t' (List.mem_cons_of_mem _ ht')) hv
            exact ⟨hengine.trans (hcall _ _ _ _), t', List.mem_cons_of_mem _ ht', hctx⟩

end Alone

/-! ## Each key once -/

/-- A key of a database lies in the shard its hash names and in no other, and each
of the three listings gives it once. -/
structure Engine.ListsOnce (e : Engine) (db : Nat) : Prop where
  shard : ∀ i sh key, e.shardAt db i = some sh →
    (sh.data.contains key = true ↔ i = getShardIndex key ∧ e.Stores db key)
  getAllKeys : ∃ ks, (e.getAllKeys db).1 = .ok ks ∧ ks.Nodup ∧ ∀ key, key ∈ ks ↔ e.Stores db key
  keys : ∀ pattern, ∃ ks, (e.keys db pattern).1 = .ok ks ∧ ks.Nodup ∧
    ∀ key, key ∈ ks ↔ e.Stores db key ∧ Glob.matchesBytes pattern key = true
  /-- More calls than there are keys, one behind the other and at one instant. -/
  scan : ∀ pattern typeFilter now (turns : List ScanTurn),
    (∀ t ∈ turns, t.others = [] ∧ t.ctx.now = now) →
    (∀ ks, (e.getAllKeys db).1 = .ok ks → ks.length < turns.length) →
    let vs := visits (fun cursor count => .store (.scan db cursor pattern typeFilter count)) ⟨e, none⟩ 0 turns
    Finished vs ∧ (returned vs).Nodup ∧ ∀ key, key ∈ returned vs ↔
      (∃ sv, e.liveAt now db key = some sv ∧
        (typeFilter.map (· == sv.value.valueType.name)).getD true = true) ∧ keeps pattern key = true

namespace Engine.ListsOnce

variable {e : Engine} {db : Nat}

theorem of_routed (h : e.Routed) (hdb : db < e.databases.length) : e.ListsOnce db := by
  have hd : e.databases[db]? = some e.databases[db] := List.getElem?_eq_getElem hdb
  have hall : (e.getAllKeys db).1 = .ok ((Engine.entriesOf e.databases[db]).map Prod.fst) := by
    rw [Engine.getAllKeys, Engine.reading, hd]
  have hnodup := Engine.nodup_keys_entriesOf h hd
  constructor
  · intro i sh key hsh
    rw [Map.contains_iff]
    constructor
    · rintro ⟨sv, hsv⟩
      obtain rfl : getShardIndex key = i := h db i sh key sv hsh hsv
      refine ⟨rfl, sv, ?_⟩
      rw [Engine.entryAt_eq, hsh]
      exact hsv
    · rintro ⟨rfl, sv, hsv⟩
      rw [Engine.entryAt_eq, hsh] at hsv
      exact ⟨sv, hsv⟩
  · exact ⟨_, hall, hnodup, fun key => Engine.mem_keys_entriesOf h hd⟩
  · intro pattern
    refine ⟨((Engine.entriesOf e.databases[db]).map Prod.fst).filter (Glob.matchesBytes pattern), ?_,
      hnodup.sublist List.filter_sublist, fun key => ?_⟩
    · rw [Engine.keys, Engine.reading, hd]
    · rw [List.mem_filter, Engine.mem_keys_entriesOf h hd]
  · intro pattern typeFilter now turns hturns hmany vs
    let names := (Engine.scanned e.databases[db] now typeFilter).map Prod.fst
    have hfound : ∀ v ∈ vs, v.engine = e ∧ v.ctx.now = now := by
      intro v hv
      have hread : ∀ cursor count ctx e', ((Op.store (.scan db cursor pattern typeFilter count)).run ctx e').2 = e' :=
        fun _ _ _ e' => e'.reading_snd db _
      obtain ⟨hengine, t, ht, hctx⟩ := mem_visits_alone hread (fun t ht => (hturns t ht).1) hv
      exact ⟨hengine, by rw [hctx, (hturns t ht).2]⟩
    have hunchanged : ∀ v ∈ vs, (ScanTarget.keyspace typeFilter names).Unchanged db v.engine v.ctx := by
      intro v hv
      obtain ⟨hengine, hnow⟩ := hfound v hv
      change ScanTarget.Lists db typeFilter names v.engine v.ctx
      rw [hengine]
      refine ⟨hdb, fun key => ?_⟩
      rw [hnow]
      exact Engine.mem_scanned h hd
    have hsize : (ScanTarget.keyspace typeFilter names).size < turns.length := by
      refine Nat.lt_of_le_of_lt ?_ (hmany _ hall)
      change ((Engine.scanned e.databases[db] now typeFilter).map Prod.fst).length ≤ _
      rw [List.length_map, List.length_map]
      exact List.filter_sublist.length_le
    obtain ⟨hdone, l, hl, hreturned⟩ := (ScanTarget.keyspace typeFilter names).visits_kept
      (s := ⟨e, none⟩) h db pattern hunchanged hsize
    obtain ⟨honce, hmem⟩ := ScanTarget.exact_keyspace hl
    rw [← hreturned] at honce hmem
    refine ⟨hdone, honce, fun key => ?_⟩
    refine (hmem key).trans (and_congr_left fun _ => ?_)
    exact Engine.mem_scanned h hd

end Engine.ListsOnce

/-! ## Every reachable store -/

/-- An operation leads to a reachable store. -/
theorem Engine.Reachable.op {e : Engine} (h : e.Reachable) {α : Type} (o : Op α) (ctx : Ctx) :
    (o.run ctx e).2.Reachable := by
  obtain ⟨n, m, events, rfl⟩ := h
  refine ⟨n, m, events ++ [.op o ctx], ?_⟩
  rw [List.foldl_append]
  rfl

/-- In every reachable store each key lies in its shard and in no other, and
GET_ALL_KEYS, KEYS and SCAN give it once.  A RENAME keeps this; it fails and changes
nothing if the old key is absent, and otherwise the new key has the entry of the old
one, deadline included, the old key is absent unless it is the new one, and all else
is as it was. -/
theorem keys_in_their_shards {e : Engine} (h : e.Reachable) {db : Nat} (hdb : db < e.databases.length) :
    e.ListsOnce db ∧ ∀ old new : Key,
      let r := e.renameByShards db old new
      (∀ db' < e.databases.length, r.2.ListsOnce db') ∧
      (e.entryAt db old = none → r.1 = .err (.command .noSuchKey) ∧ r.2 = e) ∧
      ∀ sv, e.entryAt db old = some sv → r.1 = .ok () ∧ r.2.entryAt db new = some sv ∧
        (old ≠ new → r.2.entryAt db old = none) ∧
        ∀ db' key, ¬ (db' = db ∧ (key = old ∨ key = new)) → r.2.entryAt db' key = e.entryAt db' key := by
  refine ⟨.of_routed h.routed hdb, fun old new => ?_⟩
  intro r
  have hr : r = e.rename db old new := e.renameByShards_eq db old new
  have hfst := e.rename_fst db old new
  rw [if_pos hdb, ← hr] at hfst
  refine ⟨fun db' hdb' => ?_, fun hnone => ⟨by rw [hfst, hnone], ?_⟩, fun sv hsv => ⟨by rw [hfst, hsv], ?_⟩⟩
  · have hreach : r.2.Reachable := hr ▸ h.op (.store (.rename db old new)) (.at 0)
    have hlen : r.2.databases.length = e.databases.length := by
      rw [hr]
      exact StoreCmd.run_length (.rename db old new) (.at 0) e
    exact .of_routed hreach.routed (hlen ▸ hdb')
  · have hd : e.databases[db]? = some e.databases[db] := List.getElem?_eq_getElem hdb
    have hs : e.shard? db old = some (e.databases[db] (getShardIndex old)) := by rw [Engine.shard?, hd]; rfl
    rw [Engine.entryAt, hs] at hnone
    have hget : (e.databases[db] (getShardIndex old)).data.get? old = none := hnone
    simp only [hr, Engine.rename, hs, hget]
  · have hentry (db' : Nat) (key : Key) : r.2.entryAt db' key =
        if db' = db ∧ key = new then some sv else if db' = db ∧ key = old then none else e.entryAt db' key := by
      rw [hr, Engine.rename_entryAt, hsv]
    refine ⟨?_, fun hne => ?_, fun db' key hother => ?_⟩
    · rw [hentry, if_pos ⟨rfl, rfl⟩]
    · rw [hentry, if_neg (fun h => hne h.2), if_pos ⟨rfl, rfl⟩]
    · rw [hentry, if_neg (fun h => hother ⟨h.1, .inr h.2⟩), if_neg (fun h => hother ⟨h.1, .inl h.2⟩)]

/-- A key with a deadline and one without. -/
def twoKeys : Engine :=
  ([CleanupEvent.op (.key 0 "a".toBytes (.setValue (.string "1".toBytes) (some (fromSecs 5)))) (.at 0),
    .op (.key 0 "b".toBytes (.setValue (.string "2".toBytes) none)) (.at 0)].foldl CleanupState.step
      (.initial 1 .unlimited)).engine

/-- The one with the deadline is renamed onto the other, in another shard. -/
theorem keys_in_their_shards_twoKeys :
    getShardIndex "a".toBytes ≠ getShardIndex "b".toBytes ∧
    (twoKeys.renameByShards 0 "a".toBytes "b".toBytes).2.ListsOnce 0 ∧
    (twoKeys.renameByShards 0 "a".toBytes "b".toBytes).2.entryAt 0 "b".toBytes =
      some ⟨.string "1".toBytes, some (fromSecs 5)⟩ ∧
    (twoKeys.renameByShards 0 "a".toBytes "b".toBytes).2.entryAt 0 "a".toBytes = none := by
  have hdb : 0 < twoKeys.databases.length := by decide
  obtain ⟨-, hrename⟩ := keys_in_their_shards (e := twoKeys) ⟨1, .unlimited, _, rfl⟩ hdb
  obtain ⟨hlists, -, hmoved⟩ := hrename "a".toBytes "b".toBytes
  obtain ⟨-, hnew, hold, -⟩ := hmoved ⟨.string "1".toBytes, some (fromSecs 5)⟩ (by decide)
  exact ⟨by decide, hlists 0 hdb, hnew, hold (by decide)⟩

end Ferrous
