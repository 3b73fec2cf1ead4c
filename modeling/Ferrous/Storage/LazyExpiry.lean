/-
# `Storage.LazyExpiry` — which operations treat an expired key as absent

The two halves put together: `expired_treated_as_absent_iff` covers every
operation of the engine.  A list that expired and is pushed onto shows what goes
wrong (`staleList_rpush_lost`).
-/
import Ferrous.Storage.AbsenceKeys
import Ferrous.Storage.AbsenceSets

namespace Ferrous

open Lib

section StoreItself

variable {e : Engine} {ctx : Ctx} {db : Nat} {key : Key} {sv : StoredValue}

/-- A read of one database: the answers decide. -/
theorem reading_iff {α : Type} {R : Outcome α → Outcome α → Prop} (hrefl : ∀ x, R x x)
    (hsv : e.entryAt db key = some sv) (hx : sv.isExpired ctx.now = true) (db' : Nat)
    (f : Database → Outcome α) {P : Prop}
    (hP : ∀ d, e.databases[db]? = some d → (R (f d) (f (Engine.evicted d key)) ↔ P)) :
    (R (e.reading db' f).1 ((e.evict db key).reading db' f).1 ∧
      ∀ db'' k'', (e.reading db' f).2.liveAt ctx.now db'' k'' =
        ((e.evict db key).reading db' f).2.liveAt ctx.now db'' k'') ↔ (db' ≠ db ∨ P) := by
  rw [Engine.reading_snd, Engine.reading_snd]
  have hlive := Engine.evict_liveAt hsv hx
  simp only [hlive, implies_true, and_true]
  unfold Engine.reading
  rw [Engine.evict_getElem?]
  by_cases hdb : db' = db
  · subst hdb
    obtain ⟨sh, hsh, -⟩ := Option.bind_eq_some_iff.mp hsv
    obtain ⟨d, hd, -⟩ := Option.map_eq_some_iff.mp hsh
    simp only [hd, Option.map_some, if_true, ne_eq, not_true_eq_false, false_or]
    exact hP d hd
  · simp only [hdb, if_false, Option.map_id', ne_eq, not_false_eq_true, true_or, iff_true]
    cases e.databases[db']? with
    | none => exact hrefl _
    | some d => exact hrefl _

theorem sameMembers_refl (x : Outcome (List Bytes)) : SameMembers x x := by
  cases x with
  | ok l => exact List.Perm.refl l
  | err e => rfl
  | panic => rfl

theorem map_keys_filter (l : List (Key × StoredValue)) (q : Key → Bool) :
    (l.map Prod.fst).filter q = (l.filter fun p => q p.1).map Prod.fst := by
  rw [List.filter_map]
  rfl

/-- An operation on several keys treats the expired key as absent exactly if the
condition holds. -/
theorem Op.store_treatsAsAbsent_iff {α : Type} (hsv : e.entryAt db key = some sv)
    (hx : sv.isExpired ctx.now = true) (c : StoreCmd α) :
    (Op.store c).TreatsAsAbsent ctx e db key ↔ c.Unaffected e db key sv.value := by
  have hlive := Engine.evict_liveAt hsv hx
  have hget : ∀ d, e.databases[db]? = some d →
      (d (getShardIndex key)).data.get? key = some sv := by
    intro d hd
    rw [← Engine.entryAt_of_database hd]
    exact hsv
  have hraw : ∀ d, e.databases[db]? = some d →
      Engine.setAt d key = sv.value.asSet.map some := by
    intro d hd
    rw [Engine.setAt_eq_setView hd, Engine.setView, hsv]
  -- a list of keys without this one reads the same in both databases
  have hview : ∀ d, e.databases[db]? = some d → ∀ k, Engine.setAt d k = e.setView db k :=
    fun d hd k => Engine.setAt_eq_setView hd k
  unfold Op.TreatsAsAbsent
  cases c with
  | getAllKeys db' =>
      refine (reading_iff (R := Eq) (P := False) (fun _ => rfl) hsv hx db' _ fun d hd => ?_).trans
        (by simp [StoreCmd.Unaffected])
      refine iff_of_false (fun h => ?_) id
      have hlen := Engine.length_filter_evicted (hget d hd) (q := fun _ => true) rfl
      have heq := congrArg List.length (Outcome.ok.inj h)
      simp only [List.filter_true, List.length_map] at hlen heq
      omega
  | keys db' pattern =>
      refine reading_iff (R := Eq) (fun _ => rfl) hsv hx db' _ fun d hd => ?_
      rw [Outcome.ok.injEq, map_keys_filter, map_keys_filter]
      cases hm : Glob.matchesBytes pattern key with
      | false =>
          rw [Engine.filter_evicted (hget d hd) hm]
          exact iff_of_true rfl rfl
      | true =>
          refine iff_of_false (fun h => ?_) Bool.false_ne_true.symm
          have hlen := Engine.length_filter_evicted (hget d hd)
            (q := fun p => Glob.matchesBytes pattern p.1) hm
          have heq := congrArg List.length h
          simp only [List.length_map] at heq
          omega
  | scan db' cursor pattern typeFilter count =>
      refine (reading_iff (R := Eq) (P := True) (fun _ => rfl) hsv hx db' _ fun d hd => ?_).trans
        (by simp [StoreCmd.Unaffected])
      refine iff_of_true ?_ trivial
      have hscan : Engine.scanned (Engine.evicted d key) ctx.now typeFilter =
          Engine.scanned d ctx.now typeFilter :=
        Engine.filter_evicted (hget d hd) (by simp [hx])
      rw [hscan]
  | sunion db' ks =>
      simp only [Op.SameAnswer, StoreCmd.SameAnswer, Op.run, StoreCmd.run, Engine.sunion,
        StoreCmd.Unaffected]
      by_cases hnil : ks = []
      · simp [hnil, SameMembers, hlive]
      · simp only [hnil, if_false]
        refine reading_iff sameMembers_refl hsv hx db' _ fun d hd => ?_
        by_cases hk : key ∈ ks
        · simp only [hk, not_true_eq_false, false_or]
          rw [union_same_iff (hraw d hd) (Engine.setAt_evicted_self d key)
            (fun k h => Engine.setAt_evicted_ne d h) hk]
          simp only [MemberAt, hview d hd, Engine.NotSet, Engine.InSet]
        · refine iff_of_true ?_ (.inl hk)
          rw [foldSets_evicted _ hk]
          exact sameMembers_refl _
  | sinter db' ks =>
      simp only [Op.SameAnswer, StoreCmd.SameAnswer, Op.run, StoreCmd.run, Engine.sinter,
        StoreCmd.Unaffected]
      by_cases hnil : ks = []
      · simp [hnil, SameMembers, hlive]
      · simp only [hnil, if_false]
        refine reading_iff sameMembers_refl hsv hx db' _ fun d hd => ?_
        by_cases hk : key ∈ ks
        · simp only [hk, not_true_eq_false, false_or]
          have hsame := inter_same_iff (hraw d hd) (Engine.setAt_evicted_self d key)
            (fun k h => Engine.setAt_evicted_ne d h) hk
          have hholds : holdsSet d = e.isSet db := by
            funext k
            rw [holdsSet, hview d hd, Engine.isSet]
          have habs : ∀ k, e.setView db k = some none ↔ e.entryAt db k = none := by
            intro k
            rw [Engine.setView]
            cases e.entryAt db k with
            | none => simp
            | some sv' => cases sv'.value.asSet <;> simp
          simp only [hholds, habs, MemberAt, hview d hd] at hsame
          exact hsame
        · refine iff_of_true ?_ (.inl hk)
          rw [fromFirst_evicted _ hk]
          exact sameMembers_refl _
  | sdiff db' ks =>
      simp only [Op.SameAnswer, StoreCmd.SameAnswer, Op.run, StoreCmd.run, Engine.sdiff,
        StoreCmd.Unaffected]
      cases ks with
      | nil => simp [SameMembers, hlive]
      | cons first rest =>
          simp only [reduceCtorEq, if_false]
          refine reading_iff sameMembers_refl hsv hx db' _ fun d hd => ?_
          by_cases hk : key ∈ first :: rest
          · simp only [hk, not_true_eq_false, false_or]
            have hne := fun (k : Key) (h : k ≠ key) => Engine.setAt_evicted_ne d h
            by_cases hf : first = key
            · subst hf
              rw [if_pos rfl, diff_first_iff (hraw d hd) (Engine.setAt_evicted_self d first)]
              simp only [MemberAt, hview d hd, Engine.NotSet, Engine.InSet, ne_eq]
            · have hk' : key ∈ rest := (List.mem_cons.mp hk).resolve_left fun h => hf h.symm
              rw [if_neg hf, diff_rest_iff (hraw d hd) (Engine.setAt_evicted_self d key) hne hf hk']
              simp only [MemberAt, holdsSet, hview d hd, Engine.NotSet, Engine.InSet, Engine.isSet]
          · refine iff_of_true ?_ (.inl hk)
            rw [fromFirst_evicted _ hk]
            exact sameMembers_refl _
  | xread db' kis count block =>
      simp only [Op.SameAnswer, StoreCmd.SameAnswer, Op.run, StoreCmd.run, Engine.xread,
        StoreCmd.Unaffected]
      cases hb : block.isSome with
      | true => simp [hlive]
      | false =>
          by_cases hnil : kis = []
          · simp [hnil, hlive]
          · simp only [Bool.false_eq_true, if_false, hnil, false_or]
            refine reading_iff (fun _ => rfl) hsv hx db' _ fun d hd => ?_
            rw [xreadLoop_iff (hget d hd)]
            simp only [HoldsOther, Engine.entryAt_of_database hd]
  | rename db' old new =>
      simp only [Op.SameAnswer, StoreCmd.SameAnswer, Op.run, StoreCmd.run, StoreCmd.Unaffected,
        Engine.liveAt, Engine.rename_fst, Engine.rename_entryAt, Engine.evict_length,
        Engine.evict_entryAt]
      have hexists : db < e.databases.length := by
        obtain ⟨sh, hsh, -⟩ := Option.bind_eq_some_iff.mp hsv
        obtain ⟨d, hd, -⟩ := Option.map_eq_some_iff.mp hsh
        exact (List.getElem?_eq_some_iff.mp hd).1
      by_cases hold : db' = db ∧ old = key
      · obtain ⟨rfl, rfl⟩ := hold
        simp [hexists, hsv]
      · simp only [hold, if_false, not_false_eq_true, iff_true, true_and]
        intro db'' k''
        have hdead := hlive db'' k''
        simp only [Engine.liveAt, Engine.evict_entryAt] at hdead
        cases e.entryAt db' old with
        | none => exact hdead.symm
        | some moved =>
            dsimp only
            split
            · rfl
            · split
              · rfl
              · exact hdead.symm
  | flushDb db' =>
      simp only [Op.SameAnswer, StoreCmd.SameAnswer, Op.run, StoreCmd.run, StoreCmd.Unaffected,
        Engine.liveAt, Engine.flushDb_entryAt, Engine.evict_entryAt, iff_true]
      refine ⟨?_, fun db'' k'' => ?_⟩
      · unfold Engine.flushDb
        rw [Engine.evict_getElem?]
        cases e.databases[db']? <;> rfl
      · have hdead := hlive db'' k''
        simp only [Engine.liveAt, Engine.evict_entryAt] at hdead
        split
        · rfl
        · exact hdead.symm
  | registerWatch db' k =>
      simp only [Op.SameAnswer, StoreCmd.SameAnswer, Op.run, StoreCmd.run, StoreCmd.Unaffected,
        iff_true]
      have hsh : (e.evict db key).shard? db' k = (e.shard? db' k).map fun sh =>
          if db' = db ∧ getShardIndex k = getShardIndex key then
            { sh with data := sh.data.del key, expiringKeys := sh.expiringKeys.del key }
          else sh := Engine.evict_shardAt e db key db' (getShardIndex k)
      unfold Engine.registerWatch
      rw [hsh]
      cases hs : e.shard? db' k with
      | none => exact ⟨rfl, fun db'' k'' => (hlive db'' k'').symm⟩
      | some sh =>
          rw [hs] at hsh
          dsimp only [Option.map_some] at hsh ⊢
          refine ⟨?_, fun db'' k'' => ?_⟩
          · split <;> rfl
          · rw [Engine.liveAt, Engine.setShard_watch_entryAt e db' k _ hs, Engine.liveAt,
              Engine.setShard_watch_entryAt _ db' k _ hsh]
            exact (hlive db'' k'').symm
  | unregisterWatch db' k =>
      simp only [Op.SameAnswer, StoreCmd.SameAnswer, Op.run, StoreCmd.run, StoreCmd.Unaffected,
        iff_true]
      have hsh : (e.evict db key).shard? db' k = (e.shard? db' k).map fun sh =>
          if db' = db ∧ getShardIndex k = getShardIndex key then
            { sh with data := sh.data.del key, expiringKeys := sh.expiringKeys.del key }
          else sh := Engine.evict_shardAt e db key db' (getShardIndex k)
      unfold Engine.unregisterWatch
      rw [hsh]
      cases hs : e.shard? db' k with
      | none => exact ⟨rfl, fun db'' k'' => (hlive db'' k'').symm⟩
      | some sh =>
          rw [hs] at hsh
          dsimp only [Option.map_some] at hsh ⊢
          refine ⟨rfl, fun db'' k'' => ?_⟩
          rw [Engine.liveAt, Engine.setShard_watch_entryAt e db' k _ hs, Engine.liveAt,
            Engine.setShard_watch_entryAt _ db' k _ hsh]
          exact (hlive db'' k'').symm
  | wasModifiedSince db' k baseline =>
      simp only [Op.SameAnswer, StoreCmd.SameAnswer, Op.run, StoreCmd.run, StoreCmd.Unaffected]
      have hsame : ∀ e' : Engine, (e'.wasModifiedSince ctx db' k baseline).2 = e' := by
        intro e'
        unfold Engine.wasModifiedSince
        split <;> rfl
      simp only [hsame, hlive, implies_true, and_true]
      have hsh : (e.evict db key).shard? db' k = (e.shard? db' k).map fun sh =>
          if db' = db ∧ getShardIndex k = getShardIndex key then
            { sh with data := sh.data.del key, expiringKeys := sh.expiringKeys.del key }
          else sh := Engine.evict_shardAt e db key db' (getShardIndex k)
      unfold Engine.wasModifiedSince
      rw [hsh]
      by_cases hk : db' = db ∧ k = key
      · obtain ⟨rfl, rfl⟩ := hk
        obtain ⟨sh, hs, hdata⟩ := Option.bind_eq_some_iff.mp hsv
        have hs' : e.shardAt db' (getShardIndex k) = some sh := hs
        rw [hs, hs']
        simp [hdata, hx]
      · simp only [hk, not_false_eq_true, true_or, iff_true]
        cases hs : e.shard? db' k with
        | none => rfl
        | some sh =>
            simp only [Option.map_some]
            split
            · next hc =>
                have hkk : k ≠ key := fun h => hk ⟨hc.1, h⟩
                simp [Map.get?_del_ne _ hkk]
            · rfl
  | _ =>
      simp only [Op.SameAnswer, StoreCmd.SameAnswer, Op.run, StoreCmd.run, StoreCmd.Unaffected,
        Engine.evict_length, Engine.evict_memory, iff_true]
      exact ⟨trivial, fun db'' k'' => (hlive db'' k'').symm⟩

end StoreItself

/-- On a store with an expired key, an operation answers and leaves the live
entries as on the store without it exactly under `Op.Unaffected`. -/
theorem expired_treated_as_absent_iff (ctx : Ctx) (e : Engine) (db : Nat) (k : Key)
    (sv : StoredValue) (hsv : e.entryAt db k = some sv) (hx : sv.isExpired ctx.now = true)
    {α : Type} (o : Op α) :
    o.TreatsAsAbsent ctx e db k ↔ o.Unaffected ctx e db k sv.value := by
  cases o with
  | key db' k' c => exact Op.key_treatsAsAbsent_iff hsv hx db' k' c
  | store c => exact Op.store_treatsAsAbsent_iff hsv hx c

/-- A list that expired a second ago and has not been removed. -/
def staleList : Engine :=
  ((Op.key 0 "l".toBytes (.expire (fromSecs 1))).run (.at 1)
    ((Op.key 0 "l".toBytes (.rpush ["a".toBytes])).run (.at 0)
      (Engine.withConfig 1 .unlimited)).2).2

theorem staleList_entry : staleList.entryAt 0 "l".toBytes =
    some ⟨.list ["a".toBytes], some (fromSecs 1 + 1)⟩ :=
  rfl

/-- LTRIM cannot tell the expired list from an absent one; LLEN counts its
elements. -/
theorem staleList_ltrim_llen :
    (Op.key 0 "l".toBytes (.ltrim 0 0)).TreatsAsAbsent (.at (fromSecs 3)) staleList 0 "l".toBytes ∧
    ¬ (Op.key 0 "l".toBytes .llen).TreatsAsAbsent (.at (fromSecs 3)) staleList 0 "l".toBytes := by
  have hx : (⟨.list ["a".toBytes], some (fromSecs 1 + 1)⟩ : StoredValue).isExpired
      (Ctx.at (fromSecs 3)).now = true := by decide
  refine ⟨(expired_treated_as_absent_iff _ _ _ _ _ staleList_entry hx _).mpr (.inr ⟨_, rfl⟩), ?_⟩
  intro h
  rcases (expired_treated_as_absent_iff _ _ _ _ _ staleList_entry hx _).mp h with hne | ⟨_, hv, hnil⟩
  · exact hne ⟨rfl, rfl⟩
  · cases hv
    cases hnil

/-- An element pushed onto the expired list is never seen: the push revives
nothing, where without the key it makes a list of one element. -/
theorem staleList_rpush_lost :
    staleList.entryAt 0 "l".toBytes = some ⟨.list ["a".toBytes], some (fromSecs 1 + 1)⟩ ∧
    (⟨.list ["a".toBytes], some (fromSecs 1 + 1)⟩ : StoredValue).isExpired (fromSecs 3) = true ∧
    ¬ (Op.key 0 "l".toBytes (.rpush ["b".toBytes])).TreatsAsAbsent (.at (fromSecs 3)) staleList 0
      "l".toBytes := by
  refine ⟨staleList_entry, by decide, fun h => ?_⟩
  have hlive := h.2 0 "l".toBytes
  revert hlive
  decide

end Ferrous
