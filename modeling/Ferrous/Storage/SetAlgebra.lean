/-
# `Storage.SetAlgebra` — unions, intersections and differences of stored sets

What SUNION, SINTER and SDIFF answer is the union, the intersection or the difference of the sets
that are stored, each member once.  They differ in which key of another type they stumble over.
-/
import Ferrous.Storage.AbsenceSets
import Ferrous.Storage.Effects

namespace Ferrous

open Lib

/-- WRONGTYPE if `Fails` holds, and otherwise a list without repetitions of what is `In`. -/
def AnswersSet (r : Outcome (List Bytes)) (Fails : Prop) (In : Bytes → Prop) : Prop :=
  (Fails ∧ r = .err (.storage .wrongType)) ∨ (¬ Fails ∧ ∃ l, r = .ok l ∧ l.Nodup ∧ ∀ m, m ∈ l ↔ In m)

/-- The keys hold sets up to one that holds a value of another type. -/
def Engine.StumblesIn (e : Engine) (db : Nat) (keys : List Key) : Prop :=
  ∃ before key after, keys = before ++ key :: after ∧ (∀ k ∈ before, e.isSet db k = true) ∧ e.NotSet db key

section Answers

variable {e : Engine} {db : Nat} {d : Database} {key : Key} {keys : List Key}

theorem notSet_iff (hd : e.databases[db]? = some d) : Engine.setAt d key = none ↔ e.NotSet db key := by
  rw [Engine.setAt_eq_setView hd]
  exact Iff.rfl

theorem memberAt_iff (hd : e.databases[db]? = some d) {m : Bytes} : MemberAt d key m ↔ e.InSet db key m := by
  unfold MemberAt
  rw [Engine.setAt_eq_setView hd]
  exact Iff.rfl

theorem holdsSet_eq (hd : e.databases[db]? = some d) : holdsSet d key = e.isSet db key := by
  unfold holdsSet
  rw [Engine.setAt_eq_setView hd]
  rfl

theorem union_answers (hd : e.databases[db]? = some d) (hne : keys ≠ []) (ctx : Ctx) :
    AnswersSet ((StoreCmd.sunion db keys).run ctx e).1 (∃ k ∈ keys, e.NotSet db k)
      fun m => ∃ k ∈ keys, e.InSet db k m := by
  have hrun : ((StoreCmd.sunion db keys).run ctx e).1 = Engine.foldSets d
      (fun acc s => some ((s.map (·.keyList)).getD [] |>.foldl Map.add acc)) ∅ keys := by
    simp only [StoreCmd.run, Engine.sunion, if_neg hne, Engine.reading, hd]
  rw [hrun]
  rcases foldSets_union d keys ∅ with ⟨⟨k, hk, hbad⟩, hr⟩ | ⟨hall, l, hr, hnodup, hl⟩
  · exact .inl ⟨⟨k, hk, (notSet_iff hd).mp hbad⟩, hr⟩
  · refine .inr ⟨?_, l, hr, hnodup, fun m => ?_⟩
    · rintro ⟨k, hk, hbad⟩
      exact hall k hk ((notSet_iff hd).mpr hbad)
    · rw [hl]
      simp only [memberAt_iff hd]
      exact or_iff_right (by simp [Map.contains])

theorem difference_answers (hd : e.databases[db]? = some d) (ctx : Ctx) :
    AnswersSet ((StoreCmd.sdiff db (key :: keys)).run ctx e).1
      (e.NotSet db key ∨ e.isSet db key = true ∧ ∃ k ∈ keys, e.NotSet db k)
      fun m => e.InSet db key m ∧ ∀ k ∈ keys, ¬ e.InSet db k m := by
  have hrun : ((StoreCmd.sdiff db (key :: keys)).run ctx e).1 = Engine.fromFirst (fun acc s =>
      some ((s.map (·.keyList)).getD [] |>.foldl Map.del acc)) d (key :: keys) := by
    simp only [StoreCmd.run, Engine.sdiff, if_neg (List.cons_ne_nil key keys), Engine.reading, hd]
  rw [hrun, Engine.fromFirst]
  have hset : holdsSet d key = e.isSet db key := holdsSet_eq hd
  cases hk : Engine.setAt d key with
  | none => exact .inl ⟨.inl ((notSet_iff hd).mp hk), rfl⟩
  | some slot =>
      have hnot : ¬ e.NotSet db key := fun h => by
        rw [(notSet_iff hd).mpr h] at hk
        cases hk
      cases slot with
      | none =>
          refine .inr ⟨?_, [], rfl, List.nodup_nil, fun m => iff_of_false List.not_mem_nil ?_⟩
          · rintro (h | ⟨h, -⟩)
            · exact hnot h
            · rw [← hset] at h
              simp [holdsSet, hk] at h
          · rintro ⟨hin, -⟩
            obtain ⟨s, hs, -⟩ := (memberAt_iff hd).mpr hin
            rw [hk] at hs
            cases hs
      | some s =>
          have hin (m : Bytes) : s.contains m = true ↔ e.InSet db key m := by
            rw [← memberAt_iff hd, MemberAt, hk]
            simp
          have hhas : e.isSet db key = true := by
            rw [← hset]
            simp [holdsSet, hk]
          dsimp only
          rcases foldSets_diff d keys s with ⟨⟨k, hmem, hbad⟩, hr⟩ | ⟨hall, l, hr, hnodup, hl⟩
          · exact .inl ⟨.inr ⟨hhas, k, hmem, (notSet_iff hd).mp hbad⟩, hr⟩
          · refine .inr ⟨?_, l, hr, hnodup, fun m => ?_⟩
            · rintro (h | ⟨-, k, hmem, hbad⟩)
              · exact hnot h
              · exact hall k hmem ((notSet_iff hd).mpr hbad)
            · rw [hl, hin]
              simp only [memberAt_iff hd]

theorem intersection_answers (hd : e.databases[db]? = some d) (hne : keys ≠ []) (ctx : Ctx) :
    AnswersSet ((StoreCmd.sinter db keys).run ctx e).1 (e.StumblesIn db keys)
      fun m => ∀ k ∈ keys, e.InSet db k m := by
  have hrun : ((StoreCmd.sinter db keys).run ctx e).1 = Engine.fromFirst (fun acc s =>
      s.map fun s => (acc.keyList.filter fun m => !s.contains m).foldl Map.del acc) d keys := by
    simp only [StoreCmd.run, Engine.sinter, if_neg hne, Engine.reading, hd]
  have hnone {k : Key} (h : e.NotSet db k) : (!holdsSet d k) = true := by
    simp [holdsSet, (notSet_iff hd).mpr h]
  rw [hrun]
  have hinter := fromFirst_inter d keys hne
  cases hf : keys.find? (fun k => !holdsSet d k) with
  | none =>
      rw [hf] at hinter
      obtain ⟨l, hr, hnodup, hl⟩ := hinter
      refine .inr ⟨?_, l, hr, hnodup, fun m => ?_⟩
      · rintro ⟨before, k, after, rfl, -, hbad⟩
        exact List.find?_eq_none.mp hf k (by simp) (hnone hbad)
      · rw [hl]
        simp only [memberAt_iff hd]
  | some k =>
      rw [hf] at hinter
      dsimp only at hinter
      obtain ⟨hk, before, after, hsplit, hbefore⟩ := List.find?_eq_some_iff_append.mp hf
      have hsets : ∀ k' ∈ before, e.isSet db k' = true := by
        intro k' hk'
        have hset := hbefore k' hk'
        rw [holdsSet_eq hd] at hset
        simpa using hset
      by_cases hbad : Engine.setAt d k = none
      · rw [if_pos hbad] at hinter
        exact .inl ⟨⟨before, k, after, hsplit, hsets, (notSet_iff hd).mp hbad⟩, hinter⟩
      · rw [if_neg hbad] at hinter
        refine .inr ⟨?_, [], hinter, List.nodup_nil, fun m => iff_of_false List.not_mem_nil fun hall => ?_⟩
        · rintro ⟨before', k', after', hsplit', hsets', hbad'⟩
          have hfirst : keys.find? (fun k => !holdsSet d k) = some k' := by
            refine List.find?_eq_some_iff_append.mpr ⟨hnone hbad', before', after', hsplit', fun x hx => ?_⟩
            rw [holdsSet_eq hd, hsets' x hx]
            rfl
          rw [hf] at hfirst
          cases hfirst
          exact hbad ((notSet_iff hd).mpr hbad')
        · have hmem : k ∈ keys := by
            rw [hsplit]
            simp
          obtain ⟨s, hs, -⟩ := (memberAt_iff hd).mpr (hall k hmem)
          simp [holdsSet, hs] at hk

end Answers

/-- SUNION, SINTER and SDIFF over a database that exists answer exactly the union, the
intersection and the difference of the sets stored there, and leave the store alone.  SUNION
fails if any key holds another type, SINTER only if no key before it is absent, and SDIFF only if
it is the first, or the first holds a set. -/
theorem set_algebra_exact (ctx : Ctx) (e : Engine) {db : Nat} (hdb : db < e.databases.length) (key : Key)
    (keys : List Key) :
    AnswersSet ((StoreCmd.sunion db (key :: keys)).run ctx e).1 (∃ k ∈ key :: keys, e.NotSet db k)
        (fun m => ∃ k ∈ key :: keys, e.InSet db k m) ∧
      AnswersSet ((StoreCmd.sinter db (key :: keys)).run ctx e).1 (e.StumblesIn db (key :: keys))
        (fun m => ∀ k ∈ key :: keys, e.InSet db k m) ∧
      AnswersSet ((StoreCmd.sdiff db (key :: keys)).run ctx e).1
        (e.NotSet db key ∨ e.isSet db key = true ∧ ∃ k ∈ keys, e.NotSet db k)
        (fun m => e.InSet db key m ∧ ∀ k ∈ keys, ¬ e.InSet db k m) ∧
      ((StoreCmd.sunion db (key :: keys)).run ctx e).2 = e ∧
      ((StoreCmd.sinter db (key :: keys)).run ctx e).2 = e ∧
      ((StoreCmd.sdiff db (key :: keys)).run ctx e).2 = e := by
  obtain ⟨d, hd⟩ : ∃ d, e.databases[db]? = some d := ⟨_, List.getElem?_eq_getElem hdb⟩
  have hne := List.cons_ne_nil key keys
  refine ⟨union_answers hd hne ctx, intersection_answers hd hne ctx, difference_answers hd ctx, ?_, ?_, ?_⟩
  · show (Engine.sunion e db (key :: keys)).2 = e
    rw [Engine.sunion, if_neg hne, Engine.reading_snd]
  · show (Engine.sinter e db (key :: keys)).2 = e
    rw [Engine.sinter, if_neg hne, Engine.reading_snd]
  · show (Engine.sdiff e db (key :: keys)).2 = e
    rw [Engine.sdiff, if_neg hne, Engine.reading_snd]

/-- Two sets with a member in common. -/
def overlapping : Engine :=
  ((Op.key 0 "b".toBytes (.sadd ["y".toBytes])).run (.at 0)
    ((Op.key 0 "a".toBytes (.sadd ["x".toBytes, "y".toBytes])).run (.at 0) (Engine.withConfig 1 .unlimited)).2).2

theorem set_algebra_exact_overlapping :
    AnswersSet ((StoreCmd.sinter 0 ["a".toBytes, "b".toBytes]).run (.at 0) overlapping).1
      (overlapping.StumblesIn 0 ["a".toBytes, "b".toBytes])
      (fun m => ∀ k ∈ ["a".toBytes, "b".toBytes], overlapping.InSet 0 k m) :=
  (set_algebra_exact (.at 0) overlapping (by decide) "a".toBytes ["b".toBytes]).2.1

end Ferrous
