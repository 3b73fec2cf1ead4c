/-
# `Storage.AbsenceSets` — the operations that read several keys

SUNION, SINTER, SDIFF and XREAD fold over the keys they name; the first key
that is absent or of another type may end the loop.  Each loop is described by
what it answers, and the two stores are then compared by their descriptions.
-/
import Ferrous.Storage.Absence

namespace Ferrous

open Lib

/-! ## The set operations -/

section Sets

open Engine

theorem mem_keyList_iff {V : Type} {s : Map Bytes V} {m : Bytes} :
    m ∈ s.keyList ↔ s.contains m = true := by
  rw [Map.mem_keyList, Map.contains, Option.isSome_iff_exists]

theorem contains_foldl_add (l : List Bytes) (acc : FSet Bytes) (m : Bytes) :
    (l.foldl Map.add acc).contains m = true ↔ acc.contains m = true ∨ m ∈ l := by
  induction l generalizing acc with
  | nil => simp
  | cons x l ih =>
      rw [List.foldl_cons, ih, List.mem_cons, Map.contains, Map.add, Map.get?_set, ← or_assoc]
      refine or_congr ?_ Iff.rfl
      by_cases hm : m = x
      · simp [hm]
      · simp [hm, Map.contains]

theorem contains_foldl_del (l : List Bytes) (acc : FSet Bytes) (m : Bytes) :
    (l.foldl Map.del acc).contains m = true ↔ acc.contains m = true ∧ m ∉ l := by
  rw [Map.contains, Map.get?_foldl_del, Map.contains]
  split
  · next h => simp [h]
  · next h => simp [h]

/-- A member of the set under a key. -/
def MemberAt (d : Database) (key : Key) (m : Bytes) : Prop :=
  ∃ s, setAt d key = some (some s) ∧ s.contains m = true

variable (d : Database)

/-- The loop of `sunion`. -/
theorem foldSets_union (ks : List Key) (acc : FSet Bytes) :
    ((∃ k ∈ ks, setAt d k = none) ∧ foldSets d (fun acc s =>
        some ((s.map (·.keyList)).getD [] |>.foldl Map.add acc)) acc ks =
          .err (.storage .wrongType)) ∨
    ((∀ k ∈ ks, setAt d k ≠ none) ∧ ∃ l, foldSets d (fun acc s =>
        some ((s.map (·.keyList)).getD [] |>.foldl Map.add acc)) acc ks = .ok l ∧ l.Nodup ∧
          ∀ m, m ∈ l ↔ acc.contains m = true ∨ ∃ k ∈ ks, MemberAt d k m) := by
  induction ks generalizing acc with
  | nil =>
      refine .inr ⟨List.forall_mem_nil _, acc.keyList, rfl, acc.nodup_keyList, fun m => ?_⟩
      rw [mem_keyList_iff]
      simp
  | cons k ks ih =>
      rw [foldSets]
      cases hk : setAt d k with
      | none => exact .inl ⟨⟨k, List.mem_cons_self, hk⟩, rfl⟩
      | some s =>
          dsimp only
          rcases ih ((s.map (·.keyList)).getD [] |>.foldl Map.add acc) with ⟨hbad, hr⟩ | ⟨hall, l, hr, hn, hm⟩
          · obtain ⟨k', hk', hb⟩ := hbad
            exact .inl ⟨⟨k', List.mem_cons_of_mem _ hk', hb⟩, hr⟩
          · refine .inr ⟨?_, l, hr, hn, fun m => ?_⟩
            · intro k' hk'
              rcases List.mem_cons.mp hk' with rfl | hk'
              · rw [hk]
                exact Option.some_ne_none s
              · exact hall k' hk'
            · rw [hm, contains_foldl_add, or_assoc]
              refine or_congr Iff.rfl ?_
              simp only [List.mem_cons, exists_eq_or_imp]
              refine or_congr ?_ Iff.rfl
              unfold MemberAt
              rw [hk]
              cases s with
              | none => simp
              | some s => simp [mem_keyList_iff]

/-- The loop of `sdiff`. -/
theorem foldSets_diff (ks : List Key) (acc : FSet Bytes) :
    ((∃ k ∈ ks, setAt d k = none) ∧ foldSets d (fun acc s =>
        some ((s.map (·.keyList)).getD [] |>.foldl Map.del acc)) acc ks =
          .err (.storage .wrongType)) ∨
    ((∀ k ∈ ks, setAt d k ≠ none) ∧ ∃ l, foldSets d (fun acc s =>
        some ((s.map (·.keyList)).getD [] |>.foldl Map.del acc)) acc ks = .ok l ∧ l.Nodup ∧
          ∀ m, m ∈ l ↔ acc.contains m = true ∧ ∀ k ∈ ks, ¬ MemberAt d k m) := by
  induction ks generalizing acc with
  | nil =>
      refine .inr ⟨List.forall_mem_nil _, acc.keyList, rfl, acc.nodup_keyList, fun m => ?_⟩
      rw [mem_keyList_iff]
      simp
  | cons k ks ih =>
      rw [foldSets]
      cases hk : setAt d k with
      | none => exact .inl ⟨⟨k, List.mem_cons_self, hk⟩, rfl⟩
      | some s =>
          dsimp only
          rcases ih ((s.map (·.keyList)).getD [] |>.foldl Map.del acc) with ⟨hbad, hr⟩ | ⟨hall, l, hr, hn, hm⟩
          · obtain ⟨k', hk', hb⟩ := hbad
            exact .inl ⟨⟨k', List.mem_cons_of_mem _ hk', hb⟩, hr⟩
          · refine .inr ⟨?_, l, hr, hn, fun m => ?_⟩
            · intro k' hk'
              rcases List.mem_cons.mp hk' with rfl | hk'
              · rw [hk]
                exact Option.some_ne_none s
              · exact hall k' hk'
            · rw [hm, contains_foldl_del, and_assoc]
              refine and_congr Iff.rfl ?_
              simp only [List.forall_mem_cons]
              refine and_congr ?_ Iff.rfl
              unfold MemberAt
              rw [hk]
              cases s with
              | none => simp
              | some s => simp [mem_keyList_iff]

/-- The key holds a set. -/
def holdsSet (d : Database) (key : Key) : Bool := ((setAt d key).getD none).isSome

/-- The loop of `sinter` runs to the first key that does not hold a set. -/
theorem foldSets_inter (ks : List Key) (acc : FSet Bytes) :
    match ks.find? (fun k => !holdsSet d k) with
    | some k => foldSets d (fun acc s =>
        s.map fun s => (acc.keyList.filter fun m => !s.contains m).foldl Map.del acc) acc ks =
          if setAt d k = none then .err (.storage .wrongType) else .ok []
    | none => ∃ l, foldSets d (fun acc s =>
        s.map fun s => (acc.keyList.filter fun m => !s.contains m).foldl Map.del acc) acc ks = .ok l ∧
          l.Nodup ∧ ∀ m, m ∈ l ↔ acc.contains m = true ∧ ∀ k ∈ ks, MemberAt d k m := by
  induction ks generalizing acc with
  | nil =>
      refine ⟨acc.keyList, rfl, acc.nodup_keyList, fun m => ?_⟩
      rw [mem_keyList_iff]
      simp
  | cons k ks ih =>
      rw [foldSets, List.find?_cons]
      unfold holdsSet
      cases hk : setAt d k with
      | none => simp [hk]
      | some s =>
          cases s with
          | none => simp [hk]
          | some s =>
              dsimp only [Option.map_some]
              have hrest := ih ((acc.keyList.filter fun m => !s.contains m).foldl Map.del acc)
              unfold holdsSet at hrest
              simp only [Option.getD_some, Option.isSome_some, Bool.not_true]
              cases hf : ks.find? (fun k => !((setAt d k).getD none).isSome) with
              | some k' =>
                  rw [hf] at hrest
                  exact hrest
              | none =>
                  rw [hf] at hrest
                  obtain ⟨l, hl, hn, hm⟩ := hrest
                  refine ⟨l, hl, hn, fun m => ?_⟩
                  rw [hm, contains_foldl_del]
                  simp only [List.forall_mem_cons, List.mem_filter, mem_keyList_iff, MemberAt, hk,
                    Option.some.injEq, exists_eq_left']
                  cases acc.contains m <;> cases s.contains m <;> simp

/-- `sinter` from its first key on. -/
theorem fromFirst_inter (ks : List Key) (hne : ks ≠ []) :
    match ks.find? (fun k => !holdsSet d k) with
    | some k => fromFirst (fun acc s =>
        s.map fun s => (acc.keyList.filter fun m => !s.contains m).foldl Map.del acc) d ks =
          if setAt d k = none then .err (.storage .wrongType) else .ok []
    | none => ∃ l, fromFirst (fun acc s =>
        s.map fun s => (acc.keyList.filter fun m => !s.contains m).foldl Map.del acc) d ks = .ok l ∧
          l.Nodup ∧ ∀ m, m ∈ l ↔ ∀ k ∈ ks, MemberAt d k m := by
  cases ks with
  | nil => exact absurd rfl hne
  | cons k ks =>
      rw [fromFirst, List.find?_cons]
      cases hk : setAt d k with
      | none => simp [holdsSet, hk]
      | some s =>
          cases s with
          | none => simp [holdsSet, hk]
          | some s =>
              have hset : holdsSet d k = true := by simp [holdsSet, hk]
              have hrest := foldSets_inter d ks s
              simp only [hset, Bool.not_true]
              cases hf : ks.find? (fun k => !holdsSet d k) with
              | some k' =>
                  rw [hf] at hrest
                  exact hrest
              | none =>
                  rw [hf] at hrest
                  obtain ⟨l, hl, hn, hm⟩ := hrest
                  refine ⟨l, hl, hn, fun m => ?_⟩
                  rw [hm]
                  simp [MemberAt, hk]

theorem sameMembers_ok {a b : List Bytes} (ha : a.Nodup) (hb : b.Nodup) :
    SameMembers (.ok a) (.ok b) ↔ ∀ m, m ∈ a ↔ m ∈ b :=
  List.perm_ext_iff_of_nodup ha hb

section Compare

variable {d : Database} {d' : Database} {key : Key} {v : Value}
  (hv : setAt d key = v.asSet.map some) (h₀ : setAt d' key = some none)
  (hne : ∀ k, k ≠ key → setAt d' k = setAt d k)
include hv h₀ hne

theorem memberAt_evicted {k : Key} {m : Bytes} : MemberAt d' k m ↔ k ≠ key ∧ MemberAt d k m := by
  by_cases hk : k = key
  · subst hk
    simp [MemberAt, h₀]
  · simp [MemberAt, hne k hk, hk]

theorem bad_evicted {ks : List Key} :
    (∃ k ∈ ks, setAt d' k = none) ↔ ∃ k ∈ ks, k ≠ key ∧ setAt d k = none := by
  refine exists_congr fun k => and_congr_right fun _ => ?_
  by_cases hk : k = key
  · subst hk
    simp [h₀]
  · simp [hne k hk, hk]

omit h₀ hne in
theorem memberAt_raw {s : FSet Bytes} (hs : v.asSet = some s) {m : Bytes} :
    MemberAt d key m ↔ s.contains m = true := by
  simp [MemberAt, hv, hs]

theorem union_same_iff {ks : List Key} (hk : key ∈ ks) :
    SameMembers
      (foldSets d (fun acc s => some ((s.map (·.keyList)).getD [] |>.foldl Map.add acc)) ∅ ks)
      (foldSets d' (fun acc s => some ((s.map (·.keyList)).getD [] |>.foldl Map.add acc)) ∅ ks) ↔
    (∃ k ∈ ks, k ≠ key ∧ setAt d k = none) ∨
      ∃ s ∈ v.asSet, ∀ m, s.contains m = true → ∃ k ∈ ks, k ≠ key ∧ MemberAt d k m := by
  rcases foldSets_union d' ks ∅ with ⟨hbad', hr'⟩ | ⟨hall', l', hr', hn', hm'⟩
  · -- another key is of another type: both sides give the error
    have hother := (bad_evicted hv h₀ hne).mp hbad'
    rcases foldSets_union d ks ∅ with ⟨-, hr⟩ | ⟨hall, -⟩
    · rw [hr, hr']
      exact iff_of_true rfl (.inl hother)
    · obtain ⟨k, hk', -, hb⟩ := hother
      exact absurd hb (hall k hk')
  · have hother : ¬ ∃ k ∈ ks, k ≠ key ∧ setAt d k = none := by
      rw [← bad_evicted hv h₀ hne]
      rintro ⟨k, hk', hb⟩
      exact hall' k hk' hb
    simp only [hother, false_or]
    rw [hr']
    cases hs : v.asSet with
    | none =>
        -- the raw value itself is of another type
        have hb : setAt d key = none := by rw [hv, hs]; rfl
        rcases foldSets_union d ks ∅ with ⟨-, hr⟩ | ⟨hall, -⟩
        · rw [hr]
          exact iff_of_false (by rintro ⟨⟩) (by rintro ⟨_, ⟨⟩, _⟩)
        · exact absurd hb (hall key hk)
    | some s =>
        rcases foldSets_union d ks ∅ with ⟨⟨k, hk', hb⟩, -⟩ | ⟨-, l, hr, hn, hm⟩
        · have hkk : k = key := by
            by_contra hkk
            exact hother ⟨k, hk', hkk, hb⟩
          rw [hkk, hv, hs] at hb
          cases hb
        · rw [hr, sameMembers_ok hn hn']
          simp only [hm, hm', Map.contains, Map.get?_empty, Option.isSome_none, Bool.false_eq_true,
            false_or, Option.mem_def, Option.some.injEq, exists_eq_left', memberAt_evicted hv h₀ hne]
          constructor
          · intro h m hsm
            exact (h m).mp ⟨key, hk, (memberAt_raw hv hs).mpr hsm⟩
          · intro h m
            constructor
            · rintro ⟨k, hk', hmem⟩
              by_cases hkk : k = key
              · subst hkk
                exact h m ((memberAt_raw hv hs).mp hmem)
              · exact ⟨k, hk', hkk, hmem⟩
            · rintro ⟨k, hk', -, hmem⟩
              exact ⟨k, hk', hmem⟩

omit hne in
/-- The difference, when the raw set is what it starts from. -/
theorem diff_first_iff {rest : List Key} :
    SameMembers (fromFirst (fun acc s =>
        some ((s.map (·.keyList)).getD [] |>.foldl Map.del acc)) d (key :: rest))
      (fromFirst (fun acc s =>
        some ((s.map (·.keyList)).getD [] |>.foldl Map.del acc)) d' (key :: rest)) ↔
    ∃ s ∈ v.asSet, (∀ k ∈ rest, setAt d k ≠ none) ∧
      ∀ m, s.contains m = true → ∃ k ∈ rest, MemberAt d k m := by
  simp only [fromFirst, h₀, hv]
  cases hs : v.asSet with
  | none => exact iff_of_false (by rintro ⟨⟩) (by rintro ⟨_, ⟨⟩, _⟩)
  | some s =>
      simp only [Option.map_some, Option.mem_def, Option.some.injEq, exists_eq_left']
      rcases foldSets_diff d rest s with ⟨⟨k, hk, hb⟩, hr⟩ | ⟨hall, l, hr, hn, hm⟩
      · rw [hr]
        exact iff_of_false (by rintro ⟨⟩) fun h => h.1 k hk hb
      · rw [hr, sameMembers_ok hn List.nodup_nil]
        simp only [hm, List.not_mem_nil, iff_false, not_and, not_forall, not_not]
        constructor
        · intro h
          refine ⟨hall, fun m hsm => ?_⟩
          obtain ⟨k, hk, hmem⟩ := h m hsm
          exact ⟨k, hk, hmem⟩
        · intro h m hsm
          obtain ⟨k, hk, hmem⟩ := h.2 m hsm
          exact ⟨k, hk, hmem⟩

/-- The difference, when the raw set is taken away. -/
theorem diff_rest_iff {first : Key} {rest : List Key} (hf : first ≠ key) (hk : key ∈ rest) :
    SameMembers (fromFirst (fun acc s =>
        some ((s.map (·.keyList)).getD [] |>.foldl Map.del acc)) d (first :: rest))
      (fromFirst (fun acc s =>
        some ((s.map (·.keyList)).getD [] |>.foldl Map.del acc)) d' (first :: rest)) ↔
    holdsSet d first = false ∨ (∃ k ∈ rest, k ≠ key ∧ setAt d k = none) ∨
      ∃ s ∈ v.asSet, ∀ m, s.contains m = true → MemberAt d first m →
        ∃ k ∈ rest, k ≠ key ∧ MemberAt d k m := by
  simp only [fromFirst, hne first hf, holdsSet, MemberAt]
  cases hfs : setAt d first with
  | none => simp [SameMembers]
  | some a =>
      cases a with
      | none => simp [SameMembers]
      | some a =>
          simp only [Option.getD_some, Option.isSome_some, Bool.true_eq_false, false_or,
            Option.some.injEq, exists_eq_left']
          change _ ↔ _ ∨ ∃ s ∈ v.asSet, ∀ m, s.contains m = true → a.contains m = true →
            ∃ k ∈ rest, k ≠ key ∧ MemberAt d k m
          rcases foldSets_diff d' rest a with ⟨hbad', hr'⟩ | ⟨hall', l', hr', hn', hm'⟩
          · have hother := (bad_evicted hv h₀ hne).mp hbad'
            rcases foldSets_diff d rest a with ⟨-, hr⟩ | ⟨hall, -⟩
            · rw [hr, hr']
              exact iff_of_true rfl (.inl hother)
            · obtain ⟨k, hk', -, hb⟩ := hother
              exact absurd hb (hall k hk')
          · have hother : ¬ ∃ k ∈ rest, k ≠ key ∧ setAt d k = none := by
              rw [← bad_evicted hv h₀ hne]
              rintro ⟨k, hk', hb⟩
              exact hall' k hk' hb
            simp only [hother, false_or]
            rw [hr']
            cases hs : v.asSet with
            | none =>
                have hb : setAt d key = none := by rw [hv, hs]; rfl
                rcases foldSets_diff d rest a with ⟨-, hr⟩ | ⟨hall, -⟩
                · rw [hr]
                  exact iff_of_false (by rintro ⟨⟩) (by rintro ⟨_, ⟨⟩, _⟩)
                · exact absurd hb (hall key hk)
            | some s =>
                rcases foldSets_diff d rest a with ⟨⟨k, hk', hb⟩, -⟩ | ⟨-, l, hr, hn, hm⟩
                · have hkk : k = key := by
                    by_contra hkk
                    exact hother ⟨k, hk', hkk, hb⟩
                  rw [hkk, hv, hs] at hb
                  cases hb
                · rw [hr, sameMembers_ok hn hn']
                  simp only [hm, hm', Option.mem_def, Option.some.injEq, exists_eq_left',
                    memberAt_evicted hv h₀ hne]
                  constructor
                  · intro h m hsm ham
                    by_contra hno
                    refine ((h m).mpr ⟨ham, ?_⟩).2 key hk ((memberAt_raw hv hs).mpr hsm)
                    rintro k hk' ⟨hkk, hmem⟩
                    exact hno ⟨k, hk', hkk, hmem⟩
                  · intro h m
                    refine and_congr_right fun ham => ⟨fun hall k hk' hmem => hall k hk' hmem.2, ?_⟩
                    intro hall k hk' hmem
                    by_cases hkk : k = key
                    · subst hkk
                      obtain ⟨k₂, hk₂, hne₂, hmem₂⟩ :=
                        h m ((memberAt_raw hv hs).mp hmem) ham
                      exact hall k₂ hk₂ ⟨hne₂, hmem₂⟩
                    · exact hall k hk' ⟨hkk, hmem⟩

theorem inter_same_iff {ks : List Key} (hk : key ∈ ks) :
    SameMembers (fromFirst (fun acc s =>
        s.map fun s => (acc.keyList.filter fun m => !s.contains m).foldl Map.del acc) d ks)
      (fromFirst (fun acc s =>
        s.map fun s => (acc.keyList.filter fun m => !s.contains m).foldl Map.del acc) d' ks) ↔
    (∃ k, ks.find? (fun k => decide (k = key) || !holdsSet d k) = some k ∧ k ≠ key) ∨
      ∃ _s ∈ v.asSet, match ks.find? (fun k => !holdsSet d k) with
        | some k => setAt d k = some none
        | none => ¬ ∃ m, ∀ k ∈ ks, MemberAt d k m := by
  have hnil : ks ≠ [] := List.ne_nil_of_mem hk
  have hstop : (fun k => !holdsSet d' k) = fun k => decide (k = key) || !holdsSet d k := by
    funext k
    by_cases hkk : k = key
    · subst hkk
      simp [holdsSet, h₀]
    · simp [holdsSet, hne k hkk, hkk]
  have hin' := fromFirst_inter d' ks hnil
  rw [hstop] at hin'
  -- without the key the loop ends at the key at the latest
  obtain ⟨k', hf'⟩ : ∃ k', ks.find? (fun k => decide (k = key) || !holdsSet d k) = some k' := by
    cases hf : ks.find? (fun k => decide (k = key) || !holdsSet d k) with
    | some k' => exact ⟨k', rfl⟩
    | none =>
        have := List.find?_eq_none.mp hf key hk
        simp at this
  rw [hf'] at hin' ⊢
  dsimp only at hin'
  rw [hin']
  by_cases hkk : k' = key
  · subst hkk
    simp only [Option.some.injEq, exists_eq_left', ne_eq, not_true_eq_false, false_or, h₀]
    have hin := fromFirst_inter d ks hnil
    cases hs : v.asSet with
    | none =>
        -- the raw value is of another type, and nothing before it ends the loop
        have hfirst : ks.find? (fun k => !holdsSet d k) = some k' := by
          have hno : holdsSet d k' = false := by simp [holdsSet, hv, hs]
          have heq : (fun k => !holdsSet d k) = fun k => decide (k = k') || !holdsSet d k := by
            funext k
            by_cases h : k = k'
            · simp [h, hno]
            · simp [h]
          rw [heq, hf']
        rw [hfirst] at hin
        dsimp only at hin
        have hb : setAt d k' = none := by rw [hv, hs]; rfl
        rw [hin, if_pos hb]
        exact iff_of_false (by rintro ⟨⟩) (by rintro ⟨_, ⟨⟩, _⟩)
    | some s =>
        simp only [Option.mem_def, Option.some.injEq, exists_eq_left']
        cases hf : ks.find? (fun k => !holdsSet d k) with
        | some k₂ =>
            rw [hf] at hin
            dsimp only at hin ⊢
            have hns : holdsSet d k₂ = false := by simpa using List.find?_some hf
            rw [hin]
            cases hk₂ : setAt d k₂ with
            | none => simp [SameMembers]
            | some o =>
                cases o with
                | none => simp [SameMembers]
                | some s₂ => simp [holdsSet, hk₂] at hns
        | none =>
            rw [hf] at hin
            obtain ⟨l, hr, hn, hm⟩ := hin
            rw [hr]
            simp only [reduceCtorEq, if_false]
            rw [sameMembers_ok hn List.nodup_nil]
            simp only [hm, List.not_mem_nil, iff_false, not_exists]
  · -- an earlier key ends the loop on both sides
    refine iff_of_true ?_ (.inl ⟨k', rfl, hkk⟩)
    have hfirst : ks.find? (fun k => !holdsSet d k) = some k' := by
      rw [List.find?_eq_some_iff_append] at hf' ⊢
      obtain ⟨hk', as, bs, rfl, hbefore⟩ := hf'
      refine ⟨by simpa [hkk] using hk', as, bs, rfl, fun a ha => ?_⟩
      have := hbefore a ha
      simp only [Bool.not_or, Bool.and_eq_true] at this
      exact this.2
    have hin := fromFirst_inter d ks hnil
    rw [hfirst] at hin
    dsimp only at hin
    rw [hin, hne k' hkk]
    split
    · rfl
    · exact List.Perm.refl _

end Compare

end Sets

/-! ## The operations that walk a database -/

namespace Engine

/-- The entries of a database around those of one shard. -/
theorem entriesOf_split (d : Database) (i : Fin shardsPerDatabase) :
    ∃ before after, entriesOf d = before ++ ((d i).data.toPairs ++ after) ∧
      ∀ sh, entriesOf (Function.update d i sh) = before ++ (sh.data.toPairs ++ after) := by
  obtain ⟨l₁, l₂, hl⟩ := List.append_of_mem (List.mem_finRange i)
  have hn := List.nodup_finRange shardsPerDatabase
  rw [hl, List.nodup_middle, List.nodup_cons, List.mem_append, not_or] at hn
  refine ⟨l₁.flatMap fun j => (d j).data.toPairs, l₂.flatMap fun j => (d j).data.toPairs, ?_,
    fun sh => ?_⟩
  · rw [entriesOf, hl, List.flatMap_append, List.flatMap_cons]
  · have hsame : ∀ l : List (Fin shardsPerDatabase), i ∉ l →
        (l.flatMap fun j => (Function.update d i sh j).data.toPairs) =
          l.flatMap fun j => (d j).data.toPairs := by
      intro l hi
      refine List.flatMap_congr fun j hj => ?_
      have hji : j ≠ i := by
        rintro rfl
        exact hi hj
      rw [Function.update_of_ne hji]
    rw [entriesOf, hl, List.flatMap_append, List.flatMap_cons, hsame l₁ hn.1.1, hsame l₂ hn.1.2,
      Function.update_self]

variable {e : Engine} {db : Nat} {key : Key} {d : Database} {sv : StoredValue}

/-- The database with the key taken out. -/
def evicted (d : Database) (key : Key) : Database :=
  Function.update d (getShardIndex key)
    { d (getShardIndex key) with
      data := (d (getShardIndex key)).data.del key
      expiringKeys := (d (getShardIndex key)).expiringKeys.del key }

theorem evict_getElem? (e : Engine) (db : Nat) (key : Key) (db' : Nat) :
    (e.evict db key).databases[db']? =
      (e.databases[db']?).map fun d => if db' = db then evicted d key else d := by
  unfold evict shard?
  cases hd : e.databases[db]? with
  | none =>
      by_cases h : db' = db
      · subst h
        simp [hd]
      · simp [h]
  | some d =>
      simp only [Option.map_some, setShard, List.getElem?_modify]
      by_cases h : db = db'
      · subst h
        simp [hd, evicted]
      · have h' : ¬ db' = db := fun x => h x.symm
        simp [h, h']

/-- What a filter that drops the key sees is the same in both databases. -/
theorem filter_evicted (hk : (d (getShardIndex key)).data.get? key = some sv)
    {q : Key × StoredValue → Bool} (hq : q (key, sv) = false) :
    (entriesOf (evicted d key)).filter q = (entriesOf d).filter q := by
  obtain ⟨before, after, h₁, h₂⟩ := entriesOf_split d (getShardIndex key)
  rw [evicted, h₂, h₁]
  simp only [List.filter_append, Map.toPairs_del, List.filter_filter]
  congr 2
  refine List.filter_congr ?_
  rintro ⟨k, v⟩ hmem
  by_cases hkk : k = key
  · subst hkk
    rw [Map.mem_toPairs.mp hmem] at hk
    cases hk
    simp [hq]
  · simp [hkk]

/-- A filter that keeps the key sees one entry less. -/
theorem length_filter_evicted (hk : (d (getShardIndex key)).data.get? key = some sv)
    {q : Key × StoredValue → Bool} (hq : q (key, sv) = true) :
    ((entriesOf d).filter q).length = ((entriesOf (evicted d key)).filter q).length + 1 := by
  obtain ⟨before, after, h₁, h₂⟩ := entriesOf_split d (getShardIndex key)
  have hperm : (d (getShardIndex key)).data.toPairs.Perm
      ((key, sv) :: ((d (getShardIndex key)).data.del key).toPairs) := by
    rw [← Map.toPairs_set]
    refine Map.toPairs_perm_of_get?_eq fun k => ?_
    rw [Map.get?_set]
    split
    · next h => rw [h, hk]
    · rfl
  have hlen := (hperm.filter q).length_eq
  rw [List.filter_cons_of_pos hq, List.length_cons] at hlen
  rw [evicted, h₂, h₁]
  simp only [List.filter_append, List.length_append, hlen]
  omega

theorem setAt_eq_setView (hd : e.databases[db]? = some d) (k : Key) :
    setAt d k = e.setView db k := by
  rw [setAt, setView, entryAt_of_database hd]
  cases (d (getShardIndex k)).data.get? k with
  | none => rfl
  | some sv =>
      rcases sv with ⟨v, t⟩
      cases v <;> rfl

theorem get?_evicted (d : Database) (key k : Key) :
    (evicted d key (getShardIndex k)).data.get? k =
      if k = key then none else (d (getShardIndex k)).data.get? k := by
  unfold evicted
  by_cases hi : getShardIndex k = getShardIndex key
  · rw [hi, Function.update_self, Map.get?_del]
  · rw [Function.update_of_ne hi, if_neg fun h => hi (by rw [h])]

theorem setAt_evicted_self (d : Database) (key : Key) : setAt (evicted d key) key = some none := by
  rw [setAt, get?_evicted, if_pos rfl]

theorem setAt_evicted_ne (d : Database) {key k : Key} (h : k ≠ key) :
    setAt (evicted d key) k = setAt d k := by
  rw [setAt, get?_evicted, if_neg h, setAt]

end Engine

/-- Dropping answers from a list leaves it as it is only if none was dropped. -/
theorem filterMap_eq_iff {β γ : Type} {f g : β → Option γ} (l : List β)
    (h : ∀ b, g b = none ∨ g b = f b) :
    (l.filterMap g).length ≤ (l.filterMap f).length ∧
      (l.filterMap f = l.filterMap g ↔ ∀ b ∈ l, g b = f b) := by
  induction l with
  | nil => simp
  | cons b l ih =>
      rw [List.filterMap_cons, List.filterMap_cons, List.forall_mem_cons]
      rcases h b with hb | hb
      · cases hf : f b with
        | none => simpa [hb] using ih
        | some c =>
            simp only [hb, List.length_cons, reduceCtorEq, false_and, iff_false]
            refine ⟨by omega, fun heq => ?_⟩
            have := congrArg List.length heq
            rw [List.length_cons] at this
            omega
      · rw [hb]
        cases hf : f b with
        | none => simpa using ih
        | some c => simpa using ih

section Xread

variable {d : Database} {key : Key} {sv : StoredValue} {count : Option Nat}

/-- The key holds a value that is not a stream. -/
def HoldsOther (d : Database) (k : Key) : Prop :=
  ∃ sv, (d (getShardIndex k)).data.get? k = some sv ∧ sv.value.asStream = none

/-- What one key contributes to the answer of XREAD. -/
def xreadOne (d : Database) (count : Option Nat) (p : Key × StreamId) :
    Option (Key × List StreamEntry) :=
  (((d (getShardIndex p.1)).data.get? p.1).bind fun sv => sv.value.asStream).bind fun s =>
    if (s.rangeAfter p.2 count).isEmpty then none else some (p.1, s.rangeAfter p.2 count)

/-- The loop of XREAD: an error if any key is of another type, and otherwise
what the keys contribute. -/
theorem xreadLoop_spec (count : Option Nat) (d : Database) (kis : List (Key × StreamId))
    (acc : List (Key × List StreamEntry)) :
    ((∃ p ∈ kis, HoldsOther d p.1) ∧
      Engine.xreadLoop d count kis acc = .err (.storage .wrongType)) ∨
    ((∀ p ∈ kis, ¬ HoldsOther d p.1) ∧
      Engine.xreadLoop d count kis acc = .ok (acc ++ kis.filterMap (xreadOne d count))) := by
  induction kis generalizing acc with
  | nil => exact .inr ⟨nofun, by simp [Engine.xreadLoop]⟩
  | cons p kis ih =>
      obtain ⟨k, after⟩ := p
      rw [Engine.xreadLoop]
      cases hk : (d (getShardIndex k)).data.get? k with
      | none =>
          have hone : xreadOne d count (k, after) = none := by simp [xreadOne, hk]
          have hno : ¬ HoldsOther d k := by simp [HoldsOther, hk]
          rw [List.filterMap_cons, hone]
          simpa [List.exists_mem_cons_iff, hno] using ih acc
      | some sv =>
          rcases sv with ⟨v, t⟩
          cases v with
          | stream s =>
              have hno : ¬ HoldsOther d k := by simp [HoldsOther, hk, Value.asStream]
              rcases ih (if (s.rangeAfter after count).isEmpty then acc
                else acc ++ [(k, s.rangeAfter after count)]) with ⟨⟨p, hp, hb⟩, hr⟩ | ⟨hall, hr⟩
              · exact .inl ⟨⟨p, List.mem_cons_of_mem _ hp, hb⟩, hr⟩
              · refine .inr ⟨?_, ?_⟩
                · intro p hp
                  rcases List.mem_cons.mp hp with rfl | hp
                  · exact hno
                  · exact hall p hp
                · refine hr.trans (congrArg Outcome.ok ?_)
                  rw [List.filterMap_cons]
                  simp only [xreadOne, hk, Option.bind_some, Value.asStream]
                  cases (s.rangeAfter after count).isEmpty <;> simp [xreadOne]
          | _ =>
              exact .inl ⟨⟨_, List.mem_cons_self, _, hk, rfl⟩, rfl⟩

/-- The loop of XREAD, in both databases. -/
theorem xreadLoop_iff (hk : (d (getShardIndex key)).data.get? key = some sv)
    (kis : List (Key × StreamId)) :
    Engine.xreadLoop d count kis [] = Engine.xreadLoop (Engine.evicted d key) count kis [] ↔
      (∃ p ∈ kis, p.1 ≠ key ∧ HoldsOther d p.1) ∨
      ∀ p ∈ kis, p.1 = key → ∃ s ∈ sv.value.asStream, s.rangeAfter p.2 count = [] := by
  have hother : ∀ k, HoldsOther (Engine.evicted d key) k ↔ k ≠ key ∧ HoldsOther d k := by
    intro k
    unfold HoldsOther
    rw [Engine.get?_evicted]
    by_cases h : k = key
    · simp [h]
    · simp [h]
  have hone : ∀ p, xreadOne (Engine.evicted d key) count p =
      if p.1 = key then none else xreadOne d count p := by
    intro p
    unfold xreadOne
    rw [Engine.get?_evicted]
    split <;> simp_all
  rcases xreadLoop_spec count (Engine.evicted d key) kis [] with
    ⟨⟨p, hp, hb⟩, hr'⟩ | ⟨hall', hr'⟩
  · -- another key gives the error on both sides
    have hb' := (hother p.1).mp hb
    rcases xreadLoop_spec count d kis [] with ⟨-, hr⟩ | ⟨hall, -⟩
    · rw [hr, hr']
      exact iff_of_true rfl (.inl ⟨p, hp, hb'⟩)
    · exact absurd hb'.2 (hall p hp)
  · have hno : ¬ ∃ p ∈ kis, p.1 ≠ key ∧ HoldsOther d p.1 := by
      rintro ⟨p, hp, hb⟩
      exact hall' p hp ((hother p.1).mpr hb)
    simp only [hno, false_or]
    rw [hr']
    rcases xreadLoop_spec count d kis [] with ⟨⟨p, hp, hb⟩, hr⟩ | ⟨hall, hr⟩
    · -- only the raw value can be of another type
      have hpk : p.1 = key := by
        by_contra hne
        exact hno ⟨p, hp, hne, hb⟩
      rw [hr]
      refine iff_of_false (by rintro ⟨⟩) fun h => ?_
      obtain ⟨s, hs, -⟩ := h p hp hpk
      obtain ⟨sv', hsv', hnone⟩ := hb
      rw [hpk, hk] at hsv'
      cases hsv'
      rw [hnone] at hs
      cases hs
    · rw [hr, List.nil_append, List.nil_append, Outcome.ok.injEq,
        (filterMap_eq_iff kis fun p => by rw [hone]; split <;> simp).2]
      refine forall₂_congr fun p hp => ?_
      rw [hone]
      by_cases hpk : p.1 = key
      · simp only [hpk, if_true, forall_const]
        have hraw : xreadOne d count p = sv.value.asStream.bind fun s =>
            if (s.rangeAfter p.2 count).isEmpty then none
            else some (p.1, s.rangeAfter p.2 count) := by
          simp [xreadOne, hpk, hk]
        rw [hraw]
        cases hs : sv.value.asStream with
        | none => exact absurd ⟨sv, hpk ▸ hk, hs⟩ (hall p hp)
        | some s =>
            simp only [Option.bind_some, Option.mem_def, Option.some.injEq, exists_eq_left']
            cases hl : s.rangeAfter p.2 count <;> simp
      · simp [hpk]

end Xread

/-- Without the key in the list, the two databases read the same. -/
theorem foldSets_evicted {d : Database} {key : Key} {ks : List Key}
    (combine : FSet Bytes → Option (FSet Bytes) → Option (FSet Bytes)) (hk : key ∉ ks)
    (acc : FSet Bytes) :
    Engine.foldSets (Engine.evicted d key) combine acc ks = Engine.foldSets d combine acc ks := by
  induction ks generalizing acc with
  | nil => rfl
  | cons k ks ih =>
      rw [List.mem_cons, not_or] at hk
      rw [Engine.foldSets, Engine.foldSets, Engine.setAt_evicted_ne d fun h => hk.1 h.symm]
      split
      · rfl
      · split
        · exact ih hk.2 _
        · rfl

@[inherit_doc foldSets_evicted]
theorem fromFirst_evicted {d : Database} {key : Key} {ks : List Key}
    (combine : FSet Bytes → Option (FSet Bytes) → Option (FSet Bytes)) (hk : key ∉ ks) :
    Engine.fromFirst combine (Engine.evicted d key) ks = Engine.fromFirst combine d ks := by
  cases ks with
  | nil => rfl
  | cons k ks =>
      rw [List.mem_cons, not_or] at hk
      rw [Engine.fromFirst, Engine.fromFirst, Engine.setAt_evicted_ne d fun h => hk.1 h.symm]
      split
      · rfl
      · rfl
      · exact foldSets_evicted combine hk.2 _

end Ferrous
