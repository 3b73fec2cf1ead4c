/-
# `Commands.ListRemovals` — which elements LREM takes out of a list

The engine goes through the list from the front, or from the back towards the front, and
builds it anew without the first occurrences it meets.  A cut says which those are: in
front of it (or behind it) every occurrence goes, on the other side none.
-/
import Ferrous.Commands.Collections
import Ferrous.Storage.AbsenceKeys
import Ferrous.Storage.RdbRecords

namespace Ferrous

open Lib

/-! ## Occurrences up to a cut -/

/-- In front of some cut, which `removed` occurrences are in front of, every occurrence
has gone, and behind it none. -/
def FirstGone (element : Bytes) (removed : Nat) (items left : List Bytes) : Prop :=
  ∃ front back, items = front ++ back ∧ front.count element = removed ∧
    left = front.filter (· ≠ element) ++ back

/-- The same from the back. -/
def LastGone (element : Bytes) (removed : Nat) (items left : List Bytes) : Prop :=
  ∃ front back, items = front ++ back ∧ back.count element = removed ∧
    left = front ++ back.filter (· ≠ element)

theorem FirstGone.reverse {element : Bytes} {removed : Nat} {items left : List Bytes}
    (h : FirstGone element removed items.reverse left) : LastGone element removed items left.reverse := by
  obtain ⟨front, back, hitems, hcount, rfl⟩ := h
  refine ⟨back.reverse, front.reverse, ?_, ?_, ?_⟩
  · rw [← List.reverse_append, ← hitems, List.reverse_reverse]
  · rw [List.count_reverse, hcount]
  · rw [List.reverse_append, List.filter_reverse]

/-- The walk from the front takes as many occurrences as it is asked for, if there are
that many. -/
theorem removeFirst_spec (element : Bytes) (n : Nat) (items : List Bytes) :
    (KeyOps.removeFirst element n items).1 = min n (items.count element) ∧
      FirstGone element (KeyOps.removeFirst element n items).1 items (KeyOps.removeFirst element n items).2 := by
  induction items generalizing n with
  | nil =>
      have hnone : KeyOps.removeFirst element n [] = (0, []) := by cases n <;> rfl
      rw [hnone]
      exact ⟨(Nat.min_zero n).symm, [], [], rfl, rfl, rfl⟩
  | cons item items ih =>
      cases n with
      | zero => exact ⟨(Nat.zero_min _).symm, [], item :: items, rfl, rfl, rfl⟩
      | succ n =>
          simp only [KeyOps.removeFirst]
          split
          · next heq =>
              obtain ⟨hamount, front, back, hitems, hcount, hleft⟩ := ih n
              subst heq
              refine ⟨?_, item :: front, back, ?_, ?_, ?_⟩
              · rw [List.count_cons_self, Nat.succ_min_succ, hamount]
              · rw [hitems, List.cons_append]
              · rw [List.count_cons_self, hcount]
              · rw [List.filter_cons_of_neg (by simp), hleft]
          · next hne =>
              obtain ⟨hamount, front, back, hitems, hcount, hleft⟩ := ih (n + 1)
              refine ⟨?_, item :: front, back, ?_, ?_, ?_⟩
              · rw [List.count_cons_of_ne hne, hamount]
              · rw [hitems, List.cons_append]
              · rw [List.count_cons_of_ne hne, hcount]
              · rw [List.filter_cons_of_pos (by simpa using hne), hleft, List.cons_append]

/-- What LREM is for: `count` occurrences go, counted from the front, or from the back
where it is negative, or all of them where it is 0. -/
structure RemovesExactly (count : Int) (element : Bytes) (items : List Bytes) (removed : Nat)
    (left : List Bytes) : Prop where
  amount : removed = if count = 0 then items.count element else min count.natAbs (items.count element)
  all : count = 0 → left = items.filter (· ≠ element)
  first : 0 < count → FirstGone element removed items left
  last : count < 0 → LastGone element removed items left

/-- The three loops do that, unless the negation of the least integer traps. -/
theorem lremList_spec {checks : Bool} {count : Int} (hsmall : ¬ (checks = true ∧ count = -2 ^ 63))
    (element : Bytes) (items : List Bytes) :
    ∃ removed left, KeyOps.lremList checks count element items = some (removed, left) ∧
      RemovesExactly count element items removed left := by
  unfold KeyOps.lremList
  rcases Int.lt_trichotomy count 0 with hneg | rfl | hpos
  · have hchecks : ¬ ((checks && decide (count = -2 ^ 63)) = true) := by
      rw [Bool.and_eq_true, decide_eq_true_eq]
      exact hsmall
    rw [if_neg (Int.ne_of_lt hneg), if_neg (Int.not_lt.mpr (Int.le_of_lt hneg)), if_neg hchecks]
    obtain ⟨hamount, hgone⟩ := removeFirst_spec element (-count).toNat items.reverse
    refine ⟨_, _, rfl, ?_, fun h => absurd h (Int.ne_of_lt hneg),
      fun h => absurd h (Int.not_lt.mpr (Int.le_of_lt hneg)), fun _ => hgone.reverse⟩
    have habs : (-count).toNat = count.natAbs := by omega
    rw [if_neg (Int.ne_of_lt hneg), hamount, List.count_reverse, habs]
  · exact ⟨_, _, rfl, rfl, fun _ => rfl, fun h => absurd h (Int.lt_irrefl 0), fun h => absurd h (Int.lt_irrefl 0)⟩
  · rw [if_neg (Int.ne_of_gt hpos), if_pos hpos]
    obtain ⟨hamount, hgone⟩ := removeFirst_spec element count.toNat items
    refine ⟨_, _, rfl, ?_, fun h => absurd h (Int.ne_of_gt hpos), fun _ => hgone,
      fun h => absurd h (Int.not_lt.mpr (Int.le_of_lt hpos))⟩
    have habs : count.toNat = count.natAbs := by omega
    rw [if_neg (Int.ne_of_gt hpos), hamount, habs]

/-! ## The command -/

section Command

variable {ω : Nat → Ctx} {w : World} {db : Nat} {key : Key}

/-- An operation on a database that is not there. -/
theorem World.step_missing {α : Type} (hdb : ¬ db < w.engine.databases.length) (c : KeyCmd α) :
    World.step ω α (.key db key c) w = (.err Engine.invalidDatabase, ⟨w.engine, w.calls + 1⟩) := by
  simp only [World.step, Op.run, Engine.withEntry_missing hdb]

/-- An operation that the engine answers with an error. -/
theorem World.step_fails {α : Type} {c : KeyCmd α} {e : FerrousError} (hdb : db < w.engine.databases.length)
    (he : w.engine.answerOf (c.step key (ω w.calls) (w.engine.entryAt db key)) = .err e) :
    ∃ w', World.step ω α (.key db key c) w = (.err e, w') := by
  have hanswer : (World.step ω α (.key db key c) w).1 =
      w.engine.answerOf (c.step key (ω w.calls) (w.engine.entryAt db key)) := Engine.withEntry_fst hdb key _ _
  exact ⟨_, Prod.ext (hanswer.trans he) rfl⟩

/-- A handler of one operation that asks for no memory. -/
theorem run_onKey_uncharged {α : Type} (hdb : db < w.engine.databases.length) (onError : OnError)
    {c : KeyCmd α} (render : α → RespFrame) {st : KeyStep α}
    (hst : c.step key (ω w.calls) (w.engine.entryAt db key) = st) (hcharge : st.charge = none) :
    ∃ e', (onKey onError db key c render).run (World.step ω) w =
        Prog.andThen (st.result, ⟨e', w.calls + 1⟩)
          (fun r w' => (answering onError render r).run (World.step ω) w') ∧
      OnlyChanges db key w.engine e' ∧ e'.entryAt db key = st.entry.leaves (w.engine.entryAt db key) := by
  have hstep := World.step_of_admitted (ω := ω) key c hdb (Engine.refuses_of_charge (by rw [hst]; exact hcharge))
  rw [hst] at hstep
  obtain ⟨e', hrun, hch, hentry⟩ := hstep
  refine ⟨e', ?_, hch, hentry⟩
  rw [onKey, calling, Prog.run_call, hrun]

/-- The three ends of a handler of one operation that asks for no memory: an error, the
answer of the operation, or its panic. -/
theorem run_onKey_ends {α : Type} {c : KeyCmd α} {st : KeyStep α}
    (hst : c.step key (ω w.calls) (w.engine.entryAt db key) = st)
    (hcharge : st.charge = none) (render : α → RespFrame) :
    ((∃ msg w', (onKey .reply db key c render).run (World.step ω) w = (.ok (.err msg), w')) ∧
      (db < w.engine.databases.length → ∃ e, st.result = .err e)) ∨
    (∃ a w', db < w.engine.databases.length ∧ st.result = .ok a ∧
      (onKey .reply db key c render).run (World.step ω) w = (.ok (render a), w') ∧
      w'.engine.entryAt db key = st.entry.leaves (w.engine.entryAt db key)) ∨
    (db < w.engine.databases.length ∧ st.result = .panic ∧
      ((onKey .reply db key c render).run (World.step ω) w).1 = .panic) := by
  by_cases hdb : db < w.engine.databases.length
  · obtain ⟨e', hrun, -, hentry⟩ := run_onKey_uncharged hdb .reply render hst hcharge
    cases hresult : st.result with
    | ok a => exact .inr (.inl ⟨a, ⟨e', w.calls + 1⟩, hdb, rfl, by rw [hrun, hresult]; rfl, hentry⟩)
    | panic => exact .inr (.inr ⟨hdb, rfl, by rw [hrun, hresult]; rfl⟩)
    | err e =>
        rw [hresult] at hrun
        refine .inl ⟨?_, fun _ => ⟨e, rfl⟩⟩
        cases e with
        | storage s => cases s <;> exact ⟨_, _, hrun⟩
        | _ => exact ⟨_, _, hrun⟩
  · -- A database that is not there fails before the operation.
    refine .inl ⟨⟨"ERR " ++ Engine.invalidDatabase.display, ⟨w.engine, w.calls + 1⟩, ?_⟩, fun h => absurd h hdb⟩
    rw [onKey, calling, Prog.run_call, World.step_missing hdb]
    rfl

/-- The entry holds these elements; nothing is stored for none. -/
def HoldsList (entry : Option StoredValue) (items : List Bytes) : Prop :=
  match entry with
  | none => items = []
  | some sv => sv.value = .list items

/-- LREM answers how many occurrences it took out, and leaves the others under the key, or
no key where no element is left. -/
def LremExact (ω : Nat → Ctx) (w : World) (db : Nat) (key : Key) (text element : Bytes) (n : Int)
    (items : List Bytes) : Prop :=
  ∃ removed left w', (handleLrem db [.fromString "LREM", .fromBytes key, .fromBytes text, .fromBytes element]).run
      (World.step ω) w = (.ok (count removed), w') ∧
    RemovesExactly n element items removed left ∧ OnlyChanges db key w.engine w'.engine ∧
    HoldsList (w'.engine.entryAt db key) left ∧ (w'.engine.entryAt db key = none ↔ left = [])

theorem handleLrem_eq {text : Bytes} {n : Int} (hn : parseI64 (fromUtf8Lossy text) = some n) (element : Bytes) :
    handleLrem db [.fromString "LREM", .fromBytes key, .fromBytes text, .fromBytes element] =
      onKey .reply db key (.lrem n element) count := by
  have hint : Args.int [.fromString "LREM", .fromBytes key, .fromBytes text, .fromBytes element] 2 "count" = .ok n :=
    Args.numeral_of_text _ _ rfl hn
  change reading ((Args.int [.fromString "LREM", .fromBytes key, .fromBytes text, .fromBytes element] 2
    "count").bind _) _ = _
  rw [hint]
  rfl

/-- On a list, unless the negation traps. -/
theorem lrem_exact_of_list {sv : StoredValue} {items : List Bytes} (h : w.engine.entryAt db key = some sv)
    (hv : sv.value = .list items) {text : Bytes} {n : Int} (hn : parseI64 (fromUtf8Lossy text) = some n)
    (element : Bytes) (hsmall : ¬ ((ω w.calls).overflowChecks = true ∧ n = -2 ^ 63)) :
    LremExact ω w db key text element n items := by
  obtain ⟨removed, left, hlist, hspec⟩ := lremList_spec hsmall element items
  have hst : (KeyCmd.lrem n element).step key (ω w.calls) (w.engine.entryAt db key) =
      .shrink sv (.list left) left.isEmpty (decide (0 < removed)) removed := by
    rw [h]
    simp only [KeyCmd.step, KeyOps.lrem, KeyOps.onList, hv, hlist]
  obtain ⟨e', hrun, hch, hentry⟩ := run_onKey_uncharged (Engine.lt_of_entryAt h) .reply count hst rfl
  refine ⟨removed, left, ⟨e', w.calls + 1⟩, ?_, hspec, hch, ?_⟩
  · rw [handleLrem_eq hn, hrun]
    rfl
  · rw [hentry]
    cases left with
    | nil => exact ⟨rfl, iff_of_true rfl rfl⟩
    | cons item left => exact ⟨rfl, iff_of_false (Option.some_ne_none _) (List.cons_ne_nil item left)⟩

/-- On an absent key. -/
theorem lrem_exact_of_absent (hdb : db < w.engine.databases.length) (h : w.engine.entryAt db key = none)
    {text : Bytes} {n : Int} (hn : parseI64 (fromUtf8Lossy text) = some n) (element : Bytes) :
    LremExact ω w db key text element n [] := by
  have hst : (KeyCmd.lrem n element).step key (ω w.calls) (w.engine.entryAt db key) = .answer 0 := by
    rw [h]
    rfl
  obtain ⟨e', hrun, hch, hentry⟩ := run_onKey_uncharged hdb .reply count hst rfl
  have hnone : e'.entryAt db key = none := hentry.trans h
  refine ⟨0, [], ⟨e', w.calls + 1⟩, ?_, ?_, hch, ?_⟩
  · rw [handleLrem_eq hn, hrun]
    rfl
  · refine ⟨by simp, fun _ => rfl, fun _ => ⟨[], [], rfl, rfl, rfl⟩, fun _ => ⟨[], [], rfl, rfl, rfl⟩⟩
  · exact ⟨by rw [hnone]; rfl, iff_of_true hnone rfl⟩

/-- With overflow checks the negation of the least integer panics. -/
theorem lrem_panics {sv : StoredValue} {items : List Bytes} (h : w.engine.entryAt db key = some sv)
    (hv : sv.value = .list items) {text : Bytes} (hn : parseI64 (fromUtf8Lossy text) = some (-2 ^ 63))
    (element : Bytes) (hchecks : (ω w.calls).overflowChecks = true) :
    ((handleLrem db [.fromString "LREM", .fromBytes key, .fromBytes text, .fromBytes element]).run
      (World.step ω) w).1 = .panic := by
  have hst : (KeyCmd.lrem (-2 ^ 63) element).step key (ω w.calls) (w.engine.entryAt db key) = .panics := by
    rw [h]
    simp only [KeyCmd.step, KeyOps.lrem, KeyOps.onList, hv]
    rw [hchecks]
    rfl
  obtain ⟨e', hrun, -, -⟩ := run_onKey_uncharged (Engine.lt_of_entryAt h) .reply count hst rfl
  rw [handleLrem_eq hn, hrun]
  rfl

end Command

/-- In every build LREM is exact, on a list or on no key at all, unless a list is there and
the count is the least integer. -/
theorem lrem_exact_iff {w : World} {db : Nat} {key : Key} {items : List Bytes}
    (hdb : db < w.engine.databases.length) (h : HoldsList (w.engine.entryAt db key) items) {text : Bytes} {n : Int}
    (hn : parseI64 (fromUtf8Lossy text) = some n) (element : Bytes) :
    (∀ ω, LremExact ω w db key text element n items) ↔
      ¬ (w.engine.entryAt db key ≠ none ∧ n = -2 ^ 63) := by
  cases hent : w.engine.entryAt db key with
  | none =>
      rw [hent] at h
      rw [show items = [] from h]
      exact iff_of_true (fun ω => lrem_exact_of_absent hdb hent hn element) fun hand => hand.1 rfl
  | some sv =>
      rw [hent] at h
      constructor
      · rintro hall ⟨-, rfl⟩
        obtain ⟨removed, left, w', hrun, -⟩ := hall fun _ => { (.at 0 : Ctx) with overflowChecks := true }
        have hpanic := lrem_panics (ω := fun _ => { (.at 0 : Ctx) with overflowChecks := true }) hent h hn element rfl
        rw [hrun] at hpanic
        cases hpanic
      · intro hno ω
        exact lrem_exact_of_list hent h hn element fun hand => hno ⟨nofun, hand.2⟩

/-- A list of three elements, two of them equal. -/
def aba : World :=
  ⟨((Op.key 0 "l".toBytes (.rpush ["a".toBytes, "b".toBytes, "a".toBytes])).run (.at 0)
    (Engine.withConfig 1 .unlimited)).2, 0⟩

theorem aba_list : aba.engine.entryAt 0 "l".toBytes = some ⟨.list ["a".toBytes, "b".toBytes, "a".toBytes], none⟩ := by
  decide +kernel

/-- LREM with the count -1. -/
theorem aba_lrem : LremExact (fun _ => .at 0) aba 0 "l".toBytes (intBytes (-1)) "a".toBytes (-1)
    ["a".toBytes, "b".toBytes, "a".toBytes] :=
  (lrem_exact_iff (by decide) (by rw [aba_list]; rfl)
    (by rw [fromUtf8Lossy_of_fromUtf8 (fromUtf8_intBytes _)]; exact parseI64_toString (by decide) (by decide)) _).mpr
    (by decide) _

/-- LREM with the least count panics in a build with overflow checks. -/
theorem aba_lrem_least :
    HoldsList (aba.engine.entryAt 0 "l".toBytes) ["a".toBytes, "b".toBytes, "a".toBytes] ∧
      parseI64 (fromUtf8Lossy (intBytes (-2 ^ 63))) = some (-2 ^ 63) ∧
      ¬ LremExact (fun _ => { (.at 0 : Ctx) with overflowChecks := true }) aba 0 "l".toBytes (intBytes (-2 ^ 63))
        "a".toBytes (-2 ^ 63) ["a".toBytes, "b".toBytes, "a".toBytes] := by
  have hn : parseI64 (fromUtf8Lossy (intBytes (-2 ^ 63))) = some (-2 ^ 63) := by
    rw [fromUtf8Lossy_of_fromUtf8 (fromUtf8_intBytes _)]
    exact parseI64_toString (by decide) (by decide)
  refine ⟨by rw [aba_list]; rfl, hn, ?_⟩
  rintro ⟨removed, left, w', hrun, -⟩
  have hpanic := lrem_panics (ω := fun _ => { (.at 0 : Ctx) with overflowChecks := true }) aba_list rfl hn
    "a".toBytes rfl
  rw [hrun] at hpanic
  cases hpanic

end Ferrous
