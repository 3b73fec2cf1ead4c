/-
# `Storage.IndexRanges` — the ranges of LRANGE, LTRIM, ZRANGE, ZREVRANGE, GETRANGE

Five methods of the engine turn a pair of signed ends into positions, each in
its own way.  `RangeCommand.Selects` says what all five are for: the elements
between the two ends (`slice`).  They do that unless the ends slip:

- a stop in front of the first element is raised to it, so that a start at or
  in front of the first element still takes that element (`FirstTaken`);
- ZREVRANGE also lowers a start behind the last element to it (`LastTaken`);
- GETRANGE turns a stop in front of the first byte into `usize::MAX`, and takes
  one from the length of an empty string (`EndUnderflows`).
-/
import Ferrous.Lib.Selection
import Ferrous.Storage.World

namespace Ferrous

open Lib

/-! ## The commands and what they are for -/

/-- The commands that take a range of positions. -/
inductive RangeCommand
  | lrange | ltrim | zrange | zrevrange | getrange
  deriving DecidableEq, Repr

/-- The command takes, from the entry `sv` under a key, the elements between the
two ends, in every build and at every moment. -/
def RangeCommand.Selects (e : Engine) (db : Nat) (key : Key) (sv : StoredValue)
    (start stop : Int) : RangeCommand → Prop
  | lrange => ∀ items, sv.value = .list items → ∀ ctx,
      (Op.key db key (.lrange start stop)).run ctx e = (.ok (slice items start stop), e)
  | ltrim => ∀ items, sv.value = .list items → ∀ ctx,
      ((Op.key db key (.ltrim start stop)).run ctx e).1 = .ok () ∧
      ((Op.key db key (.ltrim start stop)).run ctx e).2.entryAt db key =
        if slice items start stop = [] then none
        else some { sv with value := .list (slice items start stop) }
  | zrange => ∀ zset, sv.value = .sortedSet zset → ∀ ctx,
      (Op.key db key (.zrange start stop false)).run ctx e = (.ok (slice zset.items start stop), e)
  | zrevrange => ∀ zset, sv.value = .sortedSet zset → ∀ ctx,
      (Op.key db key (.zrange start stop true)).run ctx e =
        (.ok (slice zset.items.reverse start stop), e)
  | getrange => ∀ bytes, sv.value = .string bytes → ∀ ctx,
      (Op.key db key (.getrange start stop)).run ctx e = (.ok (slice bytes start stop), e)

/-! ## The ends that slip -/

/-- The stop lies in front of the first element and the start not behind it. -/
def FirstTaken (len : Nat) (start stop : Int) : Prop :=
  0 < len ∧ fromBack len stop < 0 ∧ fromBack len start ≤ 0

/-- The start lies behind the last element and the stop, raised to the first
element, not in front of the last. -/
def LastTaken (len : Nat) (start stop : Int) : Prop :=
  0 < len ∧ len ≤ fromBack len start ∧ (len : Int) - 1 ≤ max 0 (fromBack len stop)

/-- The end of GETRANGE underflows: one less than the length of an empty string,
or a stop in front of the first byte while the start is in the string. -/
def EndUnderflows (len : Nat) (start stop : Int) : Prop :=
  (len = 0 ∧ 0 ≤ stop) ∨ (0 < len ∧ fromBack len stop < 0 ∧ fromBack len start < len)

instance (len : Nat) (start stop : Int) : Decidable (FirstTaken len start stop) :=
  inferInstanceAs (Decidable (_ ∧ _))

instance (len : Nat) (start stop : Int) : Decidable (LastTaken len start stop) :=
  inferInstanceAs (Decidable (_ ∧ _))

instance (len : Nat) (start stop : Int) : Decidable (EndUnderflows len start stop) :=
  inferInstanceAs (Decidable (_ ∨ _))

/-- The ends slip for the command on the stored value. -/
def RangeCommand.Slips (v : Value) (start stop : Int) : RangeCommand → Prop
  | lrange => ∃ items, v = .list items ∧ FirstTaken items.length start stop
  | ltrim => ∃ items, v = .list items ∧ FirstTaken items.length start stop
  | zrange => ∃ zset, v = .sortedSet zset ∧ FirstTaken zset.len start stop
  | zrevrange => ∃ zset, v = .sortedSet zset ∧
      (FirstTaken zset.len start stop ∨ LastTaken zset.len start stop)
  | getrange => ∃ bytes, v = .string bytes ∧ EndUnderflows bytes.length start stop

/-! ## Cutting a list at raised ends -/

section Clamped

variable {α : Type} (l : List α) (start stop : Int)

theorem clampIndex_eq (len : Nat) (i : Int) : KeyOps.clampIndex len i = (fromBack len i).toNat := by
  unfold KeyOps.clampIndex fromBack
  split <;> omega

/-- A stop raised to the first element selects the elements between the ends,
but for the slip. -/
theorem clamped_eq_slice_iff :
    (l.take (KeyOps.clampIndex l.length stop + 1)).drop (KeyOps.clampIndex l.length start) =
      slice l start stop ↔ ¬ FirstTaken l.length start stop := by
  rw [slice_eq, clampIndex_eq, clampIndex_eq]
  unfold FirstTaken
  by_cases hstop : fromBack l.length stop < 0
  · have hend : (fromBack l.length stop).toNat = 0 := by omega
    have hend' : (fromBack l.length stop + 1).toNat = 0 := by omega
    rw [hend, hend', List.take_zero, List.drop_nil, List.drop_eq_nil_iff, List.length_take]
    omega
  · have hend : (fromBack l.length stop + 1).toNat = (fromBack l.length stop).toNat + 1 := by omega
    rw [hend]
    simp [hstop]

/-- With the start lowered to the last element too, there is the other slip. -/
theorem lowered_eq_slice_iff :
    (l.take (KeyOps.clampIndex l.length stop + 1)).drop
        (min (KeyOps.clampIndex l.length start) (l.length - 1)) = slice l start stop ↔
      ¬ (FirstTaken l.length start stop ∨ LastTaken l.length start stop) := by
  by_cases hstart : (l.length : Int) ≤ fromBack l.length start
  · -- nothing lies between the ends
    have hnil : slice l start stop = [] := by
      rw [slice_eq, List.drop_eq_nil_iff, List.length_take]
      omega
    have hfirst : ¬ FirstTaken l.length start stop := by
      unfold FirstTaken
      omega
    rw [hnil, List.drop_eq_nil_iff, List.length_take, clampIndex_eq, clampIndex_eq]
    simp only [hfirst, false_or]
    unfold LastTaken
    omega
  · have hmin : min (KeyOps.clampIndex l.length start) (l.length - 1) =
        KeyOps.clampIndex l.length start := by
      rw [clampIndex_eq]
      omega
    have hlast : ¬ LastTaken l.length start stop := fun h => hstart h.2.1
    rw [hmin, clamped_eq_slice_iff]
    simp only [hlast, or_false]

end Clamped

/-! ## Sorted sets by rank -/

namespace SkipList

variable (z : SkipList)

theorem rangeByRank_eq (a b : Nat) : z.rangeByRank a b = (z.items.take (b + 1)).drop a := by
  have hlen : z.items.length = z.len := z.length_items
  have hunfold : z.rangeByRank a b =
      if z.len ≤ a then [] else (z.items.drop a).take (min (b + 1) z.len - a) := rfl
  rw [hunfold, List.drop_take]
  split
  · next h => rw [List.drop_eq_nil_iff.mpr (by omega), List.take_nil]
  · rw [List.take_eq_take_iff, List.length_drop]
    omega

end SkipList

/-- ZRANGE cuts the members at the raised ends. -/
theorem zrangeItems_forward (z : SkipList) (start stop : Int) :
    KeyOps.zrangeItems z start stop false =
      (z.items.take (KeyOps.clampIndex z.items.length stop + 1)).drop
        (KeyOps.clampIndex z.items.length start) := by
  have hlen : z.items.length = z.len := z.length_items
  unfold KeyOps.zrangeItems
  dsimp only
  rw [← hlen]
  generalize KeyOps.clampIndex z.items.length start = first
  generalize KeyOps.clampIndex z.items.length stop = last
  split
  · next h => rw [List.eq_nil_of_length_eq_zero h, List.take_nil, List.drop_nil]
  · next hpos =>
      rw [if_neg Bool.false_ne_true]
      split
      · rw [eq_comm, List.drop_eq_nil_iff, List.length_take]
        omega
      · next hin =>
          have hfirst : min first (z.items.length - 1) = first := by omega
          have hlast : z.items.take (min last (z.items.length - 1) + 1) = z.items.take (last + 1) := by
            rw [List.take_eq_take_iff]
            omega
          rw [SkipList.rangeByRank_eq, hfirst, hlast]

/-- ZREVRANGE cuts the reversed members at the raised ends, the start lowered to
the last of them. -/
theorem zrangeItems_reverse (z : SkipList) (start stop : Int) :
    KeyOps.zrangeItems z start stop true =
      (z.items.reverse.take (KeyOps.clampIndex z.items.reverse.length stop + 1)).drop
        (min (KeyOps.clampIndex z.items.reverse.length start) (z.items.reverse.length - 1)) := by
  have hlen : z.items.length = z.len := z.length_items
  unfold KeyOps.zrangeItems
  dsimp only
  rw [← hlen, List.length_reverse]
  generalize KeyOps.clampIndex z.items.length start = first
  generalize KeyOps.clampIndex z.items.length stop = last
  split
  · next h => rw [List.eq_nil_of_length_eq_zero h, List.reverse_nil, List.take_nil, List.drop_nil]
  · next hpos =>
      have hend : z.items.length - 1 - min first (z.items.length - 1) + 1 =
          z.items.length - min first (z.items.length - 1) := by omega
      have hback : z.items.length - (z.items.length - min first (z.items.length - 1)) =
          min first (z.items.length - 1) := by omega
      rw [if_pos rfl, SkipList.rangeByRank_eq, hend, List.reverse_drop, List.reverse_take, hback,
        List.drop_take, List.take_eq_take_iff, List.length_drop, List.length_take,
        List.length_reverse]
      omega

/-! ## Each command -/

section Commands

variable {e : Engine} {db : Nat} {key : Key} {sv : StoredValue}

/-- What a command answers from the stored entry without changing it. -/
theorem run_answer {α : Type} {c : KeyCmd α} {ctx : Ctx} {a : α} (h : e.entryAt db key = some sv)
    (hc : c.step key ctx (some sv) = .answer a) : (Op.key db key c).run ctx e = (.ok a, e) := by
  obtain ⟨sh, hsh, hget⟩ : ∃ sh, e.shardAt db (getShardIndex key) = some sh ∧
      sh.data.get? key = some sv := Option.bind_eq_some_iff.mp h
  exact Engine.withEntry_answer hsh (by rw [hget]; exact hc)

/-- A command that only answers selects the elements exactly if its answer is
them. -/
theorem forall_run_iff {α : Type} {c : KeyCmd α} {a b : α} (h : e.entryAt db key = some sv)
    (hc : ∀ ctx, c.step key ctx (some sv) = .answer a) :
    (∀ ctx, (Op.key db key c).run ctx e = (.ok b, e)) ↔ a = b := by
  constructor
  · intro hall
    have hrun := hall (.at 0)
    rw [run_answer h (hc _)] at hrun
    exact Outcome.ok.inj (Prod.mk.inj hrun).1
  · rintro rfl ctx
    exact run_answer h (hc ctx)

theorem lrange_selects_iff {items : List Bytes} (h : e.entryAt db key = some sv)
    (hv : sv.value = .list items) (start stop : Int) :
    RangeCommand.lrange.Selects e db key sv start stop ↔
      ¬ RangeCommand.lrange.Slips sv.value start stop := by
  have hstep (ctx : Ctx) : (KeyCmd.lrange start stop).step key ctx (some sv) =
      .answer (KeyOps.sliceOf items start stop) := by
    simp only [KeyCmd.step, KeyOps.lrange, KeyOps.onList, hv]
  simp only [RangeCommand.Selects, RangeCommand.Slips, hv, Value.list.injEq, forall_eq',
    exists_eq_left']
  rw [forall_run_iff h hstep]
  exact clamped_eq_slice_iff items start stop

theorem zrange_selects_iff {zset : SkipList} (h : e.entryAt db key = some sv)
    (hv : sv.value = .sortedSet zset) (start stop : Int) :
    RangeCommand.zrange.Selects e db key sv start stop ↔
      ¬ RangeCommand.zrange.Slips sv.value start stop := by
  have hstep (ctx : Ctx) : (KeyCmd.zrange start stop false).step key ctx (some sv) =
      .answer (KeyOps.zrangeItems zset start stop false) := by
    simp only [KeyCmd.step, KeyOps.zrange, KeyOps.onZset, hv]
  simp only [RangeCommand.Selects, RangeCommand.Slips, hv, Value.sortedSet.injEq, forall_eq',
    exists_eq_left']
  rw [forall_run_iff h hstep, zrangeItems_forward, clamped_eq_slice_iff, zset.length_items]

theorem zrevrange_selects_iff {zset : SkipList} (h : e.entryAt db key = some sv)
    (hv : sv.value = .sortedSet zset) (start stop : Int) :
    RangeCommand.zrevrange.Selects e db key sv start stop ↔
      ¬ RangeCommand.zrevrange.Slips sv.value start stop := by
  have hstep (ctx : Ctx) : (KeyCmd.zrange start stop true).step key ctx (some sv) =
      .answer (KeyOps.zrangeItems zset start stop true) := by
    simp only [KeyCmd.step, KeyOps.zrange, KeyOps.onZset, hv]
  simp only [RangeCommand.Selects, RangeCommand.Slips, hv, Value.sortedSet.injEq, forall_eq',
    exists_eq_left']
  rw [forall_run_iff h hstep, zrangeItems_reverse, lowered_eq_slice_iff, List.length_reverse,
    zset.length_items]

/-- LTRIM leaves under the key what it kept of the list. -/
theorem ltrim_run {items : List Bytes} (h : e.entryAt db key = some sv)
    (hv : sv.value = .list items) (start stop : Int) (ctx : Ctx) :
    ((Op.key db key (.ltrim start stop)).run ctx e).1 = .ok () ∧
      ((Op.key db key (.ltrim start stop)).run ctx e).2.entryAt db key =
        if KeyOps.sliceOf items start stop = [] then none
        else some { sv with value := .list (KeyOps.sliceOf items start stop) } := by
  obtain ⟨sh, hsh, hget⟩ : ∃ sh, e.shardAt db (getShardIndex key) = some sh ∧
      sh.data.get? key = some sv := Option.bind_eq_some_iff.mp h
  have hstep : (KeyCmd.ltrim start stop).step key ctx (some sv) =
      .shrink sv (.list (KeyOps.sliceOf items start stop))
        (KeyOps.sliceOf items start stop).isEmpty true () := by
    simp only [KeyCmd.step, KeyOps.ltrim, KeyOps.onList, hv]
  have hrefuses : e.refuses ((KeyCmd.ltrim start stop).step key ctx (some sv)) = false := by
    rw [hstep]
    rfl
  constructor
  · show (e.withEntry db key ctx _).1 = _
    rw [Engine.withEntry_result ctx _ hsh, hget, hrefuses, hstep]
    rfl
  · show (e.withEntry db key ctx _).2.entryAt db key = _
    rw [Engine.withEntry_entryAt (Engine.lt_of_entryAt h), h, hrefuses, hstep]
    simp only [KeyStep.shrink, List.isEmpty_iff, Bool.not_false, and_self, if_true]
    split <;> rfl

theorem ltrim_selects_iff {items : List Bytes} (h : e.entryAt db key = some sv)
    (hv : sv.value = .list items) (start stop : Int) :
    RangeCommand.ltrim.Selects e db key sv start stop ↔
      ¬ RangeCommand.ltrim.Slips sv.value start stop := by
  simp only [RangeCommand.Selects, RangeCommand.Slips, hv, Value.list.injEq, forall_eq',
    exists_eq_left']
  rw [← clamped_eq_slice_iff items start stop]
  constructor
  · intro hall
    have hafter := (hall (.at 0)).2
    rw [(ltrim_run h hv start stop (.at 0)).2] at hafter
    by_cases hkept : KeyOps.sliceOf items start stop = []
    · by_cases hsel : slice items start stop = []
      · exact hkept.trans hsel.symm
      · rw [if_pos hkept, if_neg hsel] at hafter
        cases hafter
    · by_cases hsel : slice items start stop = []
      · rw [if_neg hkept, if_pos hsel] at hafter
        cases hafter
      · rw [if_neg hkept, if_neg hsel] at hafter
        exact Value.list.inj (StoredValue.mk.inj (Option.some.inj hafter)).1
  · intro heq ctx
    have hrun := ltrim_run h hv start stop ctx
    rw [show KeyOps.sliceOf items start stop = slice items start stop from heq] at hrun
    exact hrun

/-- Where its end underflows GETRANGE panics in a build that traps overflow. -/
theorem getrange_panics {bytes : Bytes} (hv : sv.value = .string bytes) {start stop : Int}
    (hlen : bytes.length < 2 ^ 63)
    (hslip : EndUnderflows bytes.length start stop) {ctx : Ctx} (hctx : ctx.overflowChecks = true) :
    KeyOps.getrange start stop ctx (some sv) = .panics := by
  simp only [KeyOps.getrange, KeyOps.onString, hv, clampIndex_eq]
  rcases hslip with ⟨hnil, hstop⟩ | ⟨hpos, hstop, hfirst⟩
  · simp [hnil, hctx, not_lt.mpr hstop]
  · -- the stop is `usize::MAX`, and the start lies in the string
    have hneg : stop < 0 := by
      unfold fromBack at hstop
      split at hstop <;> omega
    have hbelow : (bytes.length : Int) + stop < 0 := by
      unfold fromBack at hstop
      split at hstop <;> omega
    have hin : ¬ (2 ^ 64 - 1 < (fromBack bytes.length start).toNat ∨
        bytes.length ≤ (fromBack bytes.length start).toNat) := by omega
    simp only [if_pos hneg, if_pos hbelow, if_neg hin, if_true]

/-- Elsewhere it answers the bytes between the ends. -/
theorem getrange_answers {bytes : Bytes} (hv : sv.value = .string bytes) {start stop : Int}
    (hlen : bytes.length < 2 ^ 63) (hstop : stop < 2 ^ 63)
    (hslip : ¬ EndUnderflows bytes.length start stop) (ctx : Ctx) :
    KeyOps.getrange start stop ctx (some sv) = .answer (slice bytes start stop) := by
  -- an end `last` in the string gives the bytes up to it
  have hcut (last : Nat) (hlast : last < 2 ^ 64 - 1)
      (hend : bytes.take (last + 1) = bytes.take (fromBack bytes.length stop + 1).toNat) :
      (if last < (fromBack bytes.length start).toNat ∨
          bytes.length ≤ (fromBack bytes.length start).toNat then KeyStep.answer []
        else if last = 2 ^ 64 - 1 then .panics
        else .answer ((bytes.take (last + 1)).drop (fromBack bytes.length start).toNat)) =
      .answer (slice bytes start stop) := by
    rw [slice_eq, ← hend]
    split
    · rw [eq_comm, List.drop_eq_nil_iff.mpr]
      rw [List.length_take]
      omega
    · rw [if_neg (by omega)]
  simp only [KeyOps.getrange, KeyOps.onString, hv, clampIndex_eq]
  unfold EndUnderflows at hslip
  by_cases hneg : stop < 0
  · have hback : fromBack bytes.length stop = bytes.length + stop := by
      rw [fromBack, if_pos hneg, Int.add_comm]
    rw [if_pos hneg]
    dsimp only
    by_cases hbelow : (bytes.length : Int) + stop < 0
    · -- then the start is not in the string either
      have hbehind : bytes.length ≤ (fromBack bytes.length start).toNat := by omega
      rw [if_pos (Or.inr hbehind), slice_eq_nil (by omega)]
    · rw [if_neg hbelow]
      refine hcut _ (by omega) ?_
      rw [hback, List.take_eq_take_iff]
      omega
  · have hback : fromBack bytes.length stop = stop := if_neg hneg
    have hpos : bytes.length ≠ 0 := by omega
    rw [if_neg hneg, if_neg hpos]
    refine hcut _ (by omega) ?_
    rw [hback, List.take_eq_take_iff]
    omega

theorem getrange_selects_iff {bytes : Bytes} (h : e.entryAt db key = some sv)
    (hv : sv.value = .string bytes) {start stop : Int} (hlen : bytes.length < 2 ^ 63)
    (hstop : stop < 2 ^ 63) :
    RangeCommand.getrange.Selects e db key sv start stop ↔
      ¬ RangeCommand.getrange.Slips sv.value start stop := by
  simp only [RangeCommand.Selects, RangeCommand.Slips, hv, Value.string.injEq, forall_eq',
    exists_eq_left']
  constructor
  · intro hall hslip
    have hrun := hall { Ctx.at 0 with overflowChecks := true }
    obtain ⟨sh, hsh, hget⟩ : ∃ sh, e.shardAt db (getShardIndex key) = some sh ∧
        sh.data.get? key = some sv := Option.bind_eq_some_iff.mp h
    have hfst := congrArg Prod.fst hrun
    rw [show (Op.key db key (.getrange start stop)).run _ e = e.withEntry db key _ _ from rfl,
      Engine.withEntry_result _ _ hsh, hget] at hfst
    have hpanics : (KeyCmd.getrange start stop).step key
        { Ctx.at 0 with overflowChecks := true } (some sv) = .panics :=
      getrange_panics hv hlen hslip rfl
    rw [hpanics] at hfst
    cases hfst
  · intro hslip ctx
    exact run_answer h (getrange_answers hv hlen hstop hslip ctx)

end Commands

/-! ## All five -/

/-- A range command takes exactly the elements between its two ends unless they
slip. -/
theorem index_ranges_iff {e : Engine} {db : Nat} {key : Key} {sv : StoredValue}
    (h : e.entryAt db key = some sv)
    (hfits : ∀ bytes, sv.value = .string bytes → bytes.length ≤ KeyOps.maxCapacity)
    (c : RangeCommand) (start stop : Int64) :
    c.Selects e db key sv start.toInt stop.toInt ↔ ¬ c.Slips sv.value start.toInt stop.toInt := by
  have hstop : stop.toInt < 2 ^ 63 := stop.toInt_lt
  cases hv : sv.value with
  | string bytes =>
      cases c with
      | getrange =>
          have hlen := hfits bytes hv
          rw [← hv]
          exact getrange_selects_iff h hv (by unfold KeyOps.maxCapacity at hlen; omega) hstop
      | _ => simp [RangeCommand.Selects, RangeCommand.Slips, hv]
  | list items =>
      cases c with
      | lrange => exact hv ▸ lrange_selects_iff h hv _ _
      | ltrim => exact hv ▸ ltrim_selects_iff h hv _ _
      | _ => simp [RangeCommand.Selects, RangeCommand.Slips, hv]
  | sortedSet zset =>
      cases c with
      | zrange => exact hv ▸ zrange_selects_iff h hv _ _
      | zrevrange => exact hv ▸ zrevrange_selects_iff h hv _ _
      | _ => simp [RangeCommand.Selects, RangeCommand.Slips, hv]
  | _ => cases c <;> simp [RangeCommand.Selects, RangeCommand.Slips, hv]

/-- A list of three elements and a string of three bytes. -/
def threeEach : Engine :=
  ((Op.key 0 "s".toBytes (.append "abc".toBytes)).run (.at 0)
    ((Op.key 0 "l".toBytes (.rpush ["a".toBytes, "b".toBytes, "c".toBytes])).run (.at 0)
      (Engine.withConfig 1 .unlimited)).2).2

theorem threeEach_list : threeEach.entryAt 0 "l".toBytes =
    some ⟨.list ["a".toBytes, "b".toBytes, "c".toBytes], none⟩ :=
  rfl

/-- LRANGE 1 -1 answers the last two elements, LTRIM 0 -9 keeps an element. -/
theorem threeEach_ranges :
    RangeCommand.lrange.Selects threeEach 0 "l".toBytes
      ⟨.list ["a".toBytes, "b".toBytes, "c".toBytes], none⟩ (1 : Int64).toInt (-1 : Int64).toInt ∧
    ¬ RangeCommand.ltrim.Selects threeEach 0 "l".toBytes
      ⟨.list ["a".toBytes, "b".toBytes, "c".toBytes], none⟩ (0 : Int64).toInt (-9 : Int64).toInt := by
  constructor
  · refine (index_ranges_iff threeEach_list nofun .lrange 1 (-1)).mpr ?_
    rintro ⟨items, hv, h⟩
    cases hv
    exact absurd h (by decide)
  · rw [index_ranges_iff threeEach_list nofun .ltrim 0 (-9)]
    exact fun h => h ⟨_, rfl, by decide⟩

/-- LRANGE 0 -9 answers the first of three elements, and GETRANGE 0 -9 panics on
a string of three bytes. -/
theorem threeEach_slips :
    ((Op.key 0 "l".toBytes (.lrange 0 (-9))).run (.at 0) threeEach).1 = .ok ["a".toBytes] ∧
    slice ["a".toBytes, "b".toBytes, "c".toBytes] 0 (-9) = [] ∧
    ((Op.key 0 "s".toBytes (.getrange 0 (-9))).run (.at 0) threeEach).1 = .panic :=
  ⟨rfl, rfl, rfl⟩

end Ferrous
