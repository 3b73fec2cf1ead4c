/-
# `Storage.StreamWindows` — which entries a range gives and a removal leaves

The positions of the binary search cut the entries of a stream at an ID, so the
entries of a range and those left by trimming and deletion are told by their
IDs alone.  One cut goes wrong: a range that ends before the first entry still
takes that entry.
-/
import Ferrous.Lib.Cuts
import Ferrous.Storage.StreamRuns

namespace Ferrous

open Lib

namespace Stream

/-- The IDs grow along the entries. -/
def Increasing (es : List StreamEntry) : Prop := es.Pairwise fun a b => a.id < b.id

/-! ## Cuts at an ID -/

section Cuts

variable {es : List StreamEntry} (h : Increasing es) (id : StreamId)

include h

theorem initially_lt : Initially (fun e : StreamEntry => e.id < id) es :=
  h.imp fun hab hb => decide_eq_true (StreamId.lt_of_le_of_lt (StreamId.le_of_lt hab) (of_decide_eq_true hb))

theorem take_lowerBound : es.take (lowerBound es id) = es.filter fun e => e.id < id :=
  (initially_lt h id).take_cut

theorem drop_lowerBound : es.drop (lowerBound es id) = es.filter fun e => id ≤ e.id := by
  refine (initially_lt h id).drop_cut.trans (List.filter_congr fun e _ => ?_)
  rw [← decide_not]
  exact decide_eq_decide.mpr StreamId.not_lt

omit h in
theorem lowerBound_lt_of_found {es : List StreamEntry} (hfound : foundAt es id = true) :
    lowerBound es id < es.length := by
  unfold foundAt at hfound
  cases he : es[lowerBound es id]? with
  | none =>
      rw [he] at hfound
      cases hfound
  | some e => exact (List.getElem?_eq_some_iff.mp he).1

theorem initially_le : Initially (fun e : StreamEntry => e.id ≤ id) es :=
  h.imp fun hab hb => decide_eq_true (Nat.le_trans (StreamId.le_of_lt hab) (of_decide_eq_true hb))

/-- The position behind an ID is the cut at it. -/
theorem behind_eq_cut : (if foundAt es id then lowerBound es id + 1 else lowerBound es id) =
    cut (fun e : StreamEntry => e.id ≤ id) es := by
  have hle : (if foundAt es id then lowerBound es id + 1 else lowerBound es id) ≤ es.length := by
    split
    · next hfound => exact lowerBound_lt_of_found id hfound
    · exact cut_le _ es
  have hdrop : es.drop (cut (fun e : StreamEntry => e.id ≤ id) es) = es.filter fun e => id < e.id := by
    refine (initially_le h id).drop_cut.trans (List.filter_congr fun e _ => ?_)
    rw [← decide_not]
    exact decide_eq_decide.mpr StreamId.not_le
  have hlen := congrArg List.length ((drop_after h id).trans hdrop.symm)
  have hcut := cut_le (fun e : StreamEntry => e.id ≤ id) es
  rw [List.length_drop, List.length_drop] at hlen
  omega

end Cuts

/-! ## Ranges -/

/-- The loop over positions of `range` and `range_after`: it ends at the count and
otherwise indexes the vector.  `none` is an index out of bounds. -/
def visit (es : List StreamEntry) (count : Option Nat) : List Nat → List StreamEntry → Option (List StreamEntry)
  | [], acc => some acc
  | i :: is, acc =>
      if count.any (· ≤ acc.length) then some acc
      else (es[i]?).bind fun e => visit es count is (acc ++ [e])

/-- `range`, position by position: those beyond the vector are passed over. -/
def rangeLoop (s : Stream) (start stop : StreamId) (count : Option Nat) (reverse : Bool) :
    Option (List StreamEntry) :=
  let es := s.entries
  let startIdx := lowerBound es start
  let endIdx := if foundAt es stop then lowerBound es stop else lowerBound es stop - 1
  let steps := List.range' startIdx (Nat.min endIdx (es.length - 1) + 1 - startIdx)
  visit es count ((if reverse then steps.reverse else steps).filter (· < es.length)) []

/-- `range_after`, position by position. -/
def rangeAfterLoop (s : Stream) (after : StreamId) (count : Option Nat) : Option (List StreamEntry) :=
  let es := s.entries
  let startIdx := if foundAt es after then lowerBound es after + 1 else lowerBound es after
  visit es (some (count.getD es.length)) (List.range' startIdx (es.length - startIdx)) []

/-- As many as the count asks for. -/
def truncate (count : Option Nat) (es : List StreamEntry) : List StreamEntry :=
  match count with
  | some n => es.take n
  | none => es

/-- Positions in the vector give their entries, as many as the count asks for. -/
theorem visit_eq {es : List StreamEntry} {count : Option Nat} {is : List Nat} (h : ∀ i ∈ is, i < es.length)
    (acc : List StreamEntry) :
    visit es count is acc =
      some (acc ++ truncate (count.map (· - acc.length)) (is.filterMap (es[·]?))) := by
  induction is generalizing acc with
  | nil => cases count <;> simp [visit, truncate]
  | cons i is ih =>
      have hi := h i List.mem_cons_self
      have hrest := ih (fun j hj => h j (List.mem_cons_of_mem i hj)) (acc ++ [es[i]])
      have hget : es[i]? = some es[i] := List.getElem?_eq_getElem hi
      rw [visit, List.filterMap_cons_some hget]
      cases count with
      | none =>
          rw [hget]
          simpa [truncate] using hrest
      | some n =>
          by_cases hn : n ≤ acc.length
          · simp [hn, truncate]
          · obtain ⟨m, hm⟩ : ∃ m, n - acc.length = m + 1 := ⟨n - acc.length - 1, by omega⟩
            have hm' : n - (acc.length + 1) = m := by omega
            rw [hget]
            simpa [hn, truncate, hm, hm'] using hrest

/-- A run of positions gives a stretch of the vector. -/
theorem filterMap_range' (es : List StreamEntry) (i n : Nat) :
    (List.range' i n).filterMap (es[·]?) = (es.drop i).take n := by
  induction n generalizing i with
  | zero => rfl
  | succ n ih =>
      rw [List.range'_succ]
      by_cases hi : i < es.length
      · rw [List.filterMap_cons_some (List.getElem?_eq_getElem hi), ih, List.drop_eq_getElem_cons hi,
          List.take_succ_cons]
      · rw [List.filterMap_cons_none (List.getElem?_eq_none (by omega)), ih, List.drop_of_length_le (by omega),
          List.drop_of_length_le (by omega)]
        simp

/-- The positions of `range` give its entries. -/
theorem rangeLoop_eq (s : Stream) (start stop : StreamId) (count : Option Nat) (reverse : Bool) :
    s.rangeLoop start stop count reverse = some (s.range start stop count reverse) := by
  have hskip (is : List Nat) : (is.filter (· < s.entries.length)).filterMap (s.entries[·]?) =
      is.filterMap (s.entries[·]?) := by
    induction is with
    | nil => rfl
    | cons i is ih =>
        by_cases hi : i < s.entries.length
        · rw [List.filter_cons_of_pos (by simpa using hi), List.filterMap_cons, ih, List.filterMap_cons]
        · rw [List.filter_cons_of_neg (by simpa using hi), ih,
            List.filterMap_cons_none (List.getElem?_eq_none (Nat.le_of_not_lt hi))]
  unfold rangeLoop range
  dsimp only
  rw [visit_eq fun i hi => of_decide_eq_true (List.mem_filter.mp hi).2, hskip]
  cases reverse <;> cases count <;>
    simp [truncate, List.filterMap_reverse, filterMap_range', List.drop_take]

/-- The positions of `range_after` give its entries. -/
theorem rangeAfterLoop_eq (s : Stream) (after : StreamId) (count : Option Nat) :
    s.rangeAfterLoop after count = some (s.rangeAfter after count) := by
  unfold rangeAfterLoop rangeAfter
  dsimp only
  rw [visit_eq, filterMap_range', List.take_of_length_le (by rw [List.length_drop])]
  · simp [truncate]
  · intro i hi
    have := List.mem_range'_1.mp hi
    omega

/-- The entries of a range, told by their IDs. -/
def within (es : List StreamEntry) (start stop : StreamId) (count : Option Nat) (reverse : Bool) :
    List StreamEntry :=
  let window := es.filter fun e => start ≤ e.id && e.id ≤ stop
  truncate count (if reverse then window.reverse else window)

/-- The range ends before the first entry, starts no later than it, and asks for
an entry. -/
def EndsBefore (es : List StreamEntry) (start stop : StreamId) (count : Option Nat) : Prop :=
  ∃ e, es.head? = some e ∧ start ≤ e.id ∧ stop < e.id ∧ count ≠ some 0

/-- Below its first entry, a range takes that entry. -/
theorem range_window {s : Stream} (h : Increasing s.entries) (start stop : StreamId) (count : Option Nat)
    (reverse : Bool) :
    s.range start stop count reverse =
      let last := Nat.min (cut (fun e : StreamEntry => e.id ≤ stop) s.entries - 1) (s.entries.length - 1)
      let window := (s.entries.take (last + 1)).drop (lowerBound s.entries start)
      truncate count (if reverse then window.reverse else window) := by
  have hend : (if foundAt s.entries stop then lowerBound s.entries stop else lowerBound s.entries stop - 1) =
      cut (fun e : StreamEntry => e.id ≤ stop) s.entries - 1 := by
    rw [← behind_eq_cut h stop]
    split <;> rfl
  unfold range truncate
  dsimp only
  rewrite [hend]
  rfl

/-- A range is exact but for one that ends before the first entry. -/
theorem range_eq_within_iff {s : Stream} (h : Increasing s.entries) (start stop : StreamId)
    (count : Option Nat) (reverse : Bool) :
    s.range start stop count reverse = within s.entries start stop count reverse ↔
      ¬ EndsBefore s.entries start stop count := by
  rw [range_window h]
  rcases hes : s.entries with _ | ⟨e, es⟩
  · refine iff_of_true ?_ (by rintro ⟨_, ⟨⟩, _⟩)
    simp [within, lowerBound]
  rw [hes] at h
  dsimp only
  by_cases hstop : e.id ≤ stop
  · -- the cut is behind the first entry, where it belongs
    have hpos : 0 < cut (fun e : StreamEntry => e.id ≤ stop) (e :: es) := by
      rw [cut_cons_of_pos (p := fun e : StreamEntry => e.id ≤ stop) (decide_eq_true hstop)]
      exact Nat.succ_pos _
    have hcut := cut_le (fun e : StreamEntry => e.id ≤ stop) (e :: es)
    have hlast : Nat.min (cut (fun e : StreamEntry => e.id ≤ stop) (e :: es) - 1) ((e :: es).length - 1) + 1 =
        cut (fun e : StreamEntry => e.id ≤ stop) (e :: es) := by
      change min _ _ + 1 = _
      omega
    have hwindow : ((e :: es).take (cut (fun e : StreamEntry => e.id ≤ stop) (e :: es))).drop
        (lowerBound (e :: es) start) = (e :: es).filter fun e => start ≤ e.id && e.id ≤ stop := by
      refine ((initially_lt h start).drop_take_cut (initially_le h stop)).trans
        (List.filter_congr fun e _ => congrArg (· && decide (e.id ≤ stop)) ?_)
      rw [← decide_not]
      exact decide_eq_decide.mpr StreamId.not_lt
    refine iff_of_true ?_ ?_
    · rw [hlast, hwindow, within]
    · rintro ⟨e', he', -, hlt, -⟩
      cases he'
      exact StreamId.not_lt.mpr hstop hlt
  · -- nothing lies in the range, and the first entry is looked at
    have hzero : cut (fun e : StreamEntry => e.id ≤ stop) (e :: es) = 0 :=
      cut_cons_of_neg (decide_eq_false hstop)
    have hnone : (e :: es).filter (fun e => start ≤ e.id && e.id ≤ stop) = [] := by
      have hbelow := (initially_le h stop).take_cut
      rw [hzero, List.take_zero] at hbelow
      refine List.filter_eq_nil_iff.mpr fun x hx hboth => ?_
      exact List.filter_eq_nil_iff.mp hbelow.symm x hx (Bool.and_elim_right hboth)
    have hwithin : within (e :: es) start stop count reverse = [] := by
      rw [within, hnone]
      cases reverse <;> cases count <;> simp [truncate]
    rw [hwithin, hzero]
    by_cases hstart : e.id < start
    · have hpos : lowerBound (e :: es) start = lowerBound es start + 1 :=
        cut_cons_of_pos (p := fun e : StreamEntry => e.id < start) (decide_eq_true hstart)
      refine iff_of_true ?_ ?_
      · rw [hpos]
        cases reverse <;> cases count <;> simp [truncate]
      · rintro ⟨e', he', hle, -⟩
        cases he'
        exact StreamId.not_lt.mpr hle hstart
    · have hfirst : lowerBound (e :: es) start = 0 :=
        cut_cons_of_neg (p := fun e : StreamEntry => e.id < start) (decide_eq_false hstart)
      have hends : EndsBefore (e :: es) start stop count ↔ count ≠ some 0 := by
        constructor
        · rintro ⟨_, _, _, _, hc⟩
          exact hc
        · exact fun hc => ⟨e, rfl, StreamId.not_lt.mp hstart, StreamId.not_le.mp hstop, hc⟩
      rw [hends, hfirst]
      cases reverse <;> cases count <;> simp [truncate]

/-- Ranges are exact, and index the vector where it is, but for one that ends
before the first entry. -/
theorem ranges_exact_iff {s : Stream} (h : Increasing s.entries) (start stop after : StreamId)
    (count : Option Nat) (reverse : Bool) :
    (s.rangeLoop start stop count reverse = some (within s.entries start stop count reverse) ∧
        s.rangeAfterLoop after count = some (truncate count (s.entries.filter fun e => after < e.id))) ↔
      ¬ EndsBefore s.entries start stop count := by
  have hafter : s.rangeAfter after count = truncate count (s.entries.filter fun e => after < e.id) := by
    rw [rangeAfter_eq h]
    cases count with
    | some n => rfl
    | none => exact List.take_of_length_le (List.length_filter_le _ _)
  rw [rangeLoop_eq, rangeAfterLoop_eq, Option.some_inj, Option.some_inj, range_eq_within_iff h]
  exact and_iff_left hafter

/-- A stream with one entry. -/
def single (id : StreamId) : Stream := (new.push ⟨id, StreamRun.oneField⟩)

theorem increasing_single (id : StreamId) : Increasing (single id).entries := List.pairwise_singleton _ _

/-- A stream with three entries. -/
def three : Stream :=
  ((new.push ⟨StreamId.new 1 0, StreamRun.oneField⟩).push ⟨StreamId.new 2 0, StreamRun.oneField⟩).push
    ⟨StreamId.new 5 0, StreamRun.oneField⟩

theorem increasing_three : Increasing three.entries := by
  unfold Increasing
  decide

/-- Two entries of it, from the end and behind the first. -/
theorem ranges_exact_three :
    three.rangeLoop (StreamId.new 1 0) (StreamId.new 7 0) (some 2) true =
        some [⟨StreamId.new 5 0, StreamRun.oneField⟩, ⟨StreamId.new 2 0, StreamRun.oneField⟩] ∧
      three.rangeAfterLoop (StreamId.new 1 0) (some 2) =
        some [⟨StreamId.new 2 0, StreamRun.oneField⟩, ⟨StreamId.new 5 0, StreamRun.oneField⟩] := by
  refine (ranges_exact_iff increasing_three (StreamId.new 1 0) (StreamId.new 7 0) (StreamId.new 1 0) (some 2)
    true).mpr ?_
  rintro ⟨e, he, -, hbefore, -⟩
  cases he
  exact absurd hbefore (by decide)

/-- The range from 1-0 to 2-0 of a stream whose only entry is 5-0 has that entry. -/
theorem range_ends_before :
    Increasing (single (StreamId.new 5 0)).entries ∧
      (single (StreamId.new 5 0)).rangeLoop (StreamId.new 1 0) (StreamId.new 2 0) none false ≠
        some (within (single (StreamId.new 5 0)).entries (StreamId.new 1 0) (StreamId.new 2 0) none false) := by
  refine ⟨increasing_single _, ?_⟩
  rw [rangeLoop_eq, ne_eq, Option.some_inj, range_eq_within_iff (increasing_single _)]
  exact fun hexact => hexact ⟨_, rfl, by decide, by decide, nofun⟩

/-! ## Removals -/

/-- The memory of some entries. -/
def sizeOf (es : List StreamEntry) : Nat := (es.map calculateEntrySize).sum

/-- Both memory figures are their base and the entries' memory, and fit into 64 bits. -/
structure Accounted (s : Stream) : Prop where
  data : s.dataMemoryUsage = dataSize + sizeOf s.entries
  data_lt : s.dataMemoryUsage < 2 ^ 64
  total : s.memoryUsage = streamSize + sizeOf s.entries
  total_lt : s.memoryUsage < 2 ^ 64

/-- The result of a removal that leaves `left`: order and last ID are kept, the
answer is the number removed, and no more memory is subtracted than there is. -/
structure Removes (s : Stream) (left : List StreamEntry) (r : Nat × Stream) : Prop where
  entries : r.2.entries = left
  order : left.Sublist s.entries
  removed : r.1 + left.length = s.entries.length
  last_id : r.2.lastId = s.lastId
  accounted : r.2.Accounted
  no_underflow : r.2 = s ∨ ∃ freed, r.2 = s.release left r.1 freed ∧
    freed ≤ s.dataMemoryUsage ∧ freed ≤ s.memoryUsage

theorem subU64_of_le {a b : Nat} (ha : a < 2 ^ 64) (h : b ≤ a) : subU64 a b = a - b := by
  unfold subU64
  omega

namespace Removes

variable {s : Stream} {left : List StreamEntry}

/-- Nothing is removed where nothing is left out. -/
theorem none (h : s.Accounted) (hleft : s.entries = left) : s.Removes left (0, s) where
  entries := hleft
  order := hleft ▸ .refl _
  removed := by rw [hleft, Nat.zero_add]
  last_id := rfl
  accounted := h
  no_underflow := .inl rfl

/-- What is removed takes its memory with it. -/
theorem release (h : s.Accounted) (hsub : left.Sublist s.entries) {n freed : Nat}
    (hn : n + left.length = s.entries.length) (hfreed : freed + sizeOf left = sizeOf s.entries) :
    s.Removes left (n, s.release left n freed) := by
  have hdata : freed ≤ s.dataMemoryUsage := by
    rw [h.data]
    omega
  have htotal : freed ≤ s.memoryUsage := by
    rw [h.total]
    omega
  refine ⟨rfl, hsub, hn, rfl, ⟨?_, ?_, ?_, ?_⟩, .inr ⟨freed, rfl, hdata, htotal⟩⟩
  · have := h.data
    change subU64 s.dataMemoryUsage freed = dataSize + sizeOf left
    rw [subU64_of_le h.data_lt hdata]
    omega
  · exact Nat.mod_lt _ (by decide)
  · have := h.total
    change subU64 s.memoryUsage freed = streamSize + sizeOf left
    rw [subU64_of_le h.total_lt htotal]
    omega
  · exact Nat.mod_lt _ (by decide)

end Removes

theorem sizeOf_append (es fs : List StreamEntry) : sizeOf (es ++ fs) = sizeOf es + sizeOf fs := by
  rw [sizeOf, List.map_append, List.sum_append, sizeOf, sizeOf]

/-- The first entries go. -/
theorem removes_drop {s : Stream} (h : s.Accounted) {n : Nat} (hn : n ≤ s.entries.length) :
    s.Removes (s.entries.drop n)
      (n, s.release (s.entries.drop n) n ((s.entries.take n).map calculateEntrySize).sum) := by
  refine .release h (List.drop_sublist n _) ?_ ?_
  · rw [List.length_drop]
    omega
  · rw [← sizeOf, ← sizeOf_append, List.take_append_drop]

/-- Trimming by count leaves the greatest entries. -/
theorem removes_trimByCount {s : Stream} (h : s.Accounted) (n : Nat) :
    s.Removes (s.entries.drop (s.entries.length - n)) (s.trimByCount n) := by
  unfold trimByCount
  split
  · next hle =>
      refine .none h ?_
      rw [Nat.sub_eq_zero_of_le hle, List.drop_zero]
  · exact removes_drop h (Nat.sub_le _ _)

/-- Trimming by a least ID leaves the entries from it on. -/
theorem removes_trimByMinId {s : Stream} (hinc : Increasing s.entries) (h : s.Accounted) (minId : StreamId) :
    s.Removes (s.entries.filter fun e => minId ≤ e.id) (s.trimByMinId minId) := by
  rw [← drop_lowerBound hinc]
  unfold trimByMinId
  dsimp only
  split
  · next hzero =>
      refine .none h ?_
      rw [hzero, List.drop_zero]
  · exact removes_drop h (cut_le _ _)

/-- An ID that is found is the ID of the entry at its position. -/
theorem foundAt_eq_true {es : List StreamEntry} {id : StreamId} (hfound : foundAt es id = true) :
    ∃ e, es[lowerBound es id]? = some e ∧ e.id = id := by
  unfold foundAt at hfound
  exact Option.map_eq_some_iff.mp (beq_iff_eq.mp hfound)

/-- An ID that is not found is no entry's. -/
theorem ne_of_not_found {es : List StreamEntry} (h : Increasing es) {id : StreamId}
    (hfound : foundAt es id = false) : ∀ e ∈ es, e.id ≠ id := by
  intro e he heq
  have hcut := behind_eq_cut h id
  rw [hfound, if_neg Bool.false_ne_true] at hcut
  have hle : e ∈ es.take (lowerBound es id) := by
    rw [hcut, (initially_le h id).take_cut]
    exact List.mem_filter.mpr ⟨he, decide_eq_true (heq ▸ Nat.le_refl _)⟩
  rw [take_lowerBound h, List.mem_filter, heq] at hle
  exact Nat.lt_irrefl _ (of_decide_eq_true hle.2)

/-- One ID of a deletion takes its entry out, if there is one, and accounts for it. -/
theorem deleteOne_eq {acc : List StreamEntry × Nat × Nat} (h : Increasing acc.1) (id : StreamId) :
    (deleteOne acc id).1 = acc.1.filter (fun e => e.id ≠ id) ∧
      (deleteOne acc id).2.1 + (deleteOne acc id).1.length = acc.2.1 + acc.1.length ∧
      (deleteOne acc id).2.2 + sizeOf (deleteOne acc id).1 = acc.2.2 + sizeOf acc.1 := by
  obtain ⟨es, n, freed⟩ := acc
  cases hfound : foundAt es id with
  | false =>
      have hkeep : es.filter (fun e => e.id ≠ id) = es :=
        List.filter_eq_self.mpr fun e he => decide_eq_true (ne_of_not_found h hfound e he)
      simp only [deleteOne, hfound, Bool.false_eq_true, if_false, hkeep, and_self]
  | true =>
      obtain ⟨e, he, hid⟩ := foundAt_eq_true hfound
      obtain ⟨hlt, rfl⟩ := List.getElem?_eq_some_iff.mp he
      have hbehind := drop_after h id
      rw [hfound, if_pos rfl] at hbehind
      have hsplit : es = es.take (lowerBound es id) ++ es[lowerBound es id] :: es.drop (lowerBound es id + 1) := by
        rw [← List.drop_eq_getElem_cons hlt, List.take_append_drop]
      have hleft : es.eraseIdx (lowerBound es id) = es.filter fun e => e.id ≠ id := by
        have hbefore : (es.take (lowerBound es id)).filter (fun e => e.id ≠ id) = es.take (lowerBound es id) := by
          refine List.filter_eq_self.mpr fun x hx => decide_eq_true fun heq => ?_
          rw [take_lowerBound h, List.mem_filter, heq] at hx
          exact Nat.lt_irrefl _ (of_decide_eq_true hx.2)
        have hafter : (es.drop (lowerBound es id + 1)).filter (fun e => e.id ≠ id) =
            es.drop (lowerBound es id + 1) := by
          refine List.filter_eq_self.mpr fun x hx => decide_eq_true fun heq => ?_
          rw [hbehind, List.mem_filter, heq] at hx
          exact Nat.lt_irrefl _ (of_decide_eq_true hx.2)
        rw [List.eraseIdx_eq_take_drop_succ]
        conv_rhs => rw [hsplit]
        rw [List.filter_append, hbefore, List.filter_cons_of_neg (by simp [hid]), hafter]
      have hsize : calculateEntrySize es[lowerBound es id] + sizeOf (es.eraseIdx (lowerBound es id)) = sizeOf es := by
        conv_rhs => rw [hsplit]
        rw [List.eraseIdx_eq_take_drop_succ, sizeOf_append, sizeOf_append]
        simp only [sizeOf, List.map_cons, List.sum_cons]
        omega
      have hlen := List.length_eraseIdx_add_one hlt
      simp only [deleteOne, hfound, if_true, he, Option.map_some, Option.getD_some]
      refine ⟨hleft, ?_, ?_⟩
      · omega
      · omega

/-- Deleting one by one leaves the entries whose ID is not named. -/
theorem foldl_deleteOne_eq (ids : List StreamId) {acc : List StreamEntry × Nat × Nat} (h : Increasing acc.1) :
    (ids.foldl deleteOne acc).1 = acc.1.filter (fun e => e.id ∉ ids) ∧
      (ids.foldl deleteOne acc).2.1 + (ids.foldl deleteOne acc).1.length = acc.2.1 + acc.1.length ∧
      (ids.foldl deleteOne acc).2.2 + sizeOf (ids.foldl deleteOne acc).1 = acc.2.2 + sizeOf acc.1 := by
  induction ids generalizing acc with
  | nil => simp
  | cons id ids ih =>
      obtain ⟨hleft, hcount, hsize⟩ := deleteOne_eq h id
      have hinc : Increasing (deleteOne acc id).1 := by
        rw [hleft]
        exact h.sublist List.filter_sublist
      obtain ⟨hleft', hcount', hsize'⟩ := ih hinc
      rw [List.foldl_cons]
      refine ⟨?_, hcount'.trans hcount, hsize'.trans hsize⟩
      rw [hleft', hleft, List.filter_filter]
      refine List.filter_congr fun e _ => ?_
      simp [not_or, Bool.and_comm]

/-- Deletion leaves the entries whose ID is not named. -/
theorem removes_delete {s : Stream} (hinc : Increasing s.entries) (h : s.Accounted) (ids : List StreamId) :
    s.Removes (s.entries.filter fun e => e.id ∉ ids) (s.delete ids) := by
  have hmem (id : StreamId) : id ∈ (StreamId.sort ids).dedup.reverse ↔ id ∈ ids := by
    rw [List.mem_reverse, List.mem_dedup, StreamId.sort, List.mem_insertionSort]
  have hfold := @foldl_deleteOne_eq (StreamId.sort ids).dedup.reverse (s.entries, 0, 0) hinc
  unfold delete
  generalize (StreamId.sort ids).dedup.reverse.foldl deleteOne (s.entries, 0, 0) = r at hfold
  obtain ⟨left, deleted, freed⟩ := r
  simp only [hmem, Nat.zero_add] at hfold
  obtain ⟨rfl, hcount, hsize⟩ := hfold
  dsimp only
  split
  · exact .release h List.filter_sublist hcount hsize
  · next hzero =>
      have hlen : (s.entries.filter fun e => e.id ∉ ids).length = s.entries.length := by omega
      exact .none h (List.filter_sublist.eq_of_length hlen).symm

/-- Every removal of a stream leaves exactly the entries it is to leave, and
accounts for the others. -/
theorem removals_exact {s : Stream} (hinc : Increasing s.entries) (h : s.Accounted) :
    (∀ n, ∃ left, s.Removes left (s.trimByCount n) ∧ left.length = Nat.min n s.entries.length ∧
        ∀ e ∈ s.entries, e ∉ left → ∀ e' ∈ left, e.id < e'.id) ∧
      (∀ minId, s.Removes (s.entries.filter fun e => minId ≤ e.id) (s.trimByMinId minId)) ∧
      ∀ ids, s.Removes (s.entries.filter fun e => e.id ∉ ids) (s.delete ids) := by
  refine ⟨fun n => ⟨_, removes_trimByCount h n, ?_, ?_⟩, removes_trimByMinId hinc h, removes_delete hinc h⟩
  · rw [List.length_drop]
    change _ = min _ _
    omega
  · intro e he hout e' he'
    have hsplit := List.take_append_drop (s.entries.length - n) s.entries
    rw [← hsplit] at he hinc
    rcases List.mem_append.mp he with he | he
    · exact (List.pairwise_append.mp hinc).2.2 e he e' he'
    · exact absurd he hout

/-- Of three entries a trim leaves the last one or the last two, a deletion of the outer two
the one between. -/
theorem removals_exact_three :
    (∃ left, three.Removes left (three.trimByCount 1) ∧ left.length = 1) ∧
      three.Removes [⟨StreamId.new 2 0, StreamRun.oneField⟩, ⟨StreamId.new 5 0, StreamRun.oneField⟩]
        (three.trimByMinId (StreamId.new 2 0)) ∧
      three.Removes [⟨StreamId.new 2 0, StreamRun.oneField⟩]
        (three.delete [StreamId.new 5 0, StreamId.new 1 0, StreamId.new 5 0]) := by
  obtain ⟨hcount, hmin, hdelete⟩ := removals_exact increasing_three ⟨rfl, by decide, rfl, by decide⟩
  obtain ⟨left, hleft, hlength, -⟩ := hcount 1
  exact ⟨⟨left, hleft, hlength⟩, hmin (StreamId.new 2 0), hdelete [StreamId.new 5 0, StreamId.new 1 0, StreamId.new 5 0]⟩

end Stream

end Ferrous
