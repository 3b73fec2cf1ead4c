/-
# `Storage.StreamRuns` — what a stream keeps over its life

A stream with everything that can happen to it: entries added under generated
and under given IDs, trimming, deletion, and the commands of its groups.  The
run keeps, beside the stream, the IDs accepted so far and what the reads of new
entries returned.  IDs grow as long as no generated ID runs over the end of its
millisecond.
-/
import Ferrous.Lib.Run
import Ferrous.Storage.KeyOps
import Ferrous.Storage.StreamIds

namespace Ferrous

open Lib

/-! ## Searching -/

namespace Stream

/-- Behind the position of an ID are the entries with a greater ID. -/
theorem drop_after {es : List StreamEntry} (h : es.Pairwise fun a b => a.id < b.id) (after : StreamId) :
    es.drop (if foundAt es after then lowerBound es after + 1 else lowerBound es after) =
      es.filter fun e => after < e.id := by
  induction es with
  | nil => rfl
  | cons e es ih =>
      obtain ⟨hgt, hrest⟩ := List.pairwise_cons.mp h
      by_cases hlt : e.id < after
      · have hlow : lowerBound (e :: es) after = lowerBound es after + 1 := by
          simp [lowerBound, hlt]
        have hfound : foundAt (e :: es) after = foundAt es after := by
          rw [foundAt, hlow, List.getElem?_cons_succ, foundAt]
        have hnot : ¬ after < e.id := StreamId.not_lt.mpr (StreamId.le_of_lt hlt)
        rw [hfound, hlow, List.filter_cons_of_neg (by simpa using hnot), ← ih hrest]
        split <;> rfl
      · have hlow : lowerBound (e :: es) after = 0 := by
          simp [lowerBound, hlt]
        have hall : ∀ e' ∈ es, after < e'.id := fun e' he' =>
          StreamId.lt_of_le_of_lt (StreamId.not_lt.mp hlt) (hgt e' he')
        have hself : es.filter (fun e => after < e.id) = es :=
          List.filter_eq_self.mpr fun e' he' => decide_eq_true (hall e' he')
        have hfound : foundAt (e :: es) after = decide (e.id = after) := by
          rw [foundAt, hlow]
          by_cases heq : e.id = after <;> simp [heq]
        rw [hfound, hlow]
        by_cases heq : e.id = after
        · have hnot : ¬ after < e.id := by rw [heq]; exact Nat.lt_irrefl _
          rw [List.filter_cons_of_neg (by simpa using hnot), hself]
          simp [heq]
        · have hafter : after < e.id := by
            rcases Nat.lt_or_eq_of_le (StreamId.not_lt.mp hlt) with h1 | h1
            · exact h1
            · exact absurd (StreamId.ext_iff'.mpr h1.symm) heq
          rw [List.filter_cons_of_pos (by simpa using hafter), hself]
          simp [heq]

/-- `range_after` gives the entries with a greater ID, the first ones if there
is a count. -/
theorem rangeAfter_eq {s : Stream} (h : s.entries.Pairwise fun a b => a.id < b.id)
    (after : StreamId) (count : Option Nat) :
    s.rangeAfter after count =
      (s.entries.filter fun e => after < e.id).take (count.getD s.entries.length) := by
  rw [rangeAfter, drop_after h]

/-- Between the least and the greatest ID lie all entries. -/
theorem range_all {s : Stream} (h : s.entries.Pairwise fun a b => a.id < b.id) :
    s.range StreamId.min StreamId.max none false = s.entries := by
  have hstart : lowerBound s.entries StreamId.min = 0 := by
    have hnot : ∀ e : StreamEntry, ¬ e.id < StreamId.min := fun _ => Nat.not_lt_zero _
    rw [lowerBound]
    cases s.entries with
    | nil => rfl
    | cons e es => simp [hnot]
  -- nothing lies behind the greatest ID
  have hend := List.drop_eq_nil_iff.mp ((drop_after h StreamId.max).trans
    (List.filter_eq_nil_iff.mpr fun e _ hlt =>
      Nat.not_lt_of_le (Nat.le_pred_of_lt e.id.packed_lt) (of_decide_eq_true hlt)))
  have hall : s.entries.length ≤ Nat.min (if foundAt s.entries StreamId.max then
      lowerBound s.entries StreamId.max else lowerBound s.entries StreamId.max - 1)
        (s.entries.length - 1) + 1 := by
    refine Nat.sub_le_iff_le_add.mp (le_min ?_ (Nat.le_refl _))
    split at hend
    · next hfound =>
        rw [if_pos hfound]
        omega
    · next hfound =>
        rw [if_neg hfound]
        omega
  simp only [range, hstart, List.drop_zero, Bool.false_eq_true, if_false]
  exact List.take_of_length_le hall

end Stream

/-! ## Runs -/

/-- Something that happens to a stream. -/
inductive StreamOp : Type 1
  | addAuto (fields : Map Bytes Bytes) (now : UInt64)
  | addWithId (id : StreamId) (fields : Map Bytes Bytes)
  | trimByCount (maxCount : Nat)
  | trimByMinId (minId : StreamId)
  | delete (ids : List StreamId)
  | group {α : Type} (c : GroupCmd α) (ctx : Ctx)

/-- A stream, the IDs it has accepted, and what the reads of new entries have
returned, with the group that read; first to last. -/
structure StreamRun where
  stream : Stream
  accepted : List StreamId
  reads : List (String × List StreamEntry)

namespace StreamRun

/-- What a read of new entries returned. -/
def newRead {α : Type} : GroupCmd α → α → List (String × List StreamEntry)
  | .readGroup group _ afterId _ _, .ok entries =>
      if afterId = StreamId.max then [(group, entries)] else []
  | _, _ => []

/-- One operation. -/
def step (r : StreamRun) : StreamOp → StreamRun
  | .addAuto fields now =>
      { r with
        stream := (r.stream.addAuto fields now.toNat).2
        accepted := r.accepted ++ [(r.stream.addAuto fields now.toNat).1] }
  | .addWithId id fields =>
      match r.stream.addWithId id fields with
      | .ok s => { r with stream := s, accepted := r.accepted ++ [id] }
      | .error _ => r
  | .trimByCount maxCount => { r with stream := (r.stream.trimByCount maxCount).2 }
  | .trimByMinId minId => { r with stream := (r.stream.trimByMinId minId).2 }
  | .delete ids => { r with stream := (r.stream.delete ids).2 }
  | .group c ctx =>
      { r with
        stream := (c.apply ctx r.stream).2
        reads := r.reads ++ newRead c (c.apply ctx r.stream).1 }

/-- A new stream. -/
def initial : StreamRun := ⟨Stream.new, [], []⟩

/-- An ID is not generated when the sequence of the last one is at its end and
the clock is not past its millisecond; and the vector has room. -/
def InSequence (r : StreamRun) : StreamOp → Prop
  | .addAuto _ now =>
      (r.stream.lastIdSeq + 1 < 2 ^ 64 ∨ r.stream.lastIdMillis < now.toNat) ∧
        r.stream.entries.length + 1 < 2 ^ 64
  | .addWithId _ _ => r.stream.entries.length + 1 < 2 ^ 64
  | _ => True

instance (r : StreamRun) : (o : StreamOp) → Decidable (r.InSequence o)
  | .addAuto _ _ => inferInstanceAs (Decidable (_ ∧ _))
  | .addWithId _ _ => inferInstanceAs (Decidable (_ < _))
  | .trimByCount _ => .isTrue trivial
  | .trimByMinId _ => .isTrue trivial
  | .delete _ => .isTrue trivial
  | .group _ _ => .isTrue trivial

/-- The IDs of the entries and of the past grow, `last_id` is the greatest, the
atomics beside it agree with it, and the length is that of the vector. -/
structure Ordered (r : StreamRun) : Prop where
  entries : r.stream.entries.Pairwise fun a b => a.id < b.id
  entries_le : ∀ e ∈ r.stream.entries, e.id ≤ r.stream.lastId
  accepted : r.accepted.Pairwise (· < ·)
  accepted_le : ∀ i ∈ r.accepted, i ≤ r.stream.lastId
  last : r.stream.lastId = r.accepted.getLast?.getD (StreamId.new 0 0)
  atomics : r.stream.lastId = StreamId.new r.stream.lastIdMillis r.stream.lastIdSeq
  millis_lt : r.stream.lastIdMillis < 2 ^ 64
  seq_lt : r.stream.lastIdSeq < 2 ^ 64
  length : r.stream.length = r.stream.entries.length
  length_lt : r.stream.entries.length < 2 ^ 64

theorem ordered_initial : initial.Ordered where
  entries := .nil
  entries_le := nofun
  accepted := .nil
  accepted_le := nofun
  last := rfl
  atomics := rfl
  millis_lt := by decide
  seq_lt := by decide
  length := rfl
  length_lt := by decide

/-- A group command changes the groups alone. -/
theorem apply_groups {α : Type} (c : GroupCmd α) (ctx : Ctx) (s : Stream) :
    ∃ gs, (c.apply ctx s).2 = { s with consumerGroups := gs } := by
  cases c with
  | create name start =>
      simp only [GroupCmd.apply, Stream.createConsumerGroup]
      split <;> exact ⟨_, rfl⟩
  | destroy name =>
      simp only [GroupCmd.apply, Stream.destroyConsumerGroup]
      split <;> exact ⟨_, rfl⟩
  | createConsumer group consumer =>
      simp only [GroupCmd.apply]
      split <;> exact ⟨_, rfl⟩
  | deleteConsumer group consumer =>
      simp only [GroupCmd.apply]
      split <;> exact ⟨_, rfl⟩
  | setId group id =>
      simp only [GroupCmd.apply]
      split <;> exact ⟨_, rfl⟩
  | readGroup group consumer afterId count noack =>
      simp only [GroupCmd.apply, Stream.readGroup]
      split
      · exact ⟨_, rfl⟩
      · repeat' split
        all_goals exact ⟨_, rfl⟩
  | acknowledge group ids =>
      simp only [GroupCmd.apply, Stream.acknowledgeMessages]
      split <;> exact ⟨_, rfl⟩
  | claim group consumer minIdleMs ids force =>
      simp only [GroupCmd.apply, Stream.claimMessages]
      split <;> exact ⟨_, rfl⟩
  | autoClaim group consumer minIdleMs start count =>
      simp only [GroupCmd.apply, Stream.autoClaimMessages]
      split <;> exact ⟨_, rfl⟩

/-- What happens to the entries leaves the groups alone. -/
theorem step_groups (r : StreamRun) (o : StreamOp) :
    (r.step o).stream.consumerGroups = r.stream.consumerGroups ∨
      ∃ (α : Type) (c : GroupCmd α) (ctx : Ctx), o = .group c ctx := by
  cases o with
  | addAuto fields now => exact .inl rfl
  | addWithId id fields =>
      refine .inl ?_
      rw [step, Stream.addWithId]
      split
      · next s hs =>
          split at hs
          · cases hs
          · split at hs
            · cases hs
            · cases hs
              rfl
      · rfl
  | trimByCount maxCount =>
      refine .inl ?_
      rw [step, Stream.trimByCount]
      split <;> rfl
  | trimByMinId minId =>
      refine .inl ?_
      rw [step, Stream.trimByMinId]
      split <;> rfl
  | delete ids =>
      refine .inl ?_
      rw [step, Stream.delete]
      generalize (StreamId.sort ids).dedup.reverse.foldl Stream.deleteOne (r.stream.entries, 0, 0) = d
      dsimp only
      split <;> rfl
  | group c ctx => exact .inr ⟨_, c, ctx, rfl⟩

/-- Accepting a greater ID. -/
theorem Ordered.push {r : StreamRun} (h : r.Ordered) {id : StreamId} (hid : r.stream.lastId < id)
    (fields : Map Bytes Bytes) (hroom : r.stream.entries.length + 1 < 2 ^ 64) {m q : Nat}
    (hm : m < 2 ^ 64) (hq : q < 2 ^ 64) (hnew : id = StreamId.new m q) :
    Ordered ⟨{ r.stream.push ⟨id, fields⟩ with lastIdMillis := m, lastIdSeq := q },
      r.accepted ++ [id], r.reads⟩ where
  entries := by
    refine List.pairwise_append.mpr ⟨h.entries, List.pairwise_singleton _ _, ?_⟩
    intro a ha b hb
    rw [List.mem_singleton.mp hb]
    exact StreamId.lt_of_le_of_lt (h.entries_le a ha) hid
  entries_le := by
    intro e he
    rcases List.mem_append.mp he with he | he
    · exact StreamId.le_of_lt (StreamId.lt_of_le_of_lt (h.entries_le e he) hid)
    · rw [List.mem_singleton.mp he]
      exact Nat.le_refl _
  accepted := by
    refine List.pairwise_append.mpr ⟨h.accepted, List.pairwise_singleton _ _, ?_⟩
    intro i hi j hj
    rw [List.mem_singleton.mp hj]
    exact StreamId.lt_of_le_of_lt (h.accepted_le i hi) hid
  accepted_le := by
    intro i hi
    rcases List.mem_append.mp hi with hi | hi
    · exact StreamId.le_of_lt (StreamId.lt_of_le_of_lt (h.accepted_le i hi) hid)
    · rw [List.mem_singleton.mp hi]
      exact Nat.le_refl _
  last := by
    rw [List.getLast?_concat]
    rfl
  atomics := hnew
  millis_lt := hm
  seq_lt := hq
  length := by
    have hlen : r.stream.length = r.stream.entries.length := h.length
    simp only [Stream.push, List.length_append, List.length_singleton, hlen]
  length_lt := by
    simp only [Stream.push, List.length_append, List.length_singleton]
    exact hroom

/-- Losing some of the entries. -/
theorem Ordered.release {r : StreamRun} (h : r.Ordered) {left : List StreamEntry} {removed : Nat}
    (hsub : left.Sublist r.stream.entries) (hlen : left.length + removed = r.stream.entries.length)
    (freed : Nat) : Ordered { r with stream := r.stream.release left removed freed } where
  entries := h.entries.sublist hsub
  entries_le := fun e he => h.entries_le e (hsub.subset he)
  accepted := h.accepted
  accepted_le := h.accepted_le
  last := h.last
  atomics := h.atomics
  millis_lt := h.millis_lt
  seq_lt := h.seq_lt
  length := by
    have hlt := h.length_lt
    simp only [Stream.release, Stream.subU64, h.length]
    omega
  length_lt := by
    have hlt := h.length_lt
    change left.length < 2 ^ 64
    omega

/-- What is left while IDs are deleted one by one. -/
theorem foldl_deleteOne (ids : List StreamId) (acc : List StreamEntry × Nat × Nat) :
    (ids.foldl Stream.deleteOne acc).1.Sublist acc.1 ∧
    (ids.foldl Stream.deleteOne acc).1.length + (ids.foldl Stream.deleteOne acc).2.1 =
      acc.1.length + acc.2.1 := by
  induction ids generalizing acc with
  | nil => exact ⟨.refl _, rfl⟩
  | cons id ids ih =>
      rw [List.foldl_cons]
      obtain ⟨hsub, hlen⟩ := ih (Stream.deleteOne acc id)
      have hone : (Stream.deleteOne acc id).1.Sublist acc.1 ∧
          (Stream.deleteOne acc id).1.length + (Stream.deleteOne acc id).2.1 =
            acc.1.length + acc.2.1 := by
        unfold Stream.deleteOne
        split
        · next hfound =>
            have hlt : Stream.lowerBound acc.1 id < acc.1.length := by
              by_contra hge
              rw [Stream.foundAt, List.getElem?_eq_none (Nat.le_of_not_lt hge)] at hfound
              simp at hfound
            refine ⟨List.eraseIdx_sublist .., ?_⟩
            simp only [List.length_eraseIdx_of_lt hlt]
            omega
        · exact ⟨.refl _, rfl⟩
      exact ⟨hsub.trans hone.1, by omega⟩

/-- A generated ID in sequence is greater than the last one. -/
theorem Ordered.generateNext {r : StreamRun} (h : r.Ordered) {now : UInt64}
    (hseq : r.stream.lastIdSeq + 1 < 2 ^ 64 ∨ r.stream.lastIdMillis < now.toNat) :
    ∃ m q, m < 2 ^ 64 ∧ q < 2 ^ 64 ∧ r.stream.lastId < StreamId.new m q ∧
      r.stream.generateNext now.toNat = (StreamId.new m q, m, q) := by
  have hnow : now.toNat < 2 ^ 64 := now.toNat_lt
  have hlast := StreamId.packed_new h.millis_lt h.seq_lt
  unfold Stream.generateNext
  split
  · next hlt =>
      refine ⟨now.toNat, 0, hnow, by decide, ?_, rfl⟩
      have hm := h.millis_lt
      have hq := h.seq_lt
      rw [StreamId.lt_iff, h.atomics, hlast, StreamId.packed_new hnow (by decide)]
      omega
  · next hge =>
      have hq : r.stream.lastIdSeq + 1 < 2 ^ 64 := by omega
      refine ⟨_, _, h.millis_lt, hq, ?_, ?_⟩
      · rw [StreamId.lt_iff, h.atomics, hlast, StreamId.packed_new h.millis_lt hq]
        omega
      · rw [Nat.mod_eq_of_lt hq]

/-- One operation in sequence keeps the order. -/
theorem Ordered.step {r : StreamRun} {o : StreamOp} (h : r.Ordered) (ho : r.InSequence o) :
    (r.step o).Ordered := by
  cases o with
  | addAuto fields now =>
      obtain ⟨m, q, hm, hq, hlt, hgen⟩ := h.generateNext ho.1
      have hadd : r.stream.addAuto fields now.toNat = (StreamId.new m q,
          { r.stream.push ⟨StreamId.new m q, fields⟩ with lastIdMillis := m, lastIdSeq := q }) := by
        rw [Stream.addAuto, hgen]
      rw [StreamRun.step, hadd]
      exact h.push hlt fields ho.2 hm hq rfl
  | addWithId id fields =>
      rw [StreamRun.step, Stream.addWithId]
      split
      · next s hs =>
          split at hs
          · cases hs
          · next hle =>
              split at hs
              · cases hs
              · cases hs
                exact h.push (StreamId.not_le.mp hle) fields ho id.millis_lt id.seq_lt
                  id.new_millis_seq.symm
      · exact h
  | trimByCount maxCount =>
      rw [StreamRun.step, Stream.trimByCount]
      split
      · exact h
      · refine h.release (List.drop_sublist _ _) ?_ _
        rw [List.length_drop]
        omega
  | trimByMinId minId =>
      rw [StreamRun.step, Stream.trimByMinId]
      split
      · exact h
      · refine h.release (List.drop_sublist _ _) ?_ _
        have hle : Stream.lowerBound r.stream.entries minId ≤ r.stream.entries.length :=
          (List.takeWhile_sublist _).length_le
        rw [List.length_drop]
        omega
  | delete ids =>
      rw [StreamRun.step, Stream.delete]
      obtain ⟨hsub, hlen⟩ := foldl_deleteOne (StreamId.sort ids).dedup.reverse (r.stream.entries, 0, 0)
      generalize (StreamId.sort ids).dedup.reverse.foldl Stream.deleteOne (r.stream.entries, 0, 0) = d
        at hsub hlen
      obtain ⟨left, deleted, freed⟩ := d
      dsimp only
      split
      · exact h.release hsub hlen _
      · exact h
  | group c ctx =>
      obtain ⟨gs, hgs⟩ := apply_groups c ctx r.stream
      rw [StreamRun.step, hgs]
      exact ⟨h.entries, h.entries_le, h.accepted, h.accepted_le, h.last, h.atomics, h.millis_lt,
        h.seq_lt, h.length, h.length_lt⟩

/-- In every run whose operations are in sequence, the entries and the accepted
IDs are strictly increasing, `last_id` is the greatest ID ever accepted, and the
reported length is the number of entries. -/
theorem ordered_run (ops : List StreamOp) (h : Guarded InSequence step initial ops) :
    let r := ops.foldl step initial
    r.stream.entries.Pairwise (fun a b => a.id < b.id) ∧
    r.accepted.Pairwise (· < ·) ∧
    (∀ i ∈ r.accepted, i ≤ r.stream.lastId) ∧
    r.stream.lastId = r.accepted.getLast?.getD (StreamId.new 0 0) ∧
    r.stream.length = r.stream.entries.length := by
  have hord := h.inv (I := Ordered) (fun _ _ hr ho => hr.step ho) ordered_initial
  exact ⟨hord.entries, hord.accepted, hord.accepted_le, hord.last, hord.length⟩

/-- The fields of the entries below. -/
def oneField : Map Bytes Bytes := (∅ : Map Bytes Bytes).set "f".toBytes "v".toBytes

/-- Two generated IDs with the clock going back, a trim and a deletion. -/
theorem ordered_run_backwards :
    let r := [StreamOp.addAuto oneField 7, .addAuto oneField 5, .trimByCount 1,
      .delete [StreamId.new 7 1]].foldl step initial
    r.accepted = [StreamId.new 7 0, StreamId.new 7 1] ∧
    r.stream.lastId = r.accepted.getLast?.getD (StreamId.new 0 0) ∧
    r.stream.length = r.stream.entries.length := by
  have hguard : Guarded InSequence step initial [StreamOp.addAuto oneField 7, .addAuto oneField 5,
      .trimByCount 1, .delete [StreamId.new 7 1]] := by
    exact ⟨by decide, by decide, trivial, trivial, trivial⟩
  obtain ⟨-, -, -, hlast, hlen⟩ := ordered_run _ hguard
  exact ⟨rfl, hlast, hlen⟩

/-- At the end of a millisecond the generated ID starts over, below the last. -/
theorem generated_id_starts_over :
    ¬ (([StreamOp.addWithId (StreamId.new 5 (2 ^ 64 - 1)) oneField, .addAuto oneField 5].foldl step
      initial).stream.entries.Pairwise fun a b => a.id < b.id) := by
  decide

end StreamRun

end Ferrous
