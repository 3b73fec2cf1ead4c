/-
# `Storage.GroupDelivery` — reads of new entries deliver each entry once

A consumer group hands out the entries behind its cursor, and a delivery moves
the cursor to the last of them.  The cursor starts at `0-0` whatever start ID
the group was given, and a read with NOACK does not move it; without entries up
to the start ID in front of the cursor and without such reads, every entry
behind the start ID is delivered by exactly one read, in ID order.
-/
import Ferrous.Storage.PendingEntries

namespace Ferrous

open Lib

/-! ## The cursor of a group -/

/-- The cursor of a group. -/
def Stream.cursor? (s : Stream) (group : String) : Option StreamId :=
  (s.consumerGroups.get? group).map (·.lastDeliveredId)

namespace Stream

theorem cursor?_setGroup {s : Stream} {name : String} {g g' : ConsumerGroup}
    (hg : s.consumerGroups.get? name = some g) (hc : g'.lastDeliveredId = g.lastDeliveredId)
    (group : String) : (s.setGroup name g').cursor? group = s.cursor? group := by
  unfold cursor? setGroup
  rw [Map.get?_set]
  split
  · next h => rw [h, hg, Option.map_some, Option.map_some, hc]
  · rfl

/-- The commands that may move the cursor of a group, or take the group away. -/
def Moves (group : String) {α : Type} : GroupCmd α → Prop
  | .readGroup name _ _ _ _ => name = group
  | .setId name _ => name = group
  | .destroy name => name = group
  | _ => False

/-- Every other command leaves the cursor of a group that is there. -/
theorem cursor?_apply {s : Stream} {group : String} {i : StreamId} (hs : s.cursor? group = some i)
    {α : Type} {c : GroupCmd α} (hc : ¬ Moves group c) (ctx : Ctx) :
    (c.apply ctx s).2.cursor? group = some i := by
  cases c with
  | create name start =>
      simp only [GroupCmd.apply, createConsumerGroup]
      split
      · exact hs
      · next hnone =>
          have hne : group ≠ name := by
            rintro rfl
            rw [cursor?, hnone] at hs
            cases hs
          change (Map.get? (Map.set _ _ _) _).map _ = _
          rw [Map.get?_set_ne _ _ hne]
          exact hs
  | destroy name =>
      simp only [GroupCmd.apply, destroyConsumerGroup]
      split
      · change (Map.get? (Map.del _ _) _).map _ = _
        rw [Map.get?_del_ne _ (Ne.symm hc)]
        exact hs
      · exact hs
  | createConsumer name consumer =>
      simp only [GroupCmd.apply]
      split
      · exact hs
      · next g hg =>
          exact (cursor?_setGroup hg (ConsumerGroup.shrinks_createConsumer g consumer _).1 _).trans hs
  | deleteConsumer name consumer =>
      simp only [GroupCmd.apply]
      split
      · exact hs
      · next g hg =>
          have hlast : (g.deleteConsumer consumer).2.lastDeliveredId = g.lastDeliveredId := by
            unfold ConsumerGroup.deleteConsumer
            split <;> rfl
          exact (cursor?_setGroup hg hlast _).trans hs
  | setId name id =>
      simp only [GroupCmd.apply]
      split
      · exact hs
      · change (Map.get? (Map.set _ _ _) _).map _ = _
        rw [Map.get?_set_ne _ _ (Ne.symm hc)]
        exact hs
  | readGroup name consumer afterId count noack =>
      have hne : group ≠ name := Ne.symm hc
      have hset : ∀ g', (s.setGroup name g').cursor? group = some i := by
        intro g'
        rw [cursor?, setGroup, Map.get?_set_ne _ _ hne]
        exact hs
      simp only [GroupCmd.apply, readGroup]
      split
      · exact hs
      · by_cases hgt : afterId = StreamId.max
        all_goals
          simp only [hgt, if_true, if_false]
          split
          · exact hset _
          · exact hs
  | acknowledge name ids =>
      simp only [GroupCmd.apply, acknowledgeMessages]
      split
      · exact hs
      · next g hg =>
          exact (cursor?_setGroup hg (ConsumerGroup.shrinks_acknowledge g ids).1 _).trans hs
  | claim name consumer minIdleMs ids force =>
      simp only [GroupCmd.apply, claimMessages]
      split
      · exact hs
      · next g hg =>
          exact (cursor?_setGroup hg (ConsumerGroup.shrinks_claimMessages ..).1 _).trans hs
  | autoClaim name consumer minIdleMs start count =>
      simp only [GroupCmd.apply, autoClaimMessages]
      split
      · exact hs
      · next g hg =>
          exact (cursor?_setGroup hg (ConsumerGroup.shrinks_claimMessages ..).1 _).trans hs

/-- What a read of new entries does: it answers with what is behind the cursor,
and unless it is a NOACK read the cursor goes to the last of it. -/
theorem apply_readNew {s : Stream} {group : String} {i : StreamId} (hs : s.cursor? group = some i)
    (consumer : String) (count : Option Nat) (noack : Bool) (ctx : Ctx) :
    ((GroupCmd.readGroup group consumer StreamId.max count noack).apply ctx s).1 =
      .ok (s.rangeAfter i count) ∧
    ((GroupCmd.readGroup group consumer StreamId.max count noack).apply ctx s).2.cursor? group =
      some (match noack, (s.rangeAfter i count).getLast? with
        | false, some e => if i < e.id then e.id else i
        | _, _ => i) := by
  obtain ⟨g, hg, rfl⟩ := Option.map_eq_some_iff.mp hs
  have hread : s.readGroup group consumer StreamId.max count noack ctx.sysNow =
      if !noack && !(s.rangeAfter g.lastDeliveredId count).isEmpty then
        .ok (s.rangeAfter g.lastDeliveredId count, s.setGroup group
          (g.addPending consumer (s.rangeAfter g.lastDeliveredId count) ctx.sysNow))
      else .ok (s.rangeAfter g.lastDeliveredId count, s) := by
    simp only [readGroup, hg, if_true]
  simp only [GroupCmd.apply, hread]
  generalize s.rangeAfter g.lastDeliveredId count = es
  cases noack with
  | true => exact ⟨rfl, hs⟩
  | false =>
      cases hl : es.getLast? with
      | none =>
          rw [List.getLast?_eq_none_iff] at hl
          subst hl
          exact ⟨rfl, hs⟩
      | some e =>
          have hne : es.isEmpty = false := by
            cases es with
            | nil => cases hl
            | cons a as => rfl
          have hlast := (ConsumerGroup.shrinks_createConsumer g consumer ctx.sysNow).1
          rw [hne]
          refine ⟨rfl, ?_⟩
          change (Map.get? (Map.set _ _ _) _).map _ = _
          rw [Map.get?_set_self]
          simp only [ConsumerGroup.addPending, hl, Option.map_some, hlast]

end Stream

/-! ## Runs -/

namespace StreamRun

/-- The IDs that reads of new entries have handed to a group. -/
def deliveredTo (r : StreamRun) (group : String) : List StreamId :=
  (r.reads.filter fun d => d.1 = group).flatMap fun d => d.2.map (·.id)

/-- Reads of the group are of new entries; none finds an entry up to the start
ID behind the cursor, and one with NOACK finds nothing.  The group stays and its
cursor is not set. -/
def ReadsNew (group : String) (start : StreamId) (r : StreamRun) : StreamOp → Prop
  | .group (.readGroup name _ afterId count noack) _ =>
      name = group → afterId = StreamId.max ∧
        ∀ i, r.stream.cursor? group = some i →
          (∀ e ∈ r.stream.entries, i < e.id → start < e.id) ∧
          (noack = true → r.stream.rangeAfter i count = [])
  | .group (.setId name _) _ => name ≠ group
  | .group (.destroy name) _ => name ≠ group
  | _ => True

/-- What was delivered is in ID order, behind the start ID and up to the cursor,
and nothing in between was left out. -/
structure Delivered (group : String) (start : StreamId) (r : StreamRun) : Prop where
  ordered : r.Ordered
  cursor : ∃ i, r.stream.cursor? group = some i ∧ i ≤ r.stream.lastId ∧
    (∀ id ∈ r.deliveredTo group, id ≤ i) ∧
    ∀ e ∈ r.stream.entries, start < e.id → e.id ≤ i → e.id ∈ r.deliveredTo group
  increasing : (r.deliveredTo group).Pairwise (· < ·)
  behind : ∀ id ∈ r.deliveredTo group, start < id

/-- What an operation on the entries leaves was there before, or has an ID
greater than any before; and the reads are as they were. -/
theorem Ordered.step_entries {r : StreamRun} {o : StreamOp} (h : r.Ordered) (ho : r.InSequence o) :
    r.stream.lastId ≤ (r.step o).stream.lastId ∧
    ∀ e ∈ (r.step o).stream.entries, e ∈ r.stream.entries ∨ r.stream.lastId < e.id := by
  cases o with
  | addAuto fields now =>
      obtain ⟨m, q, hm, hq, hlt, hgen⟩ := h.generateNext ho.1
      have hadd : r.stream.addAuto fields now.toNat = (StreamId.new m q,
          { r.stream.push ⟨StreamId.new m q, fields⟩ with lastIdMillis := m, lastIdSeq := q }) := by
        rw [Stream.addAuto, hgen]
      rw [StreamRun.step, hadd]
      refine ⟨StreamId.le_of_lt hlt, fun e he => ?_⟩
      rcases List.mem_append.mp he with he | he
      · exact .inl he
      · rw [List.mem_singleton.mp he]
        exact .inr hlt
  | addWithId id fields =>
      rw [StreamRun.step, Stream.addWithId]
      split
      · next s hs =>
          split at hs
          · cases hs
          · next hle =>
              split at hs
              · cases hs
              · cases hs
                refine ⟨StreamId.le_of_lt (StreamId.not_le.mp hle), fun e he => ?_⟩
                rcases List.mem_append.mp he with he | he
                · exact .inl he
                · rw [List.mem_singleton.mp he]
                  exact .inr (StreamId.not_le.mp hle)
      · exact ⟨Nat.le_refl _, fun e he => .inl he⟩
  | trimByCount maxCount =>
      rw [StreamRun.step, Stream.trimByCount]
      split
      · exact ⟨Nat.le_refl _, fun e he => .inl he⟩
      · exact ⟨Nat.le_refl _, fun e he => .inl (List.mem_of_mem_drop he)⟩
  | trimByMinId minId =>
      rw [StreamRun.step, Stream.trimByMinId]
      split
      · exact ⟨Nat.le_refl _, fun e he => .inl he⟩
      · exact ⟨Nat.le_refl _, fun e he => .inl (List.mem_of_mem_drop he)⟩
  | delete ids =>
      rw [StreamRun.step, Stream.delete]
      obtain ⟨hsub, -⟩ := foldl_deleteOne (StreamId.sort ids).dedup.reverse (r.stream.entries, 0, 0)
      generalize (StreamId.sort ids).dedup.reverse.foldl Stream.deleteOne (r.stream.entries, 0, 0) = d
        at hsub
      obtain ⟨left, deleted, freed⟩ := d
      dsimp only
      split
      · exact ⟨Nat.le_refl _, fun e he => .inl (hsub.subset he)⟩
      · exact ⟨Nat.le_refl _, fun e he => .inl he⟩
  | group c ctx =>
      obtain ⟨gs, hgs⟩ := apply_groups c ctx r.stream
      rw [StreamRun.step, hgs]
      exact ⟨Nat.le_refl _, fun e he => .inl he⟩

/-- The reads are those before and what a group command has read. -/
theorem step_reads (r : StreamRun) (o : StreamOp) :
    (r.step o).reads = r.reads ∨ ∃ (α : Type) (c : GroupCmd α) (ctx : Ctx), o = .group c ctx := by
  cases o with
  | addAuto fields now => exact .inl rfl
  | addWithId id fields =>
      refine .inl ?_
      rw [step]
      split <;> rfl
  | trimByCount maxCount => exact .inl rfl
  | trimByMinId minId => exact .inl rfl
  | delete ids => exact .inl rfl
  | group c ctx => exact .inr ⟨_, c, ctx, rfl⟩

/-- An operation that neither reads for the group nor moves its cursor. -/
theorem Delivered.keep {group : String} {start : StreamId} {r : StreamRun} {o : StreamOp}
    (h : Delivered group start r) (ho : r.InSequence o)
    (hreads : (r.step o).deliveredTo group = r.deliveredTo group)
    (hcursor : ∀ i, r.stream.cursor? group = some i → (r.step o).stream.cursor? group = some i) :
    Delivered group start (r.step o) := by
  obtain ⟨i, hi, hle, hupto, hfull⟩ := h.cursor
  obtain ⟨hlast, hentries⟩ := h.ordered.step_entries ho
  refine ⟨h.ordered.step ho, ⟨i, hcursor i hi, Nat.le_trans hle hlast, ?_, ?_⟩, ?_, ?_⟩
  · rw [hreads]
    exact hupto
  · intro e he hstart hei
    rw [hreads]
    rcases hentries e he with hold | hnew
    · exact hfull e hold hstart hei
    · exact absurd hei (StreamId.not_le.mpr (StreamId.lt_of_le_of_lt hle hnew))
  · rw [hreads]
    exact h.increasing
  · rw [hreads]
    exact h.behind

/-- What a read hands out includes everything up to the last entry of it. -/
theorem Ordered.mem_rangeAfter_of_le {r : StreamRun} (h : r.Ordered) {after : StreamId}
    {count : Option Nat} {last : StreamEntry}
    (hlast : (r.stream.rangeAfter after count).getLast? = some last) {e : StreamEntry}
    (he : e ∈ r.stream.entries) (hafter : after < e.id) (hle : e.id ≤ last.id) :
    e ∈ r.stream.rangeAfter after count := by
  rw [Stream.rangeAfter_eq h.entries] at hlast ⊢
  have hmem : e ∈ r.stream.entries.filter fun e => after < e.id :=
    List.mem_filter.mpr ⟨he, decide_eq_true hafter⟩
  have hsorted := h.entries.sublist (List.filter_sublist (p := fun e => after < e.id))
  generalize count.getD r.stream.entries.length = n at hlast
  rw [← List.take_append_drop n (r.stream.entries.filter _)] at hmem hsorted
  obtain ⟨-, -, hlt⟩ := List.pairwise_append.mp hsorted
  rcases List.mem_append.mp hmem with hin | hout
  · exact hin
  · have hgt := hlt last (List.mem_of_getLast? hlast) e hout
    exact absurd hle (StreamId.not_le.mpr hgt)

/-- A read of new entries by the group. -/
theorem Delivered.read {group : String} {start : StreamId} {r : StreamRun}
    (h : Delivered group start r) {i : StreamId} (hi : r.stream.cursor? group = some i)
    (consumer : String) (count : Option Nat) (noack : Bool) (ctx : Ctx)
    (hstart : ∀ e ∈ r.stream.entries, i < e.id → start < e.id)
    (hack : noack = true → r.stream.rangeAfter i count = []) :
    Delivered group start
      (r.step (.group (.readGroup group consumer StreamId.max count noack) ctx)) := by
  have hord' := h.ordered.step (o := .group (.readGroup group consumer StreamId.max count noack) ctx)
    trivial
  obtain ⟨i', hi', hle, hupto, hfull⟩ := h.cursor
  obtain rfl : i = i' := Option.some.inj (hi.symm.trans hi')
  obtain ⟨hans, hcur⟩ := Stream.apply_readNew hi consumer count noack ctx
  obtain ⟨gs, hgs⟩ :=
    apply_groups (.readGroup group consumer StreamId.max count noack) ctx r.stream
  -- the entries are as they were, the read adds what is behind the cursor
  have hreads : (r.step (.group (.readGroup group consumer StreamId.max count noack) ctx)).deliveredTo
      group = r.deliveredTo group ++ (r.stream.rangeAfter i count).map (·.id) := by
    have hnew : (r.step (.group (.readGroup group consumer StreamId.max count noack) ctx)).reads =
        r.reads ++ [(group, r.stream.rangeAfter i count)] := by
      rw [step]
      dsimp only
      rw [hans, newRead, if_pos rfl]
    rw [deliveredTo, hnew, List.filter_append, List.flatMap_append, deliveredTo]
    simp
  have hentries : (r.step (.group (.readGroup group consumer StreamId.max count noack) ctx)).stream =
      { r.stream with consumerGroups := gs } := hgs
  have hbehind : ∀ e ∈ r.stream.rangeAfter i count, i < e.id :=
    fun e he => h.ordered.lt_of_mem_rangeAfter he
  have hin : ∀ e ∈ r.stream.rangeAfter i count, e ∈ r.stream.entries :=
    fun e he => List.mem_of_mem_drop (List.mem_of_mem_take he)
  refine ⟨hord', ?_, ?_, ?_⟩
  · refine ⟨_, hcur, ?_⟩
    rw [hreads, hentries]
    dsimp only
    generalize hes : r.stream.rangeAfter i count = es at hack hbehind hin ⊢
    cases hl : es.getLast? with
    | none =>
        rw [List.getLast?_eq_none_iff] at hl
        subst hl
        have hsame : (match noack, (none : Option StreamEntry) with
            | false, some e => if i < e.id then e.id else i
            | _, _ => i) = i := by
          cases noack <;> rfl
        rw [hsame, List.map_nil, List.append_nil]
        exact ⟨hle, hupto, hfull⟩
    | some last =>
        have hlast := List.mem_of_getLast? hl
        have hno : noack = false := by
          cases noack with
          | false => rfl
          | true =>
              rw [hack rfl] at hlast
              cases hlast
        subst hno
        dsimp only
        rw [if_pos (hbehind last hlast)]
        refine ⟨h.ordered.entries_le last (hin last hlast), ?_, ?_⟩
        · intro id hid
          rcases List.mem_append.mp hid with hid | hid
          · exact Nat.le_trans (hupto id hid) (StreamId.le_of_lt (hbehind last hlast))
          · obtain ⟨e, he, rfl⟩ := List.mem_map.mp hid
            have hsorted := h.ordered.pairwise_rangeAfter i count
            rw [hes] at hsorted
            exact le_getLast hsorted hl he
        · intro e he hse hel
          rw [List.mem_append]
          by_cases hie : e.id ≤ i
          · exact .inl (hfull e he hse hie)
          · rw [← hes] at hl ⊢
            exact .inr (List.mem_map_of_mem
              (h.ordered.mem_rangeAfter_of_le hl he (StreamId.not_le.mp hie) hel))
  · rw [hreads, List.pairwise_append]
    refine ⟨h.increasing, List.Pairwise.map _ (fun _ _ hab => hab)
      (h.ordered.pairwise_rangeAfter i count), ?_⟩
    intro id hid id' hid'
    obtain ⟨e, he, rfl⟩ := List.mem_map.mp hid'
    exact StreamId.lt_of_le_of_lt (hupto id hid) (hbehind e he)
  · rw [hreads]
    intro id hid
    rcases List.mem_append.mp hid with hid | hid
    · exact h.behind id hid
    · obtain ⟨e, he, rfl⟩ := List.mem_map.mp hid
      exact hstart e (hin e he) (hbehind e he)

/-- Only a read of the group itself is recorded for it. -/
theorem deliveredTo_step {group : String} {r : StreamRun} {o : StreamOp}
    (ho : ∀ name consumer afterId count noack ctx,
      o = .group (.readGroup name consumer afterId count noack) ctx → name ≠ group) :
    (r.step o).deliveredTo group = r.deliveredTo group := by
  rcases r.step_reads o with hsame | ⟨α, c, ctx, rfl⟩
  · rw [deliveredTo, hsame, deliveredTo]
  · have hnone : (newRead c (c.apply ctx r.stream).1).filter (fun d => d.1 = group) = [] := by
      cases c with
      | readGroup name consumer afterId count noack =>
          have hne := ho name consumer afterId count noack ctx rfl
          unfold newRead
          split
          · next hc _ =>
              cases hc
              split
              · exact List.filter_eq_nil_iff.mpr (by simpa using hne)
              · rfl
          · rfl
      | _ => rfl
    rw [deliveredTo, step, List.filter_append, hnone, List.append_nil, deliveredTo]

/-- One operation of a run that reads new entries only. -/
theorem Delivered.step {group : String} {start : StreamId} {r : StreamRun} {o : StreamOp}
    (h : Delivered group start r) (ho : r.InSequence o) (hnew : ReadsNew group start r o) :
    Delivered group start (r.step o) := by
  by_cases hread : ∃ consumer afterId count noack ctx,
      o = .group (.readGroup group consumer afterId count noack) ctx
  · obtain ⟨consumer, afterId, count, noack, ctx, rfl⟩ := hread
    obtain ⟨rfl, hcond⟩ := hnew rfl
    obtain ⟨i, hi, -⟩ := h.cursor
    exact h.read hi consumer count noack ctx (hcond i hi).1 (hcond i hi).2
  · have hother : ∀ name consumer afterId count noack ctx,
        o = .group (.readGroup name consumer afterId count noack) ctx → name ≠ group := by
      rintro name consumer afterId count noack ctx rfl rfl
      exact hread ⟨_, _, _, _, _, rfl⟩
    refine h.keep ho (deliveredTo_step hother) fun i hi => ?_
    rcases r.step_groups o with hsame | ⟨α, c, ctx, rfl⟩
    · rw [Stream.cursor?, hsame]
      exact hi
    · refine Stream.cursor?_apply hi ?_ ctx
      cases c with
      | readGroup name consumer afterId count noack => exact hother _ _ _ _ _ _ rfl
      | setId name id => exact hnew
      | destroy name => exact hnew
      | _ => exact id

/-- A stream on which a group is created after some operations; the reads from
there on are recorded. -/
def created (pre : List StreamOp) (group : String) (start : Option StreamId) (ctx : Ctx) : StreamRun :=
  { (pre.foldl step initial).step (.group (.create group start) ctx) with reads := [] }

/-- The cursor of a new group is before every entry, whatever its start ID. -/
theorem delivered_created {pre : List StreamOp} (hpre : Guarded InSequence step initial pre)
    {group : String}
    (hgroup : (pre.foldl step initial).stream.consumerGroups.get? group = none)
    (start : Option StreamId) (ctx : Ctx) (s : StreamId) :
    Delivered group s (created pre group start ctx) := by
  have hord := hpre.inv (I := Ordered) (fun _ _ hr ho => hr.step ho) ordered_initial
  unfold created
  generalize pre.foldl step initial = r at hord hgroup
  have hord' := hord.step (o := .group (.create group start) ctx) trivial
  have hcursor : (r.step (.group (.create group start) ctx)).stream.cursor? group =
      some (StreamId.new 0 0) := by
    simp only [step, GroupCmd.apply, Stream.createConsumerGroup, hgroup]
    change (Map.get? (Map.set _ _ _) _).map _ = _
    rw [Map.get?_set_self]
    rfl
  refine ⟨⟨hord'.entries, hord'.entries_le, hord'.accepted, hord'.accepted_le, hord'.last,
    hord'.atomics, hord'.millis_lt, hord'.seq_lt, hord'.length, hord'.length_lt⟩,
    ⟨_, hcursor, Nat.zero_le _, List.forall_mem_nil _, ?_⟩, .nil, List.forall_mem_nil _⟩
  intro e _ hlt hle
  exact absurd (StreamId.lt_of_lt_of_le hlt hle) (Nat.not_lt_zero _)

/-- In every run in sequence whose reads of new entries find nothing up to the
start ID behind the cursor, and nothing at all if they are NOACK reads: no ID is
delivered to the group twice, every delivered ID is behind the start ID, and a
read without COUNT returns, in ID order, the entries behind the start ID that
were not delivered before. -/
theorem delivered_once (pre : List StreamOp) (hpre : Guarded InSequence step initial pre)
    (group : String) (start : Option StreamId) (ctx : Ctx)
    (hgroup : (pre.foldl step initial).stream.consumerGroups.get? group = none)
    (post : List StreamOp) :
    let s := GroupCmd.lastOr (pre.foldl step initial).stream start
    Guarded (fun r o => InSequence r o ∧ ReadsNew group s r o) step
      (created pre group start ctx) post →
    let r := post.foldl step (created pre group start ctx)
    (r.deliveredTo group).Nodup ∧
    (∀ id ∈ r.deliveredTo group, s < id) ∧
    r.stream.entries.Pairwise (fun a b => a.id < b.id) ∧
    ∀ consumer noack ctx',
      ReadsNew group s r (.group (.readGroup group consumer StreamId.max none noack) ctx') →
      ((GroupCmd.readGroup group consumer StreamId.max none noack).apply ctx' r.stream).1 =
        .ok (r.stream.entries.filter fun e => s < e.id ∧ e.id ∉ r.deliveredTo group) := by
  intro s hpost r
  have hdel : Delivered group s r :=
    hpost.inv (fun _ _ hr ho => hr.step ho.1 ho.2) (delivered_created hpre hgroup start ctx s)
  have hnodup : (r.deliveredTo group).Nodup := by
    refine hdel.increasing.imp fun {a b} hlt heq => ?_
    subst heq
    exact Nat.lt_irrefl _ hlt
  refine ⟨hnodup, hdel.behind, hdel.ordered.entries, fun consumer noack ctx' hread => ?_⟩
  obtain ⟨i, hi, -, hupto, hfull⟩ := hdel.cursor
  have hbehind := (hread rfl).2 i hi |>.1
  rw [(Stream.apply_readNew hi consumer none noack ctx').1,
    Stream.rangeAfter_eq hdel.ordered.entries]
  congr 1
  have hall : (r.stream.entries.filter fun e => i < e.id).length ≤ r.stream.entries.length :=
    List.length_filter_le _ _
  rw [Option.getD_none, List.take_of_length_le hall]
  refine List.filter_congr fun e he => decide_eq_decide.mpr ⟨fun hlt => ?_, fun ⟨hs, hnot⟩ => ?_⟩
  · exact ⟨hbehind e he hlt, fun hmem => StreamId.not_le.mpr hlt (hupto _ hmem)⟩
  · by_contra hle
    exact hnot (hfull e he hs (StreamId.not_lt.mp hle))

/-- A group created on an empty stream, and two consumers that share it. -/
theorem delivered_once_shared :
    let post := [StreamOp.addAuto oneField 1, .addAuto oneField 2,
      .group (.readGroup "g" "alice" StreamId.max (some 1) false) (.at 0),
      .group (.acknowledge "g" [StreamId.new 1 0]) (.at 0), .addAuto oneField 3]
    let r := post.foldl step (created [] "g" none (.at 0))
    r.deliveredTo "g" = [StreamId.new 1 0] ∧
    ((GroupCmd.readGroup "g" "bob" StreamId.max none false).apply (.at 0) r.stream).1 =
      .ok (r.stream.entries.filter fun e =>
        StreamId.new 0 0 < e.id ∧ e.id ∉ r.deliveredTo "g") := by
  intro post r
  have hzero : ∀ (r : StreamRun) (i : StreamId), r.stream.cursor? "g" = some i →
      (∀ e ∈ r.stream.entries, i < e.id → StreamId.new 0 0 < e.id) ∧
      (false = true → r.stream.rangeAfter i none = []) :=
    fun r i _ => ⟨fun e _ hlt => StreamId.lt_of_le_of_lt (Nat.zero_le _) hlt, nofun⟩
  have hguard : Guarded (fun r o => InSequence r o ∧ ReadsNew "g" (StreamId.new 0 0) r o) step
      (created [] "g" none (.at 0)) post := by
    refine ⟨⟨by decide, trivial⟩, ⟨by decide, trivial⟩, ⟨trivial, fun _ => ⟨rfl, ?_⟩⟩,
      ⟨trivial, trivial⟩, ⟨by decide, trivial⟩, trivial⟩
    exact fun i hi => ⟨(hzero _ i hi).1, nofun⟩
  obtain ⟨-, -, -, hread⟩ := delivered_once [] trivial "g" none (.at 0) rfl post hguard
  exact ⟨rfl, hread "bob" false (.at 0) fun _ => ⟨rfl, hzero r⟩⟩

/-- A group that starts behind the last entry is given that entry, and by a
second NOACK read once more. -/
theorem start_id_and_noack_redeliver :
    let post := [StreamOp.group (.readGroup "g" "alice" StreamId.max none true) (.at 0),
      .group (.readGroup "g" "bob" StreamId.max none true) (.at 0)]
    let r := post.foldl step (created [.addAuto oneField 1] "g" none (.at 0))
    ¬ (r.deliveredTo "g").Nodup ∧
    ¬ ∀ id ∈ r.deliveredTo "g",
      GroupCmd.lastOr ([StreamOp.addAuto oneField 1].foldl step initial).stream none < id := by
  decide

end StreamRun

end Ferrous
