/-
# `Storage.PendingRanges` — ranges of the pending entry list

`get_range` has two ways to the entries.  Without a consumer it asks the tree for the
range, which panics when the range is inverted.  With one it follows the row of the
consumer, in the order of the row, and never looks at the range.  `Serves` says what the row
must be like for that to give what the range asks for.

The rows need not agree with the table: an entry delivered again stays in the row of its
old owner.  But in every run an entry is in the row of the owner it has (`Filed`).
-/
import Ferrous.Storage.PendingEntries

namespace Ferrous

open Lib

/-! ## Rows and table -/

namespace PendingEntryList

/-- An entry is under its own ID, and its ID is in the row of its owner. -/
structure Filed (p : PendingEntryList) : Prop where
  keyed : ∀ id e, p.entriesById.get? id = some e → e.id = id
  filed : ∀ id e, p.entriesById.get? id = some e → id ∈ rowOf p.entriesByConsumer e.consumer

theorem filed_new : new.Filed := by
  constructor
  · intro id e h
    simp [new] at h
  · intro id e h
    simp [new] at h

variable {p : PendingEntryList}

theorem Filed.addEntry (h : p.Filed) (e : PendingEntry) : (p.addEntry e).Filed := by
  have hget (id : StreamId) : (p.addEntry e).entriesById.get? id =
      if id = e.id then some e else p.entriesById.get? id := Map.get?_set _ _ _ _
  constructor
  · intro id e' he'
    rw [hget] at he'
    split at he'
    · next hid =>
        cases he'
        exact hid.symm
    · exact h.keyed id e' he'
  · intro id e' he'
    rw [hget] at he'
    rw [rowOf_addEntry]
    split at he'
    · next hid =>
        cases he'
        rw [if_pos rfl, hid]
        exact List.mem_append_right _ (List.mem_singleton.mpr rfl)
    · have hold := h.filed id e' he'
      split
      · next hc => exact List.mem_append_left _ (hc ▸ hold)
      · exact hold

theorem Filed.removeEntry (h : p.Filed) (id : StreamId) : (p.removeEntry id).2.Filed := by
  cases he : p.entriesById.get? id with
  | none =>
      have hsame : (p.removeEntry id).2 = p := by simp only [PendingEntryList.removeEntry, he]
      rw [hsame]
      exact h
  | some e =>
      have hget (i : StreamId) : (p.removeEntry id).2.entriesById.get? i =
          if i = id then none else p.entriesById.get? i := by
        simp only [PendingEntryList.removeEntry, he]
        exact Map.get?_del _ _ _
      constructor
      · intro i e' he'
        rw [hget] at he'
        split at he'
        · cases he'
        · exact h.keyed i e' he'
      · intro i e' he'
        rw [hget] at he'
        split at he'
        · cases he'
        · next hne =>
            have hold := h.filed i e' he'
            rw [rowOf_removeEntry he]
            split
            · next hc =>
                rw [hc] at hold
                exact List.mem_filter.mpr ⟨hold, decide_eq_true hne⟩
            · exact hold

theorem Filed.transferOwnership (h : p.Filed) (id : StreamId) (c : String) (now : Nat) :
    (p.transferOwnership id c now).Filed := by
  cases he : p.entriesById.get? id with
  | none =>
      have hsame : p.transferOwnership id c now = p := by simp only [PendingEntryList.transferOwnership, he]
      rw [hsame]
      exact h
  | some e =>
      have hget (i : StreamId) : (p.transferOwnership id c now).entriesById.get? i =
          if i = id then some { e with
            consumer := c
            deliveryCount := (e.deliveryCount + 1) % 2 ^ 32
            lastDelivery := now } else p.entriesById.get? i := by
        simp only [PendingEntryList.transferOwnership, he]
        exact Map.get?_set _ _ _ _
      constructor
      · intro i e' he'
        rw [hget] at he'
        split at he'
        · next hi =>
            cases he'
            rw [hi]
            exact h.keyed id e he
        · exact h.keyed i e' he'
      · intro i e' he'
        rw [hget] at he'
        rw [rowOf_transferOwnership he]
        split at he'
        · next hi =>
            cases he'
            rw [if_pos rfl, hi]
            exact List.mem_append_right _ (List.mem_singleton.mpr rfl)
        · next hne =>
            have hold := h.filed i e' he'
            -- the entry of another ID stays in its row
            have hdrop : i ∈ rowOf (dropId p.entriesByConsumer e.consumer id) e'.consumer := by
              rw [rowOf_dropId]
              split
              · next hc =>
                  rw [hc] at hold
                  exact List.mem_filter.mpr ⟨hold, decide_eq_true hne⟩
              · exact hold
            split
            · next hc => exact List.mem_append_left _ (hc ▸ hdrop)
            · exact hdrop

theorem Filed.removeConsumerEntries (h : p.Filed) (c : String) : (p.removeConsumerEntries c).2.Filed := by
  unfold PendingEntryList.removeConsumerEntries
  cases hrow : p.entriesByConsumer.get? c with
  | none => exact h
  | some row =>
      have hrowOf : rowOf p.entriesByConsumer c = row := by
        rw [rowOf, hrow]
        rfl
      constructor
      · intro i e hi
        change (row.foldl (fun m id => m.del id) p.entriesById).get? i = some e at hi
        rw [Map.get?_foldl_del] at hi
        split at hi
        · cases hi
        · exact h.keyed i e hi
      · intro i e hi
        change (row.foldl (fun m id => m.del id) p.entriesById).get? i = some e at hi
        rw [Map.get?_foldl_del] at hi
        split at hi
        · cases hi
        · next hnot =>
            have hold := h.filed i e hi
            have hne : e.consumer ≠ c := by
              intro hc
              rw [hc, hrowOf] at hold
              exact hnot hold
            change i ∈ rowOf (p.entriesByConsumer.del c) e.consumer
            rw [rowOf, Map.get?_del_ne _ hne]
            exact hold

end PendingEntryList

/-! ## Groups and runs -/

namespace ConsumerGroup

variable {g : ConsumerGroup}

theorem createConsumer_pending (g : ConsumerGroup) (name : String) (now : Nat) :
    (g.createConsumer name now).2.pending = g.pending := by
  unfold createConsumer
  split <;> rfl

theorem filed_addPending (h : g.pending.Filed) (consumer : String) (entries : List StreamEntry) (now : Nat) :
    (g.addPending consumer entries now).pending.Filed := by
  have hfold (es : List StreamEntry) (p : PendingEntryList) (hp : p.Filed) :
      (es.foldl (fun p e => p.addEntry ⟨e.id, consumer, now, 1, now⟩) p).Filed := by
    induction es generalizing p with
    | nil => exact hp
    | cons e es ih => exact ih _ (hp.addEntry _)
  refine hfold entries _ ?_
  rw [createConsumer_pending]
  exact h

theorem filed_acknowledge (h : g.pending.Filed) (ids : List StreamId) : (g.acknowledge ids).2.pending.Filed := by
  have hone (acc : Nat × ConsumerGroup) (id : StreamId) (hacc : acc.2.pending.Filed) :
      (acknowledgeOne acc id).2.pending.Filed := by
    have hremove := hacc.removeEntry id
    unfold acknowledgeOne
    split
    · exact hacc
    · next hr =>
        rw [hr] at hremove
        exact hremove
  have hfold (acc : Nat × ConsumerGroup) (hacc : acc.2.pending.Filed) :
      (ids.foldl acknowledgeOne acc).2.pending.Filed := by
    induction ids generalizing acc with
    | nil => exact hacc
    | cons id ids ih => exact ih _ (hone acc id hacc)
  exact hfold (0, g) h

theorem filed_claimMessages (h : g.pending.Filed) (consumer : String) (minIdleMs : Nat) (ids : List StreamId)
    (force : Bool) (now later : Nat) :
    (g.claimMessages consumer minIdleMs ids force now later).2.pending.Filed := by
  have hone (acc : List StreamId × ConsumerGroup) (id : StreamId) (hacc : acc.2.pending.Filed) :
      (claimOne consumer minIdleMs force now later acc id).2.pending.Filed := by
    unfold claimOne
    split
    · exact hacc
    · split
      · exact hacc
      · exact hacc.transferOwnership id consumer later
  have hfold (acc : List StreamId × ConsumerGroup) (hacc : acc.2.pending.Filed) :
      (ids.foldl (claimOne consumer minIdleMs force now later) acc).2.pending.Filed := by
    induction ids generalizing acc with
    | nil => exact hacc
    | cons id ids ih => exact ih _ (hone acc id hacc)
  refine hfold ([], (g.createConsumer consumer now).2) ?_
  rw [createConsumer_pending]
  exact h

theorem filed_deleteConsumer (h : g.pending.Filed) (name : String) : (g.deleteConsumer name).2.pending.Filed := by
  unfold deleteConsumer
  split
  · exact h
  · exact h.removeConsumerEntries name

end ConsumerGroup

/-- In every group of the stream, entries are in the rows of their owners. -/
def Stream.GroupsFiled (s : Stream) : Prop :=
  ∀ name g, s.consumerGroups.get? name = some g → g.pending.Filed

theorem Stream.GroupsFiled.setGroup {s : Stream} (h : s.GroupsFiled) {g : ConsumerGroup} (hg : g.pending.Filed)
    (group : String) : (s.setGroup group g).GroupsFiled := by
  intro name g' hg'
  rw [Stream.setGroup, Map.get?_set] at hg'
  split at hg'
  · cases hg'
    exact hg
  · exact h name g' hg'

namespace StreamRun

theorem groupsFiled_step {r : StreamRun} (h : r.stream.GroupsFiled) (o : StreamOp) :
    (r.step o).stream.GroupsFiled := by
  rcases r.step_groups o with hsame | ⟨α, c, ctx, rfl⟩
  · intro name g hg
    rw [hsame] at hg
    exact h name g hg
  · rw [step]
    dsimp only
    cases c with
    | create name start =>
        simp only [GroupCmd.apply, Stream.createConsumerGroup]
        split
        · exact h
        · exact h.setGroup PendingEntryList.filed_new name
    | destroy name =>
        simp only [GroupCmd.apply, Stream.destroyConsumerGroup]
        split
        · intro name' g hg
          rw [Map.get?_del] at hg
          split at hg
          · cases hg
          · exact h name' g hg
        · exact h
    | createConsumer group consumer =>
        simp only [GroupCmd.apply]
        split
        · exact h
        · next g hg =>
            refine h.setGroup ?_ group
            rw [ConsumerGroup.createConsumer_pending]
            exact h group g hg
    | deleteConsumer group consumer =>
        simp only [GroupCmd.apply]
        split
        · exact h
        · next g hg => exact h.setGroup (ConsumerGroup.filed_deleteConsumer (h group g hg) consumer) group
    | setId group id =>
        simp only [GroupCmd.apply]
        split
        · exact h
        · next g hg =>
            have hset : (g.setId (GroupCmd.lastOr r.stream id)).pending.Filed := h group g hg
            exact h.setGroup hset group
    | readGroup group consumer afterId count noack =>
        simp only [GroupCmd.apply, Stream.readGroup]
        split
        · exact h
        · next g hg =>
            have hs := h group g hg
            by_cases hgt : afterId = StreamId.max
            · simp only [hgt, if_true]
              split
              · exact h.setGroup (ConsumerGroup.filed_addPending hs consumer _ _) group
              · exact h
            · simp only [hgt, if_false]
              split
              · exact h.setGroup (ConsumerGroup.filed_addPending hs consumer _ _) group
              · exact h
    | acknowledge group ids =>
        simp only [GroupCmd.apply, Stream.acknowledgeMessages]
        split
        · exact h
        · next g hg => exact h.setGroup (ConsumerGroup.filed_acknowledge (h group g hg) ids) group
    | claim group consumer minIdleMs ids force =>
        simp only [GroupCmd.apply, Stream.claimMessages]
        split
        · exact h
        · next g hg => exact h.setGroup (ConsumerGroup.filed_claimMessages (h group g hg) ..) group
    | autoClaim group consumer minIdleMs start count =>
        simp only [GroupCmd.apply, Stream.autoClaimMessages]
        split
        · exact h
        · next g hg => exact h.setGroup (ConsumerGroup.filed_claimMessages (h group g hg) ..) group

/-- In every run the groups stay filed, whatever is delivered again. -/
theorem groupsFiled_run (ops : List StreamOp) : (ops.foldl step initial).stream.GroupsFiled := by
  have hfold (r : StreamRun) (hr : r.stream.GroupsFiled) : (ops.foldl step r).stream.GroupsFiled := by
    induction ops generalizing r with
    | nil => exact hr
    | cons o ops ih => exact ih _ (groupsFiled_step hr o)
  exact hfold initial fun _ _ hg => by cases hg

end StreamRun

/-! ## Ranges -/

/-- Between the bounds asked for; a bound that is not given is the least or the greatest. -/
def InBounds (start stop : Option StreamId) (id : StreamId) : Prop :=
  start.getD StreamId.min ≤ id ∧ id ≤ stop.getD StreamId.max

instance (start stop : Option StreamId) (id : StreamId) : Decidable (InBounds start stop id) :=
  inferInstanceAs (Decidable (_ ∧ _))

namespace PendingEntryList

/-- The first entries between the bounds that the consumer owns, or anyone, in the order
of their IDs. -/
def within (p : PendingEntryList) (start stop : Option StreamId) (count : Nat) (consumer : Option String) :
    List PendingEntry :=
  (p.inOrder.filter fun e => InBounds start stop e.id ∧ (consumer = none ∨ consumer = some e.consumer)).take count

/-- The entries the row of a consumer leads to, in the order of the row. -/
def rowEntries (p : PendingEntryList) (c : String) : List PendingEntry :=
  (rowOf p.entriesByConsumer c).filterMap p.entriesById.get?

/-- The IDs in the row of a consumer under which the table has an entry. -/
def liveRow (p : PendingEntryList) (c : String) : List StreamId :=
  (rowOf p.entriesByConsumer c).filter p.entriesById.contains

/-- The live IDs of the row ascend, the consumer owns them all and all are between the bounds. -/
structure Serves (p : PendingEntryList) (start stop : Option StreamId) (c : String) : Prop where
  ascending : (p.liveRow c).Pairwise (· < ·)
  owned : ∀ id ∈ p.liveRow c, p.owner? id = some c
  inBounds : ∀ id ∈ p.liveRow c, InBounds start stop id

/-- Without a consumer the range is not inverted; with one its row serves the range. -/
def RangeServed (p : PendingEntryList) (start stop : Option StreamId) : Option String → Prop
  | none => start.getD StreamId.min ≤ stop.getD StreamId.max
  | some c => p.Serves start stop c

theorem ids_pairwise (p : PendingEntryList) : p.ids.Pairwise (· < ·) := by
  have hle : p.ids.Pairwise (· ≤ ·) := List.pairwise_insertionSort _ _
  have hnodup : p.ids.Nodup := (List.perm_insertionSort _ _).nodup_iff.mpr p.entriesById.nodup_keyList
  refine (hle.and hnodup).imp fun {a b} h => ?_
  refine Nat.lt_of_le_of_ne h.1 fun heq => h.2 (StreamId.ext_iff'.mpr heq)

section Filed

variable {p : PendingEntryList}

theorem Filed.mem_inOrder (h : p.Filed) {e : PendingEntry} : e ∈ p.inOrder ↔ p.entriesById.get? e.id = some e := by
  unfold inOrder
  rw [List.mem_filterMap]
  constructor
  · rintro ⟨id, -, he⟩
    rw [h.keyed id e he]
    exact he
  · intro he
    refine ⟨e.id, mem_ids.mpr ?_, he⟩
    rw [owner?, he]
    exact Option.some_ne_none _

theorem Filed.pairwise_inOrder (h : p.Filed) : p.inOrder.Pairwise fun a b => a.id < b.id := by
  unfold inOrder
  refine List.Pairwise.filterMap _ (fun a b hab e he f hf => ?_) p.ids_pairwise
  rw [h.keyed a e he, h.keyed b f hf]
  exact hab

theorem Filed.mem_rowEntries (h : p.Filed) {e : PendingEntry} {c : String} (he : e ∈ p.rowEntries c) :
    p.entriesById.get? e.id = some e := by
  obtain ⟨id, -, hid⟩ := List.mem_filterMap.mp he
  rw [h.keyed id e hid]
  exact hid

theorem Filed.mem_rowEntries_of_owner (h : p.Filed) {e : PendingEntry} (he : p.entriesById.get? e.id = some e) :
    e ∈ p.rowEntries e.consumer :=
  List.mem_filterMap.mpr ⟨e.id, h.filed e.id e he, he⟩

/-- With a consumer the answer is the beginning of its row. -/
theorem getRange_some (p : PendingEntryList) (start stop : Option StreamId) (count : Nat) (c : String) :
    p.getRange start stop count (some c) = some ((p.rowEntries c).take count) := by
  unfold rowEntries rowOf
  cases hrow : p.entriesByConsumer.get? c with
  | none => simp only [getRange, hrow, Option.getD_none, List.filterMap_nil, List.take_nil]
  | some row => simp only [getRange, hrow, Option.getD_some]

/-- The row leads from its live IDs to their entries. -/
theorem Filed.map_rowEntries (h : p.Filed) (c : String) : (p.rowEntries c).map (·.id) = p.liveRow c := by
  unfold rowEntries liveRow
  induction rowOf p.entriesByConsumer c with
  | nil => rfl
  | cons id row ih =>
      cases he : p.entriesById.get? id with
      | none =>
          have hgone : ¬ p.entriesById.contains id = true := by simp [Map.contains, he]
          rw [List.filterMap_cons_none he, List.filter_cons_of_neg hgone, ih]
      | some e =>
          have hthere : p.entriesById.contains id = true := Map.contains_iff.mpr ⟨e, he⟩
          rw [List.filterMap_cons_some he, List.filter_cons_of_pos hthere, List.map_cons, ih,
            h.keyed id e he]

/-- The row serves the range exactly if its entries are those of the range, in their order. -/
theorem Filed.rowEntries_iff (h : p.Filed) (start stop : Option StreamId) (c : String) :
    p.rowEntries c = p.inOrder.filter (fun e => decide
      (InBounds start stop e.id ∧ (some c = none ∨ some c = some e.consumer))) ↔
        p.Serves start stop c := by
  have hsorted := h.pairwise_inOrder.filter fun e => decide
    (InBounds start stop e.id ∧ (some c = none ∨ some c = some e.consumer))
  have hmem {e : PendingEntry} : e ∈ p.inOrder.filter (fun e => decide
      (InBounds start stop e.id ∧ (some c = none ∨ some c = some e.consumer))) ↔
        p.entriesById.get? e.id = some e ∧ InBounds start stop e.id ∧ e.consumer = c := by
    rw [List.mem_filter, h.mem_inOrder, decide_eq_true_eq]
    simp [eq_comm]
  have hlive {id : StreamId} (hid : id ∈ p.liveRow c) : ∃ e ∈ p.rowEntries c, e.id = id := by
    rwa [← h.map_rowEntries, List.mem_map] at hid
  constructor
  · intro hrow
    rw [← hrow] at hsorted hmem
    refine ⟨?_, fun id hid => ?_, fun id hid => ?_⟩
    · rw [← h.map_rowEntries]
      exact hsorted.map _ fun _ _ hab => hab
    · obtain ⟨e, he, rfl⟩ := hlive hid
      obtain ⟨hget, -, hc⟩ := hmem.mp he
      rw [owner?, hget, Option.map_some, hc]
    · obtain ⟨e, he, rfl⟩ := hlive hid
      exact (hmem.mp he).2.1
  · intro hs
    have hascending : (p.rowEntries c).Pairwise fun a b => a.id < b.id := by
      have hids := hs.ascending
      rwa [← h.map_rowEntries, List.pairwise_map] at hids
    have : Std.Irrefl fun a b : PendingEntry => a.id < b.id := ⟨fun a => Nat.lt_irrefl _⟩
    have : Std.Antisymm fun a b : PendingEntry => a.id < b.id :=
      ⟨fun a b hab hba => absurd hba (Nat.lt_asymm hab)⟩
    refine hascending.eq_of_mem_iff hsorted fun e => ?_
    rw [hmem]
    constructor
    · intro he
      have hget := h.mem_rowEntries he
      have hid : e.id ∈ p.liveRow c := h.map_rowEntries c ▸ List.mem_map_of_mem he
      have hown := hs.owned _ hid
      rw [owner?, hget, Option.map_some, Option.some.injEq] at hown
      exact ⟨hget, hs.inBounds _ hid, hown⟩
    · rintro ⟨hget, -, rfl⟩
      exact h.mem_rowEntries_of_owner hget

/-- With a consumer the answers are right for every count exactly if its row serves the range. -/
theorem Filed.getRange_consumer_iff (h : p.Filed) (start stop : Option StreamId) (c : String) :
    (∀ count, p.getRange start stop count (some c) = some (p.within start stop count (some c))) ↔
      p.Serves start stop c := by
  rw [← h.rowEntries_iff]
  constructor
  · intro hall
    -- a count that neither list reaches shows them whole
    have hwhole := hall (max (p.rowEntries c).length (p.inOrder.filter (fun e => decide
      (InBounds start stop e.id ∧ (some c = none ∨ some c = some e.consumer)))).length)
    rw [getRange_some, Option.some.injEq, within, List.take_of_length_le (le_max_left _ _),
      List.take_of_length_le (le_max_right _ _)] at hwhole
    exact hwhole
  · intro hrow count
    rw [getRange_some, within, hrow]

/-- The answers are the range exactly if the way taken serves it. -/
theorem Filed.getRange_iff (h : p.Filed) (start stop : Option StreamId) (consumer : Option String) :
    (∀ count, p.getRange start stop count consumer = some (p.within start stop count consumer)) ↔
      p.RangeServed start stop consumer := by
  cases consumer with
  | some c => exact h.getRange_consumer_iff start stop c
  | none =>
      unfold getRange RangeServed
      dsimp only
      split
      · next hinv => exact iff_of_false (fun hall => nomatch hall 0) (StreamId.not_le.mpr hinv)
      · next hinv =>
          refine iff_of_true (fun count => ?_) (StreamId.not_lt.mp hinv)
          rw [within]
          congr 2
          refine List.filter_congr fun e _ => ?_
          simp [InBounds]

end Filed

end PendingEntryList

end Ferrous
