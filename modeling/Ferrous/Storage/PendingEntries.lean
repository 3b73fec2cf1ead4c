/-
# `Storage.PendingEntries` — the four views of what is pending

A consumer group records who owns which undelivered entry four times: in the
table by ID, in a row of IDs per consumer, in the counters, and in the bounds.
`Consistent` says that the four agree.  Every group operation keeps it, except
a read that delivers an entry which is pending already: `add_entry` then leaves
the ID in the row of the old owner, and the counters count it twice.
-/
import Ferrous.Storage.StreamRuns

namespace Ferrous

open Lib

namespace PendingEntryList

/-! ## Rows -/

/-- The IDs in the row of a consumer. -/
def rowOf (m : Map String (List StreamId)) (consumer : String) : List StreamId :=
  (m.get? consumer).getD []

theorem rowOf_pushId (m : Map String (List StreamId)) (c c' : String) (id : StreamId) :
    rowOf (pushId m c id) c' = if c' = c then rowOf m c ++ [id] else rowOf m c' := by
  unfold rowOf pushId
  rw [Map.get?_set]
  split <;> rfl

theorem rowOf_dropId (m : Map String (List StreamId)) (c c' : String) (id : StreamId) :
    rowOf (dropId m c id) c' =
      if c' = c then (rowOf m c).filter (· ≠ id) else rowOf m c' := by
  have hdrop : ∀ row, m.get? c = some row → dropId m c id =
      if (row.filter (· ≠ id)).isEmpty then m.del c else m.set c (row.filter (· ≠ id)) := by
    intro row hrow
    simp only [dropId, hrow]
  cases hrow : m.get? c with
  | none =>
      have hsame : dropId m c id = m := by simp only [dropId, hrow]
      rw [hsame]
      split
      · next h => rw [h, rowOf, hrow]; rfl
      · rfl
  | some row =>
      rw [hdrop row hrow, rowOf, rowOf, hrow]
      split
      · next hempty =>
          rw [Map.get?_del]
          split
          · exact (List.isEmpty_iff.mp hempty).symm
          · rfl
      · rw [Map.get?_set]
        split <;> rfl

/-- The owner of an ID, by the table. -/
def owner? (p : PendingEntryList) (id : StreamId) : Option String :=
  (p.entriesById.get? id).map (·.consumer)

/-- The IDs a consumer owns, by the table. -/
def owned (p : PendingEntryList) (consumer : String) : List StreamId :=
  p.entriesById.keyList.filter fun id => p.owner? id = some consumer

/-- The rows and the table say the same. -/
structure Indexed (p : PendingEntryList) : Prop where
  mem_row : ∀ c id, id ∈ rowOf p.entriesByConsumer c ↔ p.owner? id = some c
  nodup : ∀ c, (rowOf p.entriesByConsumer c).Nodup

/-- The row of a consumer has as many IDs as the consumer owns. -/
theorem Indexed.length_row {p : PendingEntryList} (h : p.Indexed) (c : String) :
    (rowOf p.entriesByConsumer c).length = (p.owned c).length := by
  refine List.Perm.length_eq ?_
  refine (List.perm_ext_iff_of_nodup (h.nodup c) (p.entriesById.nodup_keyList.filter _)).mpr ?_
  intro id
  rw [h.mem_row, List.mem_filter, decide_eq_true_iff]
  refine ⟨fun ho => ⟨?_, ho⟩, And.right⟩
  obtain ⟨e, he, -⟩ := Option.map_eq_some_iff.mp ho
  exact Map.mem_keyList.mpr ⟨e, he⟩

/-! ## Bounds -/

/-- The cached bounds are the least and the greatest pending ID. -/
structure Bounded (p : PendingEntryList) : Prop where
  min : ∀ i, p.minPendingId = some i ↔
    p.owner? i ≠ none ∧ ∀ j, p.owner? j ≠ none → i ≤ j
  max : ∀ i, p.maxPendingId = some i ↔
    p.owner? i ≠ none ∧ ∀ j, p.owner? j ≠ none → j ≤ i

instance : Std.Total fun a b : StreamId => a ≤ b := ⟨fun a b => Nat.le_total a.packed b.packed⟩

instance : IsTrans StreamId fun a b => a ≤ b := ⟨fun _ _ _ => Nat.le_trans⟩

theorem mem_ids {p : PendingEntryList} {i : StreamId} : i ∈ p.ids ↔ p.owner? i ≠ none := by
  rw [ids, StreamId.sort, List.mem_insertionSort, Map.mem_keyList, owner?, ne_eq,
    Option.map_eq_none_iff, ← ne_eq, Option.ne_none_iff_exists']

theorem head?_sorted {l : List StreamId} (h : l.Pairwise (· ≤ ·)) (i : StreamId) :
    l.head? = some i ↔ i ∈ l ∧ ∀ j ∈ l, i ≤ j := by
  cases l with
  | nil => simp
  | cons a l =>
      obtain ⟨hle, -⟩ := List.pairwise_cons.mp h
      constructor
      · rintro ⟨⟩
        refine ⟨List.mem_cons_self, fun j hj => ?_⟩
        rcases List.mem_cons.mp hj with rfl | hj
        · exact Nat.le_refl _
        · exact hle j hj
      · rintro ⟨hi, hall⟩
        rcases List.mem_cons.mp hi with rfl | hi
        · rfl
        · have hai : a.packed = i.packed :=
            Nat.le_antisymm (hle i hi) (hall a List.mem_cons_self)
          rw [List.head?_cons, StreamId.ext_iff'.mpr hai]

theorem getLast?_sorted {l : List StreamId} (h : l.Pairwise (· ≤ ·)) (i : StreamId) :
    l.getLast? = some i ↔ i ∈ l ∧ ∀ j ∈ l, j ≤ i := by
  rcases List.eq_nil_or_concat l with rfl | ⟨l, a, rfl⟩
  · simp
  · rw [List.concat_eq_append] at h ⊢
    obtain ⟨-, -, hle⟩ := List.pairwise_append.mp h
    rw [List.getLast?_concat]
    constructor
    · rintro ⟨⟩
      refine ⟨by simp, fun j hj => ?_⟩
      rcases List.mem_append.mp hj with hj | hj
      · exact hle j hj _ (by simp)
      · rw [List.mem_singleton.mp hj]
        exact Nat.le_refl _
    · rintro ⟨hi, hall⟩
      rcases List.mem_append.mp hi with hi | hi
      · have hai : i.packed = a.packed :=
          Nat.le_antisymm (hle i hi a (by simp)) (hall a (by simp))
        rw [StreamId.ext_iff'.mpr hai]
      · rw [List.mem_singleton.mp hi]

theorem bounded_updateBounds (p : PendingEntryList) : p.updateBounds.Bounded := by
  have hsorted : p.ids.Pairwise (· ≤ ·) := List.pairwise_insertionSort _ _
  have hmem : ∀ i, p.updateBounds.owner? i ≠ none ↔ i ∈ p.ids := fun i => mem_ids.symm
  constructor
  · intro i
    simp only [hmem]
    exact head?_sorted hsorted i
  · intro i
    simp only [hmem]
    exact getLast?_sorted hsorted i

/-! ## The operations on the list -/

theorem owner?_addEntry (p : PendingEntryList) (e : PendingEntry) (id : StreamId) :
    (p.addEntry e).owner? id = if id = e.id then some e.consumer else p.owner? id := by
  simp only [addEntry, updateBounds, owner?, Map.get?_set]
  split <;> rfl

theorem owner?_removeEntry {p : PendingEntryList} {id : StreamId} {e : PendingEntry}
    (he : p.entriesById.get? id = some e) (id' : StreamId) :
    (p.removeEntry id).2.owner? id' = if id' = id then none else p.owner? id' := by
  simp only [removeEntry, he, updateBounds, owner?, Map.get?_del]
  split <;> rfl

theorem owner?_transferOwnership {p : PendingEntryList} {id : StreamId} {e : PendingEntry}
    (he : p.entriesById.get? id = some e) (c : String) (now : Nat) (id' : StreamId) :
    (p.transferOwnership id c now).owner? id' = if id' = id then some c else p.owner? id' := by
  simp only [transferOwnership, he, owner?, Map.get?_set]
  split <;> rfl

theorem rowOf_addEntry (p : PendingEntryList) (e : PendingEntry) (c : String) :
    rowOf (p.addEntry e).entriesByConsumer c =
      if c = e.consumer then rowOf p.entriesByConsumer e.consumer ++ [e.id]
      else rowOf p.entriesByConsumer c :=
  rowOf_pushId _ _ _ _

theorem rowOf_removeEntry {p : PendingEntryList} {id : StreamId} {e : PendingEntry}
    (he : p.entriesById.get? id = some e) (c : String) :
    rowOf (p.removeEntry id).2.entriesByConsumer c =
      if c = e.consumer then (rowOf p.entriesByConsumer e.consumer).filter (· ≠ id)
      else rowOf p.entriesByConsumer c := by
  simp only [removeEntry, he, updateBounds]
  exact rowOf_dropId _ _ _ _

theorem rowOf_transferOwnership {p : PendingEntryList} {id : StreamId} {e : PendingEntry}
    (he : p.entriesById.get? id = some e) (c : String) (now : Nat) (c' : String) :
    rowOf (p.transferOwnership id c now).entriesByConsumer c' =
      if c' = c then rowOf (dropId p.entriesByConsumer e.consumer id) c ++ [id]
      else rowOf (dropId p.entriesByConsumer e.consumer id) c' := by
  simp only [transferOwnership, he]
  exact rowOf_pushId _ _ _ _

theorem len_addEntry {p : PendingEntryList} {e : PendingEntry} (h : p.owner? e.id = none) :
    (p.addEntry e).len = p.len + 1 :=
  Map.size_set_of_none (Option.map_eq_none_iff.mp h) _

theorem len_removeEntry {p : PendingEntryList} {id : StreamId} {e : PendingEntry}
    (he : p.entriesById.get? id = some e) : (p.removeEntry id).2.len + 1 = p.len := by
  simp only [removeEntry, he]
  exact Map.size_del_of_some he

theorem len_transferOwnership {p : PendingEntryList} {id : StreamId} {e : PendingEntry}
    (he : p.entriesById.get? id = some e) (c : String) (now : Nat) :
    (p.transferOwnership id c now).len = p.len := by
  simp only [transferOwnership, he]
  exact Map.size_set_of_some he _

namespace Indexed

variable {p : PendingEntryList}

theorem addEntry (h : p.Indexed) {e : PendingEntry} (hfresh : p.owner? e.id = none) :
    (p.addEntry e).Indexed where
  mem_row c id := by
    rw [rowOf_addEntry, owner?_addEntry]
    by_cases hid : id = e.id
    · subst hid
      by_cases hc : c = e.consumer
      · simp [hc]
      · simp [hc, Ne.symm hc, h.mem_row, hfresh]
    · by_cases hc : c = e.consumer
      · simp [hc, hid, h.mem_row]
      · simp [hc, hid, h.mem_row]
  nodup c := by
    rw [rowOf_addEntry]
    split
    · refine List.nodup_append.mpr ⟨h.nodup _, List.nodup_singleton _, ?_⟩
      intro id hid j hj heq
      rw [List.mem_singleton.mp hj] at heq
      rw [heq, h.mem_row, hfresh] at hid
      cases hid
    · exact h.nodup c

theorem removeEntry (h : p.Indexed) {id : StreamId} {e : PendingEntry}
    (he : p.entriesById.get? id = some e) : (p.removeEntry id).2.Indexed where
  mem_row c id' := by
    have hown : p.owner? id = some e.consumer := by rw [owner?, he]; rfl
    rw [rowOf_removeEntry he, owner?_removeEntry he]
    by_cases hid : id' = id
    · subst hid
      by_cases hc : c = e.consumer
      · simp [hc]
      · simp [hc, h.mem_row, hown, Ne.symm hc]
    · by_cases hc : c = e.consumer
      · simp [hc, hid, h.mem_row]
      · simp [hc, hid, h.mem_row]
  nodup c := by
    rw [rowOf_removeEntry he]
    split
    · exact (h.nodup _).filter _
    · exact h.nodup c

theorem transferOwnership (h : p.Indexed) {id : StreamId} {e : PendingEntry}
    (he : p.entriesById.get? id = some e) (c : String) (now : Nat) :
    (p.transferOwnership id c now).Indexed := by
  have hown : p.owner? id = some e.consumer := by rw [owner?, he]; rfl
  -- once dropped, the ID is in no row
  have hdrop : ∀ c' id', id' ∈ rowOf (dropId p.entriesByConsumer e.consumer id) c' ↔
      id' ≠ id ∧ p.owner? id' = some c' := by
    intro c' id'
    rw [rowOf_dropId]
    split
    · next hc => simp [hc, h.mem_row, and_comm]
    · next hc =>
        rw [h.mem_row]
        refine ⟨fun ho => ⟨?_, ho⟩, And.right⟩
        rintro rfl
        rw [hown] at ho
        exact hc (Option.some.inj ho).symm
  have hnodup : ∀ c', (rowOf (dropId p.entriesByConsumer e.consumer id) c').Nodup := by
    intro c'
    rw [rowOf_dropId]
    split
    · exact (h.nodup _).filter _
    · exact h.nodup c'
  constructor
  · intro c' id'
    rw [rowOf_transferOwnership he, owner?_transferOwnership he]
    by_cases hid : id' = id
    · subst hid
      by_cases hc : c' = c
      · simp [hc]
      · simp [hc, hdrop, Ne.symm hc]
    · by_cases hc : c' = c
      · simp [hc, hid, hdrop]
      · simp [hc, hid, hdrop]
  · intro c'
    rw [rowOf_transferOwnership he]
    split
    · refine List.nodup_append.mpr ⟨hnodup c, List.nodup_singleton _, ?_⟩
      intro id' hid j hj heq
      rw [List.mem_singleton.mp hj] at heq
      exact ((hdrop c id').mp hid).1 heq
    · exact hnodup c'

end Indexed

/-- A row without one of its IDs is one shorter. -/
theorem length_filter_ne {row : List StreamId} (hn : row.Nodup) {id : StreamId} (hid : id ∈ row) :
    (row.filter (· ≠ id)).length = row.length - 1 := by
  have herase : row.filter (· ≠ id) = row.erase id := by
    rw [hn.erase_eq_filter]
    refine List.filter_congr fun x _ => ?_
    by_cases hx : x = id <;> simp [hx]
  rw [herase, List.length_erase_of_mem hid]

/-- What a transfer does to the length of a row. -/
theorem Indexed.length_row_transferOwnership {p : PendingEntryList} (h : p.Indexed) {id : StreamId}
    {e : PendingEntry} (he : p.entriesById.get? id = some e) (c : String) (now : Nat) (c' : String) :
    (rowOf (p.transferOwnership id c now).entriesByConsumer c').length =
      (if c' = e.consumer then (rowOf p.entriesByConsumer c').length - 1
        else (rowOf p.entriesByConsumer c').length) + if c' = c then 1 else 0 := by
  have hrow : id ∈ rowOf p.entriesByConsumer e.consumer :=
    (h.mem_row _ _).mpr (by rw [owner?, he]; rfl)
  have hdrop : (rowOf (dropId p.entriesByConsumer e.consumer id) c').length =
      if c' = e.consumer then (rowOf p.entriesByConsumer c').length - 1
      else (rowOf p.entriesByConsumer c').length := by
    rw [rowOf_dropId]
    split
    · next hc => rw [length_filter_ne (h.nodup _) hrow, hc]
    · rfl
  rw [rowOf_transferOwnership he, ← hdrop]
  by_cases hc : c' = c <;> simp [hc]

theorem Bounded.transferOwnership {p : PendingEntryList} (h : p.Bounded) {id : StreamId}
    {e : PendingEntry} (he : p.entriesById.get? id = some e) (c : String) (now : Nat) :
    (p.transferOwnership id c now).Bounded := by
  have hown : ∀ j, (p.transferOwnership id c now).owner? j ≠ none ↔ p.owner? j ≠ none := by
    intro j
    rw [owner?_transferOwnership he]
    split
    · next hj => simp [hj, owner?, he]
    · rfl
  have hbounds : (p.transferOwnership id c now).minPendingId = p.minPendingId ∧
      (p.transferOwnership id c now).maxPendingId = p.maxPendingId := by
    simp only [PendingEntryList.transferOwnership, he, and_self]
  constructor
  · intro i
    rw [hbounds.1, h.min i]
    simp only [hown]
  · intro i
    rw [hbounds.2, h.max i]
    simp only [hown]

theorem size_foldl_del {ids : List StreamId} {m : Map StreamId PendingEntry} (hn : ids.Nodup)
    (h : ∀ id ∈ ids, ∃ e, m.get? id = some e) :
    (ids.foldl (fun m id => m.del id) m).size + ids.length = m.size := by
  induction ids generalizing m with
  | nil => rfl
  | cons i ids ih =>
      obtain ⟨hi, hn'⟩ := List.nodup_cons.mp hn
      obtain ⟨e, he⟩ := h i List.mem_cons_self
      have hrest : ∀ id ∈ ids, ∃ e, (m.del i).get? id = some e := by
        intro id hid
        have hne : id ≠ i := by
          rintro rfl
          exact hi hid
        rw [Map.get?_del_ne _ hne]
        exact h id (List.mem_cons_of_mem i hid)
      have hsize := ih hn' hrest
      have hdel := Map.size_del_of_some he
      rw [List.foldl_cons, List.length_cons]
      omega

/-- Removing a consumer's entries removes its row and what the row names. -/
theorem removeConsumerEntries_spec {p : PendingEntryList} (h : p.Indexed) (hb : p.Bounded) (c : String) :
    let r := p.removeConsumerEntries c
    r.1 = (rowOf p.entriesByConsumer c).length ∧ r.2.Indexed ∧ r.2.Bounded ∧
    (∀ id, r.2.owner? id = if p.owner? id = some c then none else p.owner? id) ∧
    (∀ c', rowOf r.2.entriesByConsumer c' =
      if c' = c then [] else rowOf p.entriesByConsumer c') ∧
    r.2.len + r.1 = p.len := by
  have hrowOf : ∀ row, p.entriesByConsumer.get? c = some row → rowOf p.entriesByConsumer c = row := by
    intro row hrow
    rw [rowOf, hrow]
    rfl
  unfold removeConsumerEntries
  cases hrow : p.entriesByConsumer.get? c with
  | none =>
      have hnil : rowOf p.entriesByConsumer c = [] := by rw [rowOf, hrow]; rfl
      have hnone : ∀ id, p.owner? id ≠ some c := by
        intro id ho
        have hid := (h.mem_row c id).mpr ho
        rw [hnil] at hid
        cases hid
      have hrows : ∀ c', rowOf p.entriesByConsumer c' =
          if c' = c then [] else rowOf p.entriesByConsumer c' := by
        intro c'
        split
        · next hc => rw [hc, hnil]
        · rfl
      exact ⟨by rw [hnil]; rfl, h, hb, fun id => (if_neg (hnone id)).symm, hrows, rfl⟩
  | some row =>
      have hmem : ∀ id, id ∈ row ↔ p.owner? id = some c := by
        intro id
        rw [← h.mem_row, hrowOf row hrow]
      have hnd : row.Nodup := hrowOf row hrow ▸ h.nodup c
      have hown : ∀ id, (updateBounds { p with
          entriesById := row.foldl (fun m id => m.del id) p.entriesById
          entriesByConsumer := p.entriesByConsumer.del c }).owner? id =
          if p.owner? id = some c then none else p.owner? id := by
        intro id
        change ((row.foldl (fun m id => m.del id) p.entriesById).get? id).map _ = _
        rw [Map.get?_foldl_del]
        by_cases ho : p.owner? id = some c
        · rw [if_pos ho, if_pos ((hmem id).mpr ho)]
          rfl
        · rw [if_neg ho, if_neg fun hid => ho ((hmem id).mp hid)]
          rfl
      have hrows : ∀ c', rowOf (p.entriesByConsumer.del c) c' =
          if c' = c then [] else rowOf p.entriesByConsumer c' := by
        intro c'
        simp only [rowOf, Map.get?_del]
        split <;> rfl
      refine ⟨by rw [hrowOf row hrow], ⟨fun c' id => ?_, fun c' => ?_⟩,
        bounded_updateBounds _, hown, hrows, ?_⟩
      · rw [hown]
        change id ∈ rowOf (p.entriesByConsumer.del c) c' ↔ _
        rw [hrows]
        by_cases hc : c' = c
        · subst hc
          simp
        · by_cases ho : p.owner? id = some c
          · simp [hc, ho, h.mem_row, Ne.symm hc]
          · simp [hc, ho, h.mem_row]
      · change (rowOf (p.entriesByConsumer.del c) c').Nodup
        rw [hrows]
        split
        · exact List.nodup_nil
        · exact h.nodup c'
      · refine size_foldl_del hnd fun id hid => ?_
        obtain ⟨e, he, -⟩ := Option.map_eq_some_iff.mp ((hmem id).mp hid)
        exact ⟨e, he⟩

end PendingEntryList

/-! ## Groups -/

namespace ConsumerGroup

open PendingEntryList (rowOf)

/-- The four views agree, but for `k` acknowledged entries that `total_pending`
still counts. -/
structure Counted (k : Nat) (g : ConsumerGroup) : Prop where
  indexed : g.pending.Indexed
  bounded : g.pending.Bounded
  counts : ∀ c v, g.consumers.get? c = some v →
    v.pendingCount = (rowOf g.pending.entriesByConsumer c).length
  owners : ∀ id c, g.pending.owner? id = some c → g.consumers.get? c ≠ none
  total : g.totalPending = g.pending.len + k
  consumerCount : g.consumerCount = g.consumers.size

/-- The four views agree. -/
def Consistent (g : ConsumerGroup) : Prop := g.Counted 0

theorem consistent_new (name : String) (id : StreamId) : (new name id).Consistent where
  indexed := ⟨fun _ _ => by simp [new, PendingEntryList.new, rowOf, PendingEntryList.owner?],
    fun _ => List.nodup_nil⟩
  bounded := PendingEntryList.bounded_updateBounds PendingEntryList.new
  counts := fun c v hv => by simp [new] at hv
  owners := fun id c hc => by simp [new, PendingEntryList.new, PendingEntryList.owner?] at hc
  total := rfl
  consumerCount := rfl

variable {g : ConsumerGroup}

/-- A consumer that is not there has an empty row. -/
theorem Counted.rowOf_absent {k : Nat} (h : g.Counted k) {c : String} (hc : g.consumers.get? c = none) :
    rowOf g.pending.entriesByConsumer c = [] := by
  rw [List.eq_nil_iff_forall_not_mem]
  intro id hid
  exact h.owners id c ((h.indexed.mem_row c id).mp hid) hc

theorem Consistent.createConsumer (h : g.Consistent) (name : String) (now : Nat) :
    (g.createConsumer name now).2.Consistent ∧
    (g.createConsumer name now).2.pending = g.pending ∧
    (g.createConsumer name now).2.lastDeliveredId = g.lastDeliveredId ∧
    ∃ v, (g.createConsumer name now).2.consumers.get? name = some v := by
  unfold ConsumerGroup.createConsumer
  cases hc : g.consumers.get? name with
  | some v =>
      refine ⟨⟨h.indexed, h.bounded, ?_, ?_, h.total, ?_⟩, rfl, rfl, _, Map.get?_set_self ..⟩
      · intro c w hw
        rw [Map.get?_set] at hw
        split at hw
        · next heq =>
            cases hw
            rw [heq]
            exact h.counts name v hc
        · exact h.counts c w hw
      · intro id c ho
        rw [Map.get?_set]
        split
        · exact Option.some_ne_none _
        · exact h.owners id c ho
      · rw [Map.size_set_of_some hc]
        exact h.consumerCount
  | none =>
      refine ⟨⟨h.indexed, h.bounded, ?_, ?_, h.total, ?_⟩, rfl, rfl, _, Map.get?_set_self ..⟩
      · intro c w hw
        rw [Map.get?_set] at hw
        split at hw
        · next heq =>
            cases hw
            rw [heq, h.rowOf_absent hc]
            rfl
        · exact h.counts c w hw
      · intro id c ho
        rw [Map.get?_set]
        split
        · exact Option.some_ne_none _
        · exact h.owners id c ho
      · rw [Map.size_set_of_none hc]
        exact congrArg (· + 1) h.consumerCount

/-- Entries that are not pending, added one after the other. -/
theorem foldl_addEntry {p : PendingEntryList} (hi : p.Indexed) (hb : p.Bounded) (consumer : String)
    (now : Nat) {entries : List StreamEntry} (hn : (entries.map (·.id)).Nodup)
    (hfresh : ∀ e ∈ entries, p.owner? e.id = none) :
    let q := entries.foldl (fun p e => p.addEntry ⟨e.id, consumer, now, 1, now⟩) p
    q.Indexed ∧ q.Bounded ∧
    (∀ id, q.owner? id = if id ∈ entries.map (·.id) then some consumer else p.owner? id) ∧
    (∀ c, rowOf q.entriesByConsumer c = if c = consumer then
      rowOf p.entriesByConsumer consumer ++ entries.map (·.id) else rowOf p.entriesByConsumer c) ∧
    q.len = p.len + entries.length := by
  induction entries generalizing p with
  | nil =>
      refine ⟨hi, hb, fun id => by simp, fun c => ?_, rfl⟩
      split
      · next hc => simp [hc]
      · rfl
  | cons e entries ih =>
      obtain ⟨he, hn'⟩ := List.nodup_cons.mp hn
      have hnone : p.owner? e.id = none := hfresh e List.mem_cons_self
      have hfresh' : ∀ e' ∈ entries,
          (p.addEntry ⟨e.id, consumer, now, 1, now⟩).owner? e'.id = none := by
        intro e' he'
        have hne : e'.id ≠ e.id := fun heq => he (List.mem_map.mpr ⟨e', he', heq⟩)
        rw [PendingEntryList.owner?_addEntry, if_neg hne]
        exact hfresh e' (List.mem_cons_of_mem e he')
      obtain ⟨hi', hb', hown, hrow, hlen⟩ := ih (hi.addEntry hnone)
        (PendingEntryList.bounded_updateBounds _) hn' hfresh'
      refine ⟨hi', hb', fun id => ?_, fun c => ?_, ?_⟩
      · rw [List.foldl_cons, hown, PendingEntryList.owner?_addEntry]
        by_cases h1 : id ∈ entries.map (·.id) <;> by_cases h2 : id = e.id <;> simp [h1, h2]
      · rw [List.foldl_cons, hrow]
        simp only [PendingEntryList.rowOf_addEntry]
        split <;> simp
      · rw [List.foldl_cons, hlen, PendingEntryList.len_addEntry hnone, List.length_cons]
        omega

/-- Delivering entries that are not pending keeps the views together. -/
theorem Consistent.addPending (h : g.Consistent) (consumer : String) (now : Nat)
    {entries : List StreamEntry} (hn : (entries.map (·.id)).Nodup)
    (hfresh : ∀ e ∈ entries, g.pending.owner? e.id = none) :
    (g.addPending consumer entries now).Consistent := by
  obtain ⟨h₁, hpend, -, v, hv⟩ := h.createConsumer consumer now
  unfold ConsumerGroup.addPending
  generalize (g.createConsumer consumer now).2 = g₁ at h₁ hpend hv
  rw [← hpend] at hfresh
  obtain ⟨hi, hb, hown, hrow, hlen⟩ := foldl_addEntry h₁.indexed h₁.bounded consumer now hn hfresh
  refine ⟨hi, hb, ?_, ?_, ?_, ?_⟩
  · intro c w hw
    dsimp only at hw ⊢
    rw [hrow]
    simp only [hv] at hw
    rw [Map.get?_set] at hw
    split at hw
    · next hc =>
        cases hw
        rw [if_pos hc, List.length_append, List.length_map, h₁.counts consumer v hv]
    · next hc =>
        rw [if_neg hc]
        exact h₁.counts c w hw
  · intro id c ho
    dsimp only at ho ⊢
    rw [hown] at ho
    simp only [hv]
    rw [Map.get?_set]
    split
    · exact Option.some_ne_none _
    · next hc =>
        split at ho
        · exact absurd (Option.some.inj ho).symm hc
        · exact h₁.owners id c ho
  · change g₁.totalPending + entries.length = _ + 0
    have htotal : g₁.totalPending = g₁.pending.len + 0 := h₁.total
    rw [hlen, htotal]
    omega
  · simp only [hv]
    rw [Map.size_set_of_some hv]
    exact h₁.consumerCount

theorem adjustCount_get? (cs : Map String Consumer) (name : String) (f : Nat → Nat) (c : String) :
    (adjustCount cs name f).get? c = (cs.get? c).map fun v =>
      if c = name then { v with pendingCount := f v.pendingCount } else v := by
  unfold adjustCount
  cases hn : cs.get? name with
  | none =>
      by_cases hc : c = name
      · rw [hc, hn]
        rfl
      · simp [hc]
  | some v =>
      dsimp only
      rw [Map.get?_set]
      split
      · next hc =>
          rw [hc, hn]
          rfl
      · simp

theorem adjustCount_size (cs : Map String Consumer) (name : String) (f : Nat → Nat) :
    (adjustCount cs name f).size = cs.size := by
  unfold adjustCount
  cases hn : cs.get? name with
  | none => rfl
  | some v => exact Map.size_set_of_some hn _

/-- One acknowledgement: the entry goes, and one more is to be taken off the
total. -/
theorem Counted.acknowledgeOne {acc : Nat × ConsumerGroup} (h : acc.2.Counted acc.1) (id : StreamId) :
    (acknowledgeOne acc id).2.Counted (acknowledgeOne acc id).1 := by
  obtain ⟨n, g⟩ := acc
  unfold ConsumerGroup.acknowledgeOne
  cases he : g.pending.entriesById.get? id with
  | none => simpa only [PendingEntryList.removeEntry, he] using h
  | some e =>
      have hpair : g.pending.removeEntry id = (some e, (g.pending.removeEntry id).2) := by
        simp only [PendingEntryList.removeEntry, he]
      have hrow : id ∈ rowOf g.pending.entriesByConsumer e.consumer :=
        (h.indexed.mem_row _ _).mpr (by rw [PendingEntryList.owner?, he]; rfl)
      rw [hpair]
      refine ⟨h.indexed.removeEntry he, ?_, ?_, ?_, ?_, ?_⟩
      · simp only [PendingEntryList.removeEntry, he]
        exact PendingEntryList.bounded_updateBounds _
      · intro c w hw
        rw [adjustCount_get?] at hw
        obtain ⟨v, hv, rfl⟩ := Option.map_eq_some_iff.mp hw
        have hcount := h.counts c v hv
        rw [PendingEntryList.rowOf_removeEntry he]
        split
        · next hc =>
            rw [PendingEntryList.length_filter_ne (h.indexed.nodup _) hrow, ← hc, ← hcount]
        · exact hcount
      · intro id' c ho
        rw [PendingEntryList.owner?_removeEntry he] at ho
        split at ho
        · cases ho
        · intro hnone
          rw [adjustCount_get?, Option.map_eq_none_iff] at hnone
          exact h.owners id' c ho hnone
      · have htotal : g.totalPending = g.pending.len + n := h.total
        have hlen := PendingEntryList.len_removeEntry he
        change g.totalPending = (g.pending.removeEntry id).2.len + (n + 1)
        omega
      · change g.consumerCount = (adjustCount _ _ _).size
        rw [adjustCount_size]
        exact h.consumerCount

theorem Consistent.acknowledge (h : g.Consistent) (ids : List StreamId) :
    (g.acknowledge ids).2.Consistent := by
  have hfold : ∀ (ids : List StreamId) (acc : Nat × ConsumerGroup), acc.2.Counted acc.1 →
      (ids.foldl ConsumerGroup.acknowledgeOne acc).2.Counted
        (ids.foldl ConsumerGroup.acknowledgeOne acc).1 := by
    intro ids
    induction ids with
    | nil => exact fun _ hacc => hacc
    | cons id ids ih => exact fun acc hacc => ih _ (hacc.acknowledgeOne id)
  have hall := hfold ids (0, g) h
  unfold ConsumerGroup.acknowledge
  generalize ids.foldl ConsumerGroup.acknowledgeOne (0, g) = r at hall
  obtain ⟨acked, g'⟩ := r
  refine ⟨hall.indexed, hall.bounded, hall.counts, hall.owners, ?_, hall.consumerCount⟩
  have htotal : g'.totalPending = g'.pending.len + acked := hall.total
  change g'.totalPending - acked = g'.pending.len + 0
  omega

/-- One claimed entry changes hands. -/
theorem Consistent.claimOne {consumer : String} {minIdleMs : Nat} {force : Bool} {now later : Nat}
    {acc : List StreamId × ConsumerGroup} (h : acc.2.Consistent)
    (hc : acc.2.consumers.get? consumer ≠ none) (id : StreamId) :
    (ConsumerGroup.claimOne consumer minIdleMs force now later acc id).2.Consistent ∧
    (ConsumerGroup.claimOne consumer minIdleMs force now later acc id).2.consumers.get? consumer ≠
      none := by
  obtain ⟨claimed, g⟩ := acc
  unfold ConsumerGroup.claimOne
  cases he : g.pending.entriesById.get? id with
  | none => exact ⟨h, hc⟩
  | some e =>
      dsimp only
      split
      · exact ⟨h, hc⟩
      · have hown : g.pending.owner? id = some e.consumer := by
          rw [PendingEntryList.owner?, he]
          rfl
        have hrow : id ∈ rowOf g.pending.entriesByConsumer e.consumer :=
          (h.indexed.mem_row _ _).mpr hown
        have hpos := List.length_pos_of_mem hrow
        refine ⟨⟨h.indexed.transferOwnership he _ _, h.bounded.transferOwnership he _ _, ?_, ?_, ?_,
          ?_⟩, ?_⟩
        · intro c w hw
          rw [adjustCount_get?, adjustCount_get?, Option.map_map] at hw
          obtain ⟨v, hv, rfl⟩ := Option.map_eq_some_iff.mp hw
          have hcount : v.pendingCount = (rowOf g.pending.entriesByConsumer c).length :=
            h.counts c v hv
          rw [h.indexed.length_row_transferOwnership he, ← hcount]
          simp only [Function.comp_apply]
          split_ifs <;> rfl
        · intro id' c ho hnone
          rw [adjustCount_get?, adjustCount_get?, Option.map_eq_none_iff,
            Option.map_eq_none_iff] at hnone
          rw [PendingEntryList.owner?_transferOwnership he] at ho
          split at ho
          · exact hc ((Option.some.inj ho) ▸ hnone)
          · exact h.owners id' c ho hnone
        · change g.totalPending = (g.pending.transferOwnership id consumer later).len + 0
          rw [PendingEntryList.len_transferOwnership he]
          exact h.total
        · change g.consumerCount = (adjustCount _ _ _).size
          rw [adjustCount_size, adjustCount_size]
          exact h.consumerCount
        · intro hnone
          rw [adjustCount_get?, adjustCount_get?, Option.map_eq_none_iff,
            Option.map_eq_none_iff] at hnone
          exact hc hnone

theorem Consistent.claimMessages (h : g.Consistent) (consumer : String) (minIdleMs : Nat)
    (ids : List StreamId) (force : Bool) (now later : Nat) :
    (g.claimMessages consumer minIdleMs ids force now later).2.Consistent := by
  obtain ⟨h₁, -, -, v, hv⟩ := h.createConsumer consumer now
  have hfold : ∀ (ids : List StreamId) (acc : List StreamId × ConsumerGroup), acc.2.Consistent →
      acc.2.consumers.get? consumer ≠ none →
      (ids.foldl (ConsumerGroup.claimOne consumer minIdleMs force now later) acc).2.Consistent := by
    intro ids
    induction ids with
    | nil => exact fun _ hacc _ => hacc
    | cons id ids ih =>
        intro acc hacc hc
        obtain ⟨hacc', hc'⟩ := hacc.claimOne hc id
        exact ih _ hacc' hc'
  exact hfold ids _ h₁ (by rw [hv]; exact nofun)

theorem Consistent.deleteConsumer (h : g.Consistent) (name : String) :
    (g.deleteConsumer name).2.Consistent := by
  unfold ConsumerGroup.deleteConsumer
  cases hc : g.consumers.get? name with
  | none => exact h
  | some v =>
      obtain ⟨hremoved, hi, hb, hown, hrow, hlen⟩ :=
        PendingEntryList.removeConsumerEntries_spec h.indexed h.bounded name
      generalize g.pending.removeConsumerEntries name = r at hremoved hi hb hown hrow hlen
      obtain ⟨removed, pending⟩ := r
      dsimp only at hremoved hi hb hown hrow hlen ⊢
      refine ⟨hi, hb, ?_, ?_, ?_, ?_⟩
      · intro c w hw
        rw [Map.get?_del] at hw
        split at hw
        · cases hw
        · next hne =>
            rw [hrow, if_neg hne]
            exact h.counts c w hw
      · intro id c ho
        rw [hown] at ho
        split at ho
        · cases ho
        · next hne =>
            have hcn : c ≠ name := by
              rintro rfl
              exact hne ho
            rw [Map.get?_del_ne _ hcn]
            exact h.owners id c ho
      · have htotal : g.totalPending = g.pending.len + 0 := h.total
        change g.totalPending - removed = pending.len + 0
        omega
      · have hsize := Map.size_del_of_some hc
        have hcount : g.consumerCount = g.consumers.size := h.consumerCount
        change g.consumerCount - 1 = (g.consumers.del name).size
        omega

/-! ### The cursor -/

/-- Nothing new is pending, and the cursor has not moved. -/
def Shrinks (g g' : ConsumerGroup) : Prop :=
  g'.lastDeliveredId = g.lastDeliveredId ∧
    ∀ id, g'.pending.owner? id ≠ none → g.pending.owner? id ≠ none

theorem Shrinks.trans {g g' g'' : ConsumerGroup} (h : Shrinks g g') (h' : Shrinks g' g'') :
    Shrinks g g'' :=
  ⟨h'.1.trans h.1, fun id hid => h.2 id (h'.2 id hid)⟩

theorem shrinks_createConsumer (g : ConsumerGroup) (name : String) (now : Nat) :
    Shrinks g (g.createConsumer name now).2 := by
  unfold ConsumerGroup.createConsumer
  split <;> exact ⟨rfl, fun _ h => h⟩

theorem shrinks_acknowledge (g : ConsumerGroup) (ids : List StreamId) :
    Shrinks g (g.acknowledge ids).2 := by
  have hone : ∀ (acc : Nat × ConsumerGroup) (id : StreamId),
      Shrinks acc.2 (ConsumerGroup.acknowledgeOne acc id).2 := by
    intro acc id
    unfold ConsumerGroup.acknowledgeOne
    cases he : acc.2.pending.entriesById.get? id with
    | none =>
        simp only [PendingEntryList.removeEntry, he]
        exact ⟨rfl, fun _ h => h⟩
    | some e =>
        have hpair : acc.2.pending.removeEntry id = (some e, (acc.2.pending.removeEntry id).2) := by
          simp only [PendingEntryList.removeEntry, he]
        rw [hpair]
        refine ⟨rfl, fun id' h => ?_⟩
        dsimp only at h
        rw [PendingEntryList.owner?_removeEntry he] at h
        split at h
        · exact absurd rfl h
        · exact h
  have hfold : ∀ (ids : List StreamId) (acc : Nat × ConsumerGroup),
      Shrinks acc.2 (ids.foldl ConsumerGroup.acknowledgeOne acc).2 := by
    intro ids
    induction ids with
    | nil => exact fun _ => ⟨rfl, fun _ h => h⟩
    | cons id ids ih => exact fun acc => (hone acc id).trans (ih _)
  exact hfold ids (0, g)

theorem shrinks_claimMessages (g : ConsumerGroup) (consumer : String) (minIdleMs : Nat)
    (ids : List StreamId) (force : Bool) (now later : Nat) :
    Shrinks g (g.claimMessages consumer minIdleMs ids force now later).2 := by
  have hone : ∀ (acc : List StreamId × ConsumerGroup) (id : StreamId),
      Shrinks acc.2 (ConsumerGroup.claimOne consumer minIdleMs force now later acc id).2 := by
    intro acc id
    unfold ConsumerGroup.claimOne
    cases he : acc.2.pending.entriesById.get? id with
    | none => exact ⟨rfl, fun _ h => h⟩
    | some e =>
        dsimp only
        split
        · exact ⟨rfl, fun _ h => h⟩
        · refine ⟨rfl, fun id' h => ?_⟩
          dsimp only at h
          rw [PendingEntryList.owner?_transferOwnership he] at h
          split at h
          · next hid => simp [hid, PendingEntryList.owner?, he]
          · exact h
  have hfold : ∀ (ids : List StreamId) (acc : List StreamId × ConsumerGroup),
      Shrinks acc.2 (ids.foldl (ConsumerGroup.claimOne consumer minIdleMs force now later) acc).2 := by
    intro ids
    induction ids with
    | nil => exact fun _ => ⟨rfl, fun _ h => h⟩
    | cons id ids ih => exact fun acc => (hone acc id).trans (ih _)
  exact (shrinks_createConsumer g consumer now).trans (hfold ids _)

theorem Consistent.shrinks_deleteConsumer (h : g.Consistent) (name : String) :
    Shrinks g (g.deleteConsumer name).2 := by
  unfold ConsumerGroup.deleteConsumer
  cases hc : g.consumers.get? name with
  | none => exact ⟨rfl, fun _ h => h⟩
  | some v =>
      obtain ⟨-, -, -, hown, -, -⟩ :=
        PendingEntryList.removeConsumerEntries_spec h.indexed h.bounded name
      refine ⟨rfl, fun id hid => ?_⟩
      have hid' : (g.pending.removeConsumerEntries name).2.owner? id ≠ none := hid
      rw [hown] at hid'
      split at hid'
      · exact absurd rfl hid'
      · exact hid'

/-- The four views agree, and the cursor is past everything that is pending. -/
def Sound (g : ConsumerGroup) : Prop :=
  g.Consistent ∧ ∀ id, g.pending.owner? id ≠ none → id ≤ g.lastDeliveredId

theorem sound_new (name : String) (id : StreamId) : (new name id).Sound :=
  ⟨consistent_new name id, fun _ h =>
    absurd (by simp [new, PendingEntryList.new, PendingEntryList.owner?]) h⟩

theorem Sound.shrink (h : g.Sound) {g' : ConsumerGroup} (hc : g'.Consistent) (hs : Shrinks g g') :
    g'.Sound :=
  ⟨hc, fun id hid => hs.1 ▸ h.2 id (hs.2 id hid)⟩

end ConsumerGroup

/-! ## Runs -/

/-- Every group of the stream is sound. -/
def Stream.GroupsSound (s : Stream) : Prop :=
  ∀ name g, s.consumerGroups.get? name = some g → g.Sound

theorem Stream.GroupsSound.setGroup {s : Stream} (h : s.GroupsSound) {g : ConsumerGroup} (hg : g.Sound)
    (group : String) : (s.setGroup group g).GroupsSound := by
  intro name g' hg'
  rw [Stream.setGroup, Map.get?_set] at hg'
  split at hg'
  · cases hg'
    exact hg
  · exact h name g' hg'

namespace StreamRun

/-- A read with a given ID finds nothing that is pending in its group, unless it
leaves the pending entries alone; and the cursor is not set. -/
def NoRedelivery (r : StreamRun) : StreamOp → Prop
  | .group (.readGroup group _ afterId count noack) _ =>
      afterId = StreamId.max ∨ noack = true ∨
        ∀ g, r.stream.consumerGroups.get? group = some g →
          ∀ e ∈ r.stream.rangeAfter afterId count, g.pending.entriesById.get? e.id = none
  | .group (.setId _ _) _ => False
  | _ => True

/-- The last of some entries in ID order is the greatest. -/
theorem le_getLast {entries : List StreamEntry} (hs : entries.Pairwise fun a b => a.id < b.id)
    {last : StreamEntry} (hl : entries.getLast? = some last) {e : StreamEntry} (he : e ∈ entries) :
    e.id ≤ last.id := by
  obtain ⟨front, rfl⟩ := List.getLast?_eq_some_iff.mp hl
  obtain ⟨-, -, hlt⟩ := List.pairwise_append.mp hs
  rcases List.mem_append.mp he with he | he
  · exact StreamId.le_of_lt (hlt e he last (by simp))
  · rw [List.mem_singleton.mp he]
    exact Nat.le_refl _

/-- Delivering entries in ID order moves the cursor past them. -/
theorem sound_addPending {g : ConsumerGroup} (h : g.Sound) (consumer : String) (now : Nat)
    {entries : List StreamEntry} (hs : entries.Pairwise fun a b => a.id < b.id)
    (hfresh : ∀ e ∈ entries, g.pending.owner? e.id = none) :
    (g.addPending consumer entries now).Sound := by
  have hn : (entries.map (·.id)).Nodup := by
    have hne : ∀ a b : StreamEntry, a.id < b.id → a.id ≠ b.id := by
      intro a b hab heq
      rw [heq] at hab
      exact Nat.lt_irrefl _ hab
    exact List.Pairwise.map (·.id) hne hs
  refine ⟨h.1.addPending consumer now hn hfresh, fun id hid => ?_⟩
  obtain ⟨h₁, hpend, hlast, -⟩ := h.1.createConsumer consumer now
  unfold ConsumerGroup.addPending at hid ⊢
  generalize (g.createConsumer consumer now).2 = g₁ at h₁ hpend hlast hid
  rw [← hpend] at hfresh
  obtain ⟨-, -, hown, -, -⟩ :=
    ConsumerGroup.foldl_addEntry h₁.indexed h₁.bounded consumer now hn hfresh
  dsimp only at hid ⊢
  rw [hown] at hid
  have hold : g₁.pending.owner? id ≠ none → id ≤ g₁.lastDeliveredId := by
    rw [hpend, hlast]
    exact h.2 id
  cases hl : entries.getLast? with
  | none =>
      rw [List.getLast?_eq_none_iff] at hl
      subst hl
      exact hold hid
  | some last =>
      have hmax : ∀ e ∈ entries, e.id ≤ last.id := fun _ he => le_getLast hs hl he
      have hid' : id ≤ last.id ∨ id ≤ g₁.lastDeliveredId := by
        split at hid
        · next hmem =>
            obtain ⟨e, he, rfl⟩ := List.mem_map.mp hmem
            exact .inl (hmax e he)
        · exact .inr (hold hid)
      simp only [StreamId.le_iff] at hid' ⊢
      split
      · next hlt =>
          rw [StreamId.lt_iff] at hlt
          omega
      · next hge =>
          rw [StreamId.lt_iff] at hge
          omega

/-- What a read selects from an ordered stream is in ID order. -/
theorem Ordered.pairwise_rangeAfter {r : StreamRun} (h : r.Ordered) (after : StreamId)
    (count : Option Nat) : (r.stream.rangeAfter after count).Pairwise fun a b => a.id < b.id :=
  h.entries.sublist ((List.take_sublist _ _).trans (List.drop_sublist _ _))

theorem Ordered.lt_of_mem_rangeAfter {r : StreamRun} (h : r.Ordered) {after : StreamId}
    {count : Option Nat} {e : StreamEntry} (he : e ∈ r.stream.rangeAfter after count) :
    after < e.id := by
  rw [Stream.rangeAfter_eq h.entries] at he
  simpa using (List.mem_filter.mp (List.mem_of_mem_take he)).2

/-- One operation that delivers nothing pending keeps every group sound. -/
theorem groupsSound_step {r : StreamRun} {o : StreamOp} (hord : r.Ordered)
    (h : r.stream.GroupsSound) (ho : r.NoRedelivery o) : (r.step o).stream.GroupsSound := by
  rcases r.step_groups o with hsame | ⟨α, c, ctx, rfl⟩
  · intro name g hg
    rw [hsame] at hg
    exact h name g hg
  · rw [step]
    dsimp only
    cases c with
    | create name start =>
        simp only [GroupCmd.apply, Stream.createConsumerGroup]
        split
        · exact h
        · exact h.setGroup (ConsumerGroup.sound_new _ _) name
    | destroy name =>
        simp only [GroupCmd.apply, Stream.destroyConsumerGroup]
        split
        · intro name' g hg
          rw [Map.get?_del] at hg
          split at hg
          · cases hg
          · exact h name' g hg
        · exact h
    | createConsumer group consumer =>
        simp only [GroupCmd.apply]
        split
        · exact h
        · next g hg =>
            have hs := h group g hg
            exact h.setGroup (hs.shrink (hs.1.createConsumer consumer _).1
              (ConsumerGroup.shrinks_createConsumer g consumer _)) group
    | deleteConsumer group consumer =>
        simp only [GroupCmd.apply]
        split
        · exact h
        · next g hg =>
            have hs := h group g hg
            exact h.setGroup (hs.shrink (hs.1.deleteConsumer consumer)
              (hs.1.shrinks_deleteConsumer consumer)) group
    | setId group id => exact ho.elim
    | readGroup group consumer afterId count noack =>
        simp only [GroupCmd.apply, Stream.readGroup]
        split
        · exact h
        · next g hg =>
            have hs := h group g hg
            -- a read of new entries starts behind the cursor, where nothing is pending
            have hnew : ∀ e ∈ r.stream.rangeAfter g.lastDeliveredId count,
                g.pending.owner? e.id = none := by
              intro e he
              by_contra hp
              exact StreamId.not_le.mpr (hord.lt_of_mem_rangeAfter he) (hs.2 e.id hp)
            by_cases hgt : afterId = StreamId.max
            · simp only [hgt, if_true]
              split
              · exact h.setGroup (sound_addPending hs consumer _ (hord.pairwise_rangeAfter _ _) hnew)
                  group
              · exact h
            · simp only [hgt, if_false]
              split
              · next hack =>
                  have hfresh := (ho.resolve_left hgt).resolve_left
                    (by simp only [Bool.and_eq_true, Bool.not_eq_true'] at hack; simp [hack.1]) g hg
                  exact h.setGroup (sound_addPending hs consumer _ (hord.pairwise_rangeAfter _ _)
                    fun e he => by rw [PendingEntryList.owner?, hfresh e he]; rfl) group
              · exact h
    | acknowledge group ids =>
        simp only [GroupCmd.apply, Stream.acknowledgeMessages]
        split
        · exact h
        · next g hg =>
            have hs := h group g hg
            exact h.setGroup (hs.shrink (hs.1.acknowledge ids)
              (ConsumerGroup.shrinks_acknowledge g ids)) group
    | claim group consumer minIdleMs ids force =>
        simp only [GroupCmd.apply, Stream.claimMessages]
        split
        · exact h
        · next g hg =>
            have hs := h group g hg
            exact h.setGroup (hs.shrink (hs.1.claimMessages ..)
              (ConsumerGroup.shrinks_claimMessages ..)) group
    | autoClaim group consumer minIdleMs start count =>
        simp only [GroupCmd.apply, Stream.autoClaimMessages]
        split
        · exact h
        · next g hg =>
            have hs := h group g hg
            exact h.setGroup (hs.shrink (hs.1.claimMessages ..)
              (ConsumerGroup.shrinks_claimMessages ..)) group

/-- In every run in sequence that delivers nothing pending, the views of every
group agree: an ID is in the row of a consumer exactly if the table has it with
that owner, no row has an ID twice, a consumer's count is the number of IDs it
owns, the total is the size of the table, the bounds are its least and its
greatest ID, and the consumer count is the number of consumers. -/
theorem consistent_run (ops : List StreamOp)
    (h : Guarded (fun r o => InSequence r o ∧ NoRedelivery r o) step initial ops)
    (name : String) (g : ConsumerGroup)
    (hg : (ops.foldl step initial).stream.consumerGroups.get? name = some g) :
    (∀ c id, id ∈ PendingEntryList.rowOf g.pending.entriesByConsumer c ↔
      ∃ e, g.pending.entriesById.get? id = some e ∧ e.consumer = c) ∧
    (∀ c, (PendingEntryList.rowOf g.pending.entriesByConsumer c).Nodup) ∧
    (∀ c v, g.consumers.get? c = some v → v.pendingCount = (g.pending.owned c).length) ∧
    g.totalPending = g.pending.entriesById.size ∧
    g.pending.Bounded ∧
    g.consumerCount = g.consumers.size := by
  have hinv := h.inv (I := fun r => r.Ordered ∧ r.stream.GroupsSound)
    (fun r o hr ho => ⟨hr.1.step ho.1, groupsSound_step hr.1 hr.2 ho.2⟩)
    ⟨ordered_initial, fun _ _ hg => by cases hg⟩
  obtain ⟨hc, -⟩ := hinv.2 name g hg
  refine ⟨fun c id => ?_, hc.indexed.nodup, fun c v hv => ?_, hc.total, hc.bounded,
    hc.consumerCount⟩
  · rw [hc.indexed.mem_row]
    exact Option.map_eq_some_iff
  · rw [hc.counts c v hv, hc.indexed.length_row]

/-- Two entries, a group, and a read of both by one consumer. -/
def readByAlice : List StreamOp :=
  [.addAuto oneField 1, .addAuto oneField 2, .group (.create "g" (some StreamId.min)) (.at 0),
    .group (.readGroup "g" "alice" StreamId.max none false) (.at 0)]

/-- Then a claim, an acknowledgement and the removal of a consumer. -/
def claimedByBob : List StreamOp :=
  readByAlice ++ [.group (.claim "g" "bob" 0 [StreamId.new 1 0] true) (.at 1),
    .group (.acknowledge "g" [StreamId.new 2 0]) (.at 2), .group (.deleteConsumer "g" "alice") (.at 3)]

/-- One entry is left pending with one consumer, and the counters say so. -/
theorem claimedByBob_consistent :
    ∃ g, (claimedByBob.foldl step initial).stream.consumerGroups.get? "g" = some g ∧
      g.totalPending = g.pending.entriesById.size ∧ g.totalPending = 1 ∧
      g.consumerCount = g.consumers.size ∧ g.consumerCount = 1 := by
  have hguard : Guarded (fun r o => InSequence r o ∧ NoRedelivery r o) step initial claimedByBob :=
    ⟨⟨by decide, trivial⟩, ⟨by decide, trivial⟩, ⟨trivial, trivial⟩,
      ⟨trivial, .inl rfl⟩, ⟨trivial, trivial⟩, ⟨trivial, trivial⟩, ⟨trivial, trivial⟩, trivial⟩
  have hfigures : ((claimedByBob.foldl step initial).stream.consumerGroups.get? "g").map
      (fun g => (g.totalPending, g.consumerCount)) = some (1, 1) := by
    rfl
  obtain ⟨g, hg, hfig⟩ := Option.map_eq_some_iff.mp hfigures
  obtain ⟨-, -, -, htotal, -, hcount⟩ := consistent_run _ hguard "g" g hg
  exact ⟨g, hg, htotal, congrArg Prod.fst hfig, hcount, congrArg Prod.snd hfig⟩

/-- A second read of the same entries, by another consumer. -/
def rereadByBob : List StreamOp :=
  readByAlice ++ [.group (.readGroup "g" "bob" StreamId.min none false) (.at 1)]

/-- It leaves the entries in the row of their first owner. -/
theorem rereadByBob_keeps_old_row :
    ¬ ∀ g, (rereadByBob.foldl step initial).stream.consumerGroups.get? "g" = some g →
      ∀ c id, id ∈ PendingEntryList.rowOf g.pending.entriesByConsumer c ↔
        ∃ e, g.pending.entriesById.get? id = some e ∧ e.consumer = c := by
  intro h
  have hrow : ((rereadByBob.foldl step initial).stream.consumerGroups.get? "g").map (fun g =>
      (decide (StreamId.new 1 0 ∈ PendingEntryList.rowOf g.pending.entriesByConsumer "alice"),
        g.pending.owner? (StreamId.new 1 0))) = some (true, some "bob") := by
    rfl
  obtain ⟨g, hg, hfig⟩ := Option.map_eq_some_iff.mp hrow
  have hmem := of_decide_eq_true (congrArg Prod.fst hfig)
  have hown : g.pending.owner? (StreamId.new 1 0) = some "bob" := congrArg Prod.snd hfig
  obtain ⟨e, he, hc⟩ := (h g hg "alice" (StreamId.new 1 0)).mp hmem
  rw [PendingEntryList.owner?, he, Option.map_some, hc] at hown
  exact absurd (Option.some.inj hown) (by decide)

end StreamRun

end Ferrous
