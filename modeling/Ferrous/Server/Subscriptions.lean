/-
# `Server.Subscriptions` — the pub/sub manager keeps one relation

Which connection holds which channels and which patterns is one relation; the
manager keeps it three times, by channel, by pattern and by connection.
`Represents` says that the three agree with it and that no row and no record is
empty.  Every operation keeps that, its confirmations carry the number of pairs
of the connection after each name, and a publication reaches exactly those that
hold the channel or a pattern for it.
-/
import Ferrous.Server.PubSub

namespace Ferrous

open Lib

/-! ## The relation -/

/-- The names of each kind every connection holds. -/
abbrev Subscriptions := PubSubManager.Kind → ConnId → Finset Bytes

namespace Subscriptions

open PubSubManager (Kind)

/-- Nobody holds anything. -/
def nobody : Subscriptions := fun _ _ => ∅

/-- Change the names of one kind one connection holds. -/
def alter (r : Subscriptions) (kind : Kind) (id : ConnId) (f : Finset Bytes → Finset Bytes) :
    Subscriptions := fun kind' id' => if kind' = kind ∧ id' = id then f (r kind' id') else r kind' id'

/-- The number of pairs of a connection. -/
def count (r : Subscriptions) (id : ConnId) : Nat := (r .channel id).card + (r .pattern id).card

/-- Change one name after the other: each with the number of pairs after it. -/
def each (kind : Kind) (id : ConnId) (f : Bytes → Finset Bytes → Finset Bytes) :
    Subscriptions → List Bytes → List (Bytes × Nat) × Subscriptions
  | r, [] => ([], r)
  | r, name :: names =>
      let r' := r.alter kind id (f name)
      ((name, r'.count id) :: (each kind id f r' names).1, (each kind id f r' names).2)

end Subscriptions

/-- What can happen to the manager; a subscription names one name at least. -/
inductive PubSubOp
  | subscribe (kind : PubSubManager.Kind) (id : ConnId) (name : Bytes) (names : List Bytes)
  | unsubscribe (kind : PubSubManager.Kind) (id : ConnId) (names : List Bytes)
  | unsubscribeFrom (kind : PubSubManager.Kind) (id : ConnId)
  | unsubscribeAll (id : ConnId)

namespace PubSubManager

open Subscriptions

/-- One operation: its confirmations and the manager after it. -/
def step (m : PubSubManager) : PubSubOp → List (Bytes × Nat) × PubSubManager
  | .subscribe kind id name names => subscribe kind m id (name :: names)
  | .unsubscribe kind id names => unsubscribe kind m id (some names)
  | .unsubscribeFrom kind id => unsubscribe kind m id none
  | .unsubscribeAll id => ([], m.unsubscribeAll id)

/-- The relation after an operation. -/
def replay (r : Subscriptions) : PubSubOp → Subscriptions
  | .subscribe kind id name names => (each kind id insert r (name :: names)).2
  | .unsubscribe kind id names => (each kind id (fun n s => s.erase n) r names).2
  | .unsubscribeFrom kind id => r.alter kind id fun _ => ∅
  | .unsubscribeAll id => (r.alter .channel id fun _ => ∅).alter .pattern id fun _ => ∅

/-- The confirmations an operation may give: one for each name, with the number
of pairs the connection has after it.  A connection that holds nothing gets
none from an unsubscription; the order of all names is not specified. -/
def Confirms (r : Subscriptions) (out : List (Bytes × Nat)) : PubSubOp → Prop
  | .subscribe kind id name names => out = (each kind id insert r (name :: names)).1
  | .unsubscribe kind id names =>
      out = if r.count id = 0 then [] else (each kind id (fun n s => s.erase n) r names).1
  | .unsubscribeFrom kind id => ∃ names : List Bytes, names.Nodup ∧ names.toFinset = r kind id ∧
      out = (each kind id (fun n s => s.erase n) r names).1
  | .unsubscribeAll _ => out = []

/-! ## Representation -/

/-- The connections in the row of a name. -/
def row (m : PubSubManager) (kind : Kind) (name : Bytes) : Finset ConnId :=
  (((kind.rows m).get? name).getD ∅).members

/-- The names of one kind in the record of a connection. -/
def record (m : PubSubManager) (kind : Kind) (id : ConnId) : Finset Bytes :=
  (kind.names ((m.connections.get? id).getD SubscriberInfo.new)).members

/-- Rows and records are those of the relation, and none is empty. -/
structure Represents (m : PubSubManager) (r : Subscriptions) : Prop where
  row_iff : ∀ kind name id, id ∈ m.row kind name ↔ name ∈ r kind id
  record_eq : ∀ kind id, m.record kind id = r kind id
  row_ne : ∀ (kind : Kind) name (ids : FSet ConnId), (kind.rows m).get? name = some ids → ids.size ≠ 0
  record_ne : ∀ id info, m.connections.get? id = some info → info.total ≠ 0

/-- While a connection's record is being changed: the rows are those of the
relation already, and so are the other records. -/
structure Editing (m : PubSubManager) (id : ConnId) (info : SubscriberInfo) (r : Subscriptions) :
    Prop where
  row_iff : ∀ kind name id', id' ∈ m.row kind name ↔ name ∈ r kind id'
  record_eq : ∀ kind id', id' ≠ id → m.record kind id' = r kind id'
  info_eq : ∀ kind, (kind.names info).members = r kind id
  row_ne : ∀ (kind : Kind) name (ids : FSet ConnId), (kind.rows m).get? name = some ids → ids.size ≠ 0
  record_ne : ∀ id' info', id' ≠ id → m.connections.get? id' = some info' → info'.total ≠ 0

variable {m : PubSubManager} {r : Subscriptions} {id : ConnId} {info : SubscriberInfo}

theorem SubscriberInfo.names_setNames (kind kind' : Kind) (info : SubscriberInfo) (names : FSet Bytes) :
    kind'.names (kind.setNames info names) = if kind' = kind then names else kind'.names info := by
  cases kind <;> cases kind' <;> rfl

theorem rows_setRows (kind kind' : Kind) (m : PubSubManager) (rows : Map Bytes (FSet ConnId)) :
    kind'.rows (kind.setRows m rows) = if kind' = kind then rows else kind'.rows m := by
  cases kind <;> cases kind' <;> rfl

@[simp] theorem connections_setRows (kind : Kind) (m : PubSubManager) (rows : Map Bytes (FSet ConnId)) :
    (kind.setRows m rows).connections = m.connections := by
  cases kind <;> rfl

theorem total_eq_count (h : ∀ kind, (kind.names info).members = r kind id) : info.total = r.count id := by
  have hc := h .channel
  have hp := h .pattern
  rw [SubscriberInfo.total, count, ← hc, ← hp, Map.card_members, Map.card_members]
  rfl

/-- A connection without a record holds nothing. -/
theorem Represents.editing (h : Represents m r) (id : ConnId) :
    Editing m id ((m.connections.get? id).getD SubscriberInfo.new) r where
  row_iff := h.row_iff
  record_eq := fun kind id' _ => h.record_eq kind id'
  info_eq := fun kind => h.record_eq kind id
  row_ne := h.row_ne
  record_ne := fun id' info' _ => h.record_ne id' info'

/-- Storing the record ends the editing. -/
theorem Editing.store (h : Editing m id info r) (hne : r.count id ≠ 0) :
    Represents { m with connections := m.connections.set id info } r where
  row_iff := fun kind => by
    cases kind
    · exact h.row_iff .channel
    · exact h.row_iff .pattern
  record_eq := fun kind id' => by
    rw [record]
    dsimp only
    rw [Map.get?_set]
    split
    · next heq =>
        rw [heq]
        exact h.info_eq kind
    · next hne => exact h.record_eq kind id' hne
  row_ne := fun kind => by
    cases kind
    · exact h.row_ne .channel
    · exact h.row_ne .pattern
  record_ne := fun id' info' hi => by
    dsimp only at hi
    rw [Map.get?_set] at hi
    split at hi
    · cases hi
      rw [total_eq_count h.info_eq]
      exact hne
    · next hother => exact h.record_ne id' info' hother hi

/-- So does dropping an empty one. -/
theorem Editing.drop (h : Editing m id info r) (hz : r.count id = 0) :
    Represents { m with connections := m.connections.del id } r where
  row_iff := fun kind => by
    cases kind
    · exact h.row_iff .channel
    · exact h.row_iff .pattern
  record_eq := fun kind id' => by
    rw [record]
    dsimp only
    rw [Map.get?_del]
    split
    · next heq =>
        have hempty : r kind id = ∅ := by
          rw [count, Nat.add_eq_zero_iff, Finset.card_eq_zero, Finset.card_eq_zero] at hz
          cases kind
          · exact hz.1
          · exact hz.2
        rw [heq, hempty]
        cases kind <;> rfl
    · next hne => exact h.record_eq kind id' hne
  row_ne := fun kind => by
    cases kind
    · exact h.row_ne .channel
    · exact h.row_ne .pattern
  record_ne := fun id' info' hi => by
    dsimp only at hi
    rw [Map.get?_del] at hi
    split at hi
    · cases hi
    · next hother => exact h.record_ne id' info' hother hi

/-! ## Subscribing and unsubscribing -/

theorem mem_row_addRow (rows : Map Bytes (FSet ConnId)) (name name' : Bytes) (id id' : ConnId) :
    id' ∈ (((addRow rows name id).get? name').getD ∅).members ↔
      (name' = name ∧ id' = id) ∨ id' ∈ ((rows.get? name').getD ∅).members := by
  rw [addRow, Map.get?_set]
  split
  · next h => simp [h, Map.members_add]
  · next h => simp [h]

theorem size_addRow {rows : Map Bytes (FSet ConnId)} {name : Bytes} {id : ConnId}
    (h : ∀ name' (ids : FSet ConnId), rows.get? name' = some ids → ids.size ≠ 0) (name' : Bytes)
    (ids : FSet ConnId) (hi : (addRow rows name id).get? name' = some ids) : ids.size ≠ 0 := by
  rw [addRow, Map.get?_set] at hi
  split at hi
  · cases hi
    rw [Ne, Map.size_eq_zero, Map.members_add]
    exact Finset.insert_ne_empty _ _
  · exact h name' ids hi

/-- A name the connection does not hold yet is entered in its row. -/
theorem Editing.add (h : Editing m id info r) (kind : Kind) (name : Bytes) :
    Editing (if !(kind.names info).contains name then kind.setRows m (addRow (kind.rows m) name id) else m)
      id
      (if !(kind.names info).contains name then
        kind.setNames info ((kind.names info).add name) else info)
      (r.alter kind id (insert name)) := by
  cases hheld : (kind.names info).contains name with
  | true =>
      -- the relation does not change
      have hmem : name ∈ r kind id := by
        rw [← h.info_eq, Map.mem_members]
        exact hheld
      have hsame : r.alter kind id (insert name) = r := by
        funext kind' id'
        rw [alter]
        split
        · next hk =>
            obtain ⟨rfl, rfl⟩ := hk
            exact Finset.insert_eq_of_mem hmem
        · rfl
      rw [hsame]
      exact h
  | false =>
      simp only [Bool.not_false, if_true]
      refine ⟨fun kind' name' id' => ?_, fun kind' id' hne => ?_, fun kind' => ?_,
        fun kind' => ?_, fun id' info' hne hi => ?_⟩
      · rw [row, rows_setRows, alter]
        by_cases hk : kind' = kind
        · subst hk
          have hrow := h.row_iff kind' name' id'
          rw [row] at hrow
          rw [if_pos rfl, mem_row_addRow, hrow]
          by_cases hid : id' = id
          · rw [if_pos ⟨rfl, hid⟩, Finset.mem_insert]
            simp [hid]
          · rw [if_neg fun hand => hid hand.2]
            simp [hid]
        · rw [if_neg hk, if_neg fun hand => hk hand.1]
          exact h.row_iff kind' name' id'
      · rw [record, connections_setRows, alter, if_neg fun hand => hne hand.2]
        exact h.record_eq kind' id' hne
      · rw [SubscriberInfo.names_setNames, alter]
        by_cases hk : kind' = kind
        · subst hk
          rw [if_pos rfl, if_pos ⟨rfl, rfl⟩, Map.members_add, h.info_eq]
        · rw [if_neg hk, if_neg fun hand => hk hand.1, h.info_eq]
      · rw [rows_setRows]
        split
        · exact size_addRow (h.row_ne kind)
        · exact h.row_ne kind'
      · rw [connections_setRows] at hi
        exact h.record_ne id' info' hne hi

theorem mem_row_dropRow (rows : Map Bytes (FSet ConnId)) (name name' : Bytes) (id id' : ConnId) :
    id' ∈ (((dropRow rows name id).get? name').getD ∅).members ↔
      ¬ (name' = name ∧ id' = id) ∧ id' ∈ ((rows.get? name').getD ∅).members := by
  unfold dropRow
  cases hr : rows.get? name with
  | none =>
      by_cases hn : name' = name
      · simp [hn, hr]
      · simp [hn]
  | some ids =>
      dsimp only
      split
      · next hz =>
          have hempty := Map.size_eq_zero.mp hz
          rw [Map.members_del] at hempty
          rw [Map.get?_del]
          split
          · next hn =>
              rw [hn, hr]
              have hiff : id' ∈ ids.members.erase id ↔ False := by rw [hempty]; simp
              rw [Finset.mem_erase] at hiff
              simpa using hiff
          · next hn => simp [hn]
      · rw [Map.get?_set]
        split
        · next hn => simp [hn, hr, Map.members_del]
        · next hn => simp [hn]

theorem size_dropRow {rows : Map Bytes (FSet ConnId)} {name : Bytes} {id : ConnId}
    (h : ∀ name' (ids : FSet ConnId), rows.get? name' = some ids → ids.size ≠ 0) (name' : Bytes)
    (ids : FSet ConnId) (hi : (dropRow rows name id).get? name' = some ids) : ids.size ≠ 0 := by
  unfold dropRow at hi
  split at hi
  · exact h name' ids hi
  · split at hi
    · rw [Map.get?_del] at hi
      split at hi
      · cases hi
      · exact h name' ids hi
    · next hne =>
        rw [Map.get?_set] at hi
        split at hi
        · cases hi
          exact hne
        · exact h name' ids hi

/-- A name is taken out of the record, and out of its row if it was held. -/
theorem Editing.remove (h : Editing m id info r) (kind : Kind) (name : Bytes) :
    Editing (if (kind.names info).contains name then kind.setRows m (dropRow (kind.rows m) name id) else m)
      id (kind.setNames info ((kind.names info).del name)) (r.alter kind id fun s => s.erase name) := by
  have hinfo : ∀ kind', (kind'.names (kind.setNames info ((kind.names info).del name))).members =
      r.alter kind id (fun s => s.erase name) kind' id := by
    intro kind'
    rw [SubscriberInfo.names_setNames, alter]
    by_cases hk : kind' = kind
    · subst hk
      rw [if_pos rfl, if_pos ⟨rfl, rfl⟩, Map.members_del, h.info_eq]
    · rw [if_neg hk, if_neg fun hand => hk hand.1, h.info_eq]
  cases hheld : (kind.names info).contains name with
  | false =>
      have hmem : name ∉ r kind id := by
        rw [← h.info_eq, Map.mem_members, hheld]
        exact Bool.false_ne_true
      have hsame : (r.alter kind id fun s => s.erase name) = r := by
        funext kind' id'
        rw [alter]
        split
        · next hk =>
            obtain ⟨rfl, rfl⟩ := hk
            exact Finset.erase_eq_of_notMem hmem
        · rfl
      rw [hsame] at hinfo ⊢
      exact ⟨h.row_iff, h.record_eq, hinfo, h.row_ne, h.record_ne⟩
  | true =>
      simp only [if_true]
      refine ⟨fun kind' name' id' => ?_, fun kind' id' hne => ?_, hinfo,
        fun kind' => ?_, fun id' info' hne hi => ?_⟩
      · rw [row, rows_setRows, alter]
        by_cases hk : kind' = kind
        · subst hk
          have hrow := h.row_iff kind' name' id'
          rw [row] at hrow
          rw [if_pos rfl, mem_row_dropRow, hrow]
          by_cases hid : id' = id
          · rw [if_pos ⟨rfl, hid⟩, Finset.mem_erase]
            simp [hid]
          · rw [if_neg fun hand => hid hand.2]
            simp [hid]
        · rw [if_neg hk, if_neg fun hand => hk hand.1]
          exact h.row_iff kind' name' id'
      · rw [record, connections_setRows, alter, if_neg fun hand => hne hand.2]
        exact h.record_eq kind' id' hne
      · rw [rows_setRows]
        split
        · exact size_dropRow (h.row_ne kind)
        · exact h.row_ne kind'
      · rw [connections_setRows] at hi
        exact h.record_ne id' info' hne hi

/-- The loop of a subscription. -/
theorem Editing.subscribeLoop (h : Editing m id info r) (kind : Kind) {names : List Bytes}
    (hne : (each kind id insert r names).2.count id ≠ 0) :
    (subscribeLoop kind id names info m).1 = (each kind id insert r names).1 ∧
    Represents (subscribeLoop kind id names info m).2 (each kind id insert r names).2 := by
  induction names generalizing m info r with
  | nil => exact ⟨rfl, h.store hne⟩
  | cons name names ih =>
      have hstep := h.add kind name
      obtain ⟨hout, hrep⟩ := ih hstep hne
      refine ⟨?_, hrep⟩
      rw [PubSubManager.subscribeLoop, each]
      exact congrArg₂ List.cons (Prod.ext rfl (total_eq_count hstep.info_eq)) hout

/-- The loop of an unsubscription. -/
theorem Editing.unsubscribeLoop (h : Editing m id info r) (kind : Kind) (names : List Bytes) :
    (unsubscribeLoop kind id names info m).1 = (each kind id (fun n s => s.erase n) r names).1 ∧
    Represents (unsubscribeLoop kind id names info m).2
      (each kind id (fun n s => s.erase n) r names).2 := by
  induction names generalizing m info r with
  | nil =>
      refine ⟨rfl, ?_⟩
      rw [PubSubManager.unsubscribeLoop]
      have htotal := total_eq_count h.info_eq
      rw [SubscriberInfo.total] at htotal
      dsimp only
      split
      · next hz => exact h.drop (by rw [← htotal, hz.1, hz.2])
      · next hz => exact h.store (by rw [← htotal]; omega)
  | cons name names ih =>
      have hstep := h.remove kind name
      obtain ⟨hout, hrep⟩ := ih hstep
      refine ⟨?_, hrep⟩
      rw [PubSubManager.unsubscribeLoop, each]
      exact congrArg₂ List.cons (Prod.ext rfl (total_eq_count hstep.info_eq)) hout

/-- The relation after a list of names is changed in one go. -/
theorem each_snd (kind : Kind) (id : ConnId) (f : Bytes → Finset Bytes → Finset Bytes) (r : Subscriptions)
    (names : List Bytes) :
    (each kind id f r names).2 = r.alter kind id fun s => names.foldl (fun s n => f n s) s := by
  induction names generalizing r with
  | nil =>
      funext kind' id'
      rw [each, alter]
      split <;> rfl
  | cons name names ih =>
      funext kind' id'
      rw [each]
      dsimp only
      rw [ih, alter, alter, alter]
      split <;> rfl

theorem subset_foldl_insert (names : List Bytes) (s : Finset Bytes) :
    s ⊆ names.foldl (fun s n => insert n s) s := by
  induction names generalizing s with
  | nil => exact Finset.Subset.refl s
  | cons name names ih => exact (Finset.subset_insert name s).trans (ih _)

theorem foldl_erase (names : List Bytes) (s : Finset Bytes) :
    names.foldl (fun s n => s.erase n) s = s \ names.toFinset := by
  induction names generalizing s with
  | nil => simp
  | cons name names ih =>
      rw [List.foldl_cons, ih, List.toFinset_cons]
      ext n
      simp only [Finset.mem_erase, Finset.mem_sdiff, Finset.mem_insert, not_or]
      tauto

/-- A connection with no pairs loses none. -/
theorem alter_of_empty {kind : Kind} {f : Finset Bytes → Finset Bytes} (hz : r kind id = ∅)
    (hf : f ∅ = ∅) : r.alter kind id f = r := by
  funext kind' id'
  rw [alter]
  split
  · next h =>
      obtain ⟨rfl, rfl⟩ := h
      rw [hz, hf]
  · rfl

theorem Represents.eq_empty (h : Represents m r) (hnone : m.connections.get? id = none) (kind : Kind) :
    r kind id = ∅ := by
  rw [← h.record_eq, record, hnone]
  cases kind <;> rfl

theorem mem_row_clearRows (rows : Map Bytes (FSet ConnId)) (name : Bytes) (id id' : ConnId) :
    id' ∈ (((clearRows rows id).get? name).getD ∅).members ↔
      id' ≠ id ∧ id' ∈ ((rows.get? name).getD ∅).members := by
  rw [clearRows, Map.get?_filterMapValues]
  cases rows.get? name with
  | none => simp
  | some ids =>
      rw [Option.bind_some]
      have hiff : id' ∈ (ids.del id : FSet ConnId).members ↔ id' ≠ id ∧ id' ∈ ids.members := by
        rw [Map.members_del, Finset.mem_erase]
      split
      · next hz =>
          rw [Map.size_eq_zero.mp hz] at hiff
          simpa using hiff
      · exact hiff

theorem size_clearRows (rows : Map Bytes (FSet ConnId)) (id : ConnId) (name : Bytes) (ids : FSet ConnId)
    (hi : (clearRows rows id).get? name = some ids) : ids.size ≠ 0 := by
  rw [clearRows, Map.get?_filterMapValues] at hi
  obtain ⟨ids', -, hif⟩ := Option.bind_eq_some_iff.mp hi
  split at hif
  · cases hif
  · next hne =>
      cases hif
      exact hne

theorem Represents.unsubscribeAll (h : Represents m r) (id : ConnId) :
    Represents (m.unsubscribeAll id) ((r.alter .channel id fun _ => ∅).alter .pattern id fun _ => ∅) := by
  have hrel : ∀ kind id', ((r.alter .channel id fun _ => ∅).alter .pattern id fun _ => ∅) kind id' =
      if id' = id then ∅ else r kind id' := by
    intro kind id'
    by_cases hid : id' = id
    · cases kind <;> simp [alter, hid]
    · simp [alter, hid]
  have hrows : ∀ kind : Kind, kind.rows (m.unsubscribeAll id) = clearRows (kind.rows m) id := by
    intro kind
    cases kind <;> rfl
  refine ⟨fun kind name id' => ?_, fun kind id' => ?_, fun kind name ids hi => ?_, fun id' info hi => ?_⟩
  · have hrow := h.row_iff kind name id'
    rw [row] at hrow
    rw [row, hrows, mem_row_clearRows, hrow, hrel]
    split
    · next hid => simp [hid]
    · next hid => simp [hid]
  · rw [hrel, record, PubSubManager.unsubscribeAll]
    dsimp only
    rw [Map.get?_del]
    split
    · cases kind <;> rfl
    · exact h.record_eq kind id'
  · rw [hrows] at hi
    exact size_clearRows _ _ _ _ hi
  · rw [PubSubManager.unsubscribeAll] at hi
    dsimp only at hi
    rw [Map.get?_del] at hi
    split at hi
    · cases hi
    · exact h.record_ne id' info hi

/-- One operation. -/
theorem Represents.step (h : Represents m r) (o : PubSubOp) :
    Represents (m.step o).2 (replay r o) ∧ Confirms r (m.step o).1 o := by
  cases o with
  | subscribe kind id name names =>
      have hmem : name ∈ (each kind id insert r (name :: names)).2 kind id := by
        rw [each_snd, alter, if_pos ⟨rfl, rfl⟩]
        exact subset_foldl_insert names _ (Finset.mem_insert_self name _)
      have hne : (each kind id insert r (name :: names)).2.count id ≠ 0 := by
        have hpos := Finset.card_pos.mpr ⟨name, hmem⟩
        rw [count]
        cases kind <;> omega
      obtain ⟨hout, hrep⟩ := (h.editing id).subscribeLoop kind hne
      exact ⟨hrep, hout⟩
  | unsubscribe kind id names =>
      rw [PubSubManager.step, unsubscribe, replay, Confirms]
      cases hc : m.connections.get? id with
      | none =>
          have hz : r.count id = 0 := by
            rw [count, h.eq_empty hc, h.eq_empty hc]
            rfl
          rw [if_pos hz, each_snd, alter_of_empty (h.eq_empty hc kind) (by rw [foldl_erase]; simp)]
          exact ⟨h, rfl⟩
      | some info =>
          have hed := h.editing id
          rw [hc, Option.getD_some] at hed
          have hne : r.count id ≠ 0 := by
            rw [← total_eq_count hed.info_eq]
            exact h.record_ne id info hc
          rw [if_neg hne]
          obtain ⟨hout, hrep⟩ := hed.unsubscribeLoop kind names
          exact ⟨hrep, hout⟩
  | unsubscribeFrom kind id =>
      rw [PubSubManager.step, unsubscribe, replay, Confirms]
      cases hc : m.connections.get? id with
      | none =>
          rw [alter_of_empty (h.eq_empty hc kind) rfl]
          exact ⟨h, [], List.nodup_nil, (h.eq_empty hc kind).symm, rfl⟩
      | some info =>
          have hed := h.editing id
          rw [hc, Option.getD_some] at hed
          have hall : (kind.names info).keyList.toFinset = r kind id := hed.info_eq kind
          obtain ⟨hout, hrep⟩ := hed.unsubscribeLoop kind (kind.names info).keyList
          refine ⟨?_, _, Map.nodup_keyList _, hall, hout⟩
          rw [each_snd] at hrep
          have hsame : (r.alter kind id fun s =>
              (kind.names info).keyList.foldl (fun s n => s.erase n) s) = r.alter kind id fun _ => ∅ := by
            funext kind' id'
            rw [alter, alter]
            split
            · next hk =>
                obtain ⟨rfl, rfl⟩ := hk
                rw [foldl_erase, hall, Finset.sdiff_self]
            · rfl
          rw [← hsame]
          exact hrep
  | unsubscribeAll id => exact ⟨h.unsubscribeAll id, rfl⟩

/-! ## Publishing -/

/-- The receivers found so far: each once, labelled by how it is reached, and
everyone who holds the channel itself. -/
structure Found (r : Subscriptions) (channel : Bytes) (receivers : List (ConnId × Option Bytes)) : Prop where
  once : (receivers.map Prod.fst).Nodup
  label : ∀ d ∈ receivers, match d.2 with
    | none => channel ∈ r .channel d.1
    | some p => channel ∉ r .channel d.1 ∧ p ∈ r .pattern d.1 ∧ channelMatches p channel = true
  direct : ∀ id, channel ∈ r .channel id → id ∈ receivers.map Prod.fst

theorem map_fst_addReceivers (pattern : Option Bytes) (ids : List ConnId)
    (receivers : List (ConnId × Option Bytes)) :
    (addReceivers pattern ids receivers).map Prod.fst =
      receivers.map Prod.fst ++ ids.filter fun id => id ∉ receivers.map Prod.fst := by
  rw [addReceivers, List.map_append, List.map_map]
  congr 1
  have hcomp : (Prod.fst ∘ fun id : ConnId => (id, pattern)) = id := rfl
  rw [hcomp, List.map_id]
  refine List.filter_congr fun id _ => ?_
  rw [Bool.eq_iff_iff, Bool.not_eq_true', List.any_eq_false, decide_eq_true_eq, List.mem_map]
  constructor
  · rintro hno ⟨d, hd, rfl⟩
    exact hno d hd (beq_self_eq_true _)
  · intro hno d hd heq
    exact hno ⟨d, hd, beq_iff_eq.mp heq⟩

theorem nodup_addReceivers {pattern : Option Bytes} {ids : List ConnId} (hids : ids.Nodup)
    {receivers : List (ConnId × Option Bytes)} (h : (receivers.map Prod.fst).Nodup) :
    ((addReceivers pattern ids receivers).map Prod.fst).Nodup := by
  rw [map_fst_addReceivers, List.nodup_append]
  refine ⟨h, hids.filter _, fun a ha b hb hab => ?_⟩
  have hnot := of_decide_eq_true (List.mem_filter.mp hb).2
  exact hnot (hab ▸ ha)

theorem mem_addReceivers {pattern : Option Bytes} {ids : List ConnId}
    {receivers : List (ConnId × Option Bytes)} {id : ConnId} :
    id ∈ (addReceivers pattern ids receivers).map Prod.fst ↔
      id ∈ receivers.map Prod.fst ∨ id ∈ ids := by
  rw [map_fst_addReceivers, List.mem_append, List.mem_filter, decide_eq_true_eq]
  tauto

/-- The subscribers of a pattern that matches. -/
theorem Found.addPattern {channel : Bytes} {receivers : List (ConnId × Option Bytes)}
    (h : Found r channel receivers) {pattern : Bytes} {ids : FSet ConnId}
    (hids : ∀ id ∈ ids.members, pattern ∈ r .pattern id) (hmatch : channelMatches pattern channel = true) :
    Found r channel (addReceivers (some pattern) ids.keyList receivers) := by
  refine ⟨nodup_addReceivers ids.nodup_keyList h.once, fun d hd => ?_, fun id hid => ?_⟩
  · rw [addReceivers] at hd
    rcases List.mem_append.mp hd with hd | hd
    · exact h.label d hd
    · obtain ⟨id, hid, rfl⟩ := List.mem_map.mp hd
      obtain ⟨hin, hnew⟩ := List.mem_filter.mp hid
      refine ⟨fun hdirect => ?_, hids id (List.mem_toFinset.mpr hin), hmatch⟩
      obtain ⟨d, hd, heq⟩ := List.mem_map.mp (h.direct id hdirect)
      rw [Bool.not_eq_true', List.any_eq_false] at hnew
      exact hnew d hd (beq_iff_eq.mpr heq)
  · exact mem_addReceivers.mpr (.inl (h.direct id hid))

/-- The loop over the patterns. -/
theorem Found.patterns {channel : Bytes} {receivers : List (ConnId × Option Bytes)}
    (h : Found r channel receivers) {ps : List (Bytes × FSet ConnId)}
    (hps : ∀ p ∈ ps, ∀ id, id ∈ p.2.members ↔ p.1 ∈ r .pattern id) :
    let found := ps.foldl (fun receivers p =>
      if channelMatches p.1 channel then addReceivers (some p.1) p.2.keyList receivers
      else receivers) receivers
    Found r channel found ∧
    (∀ id ∈ receivers.map Prod.fst, id ∈ found.map Prod.fst) ∧
    ∀ p ∈ ps, channelMatches p.1 channel = true → ∀ id, p.1 ∈ r .pattern id →
      id ∈ found.map Prod.fst := by
  induction ps generalizing receivers with
  | nil => exact ⟨h, fun _ hid => hid, nofun⟩
  | cons p ps ih =>
      have htail : ∀ q ∈ ps, ∀ id, id ∈ q.2.members ↔ q.1 ∈ r .pattern id :=
        fun q hq => hps q (List.mem_cons_of_mem p hq)
      have hhead := hps p List.mem_cons_self
      intro found
      by_cases hmatch : channelMatches p.1 channel = true
      · have hfound : found = ps.foldl (fun receivers p =>
            if channelMatches p.1 channel then addReceivers (some p.1) p.2.keyList receivers
            else receivers) (addReceivers (some p.1) p.2.keyList receivers) := by
          simp only [found, List.foldl_cons, hmatch, if_true]
        obtain ⟨hf, hkeep, hall⟩ := ih (h.addPattern (fun id hid => (hhead id).mp hid) hmatch) htail
        rw [hfound]
        refine ⟨hf, fun id hid => hkeep id (mem_addReceivers.mpr (.inl hid)), fun q hq hm id hid => ?_⟩
        rcases List.mem_cons.mp hq with rfl | hq
        · refine hkeep id (mem_addReceivers.mpr (.inr ?_))
          exact List.mem_toFinset.mp ((hhead id).mpr hid)
        · exact hall q hq hm id hid
      · have hfound : found = ps.foldl (fun receivers p =>
            if channelMatches p.1 channel then addReceivers (some p.1) p.2.keyList receivers
            else receivers) receivers := by
          simp only [found, List.foldl_cons, hmatch, Bool.false_eq_true, if_false]
        obtain ⟨hf, hkeep, hall⟩ := ih h htail
        rw [hfound]
        refine ⟨hf, hkeep, fun q hq hm id hid => ?_⟩
        rcases List.mem_cons.mp hq with rfl | hq
        · exact absurd hm hmatch
        · exact hall q hq hm id hid

/-- A publication reaches exactly those that hold the channel or a pattern for
it, each once. -/
theorem Represents.publish (h : Represents m r) (channel : Bytes) :
    Found r channel (m.publish channel) ∧
    ∀ id, id ∈ (m.publish channel).map Prod.fst ↔
      channel ∈ r .channel id ∨ ∃ p ∈ r .pattern id, channelMatches p channel = true := by
  have hrow : ∀ id, id ∈ ((m.channels.get? channel).getD ∅).members ↔ channel ∈ r .channel id :=
    h.row_iff .channel channel
  have hstart : Found r channel
      (addReceivers none (((m.channels.get? channel).getD ∅).keyList) []) := by
    refine ⟨nodup_addReceivers (Map.nodup_keyList _) List.nodup_nil, fun d hd => ?_, fun id hid => ?_⟩
    · rw [addReceivers, List.nil_append] at hd
      obtain ⟨id, hid, rfl⟩ := List.mem_map.mp hd
      exact (hrow id).mp (List.mem_toFinset.mpr (List.mem_filter.mp hid).1)
    · exact mem_addReceivers.mpr (.inr (List.mem_toFinset.mp ((hrow id).mpr hid)))
  have hps : ∀ p ∈ m.patterns.toPairs, ∀ id, id ∈ p.2.members ↔ p.1 ∈ r .pattern id := by
    rintro ⟨p, ids⟩ hp id
    have hget := Map.mem_toPairs.mp hp
    have hiff := h.row_iff .pattern p id
    have hids : m.row .pattern p = ids.members := by
      change ((m.patterns.get? p).getD ∅).members = _
      rw [hget]
      rfl
    rwa [hids] at hiff
  obtain ⟨hf, -, hall⟩ := hstart.patterns hps
  refine ⟨hf, fun id => ⟨fun hid => ?_, fun hid => ?_⟩⟩
  · obtain ⟨d, hd, rfl⟩ := List.mem_map.mp hid
    have hlabel := hf.label d hd
    cases hl : d.2 with
    | none =>
        rw [hl] at hlabel
        exact .inl hlabel
    | some p =>
        rw [hl] at hlabel
        exact .inr ⟨p, hlabel.2⟩
  · rcases hid with hid | ⟨p, hp, hmatch⟩
    · exact hf.direct id hid
    · have hin := (h.row_iff .pattern p id).mpr hp
      cases hget : m.patterns.get? p with
      | none =>
          have hrow : m.row .pattern p = ∅ := by
            change ((m.patterns.get? p).getD ∅).members = _
            rw [hget]
            rfl
          rw [hrow] at hin
          exact absurd hin (Finset.notMem_empty id)
      | some ids => exact hall (p, ids) (Map.mem_toPairs.mpr hget) hmatch id hp

/-! ## Runs -/

theorem represents_new : Represents new nobody where
  row_iff := fun kind name id => by
    cases kind <;> simp [row, Kind.rows, new, nobody]
  record_eq := fun kind id => by
    cases kind <;> rfl
  row_ne := fun kind name ids hi => by
    cases kind <;> cases hi
  record_ne := fun id info hi => by cases hi

/-- After every run: a connection is in the row of a name exactly if the name is
in its record and exactly if the replayed relation has the pair, and no row and
no record is empty; the confirmations of the next operation carry the number of
pairs after each name; and a publication goes to exactly the connections with a
pair for the channel or for a pattern that matches it, each once, labelled with
no pattern exactly if it holds the channel, else with a matching pattern of its
own. -/
theorem represents_run (ops : List PubSubOp) :
    let m := ops.foldl (fun m o => (m.step o).2) new
    let r := ops.foldl replay nobody
    (∀ (kind : Kind) name id,
      ((∃ ids : FSet ConnId, (kind.rows m).get? name = some ids ∧ ids.contains id = true) ↔
        name ∈ r kind id) ∧
      ((∃ info, m.connections.get? id = some info ∧ (kind.names info).contains name = true) ↔
        name ∈ r kind id)) ∧
    (∀ (kind : Kind) name (ids : FSet ConnId), (kind.rows m).get? name = some ids → ids.size ≠ 0) ∧
    (∀ id info, m.connections.get? id = some info → info.channels.size + info.patterns.size ≠ 0) ∧
    (∀ o, Confirms r (m.step o).1 o) ∧
    ∀ channel,
      ((m.publish channel).map Prod.fst).Nodup ∧
      (∀ id, (∃ label, (id, label) ∈ m.publish channel) ↔
        channel ∈ r .channel id ∨ ∃ p ∈ r .pattern id, channelMatches p channel = true) ∧
      ∀ id label, (id, label) ∈ m.publish channel →
        (label = none ↔ channel ∈ r .channel id) ∧
        ∀ p, label = some p → p ∈ r .pattern id ∧ channelMatches p channel = true := by
  intro m r
  have hrep : Represents m r := by
    have hrun : ∀ (ops : List PubSubOp) (m : PubSubManager) (r : Subscriptions), Represents m r →
        Represents (ops.foldl (fun m o => (m.step o).2) m) (ops.foldl replay r) := by
      intro ops
      induction ops with
      | nil => exact fun _ _ h => h
      | cons o ops ih => exact fun m r h => ih _ _ (h.step o).1
    exact hrun ops new nobody represents_new
  refine ⟨fun kind name id => ⟨?_, ?_⟩, hrep.row_ne, hrep.record_ne, fun o => (hrep.step o).2,
    fun channel => ?_⟩
  · rw [← hrep.row_iff, row]
    cases (kind.rows m).get? name with
    | none => simp
    | some ids => simp [Map.mem_members]
  · rw [← hrep.record_eq, record]
    cases m.connections.get? id with
    | none => cases kind <;> simp [Kind.names, SubscriberInfo.new]
    | some info => simp [Map.mem_members]
  · obtain ⟨hf, hall⟩ := hrep.publish channel
    refine ⟨hf.once, fun id => ?_, fun id label hd => ?_⟩
    · rw [← hall id, List.mem_map]
      constructor
      · rintro ⟨label, hd⟩
        exact ⟨_, hd, rfl⟩
      · rintro ⟨⟨id', label⟩, hd, rfl⟩
        exact ⟨label, hd⟩
    · have hlabel := hf.label _ hd
      cases label with
      | none => exact ⟨⟨fun _ => hlabel, fun _ => rfl⟩, nofun⟩
      | some p =>
          refine ⟨⟨nofun, fun hdirect => absurd hdirect hlabel.1⟩, ?_⟩
          rintro q ⟨⟩
          exact hlabel.2

/-- A name given twice is confirmed twice, with the same number of pairs. -/
example : (new.step (.subscribe .channel 1 [97] [[98], [97]])).1 =
    [([97], 1), ([98], 2), ([97], 2)] := by
  decide

end PubSubManager

end Ferrous
