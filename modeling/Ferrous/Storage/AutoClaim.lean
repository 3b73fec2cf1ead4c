/-
# `Storage.AutoClaim` — walking the pending entries from call to call

`auto_claim` picks the first idle entries behind a start ID, claims them, and returns the
ID the next call is to start from.  `sweep` makes these calls until `0-0` comes back.  The
start is an excluded bound, and the ID returned is already the one behind the last entry
claimed, so a call that follows looks one ID too far.  `Clear` goes through a list and the
readings of the clock before any call is made, and says that nothing in it is lost that way.
-/
import Ferrous.Storage.PendingRanges
import Ferrous.Storage.StreamIds

namespace Ferrous

open Lib

/-! ## Calls -/

/-- The clock in one call: when the entries are picked, when they are looked at again, and
when they change hands. -/
structure Readings where
  found : Nat
  claimed : Nat
  moved : Nat

/-- The entry has been idle for the threshold. -/
abbrev PendingEntry.Idle (e : PendingEntry) (minIdleMs now : Nat) : Prop :=
  minIdleMs ≤ ConsumerGroup.idleMs now e.lastDelivery

/-- The ID a call that claimed these hands back. -/
def nextStart (claimed : List StreamId) : StreamId :=
  match claimed.getLast? with
  | some i => StreamId.new i.millis (i.seq + 1)
  | none => StreamId.new 0 0

/-- The sequence number behind the last one claimed does not fit in 64 bits. -/
def seqOverflows (claimed : List StreamId) : Bool :=
  claimed.getLast?.any fun i => decide (2 ^ 64 ≤ i.seq + 1)

namespace ConsumerGroup

/-- `auto_claim`, with the reading of each of its parts. -/
def autoClaimAt (g : ConsumerGroup) (consumer : String) (minIdleMs : Nat) (start : StreamId)
    (count : Nat) (t : Readings) : List StreamId × StreamId × ConsumerGroup :=
  let idle := (((g.pending.getEntriesAfter start).filter fun e =>
    e.Idle minIdleMs t.found).take count).map (·.id)
  let (claimed, g') := g.claimMessages consumer minIdleMs idle false t.claimed t.moved
  (claimed, nextStart claimed, g')

theorem autoClaim_eq (g : ConsumerGroup) (consumer : String) (minIdleMs : Nat) (start : StreamId)
    (count now later : Nat) :
    g.autoClaim consumer minIdleMs start count now later =
      g.autoClaimAt consumer minIdleMs start count ⟨now, now, later⟩ := rfl

/-- Calls from `start` on, each from the ID the one before it returned, until that is
`0-0`: the IDs claimed and the group they leave.  None if the calls do not end within the
fuel, or if a start ID overflows. -/
def sweep (consumer : String) (minIdleMs count : Nat) (clock : Nat → Readings) :
    Nat → Nat → StreamId → ConsumerGroup → Option (List StreamId × ConsumerGroup)
  | 0, _, _, _ => none
  | fuel + 1, call, start, g =>
      let (claimed, next, g') := g.autoClaimAt consumer minIdleMs start count (clock call)
      if seqOverflows claimed then none
      else if next = StreamId.new 0 0 then some (claimed, g')
      else (sweep consumer minIdleMs count clock fuel (call + 1) next g').map fun r =>
        (claimed ++ r.1, r.2)

/-- The calls from `0-0` end, no start ID overflows, and each entry that was idle when
they began has been claimed once and is the consumer's. -/
def SweptOnce (g : ConsumerGroup) (consumer : String) (minIdleMs count : Nat) (clock : Nat → Readings) : Prop :=
  ∃ fuel claims g', sweep consumer minIdleMs count clock fuel 0 StreamId.min g = some (claims, g') ∧
    ∀ id e, g.pending.entriesById.get? id = some e → e.Idle minIdleMs (clock 0).found →
      claims.count id = 1 ∧ g'.pending.owner? id = some consumer

end ConsumerGroup

/-! ## Lists that nothing is lost of -/

section Clear

variable (minIdleMs count : Nat) (clock : Nat → Readings)

/-- A call takes the entry: it has room, the entry lies behind its start, and is idle when the
call picks it and when it looks at it again. -/
def Takes (t : Readings) (room : Nat) (start : StreamId) (e : PendingEntry) : Prop :=
  0 < room ∧ start < e.id ∧ e.Idle minIdleMs t.found ∧ e.Idle minIdleMs t.claimed

instance (t : Readings) (room : Nat) (start : StreamId) (e : PendingEntry) :
    Decidable (Takes minIdleMs t room start e) :=
  inferInstanceAs (Decidable (_ ∧ _))

/-- Of the next entries that are idle, as many as there is room for, none is idle any more when
the call looks at it again. -/
def TakesNone (t : Readings) (room : Nat) (es : List PendingEntry) : Prop :=
  ∀ f ∈ (es.filter fun f => f.Idle minIdleMs t.found).take room, ¬ f.Idle minIdleMs t.claimed

instance (t : Readings) (room : Nat) (es : List PendingEntry) : Decidable (TakesNone minIdleMs t room es) :=
  inferInstanceAs (Decidable (∀ f ∈ _, _))

/-- The calls that go through the entries lose none: the one under way looks behind `start`
and has room for `room` more.  An entry that was idle at the beginning is taken by the call
that comes to it.  The last entry that a call takes has a sequence number with a successor,
and behind that the next call looks. -/
def Clear : Nat → Nat → StreamId → List PendingEntry → Prop
  | _, _, _, [] => True
  | call, room, start, e :: es =>
      (e.Idle minIdleMs (clock 0).found → Takes minIdleMs (clock call) room start e) ∧
        if Takes minIdleMs (clock call) room start e then
          if TakesNone minIdleMs (clock call) (room - 1) es then
            e.id.seq + 1 < 2 ^ 64 ∧ Clear (call + 1) count (StreamId.new e.id.millis (e.id.seq + 1)) es
          else Clear call (room - 1) start es
        else if start < e.id ∧ e.Idle minIdleMs (clock call).found then Clear call (room - 1) start es
        else Clear call room start es

/-- The list and the readings say whether it is clear. -/
def decideClear : ∀ (call room : Nat) (start : StreamId) (es : List PendingEntry),
    Decidable (Clear minIdleMs count clock call room start es)
  | _, _, _, [] => .isTrue trivial
  | call, room, start, e :: es =>
      have := decideClear (call + 1) count (StreamId.new e.id.millis (e.id.seq + 1)) es
      have := decideClear call (room - 1) start es
      have := decideClear call room start es
      show Decidable ((_ → _) ∧ ite _ (ite _ (_ ∧ _) _) (ite _ _ _)) from inferInstance

instance (call room : Nat) (start : StreamId) (es : List PendingEntry) :
    Decidable (Clear minIdleMs count clock call room start es) :=
  decideClear minIdleMs count clock call room start es

end Clear

/-! ## The walk over the list -/

section Walk

variable (minIdleMs count : Nat)

/-- The entries a call from `start` claims. -/
def batch (es : List PendingEntry) (t : Readings) (start : StreamId) : List PendingEntry :=
  ((es.filter fun e => start < e.id ∧ e.Idle minIdleMs t.found).take count).filter fun e =>
    e.Idle minIdleMs t.claimed

/-- From `start` on the calls lose none of the entries that were idle when the first was
made.  A call that claims entries closes with one whose sequence number has a successor,
and no idle entry up to that successor is left out; a call that claims none has no idle
entry behind its start. -/
inductive Smooth (es : List PendingEntry) (clock : Nat → Readings) : Nat → StreamId → Prop
  | stop {call : Nat} {start : StreamId} :
      batch minIdleMs count es (clock call) start = [] →
      (∀ e ∈ es, start < e.id → ¬ e.Idle minIdleMs (clock 0).found) → Smooth es clock call start
  | go {call : Nat} {start : StreamId} (last : PendingEntry) :
      (batch minIdleMs count es (clock call) start).getLast? = some last → last.id.seq + 1 < 2 ^ 64 →
      (∀ e ∈ es, start < e.id → e.id ≤ StreamId.new last.id.millis (last.id.seq + 1) →
        e.Idle minIdleMs (clock 0).found → e ∈ batch minIdleMs count es (clock call) start) →
      Smooth es clock (call + 1) (StreamId.new last.id.millis (last.id.seq + 1)) → Smooth es clock call start

end Walk

/-- In a list sorted by ID an ID has one entry. -/
theorem nodup_ids {es : List PendingEntry} (hs : es.Pairwise fun a b => a.id < b.id) : (es.map (·.id)).Nodup :=
  List.pairwise_map.mpr (hs.imp fun hab heq => Nat.ne_of_lt hab (congrArg StreamId.packed heq))

/-! ## One call -/

/-- An entry that has changed hands. -/
def PendingEntry.taken (consumer : String) (moved : Nat) (e : PendingEntry) : PendingEntry :=
  { e with
    consumer := consumer
    deliveryCount := (e.deliveryCount + 1) % 2 ^ 32
    lastDelivery := moved }

/-- The ID is pending, and idle. -/
def PendingEntryList.claimable (p : PendingEntryList) (minIdleMs now : Nat) (id : StreamId) : Bool :=
  (p.entriesById.get? id).any fun e => decide (e.Idle minIdleMs now)

namespace ConsumerGroup

section Call

variable (consumer : String) (minIdleMs now later : Nat)

theorem claimOne_skip {acc : List StreamId × ConsumerGroup} {id : StreamId}
    (h : acc.2.pending.claimable minIdleMs now id = false) :
    claimOne consumer minIdleMs false now later acc id = acc := by
  unfold claimOne
  unfold PendingEntryList.claimable at h
  cases he : acc.2.pending.entriesById.get? id with
  | none => rfl
  | some e =>
      rw [he, Option.any_some, decide_eq_false_iff_not] at h
      exact if_pos (by simpa [PendingEntry.Idle] using h)

theorem claimOne_take {acc : List StreamId × ConsumerGroup} {id : StreamId}
    (h : acc.2.pending.claimable minIdleMs now id = true) :
    (claimOne consumer minIdleMs false now later acc id).1 = acc.1 ++ [id] ∧
    ∀ i, (claimOne consumer minIdleMs false now later acc id).2.pending.entriesById.get? i =
      if i = id then (acc.2.pending.entriesById.get? i).map (.taken consumer later)
      else acc.2.pending.entriesById.get? i := by
  unfold PendingEntryList.claimable at h
  cases he : acc.2.pending.entriesById.get? id with
  | none => rw [he] at h; cases h
  | some e =>
      rw [he, Option.any_some, decide_eq_true_eq] at h
      have hidle : ¬ ((!false && decide (idleMs now e.lastDelivery < minIdleMs)) = true) := by
        simpa [PendingEntry.Idle] using h
      have hgo : claimOne consumer minIdleMs false now later acc id = (acc.1 ++ [id], { acc.2 with
          pending := acc.2.pending.transferOwnership id consumer later
          consumers := adjustCount (adjustCount acc.2.consumers e.consumer (· - 1)) consumer (· + 1) }) := by
        unfold claimOne
        rw [he]
        exact if_neg hidle
      rw [hgo]
      refine ⟨rfl, fun i => ?_⟩
      simp only [PendingEntryList.transferOwnership, he]
      rw [Map.get?_set]
      split
      · next hi =>
          rw [hi, he]
          rfl
      · rfl

/-- The IDs claimed are those that were claimable, and only their entries change. -/
theorem foldl_claimOne {ids : List StreamId} (hnd : ids.Nodup) (acc : List StreamId × ConsumerGroup) :
    (ids.foldl (claimOne consumer minIdleMs false now later) acc).1 =
      acc.1 ++ ids.filter (acc.2.pending.claimable minIdleMs now) ∧
    ∀ i, (ids.foldl (claimOne consumer minIdleMs false now later) acc).2.pending.entriesById.get? i =
      if i ∈ ids.filter (acc.2.pending.claimable minIdleMs now) then
        (acc.2.pending.entriesById.get? i).map (.taken consumer later)
      else acc.2.pending.entriesById.get? i := by
  induction ids generalizing acc with
  | nil => exact ⟨(List.append_nil _).symm, fun _ => (if_neg List.not_mem_nil).symm⟩
  | cons id ids ih =>
      obtain ⟨hid, hnd⟩ := List.nodup_cons.mp hnd
      cases hc : acc.2.pending.claimable minIdleMs now id with
      | false =>
          rw [List.foldl_cons, claimOne_skip consumer minIdleMs now later hc,
            List.filter_cons_of_neg (by rw [hc]; exact nofun)]
          exact ih hnd acc
      | true =>
          obtain ⟨hfst, hget⟩ := claimOne_take consumer minIdleMs now later hc
          rw [List.foldl_cons, List.filter_cons_of_pos hc]
          generalize claimOne consumer minIdleMs false now later acc id = acc' at hfst hget
          -- the other IDs are looked at as before
          have hsame : ids.filter (acc'.2.pending.claimable minIdleMs now) =
              ids.filter (acc.2.pending.claimable minIdleMs now) := by
            refine List.filter_congr fun i hi => ?_
            have hne : i ≠ id := fun h => hid (h ▸ hi)
            rw [PendingEntryList.claimable, hget, if_neg hne]
            rfl
          obtain ⟨hclaimed, hrest⟩ := ih hnd acc'
          rw [hsame] at hclaimed hrest
          refine ⟨?_, fun i => ?_⟩
          · rw [hclaimed, hfst, List.append_assoc]
            rfl
          · rw [hrest, hget]
            by_cases hi : i = id
            · have hout : i ∉ ids.filter (acc.2.pending.claimable minIdleMs now) := fun h =>
                hid (hi ▸ List.mem_of_mem_filter h)
              rw [if_neg hout, if_pos hi, if_pos (hi ▸ List.mem_cons_self)]
            · rw [if_neg hi]
              simp only [List.mem_cons, hi, false_or]

/-- A call claims its batch, and changes no other entry. -/
theorem autoClaimAt_spec {g : ConsumerGroup} (h : g.pending.Filed) (start : StreamId) (count : Nat)
    (t : Readings) :
    let claimed := (batch minIdleMs count g.pending.inOrder t start).map (·.id)
    let r := g.autoClaimAt consumer minIdleMs start count t
    r.1 = claimed ∧ r.2.1 = nextStart claimed ∧ r.2.2.pending.Filed ∧
      ∀ i, r.2.2.pending.entriesById.get? i =
        if i ∈ claimed then (g.pending.entriesById.get? i).map (.taken consumer t.moved)
        else g.pending.entriesById.get? i := by
  have hpicked : ((g.pending.getEntriesAfter start).filter fun e => decide (e.Idle minIdleMs t.found)) =
      g.pending.inOrder.filter fun e => decide (start < e.id ∧ e.Idle minIdleMs t.found) := by
    rw [PendingEntryList.getEntriesAfter, List.filter_filter]
    refine List.filter_congr fun e _ => ?_
    rw [Bool.and_comm, Bool.decide_and]
  let ids := (((g.pending.getEntriesAfter start).filter fun e =>
    decide (e.Idle minIdleMs t.found)).take count).map (·.id)
  have hnd : ids.Nodup := by
    have hsub : (((g.pending.getEntriesAfter start).filter fun e =>
        decide (e.Idle minIdleMs t.found)).take count).Sublist g.pending.inOrder :=
      (List.take_sublist _ _).trans (List.filter_sublist.trans List.filter_sublist)
    exact nodup_ids (h.pairwise_inOrder.sublist hsub)
  have hclaimed : ids.filter (g.pending.claimable minIdleMs t.claimed) =
      (batch minIdleMs count g.pending.inOrder t start).map (·.id) := by
    have hids : ids = ((g.pending.inOrder.filter fun e =>
        decide (start < e.id ∧ e.Idle minIdleMs t.found)).take count).map (·.id) := by
      rw [← hpicked]
    rw [hids, List.filter_map]
    refine congrArg _ (List.filter_congr fun e he => ?_)
    have hget := h.mem_inOrder.mp (List.mem_of_mem_filter (List.mem_of_mem_take he))
    simp only [Function.comp_apply, PendingEntryList.claimable, hget, Option.any_some]
  have hfold := foldl_claimOne consumer minIdleMs t.claimed t.moved hnd
    ([], (g.createConsumer consumer t.claimed).2)
  dsimp only at hfold
  rw [createConsumer_pending, hclaimed, List.nil_append] at hfold
  obtain ⟨hfst, hget⟩ := hfold
  refine ⟨hfst, congrArg nextStart hfst, ?_, hget⟩
  exact filed_claimMessages h consumer minIdleMs ids false t.claimed t.moved

end Call

end ConsumerGroup

/-! ## The walk of a run of calls -/

section Walk

variable (minIdleMs count : Nat)

/-- The IDs the calls from `start` on claim of a list; none as for `sweep`. -/
def walk (es : List PendingEntry) (clock : Nat → Readings) : Nat → Nat → StreamId → Option (List StreamId)
  | 0, _, _ => none
  | fuel + 1, call, start =>
      match (batch minIdleMs count es (clock call) start).getLast? with
      | none => some []
      | some last =>
          if 2 ^ 64 ≤ last.id.seq + 1 then none
          else (walk es clock fuel (call + 1) (StreamId.new last.id.millis (last.id.seq + 1))).map fun claims =>
            (batch minIdleMs count es (clock call) start).map (·.id) ++ claims

variable {es : List PendingEntry} {clock : Nat → Readings}

theorem pairwise_batch (hs : es.Pairwise fun a b => a.id < b.id) (t : Readings) (start : StreamId) :
    (batch minIdleMs count es t start).Pairwise fun a b => a.id < b.id :=
  hs.sublist (List.filter_sublist.trans ((List.take_sublist _ _).trans List.filter_sublist))

variable {minIdleMs count}

theorem mem_batch {t : Readings} {start : StreamId} {e : PendingEntry}
    (h : e ∈ batch minIdleMs count es t start) : e ∈ es ∧ start < e.id := by
  have hin := List.mem_filter.mp (List.mem_of_mem_take (List.mem_of_mem_filter h))
  exact ⟨hin.1, (of_decide_eq_true hin.2).1⟩

/-- The last of a batch has the greatest ID. -/
theorem le_last (hs : es.Pairwise fun a b => a.id < b.id) {t : Readings} {start : StreamId} {last : PendingEntry}
    (hlast : (batch minIdleMs count es t start).getLast? = some last) {e : PendingEntry}
    (he : e ∈ batch minIdleMs count es t start) : e.id ≤ last.id := by
  obtain ⟨init, hinit⟩ := List.getLast?_eq_some_iff.mp hlast
  have hpair := pairwise_batch minIdleMs count hs t start
  rw [hinit] at hpair he
  rcases List.mem_append.mp he with h | h
  · exact Nat.le_of_lt ((List.pairwise_append.mp hpair).2.2 e h last List.mem_cons_self)
  · rw [List.mem_singleton.mp h]
    exact Nat.le_refl _

/-- The ID behind one whose sequence number has a successor. -/
theorem lt_behind {i : StreamId} (h : i.seq + 1 < 2 ^ 64) {j : StreamId} :
    j < StreamId.new i.millis (i.seq + 1) ↔ j ≤ i := by
  have hi : i.packed = i.millis * 2 ^ 64 + i.seq := by
    rw [StreamId.millis, StreamId.seq]
    omega
  rw [StreamId.lt_iff, StreamId.le_iff, StreamId.packed_new i.millis_lt h, hi]
  omega

/-- The next start is behind the last one. -/
theorem start_lt_next {t : Readings} {start : StreamId} {last : PendingEntry}
    (hlast : (batch minIdleMs count es t start).getLast? = some last) (hbound : last.id.seq + 1 < 2 ^ 64) :
    start < StreamId.new last.id.millis (last.id.seq + 1) :=
  Nat.lt_trans (mem_batch (List.mem_of_getLast? hlast)).2 ((lt_behind hbound).mpr (Nat.le_refl last.id.packed))

/-- And the batch is not behind it. -/
theorem not_mem_of_next_lt (hs : es.Pairwise fun a b => a.id < b.id) {t : Readings} {start : StreamId}
    {last : PendingEntry} (hlast : (batch minIdleMs count es t start).getLast? = some last)
    (hbound : last.id.seq + 1 < 2 ^ 64) {i : StreamId} (hi : StreamId.new last.id.millis (last.id.seq + 1) < i) :
    i ∉ (batch minIdleMs count es t start).map (·.id) := by
  intro hb
  obtain ⟨e, he, rfl⟩ := List.mem_map.mp hb
  exact absurd ((lt_behind hbound).mpr (le_last hs hlast he)) (Nat.lt_asymm hi)

theorem walk_lt {fuel call : Nat} {start : StreamId} {claims : List StreamId}
    (h : walk minIdleMs count es clock fuel call start = some claims) : ∀ i ∈ claims, start < i := by
  induction fuel generalizing call start claims with
  | zero => cases h
  | succ fuel ih =>
      unfold walk at h
      split at h
      · cases h
        exact nofun
      · next last hlast =>
          split at h
          · cases h
          · next hseq =>
              obtain ⟨rest, hrest, rfl⟩ := Option.map_eq_some_iff.mp h
              intro i hi
              rcases List.mem_append.mp hi with hb | hr
              · obtain ⟨e, he, rfl⟩ := List.mem_map.mp hb
                exact (mem_batch he).2
              · exact Nat.lt_trans (start_lt_next hlast (by omega)) (ih hrest i hr)

/-! ### The list and the calls -/

theorem batch_cons_of_takes {t : Readings} {room : Nat} {start : StreamId} {e : PendingEntry} (es : List PendingEntry)
    (h : Takes minIdleMs t room start e) :
    batch minIdleMs room (e :: es) t start = e :: batch minIdleMs (room - 1) es t start := by
  obtain ⟨hroom, hstart, hfound, hclaimed⟩ := h
  obtain ⟨room, rfl⟩ := Nat.exists_eq_succ_of_ne_zero hroom.ne'
  have hpicked : decide (start < e.id ∧ e.Idle minIdleMs t.found) = true := decide_eq_true ⟨hstart, hfound⟩
  have hleft : decide (e.Idle minIdleMs t.claimed) = true := decide_eq_true hclaimed
  simp only [batch, List.filter_cons, hpicked, if_true, List.take_succ_cons, hleft]
  rfl

/-- An entry that is not taken may use up the room of the call all the same. -/
theorem batch_cons_of_not_takes {t : Readings} {room : Nat} {start : StreamId} {e : PendingEntry}
    (es : List PendingEntry) (h : ¬ Takes minIdleMs t room start e) :
    batch minIdleMs room (e :: es) t start =
      batch minIdleMs (if start < e.id ∧ e.Idle minIdleMs t.found then room - 1 else room) es t start := by
  by_cases hpicked : start < e.id ∧ e.Idle minIdleMs t.found
  · have htrue : decide (start < e.id ∧ e.Idle minIdleMs t.found) = true := decide_eq_true hpicked
    rw [if_pos hpicked]
    simp only [batch, List.filter_cons, htrue, if_true]
    cases room with
    | zero => rfl
    | succ room =>
        have hleft : decide (e.Idle minIdleMs t.claimed) = false :=
          decide_eq_false fun hclaimed => h ⟨room.succ_pos, hpicked.1, hpicked.2, hclaimed⟩
        simp only [List.take_succ_cons, List.filter_cons, hleft]
        rfl
  · have hfalse : decide (start < e.id ∧ e.Idle minIdleMs t.found) = false := decide_eq_false hpicked
    rw [if_neg hpicked]
    simp only [batch, List.filter_cons, hfalse]
    rfl

theorem takesNone_iff {t : Readings} {start : StreamId} (room : Nat) (hgt : ∀ f ∈ es, start < f.id) :
    TakesNone minIdleMs t room es ↔ batch minIdleMs room es t start = [] := by
  have hbehind : es.filter (fun f => decide (start < f.id ∧ f.Idle minIdleMs t.found)) =
      es.filter fun f => decide (f.Idle minIdleMs t.found) :=
    List.filter_congr fun f hf => decide_eq_decide.mpr (and_iff_right (hgt f hf))
  rw [batch, hbehind, List.filter_eq_nil_iff, TakesNone]
  simp only [decide_eq_true_eq]

/-- An entry is not among those behind a later one. -/
theorem filter_behind_cons {e last : PendingEntry} (es : List PendingEntry) (h : e.id < last.id) :
    (e :: es).filter (fun f => decide (last.id < f.id)) = es.filter fun f => decide (last.id < f.id) :=
  List.filter_cons_of_neg (mt of_decide_eq_true (Nat.lt_asymm h))

/-- A call does not notice that entries are gone which are not behind its start. -/
theorem batch_filter {left : PendingEntry → Bool} {start : StreamId}
    (hleft : ∀ e ∈ es, start < e.id → left e = true) (t : Readings) :
    batch minIdleMs count (es.filter left) t start = batch minIdleMs count es t start := by
  have hfilter : (es.filter left).filter (fun e => decide (start < e.id ∧ e.Idle minIdleMs t.found)) =
      es.filter fun e => decide (start < e.id ∧ e.Idle minIdleMs t.found) := by
    rw [List.filter_filter]
    refine List.filter_congr fun e he => ?_
    by_cases hlt : start < e.id
    · rw [hleft e he hlt, Bool.and_true]
    · rw [decide_eq_false (fun h => hlt h.1), Bool.false_and]
  rw [batch, hfilter, batch]

/-- The call under way loses nothing, and neither do those that follow it. -/
theorem clear_iff_batch (hs : es.Pairwise fun a b => a.id < b.id) (call room : Nat) (start : StreamId) :
    Clear minIdleMs count clock call room start es ↔
      match (batch minIdleMs room es (clock call) start).getLast? with
      | none => ∀ e ∈ es, ¬ e.Idle minIdleMs (clock 0).found
      | some last =>
          (∀ e ∈ es, e.id ≤ last.id → e.Idle minIdleMs (clock 0).found →
              e ∈ batch minIdleMs room es (clock call) start) ∧
            last.id.seq + 1 < 2 ^ 64 ∧
            Clear minIdleMs count clock (call + 1) count (StreamId.new last.id.millis (last.id.seq + 1))
              (es.filter fun e => last.id < e.id) := by
  induction es generalizing room with
  | nil =>
      have hnone : batch minIdleMs room [] (clock call) start = [] := by simp [batch]
      rw [hnone]
      exact iff_of_true trivial nofun
  | cons e es ih =>
      obtain ⟨hlt, hs⟩ := List.pairwise_cons.mp hs
      have hout {room : Nat} : e ∉ batch minIdleMs room es (clock call) start := fun h =>
        Nat.lt_irrefl _ (hlt e (mem_batch h).1)
      rw [Clear]
      by_cases htakes : Takes minIdleMs (clock call) room start e
      · have hgt : ∀ f ∈ es, start < f.id := fun f hf => Nat.lt_trans htakes.2.1 (hlt f hf)
        rw [if_pos htakes, batch_cons_of_takes es htakes, and_iff_right (fun _ => htakes)]
        cases hlast : (batch minIdleMs (room - 1) es (clock call) start).getLast? with
        | none =>
            -- the entry is the last that the call takes
            have hnone := List.getLast?_eq_none_iff.mp hlast
            have hrest : (e :: es).filter (fun f => decide (e.id < f.id)) = es := by
              rw [List.filter_cons_of_neg (by simp [StreamId.lt_iff])]
              exact List.filter_eq_self.mpr fun f hf => decide_eq_true (hlt f hf)
            rw [if_pos ((takesNone_iff _ hgt).mpr hnone), hnone]
            simp only [List.getLast?_singleton, hrest]
            refine (and_iff_right fun f hf hle _ => ?_).symm
            rcases List.mem_cons.mp hf with rfl | hf
            · exact List.mem_singleton.mpr rfl
            · exact absurd (hlt f hf) (StreamId.not_lt.mpr hle)
        | some last =>
            have hne : batch minIdleMs (room - 1) es (clock call) start ≠ [] := by
              intro hnil
              rw [hnil] at hlast
              cases hlast
            have hmem := mem_batch (List.mem_of_getLast? hlast)
            have hlast' : (e :: batch minIdleMs (room - 1) es (clock call) start).getLast? = some last := by
              rw [List.getLast?_cons, hlast]
              rfl
            have hrest := filter_behind_cons es (hlt last hmem.1)
            rw [if_neg (mt (takesNone_iff _ hgt).mp hne), ih hs, hlast, hlast']
            simp only [hrest]
            refine and_congr_left fun _ => ?_
            constructor
            · intro h f hf hle hidle
              rcases List.mem_cons.mp hf with rfl | hf
              · exact List.mem_cons_self
              · exact List.mem_cons_of_mem _ (h f hf hle hidle)
            · intro h f hf hle hidle
              refine (List.mem_cons.mp (h f (List.mem_cons_of_mem _ hf) hle hidle)).resolve_left ?_
              rintro rfl
              exact Nat.lt_irrefl _ (hlt f hf)
      · have hskip : (if start < e.id ∧ e.Idle minIdleMs (clock call).found then
              Clear minIdleMs count clock call (room - 1) start es
            else Clear minIdleMs count clock call room start es) ↔
            Clear minIdleMs count clock call
              (if start < e.id ∧ e.Idle minIdleMs (clock call).found then room - 1 else room) start es := by
          split <;> rfl
        rw [if_neg htakes, batch_cons_of_not_takes es htakes, hskip, ih hs]
        generalize (if start < e.id ∧ e.Idle minIdleMs (clock call).found then room - 1 else room) = room'
        cases hlast : (batch minIdleMs room' es (clock call) start).getLast? with
        | none =>
            rw [List.forall_mem_cons]
            exact and_congr_left fun _ => ⟨fun h hidle => htakes (h hidle), fun h hidle => absurd hidle h⟩
        | some last =>
            have hmem := mem_batch (List.mem_of_getLast? hlast)
            have hle := Nat.le_of_lt (hlt last hmem.1)
            have hrest := filter_behind_cons es (hlt last hmem.1)
            simp only [hrest, List.forall_mem_cons]
            rw [← and_assoc]
            refine and_congr_left fun _ => and_congr_left fun _ => ?_
            constructor
            · exact fun h _ hidle => absurd (h hidle) htakes
            · exact fun h hidle => absurd (h hle hidle) hout

/-- Of a list that the calls have come through to `start`, what is left is clear exactly if
the calls from there on lose nothing, and nothing is left that they do not look at. -/
theorem clear_iff_smooth (hs : es.Pairwise fun a b => a.id < b.id) {left : PendingEntry → Bool} {start : StreamId}
    (hleft : ∀ e ∈ es, start < e.id → left e = true) (call : Nat) :
    Clear minIdleMs count clock call count start (es.filter left) ↔
      (∀ e ∈ es.filter left, e.id ≤ start → ¬ e.Idle minIdleMs (clock 0).found) ∧
        Smooth minIdleMs count es clock call start := by
  induction hn : (es.filter left).length using Nat.strong_induction_on generalizing left call start with
  | h n ih =>
      have hin {e : PendingEntry} (he : e ∈ es) (hlt : start < e.id) : e ∈ es.filter left :=
        List.mem_filter.mpr ⟨he, hleft e he hlt⟩
      rw [clear_iff_batch (hs.sublist List.filter_sublist), batch_filter hleft]
      cases hlast : (batch minIdleMs count es (clock call) start).getLast? with
      | none =>
          dsimp only
          constructor
          · intro h
            exact ⟨fun e he _ => h e he, .stop (List.getLast?_eq_none_iff.mp hlast) fun e he hlt => h e (hin he hlt)⟩
          · rintro ⟨hbefore, hsmooth⟩ e he
            cases hsmooth with
            | stop _ hno =>
                rcases Nat.lt_or_ge start.packed e.id.packed with hlt | hle
                · exact hno e (List.mem_of_mem_filter he) hlt
                · exact hbefore e he hle
            | go last hsome => cases hlast.symm.trans hsome
      | some last =>
          dsimp only
          obtain ⟨hmem, hstart⟩ := mem_batch (List.mem_of_getLast? hlast)
          -- behind the last entry that the call takes less is left
          have hshort : ((es.filter left).filter fun e => decide (last.id < e.id)).length < n := by
            rw [← hn, List.length_filter_lt_length_iff_exists]
            exact ⟨last, hin hmem hstart, by simp [StreamId.lt_iff]⟩
          have hnext (hbound : last.id.seq + 1 < 2 ^ 64) :
              Clear minIdleMs count clock (call + 1) count (StreamId.new last.id.millis (last.id.seq + 1))
                  ((es.filter left).filter fun e => decide (last.id < e.id)) ↔
                (∀ e ∈ (es.filter left).filter fun e => decide (last.id < e.id),
                    e.id ≤ StreamId.new last.id.millis (last.id.seq + 1) → ¬ e.Idle minIdleMs (clock 0).found) ∧
                  Smooth minIdleMs count es clock (call + 1) (StreamId.new last.id.millis (last.id.seq + 1)) := by
            rw [List.filter_filter] at hshort ⊢
            refine ih _ hshort (fun e he hlt => ?_) (call + 1) rfl
            have hbehind := Nat.lt_trans ((lt_behind hbound).mpr (Nat.le_refl last.id.packed)) hlt
            rw [Bool.and_eq_true]
            exact ⟨decide_eq_true hbehind, hleft e he (Nat.lt_trans hstart hbehind)⟩
          constructor
          · rintro ⟨hkeep, hbound, hclear⟩
            obtain ⟨hgap, hsmooth⟩ := (hnext hbound).mp hclear
            refine ⟨fun e he hle hidle => ?_, .go last hlast hbound (fun e he hlt hle hidle => ?_) hsmooth⟩
            · have hkept := mem_batch (hkeep e he (Nat.le_trans hle (Nat.le_of_lt hstart)) hidle)
              exact StreamId.not_lt.mpr hle hkept.2
            · rcases Nat.lt_or_ge last.id.packed e.id.packed with hbehind | hbefore
              · exact absurd hidle (hgap e (List.mem_filter.mpr ⟨hin he hlt, decide_eq_true hbehind⟩) hle)
              · exact hkeep e (hin he hlt) hbefore hidle
          · rintro ⟨hbefore, hsmooth⟩
            cases hsmooth with
            | stop hnone =>
                rw [hnone] at hlast
                cases hlast
            | go last' hlast' hbound hkeep hrest =>
                obtain rfl := Option.some.inj (hlast'.symm.trans hlast)
                have hsucc := Nat.le_of_lt ((lt_behind hbound).mpr (Nat.le_refl last'.id.packed))
                refine ⟨fun e he hle hidle => ?_, hbound, (hnext hbound).mpr ⟨fun e he hle hidle => ?_, hrest⟩⟩
                · rcases Nat.lt_or_ge start.packed e.id.packed with hlt | hle'
                  · exact hkeep e (List.mem_of_mem_filter he) hlt (Nat.le_trans hle hsucc) hidle
                  · exact absurd hidle (hbefore e he hle')
                · obtain ⟨hin', hbehind⟩ := List.mem_filter.mp he
                  have hbehind := of_decide_eq_true hbehind
                  have hkept := hkeep e (List.mem_of_mem_filter hin') (Nat.lt_trans hstart hbehind) hle hidle
                  exact StreamId.not_lt.mpr (le_last hs hlast hkept) hbehind

/-- Calls that claim every entry idle at the beginning have lost none on the way. -/
theorem smooth_of_walk (hs : es.Pairwise fun a b => a.id < b.id) {fuel call : Nat} {start : StreamId}
    {claims : List StreamId} (h : walk minIdleMs count es clock fuel call start = some claims)
    (hall : ∀ e ∈ es, start < e.id → e.Idle minIdleMs (clock 0).found → e.id ∈ claims) :
    Smooth minIdleMs count es clock call start := by
  induction fuel generalizing call start claims with
  | zero => cases h
  | succ fuel ih =>
      unfold walk at h
      split at h
      · next hnone =>
          cases h
          exact .stop (List.getLast?_eq_none_iff.mp hnone) fun e he hlt hidle =>
            absurd (hall e he hlt hidle) List.not_mem_nil
      · next last hlast =>
          split at h
          · cases h
          · next hseq =>
              obtain ⟨rest, hrest, rfl⟩ := Option.map_eq_some_iff.mp h
              have hbound : last.id.seq + 1 < 2 ^ 64 := by omega
              refine .go last hlast hbound (fun e he hlt hle hidle => ?_) (ih hrest fun e he hlt hidle => ?_)
              · -- the calls that follow claim only what lies behind the new start
                rcases List.mem_append.mp (hall e he hlt hidle) with hb | hr
                · obtain ⟨e', he', hid⟩ := List.mem_map.mp hb
                  have heq := List.inj_on_of_nodup_map (nodup_ids hs) (mem_batch he').1 he hid
                  exact heq ▸ he'
                · exact absurd hle (StreamId.not_le.mpr (walk_lt hrest _ hr))
              · have hmem := hall e he (Nat.lt_trans (start_lt_next hlast hbound) hlt) hidle
                exact (List.mem_append.mp hmem).resolve_left (not_mem_of_next_lt hs hlast hbound hlt)

/-- Calls that lose nothing end, and claim every entry that was idle at the beginning. -/
theorem Smooth.walk (hs : es.Pairwise fun a b => a.id < b.id) {call : Nat} {start : StreamId}
    (h : Smooth minIdleMs count es clock call start) :
    ∃ fuel claims, walk minIdleMs count es clock fuel call start = some claims ∧
      ∀ e ∈ es, start < e.id → e.Idle minIdleMs (clock 0).found → claims.count e.id = 1 := by
  induction h with
  | stop hnone hno =>
      refine ⟨1, [], ?_, fun e he hlt hidle => absurd hidle (hno e he hlt)⟩
      rw [Ferrous.walk, List.getLast?_eq_none_iff.mpr hnone]
  | @go call start last hlast hbound hkeep _ ih =>
      obtain ⟨fuel, rest, hrest, hcount⟩ := ih
      refine ⟨fuel + 1, (batch minIdleMs count es (clock call) start).map (·.id) ++ rest, ?_, ?_⟩
      · rw [Ferrous.walk, hlast]
        dsimp only
        rw [if_neg (by omega), hrest]
        rfl
      · intro e he hlt hidle
        have hnodup := nodup_ids (pairwise_batch minIdleMs count hs (clock call) start)
        rw [List.count_append]
        rcases Nat.lt_or_ge (StreamId.new last.id.millis (last.id.seq + 1)).packed e.id.packed with hfar | hnear
        · have hout := not_mem_of_next_lt hs hlast hbound hfar
          rw [List.count_eq_zero_of_not_mem hout, hcount e he hfar hidle]
        · have hin : e.id ∈ (batch minIdleMs count es (clock call) start).map (·.id) :=
            List.mem_map_of_mem (hkeep e he hlt hnear hidle)
          have hout : e.id ∉ rest := fun hr => absurd hnear (Nat.not_le.mpr (walk_lt hrest _ hr))
          rw [List.count_eq_zero_of_not_mem hout, List.count_eq_one_of_mem hnodup hin]

end Walk

/-! ## The calls do as the walk -/

/-- What a call claims depends only on the entries behind its start. -/
theorem batch_congr {p p' : PendingEntryList} (h : p.Filed) (h' : p'.Filed) {start : StreamId}
    (hsame : ∀ i, start < i → p'.entriesById.get? i = p.entriesById.get? i) (minIdleMs count : Nat) (t : Readings) :
    batch minIdleMs count p'.inOrder t start = batch minIdleMs count p.inOrder t start := by
  have hfilter : (p'.inOrder.filter fun e => decide (start < e.id ∧ e.Idle minIdleMs t.found)) =
      p.inOrder.filter fun e => decide (start < e.id ∧ e.Idle minIdleMs t.found) := by
    have hsub {l : List PendingEntry} (hl : l.Pairwise fun a b => a.id < b.id) :
        (l.filter fun e => decide (start < e.id ∧ e.Idle minIdleMs t.found)).Pairwise fun a b => a.id < b.id :=
      hl.sublist List.filter_sublist
    have hnd := (nodup_ids (hsub h.pairwise_inOrder)).of_map
    have hnd' := (nodup_ids (hsub h'.pairwise_inOrder)).of_map
    refine List.Perm.eq_of_pairwise (fun a b _ _ hab hba => absurd hab (Nat.lt_asymm hba))
      (hsub h'.pairwise_inOrder) (hsub h.pairwise_inOrder) ((List.perm_ext_iff_of_nodup hnd' hnd).mpr fun e => ?_)
    simp only [List.mem_filter, h.mem_inOrder, h'.mem_inOrder, decide_eq_true_eq]
    refine and_congr_left fun hin => ?_
    rw [hsame e.id hin.1]
  rw [batch, hfilter, batch]

namespace ConsumerGroup

variable {consumer : String} {minIdleMs count : Nat} {clock : Nat → Readings}

/-- What a call does to the owners, if nothing behind its start was touched before. -/
theorem owner_autoClaimAt {p : PendingEntryList} (hp : p.Filed) {start : StreamId} {g : ConsumerGroup}
    (hg : g.pending.Filed) (hsame : ∀ i, start < i → g.pending.entriesById.get? i = p.entriesById.get? i)
    (t : Readings) (i : StreamId) :
    (g.autoClaimAt consumer minIdleMs start count t).2.2.pending.owner? i =
      if i ∈ (batch minIdleMs count p.inOrder t start).map (·.id) then some consumer
      else g.pending.owner? i := by
  have hspec := autoClaimAt_spec consumer minIdleMs hg start count t
  rw [batch_congr hp hg hsame] at hspec
  rw [PendingEntryList.owner?, hspec.2.2.2 i]
  split
  · next hi =>
      obtain ⟨e, he, rfl⟩ := List.mem_map.mp hi
      have hin := mem_batch he
      rw [hsame e.id hin.2, hp.mem_inOrder.mp hin.1]
      rfl
  · rfl

/-- The next start of a call that claims something. -/
theorem next_of_last {claimed : List PendingEntry} {last : PendingEntry} (hlast : claimed.getLast? = some last) :
    seqOverflows (claimed.map (·.id)) = decide (2 ^ 64 ≤ last.id.seq + 1) ∧
      nextStart (claimed.map (·.id)) = StreamId.new last.id.millis (last.id.seq + 1) := by
  have hids : (claimed.map (·.id)).getLast? = some last.id := by
    rw [List.getLast?_map, hlast]
    rfl
  rw [seqOverflows, nextStart, hids, Option.any_some]
  exact ⟨rfl, rfl⟩

/-- Over a list that only the calls change, they claim what the walk says, and what they
claimed is the consumer's. -/
theorem sweep_spec {p : PendingEntryList} (hp : p.Filed) (fuel call : Nat) (start : StreamId) {g : ConsumerGroup}
    (hg : g.pending.Filed) (hsame : ∀ i, start < i → g.pending.entriesById.get? i = p.entriesById.get? i) :
    (sweep consumer minIdleMs count clock fuel call start g).map Prod.fst =
      walk minIdleMs count p.inOrder clock fuel call start ∧
    ∀ claims g', sweep consumer minIdleMs count clock fuel call start g = some (claims, g') →
      ∀ i, g'.pending.owner? i = if i ∈ claims then some consumer else g.pending.owner? i := by
  induction fuel generalizing call start g with
  | zero => exact ⟨rfl, fun _ _ h => by cases h⟩
  | succ fuel ih =>
      have hspec := autoClaimAt_spec consumer minIdleMs hg start count (clock call)
      rw [batch_congr hp hg hsame] at hspec
      have howner := @owner_autoClaimAt consumer minIdleMs count p hp start g hg hsame (clock call)
      unfold sweep walk
      generalize hr : g.autoClaimAt consumer minIdleMs start count (clock call) = r at hspec howner
      obtain ⟨claimed, next, g'⟩ := r
      obtain ⟨rfl, rfl, hfiled, hget⟩ := hspec
      dsimp only at hget howner hfiled ⊢
      cases hlast : (batch minIdleMs count p.inOrder (clock call) start).getLast? with
      | none =>
          rw [List.getLast?_eq_none_iff] at hlast
          rw [hlast] at howner ⊢
          refine ⟨rfl, fun claims g'' h => ?_⟩
          cases h
          exact howner
      | some last =>
          obtain ⟨hover, hnext⟩ := next_of_last hlast
          rw [hover, hnext]
          dsimp only
          by_cases hseq : 2 ^ 64 ≤ last.id.seq + 1
          · rw [if_pos (decide_eq_true hseq), if_pos hseq]
            exact ⟨rfl, fun _ _ h => by cases h⟩
          · have hbound : last.id.seq + 1 < 2 ^ 64 := by omega
            have hadvance := start_lt_next hlast hbound
            have hzero : StreamId.new last.id.millis (last.id.seq + 1) ≠ StreamId.new 0 0 := by
              intro h0
              rw [h0] at hadvance
              exact absurd hadvance (Nat.not_lt_zero _)
            rw [if_neg (by rw [decide_eq_true_eq]; exact hseq), if_neg hzero, if_neg hseq]
            -- what is behind the new start has not been touched
            have hsame' : ∀ i, StreamId.new last.id.millis (last.id.seq + 1) < i →
                g'.pending.entriesById.get? i = p.entriesById.get? i := by
              intro i hi
              rw [hget, if_neg (not_mem_of_next_lt hp.pairwise_inOrder hlast hbound hi)]
              exact hsame i (Nat.lt_trans hadvance hi)
            obtain ⟨hfst, hrest⟩ := ih (call + 1) _ hfiled hsame'
            refine ⟨?_, fun claims g'' h i => ?_⟩
            · rw [← hfst, Option.map_map, Option.map_map]
              rfl
            · obtain ⟨⟨rest, g₂⟩, hsweep, heq⟩ := Option.map_eq_some_iff.mp h
              cases heq
              rw [hrest rest g₂ hsweep i, howner i]
              by_cases hr : i ∈ rest
              · rw [if_pos hr, if_pos (List.mem_append_right _ hr)]
              · rw [if_neg hr]
                simp only [List.mem_append, hr, or_false]

/-- The entry with ID `0-0` is behind no start ID. -/
theorem sweptOnce_iff {g : ConsumerGroup} (hg : g.pending.Filed) :
    g.SweptOnce consumer minIdleMs count clock ↔
      (∀ e ∈ g.pending.inOrder, e.id = StreamId.min → ¬ e.Idle minIdleMs (clock 0).found) ∧
        Smooth minIdleMs count g.pending.inOrder clock 0 StreamId.min := by
  have hsorted := hg.pairwise_inOrder
  constructor
  · rintro ⟨fuel, claims, g', hsweep, hall⟩
    obtain ⟨hfst, -⟩ := @sweep_spec consumer minIdleMs count clock _ hg fuel 0 StreamId.min _ hg fun _ _ => rfl
    rw [hsweep] at hfst
    have hwalk := hfst.symm
    have hmem (e : PendingEntry) (he : e ∈ g.pending.inOrder) (hidle : e.Idle minIdleMs (clock 0).found) :
        e.id ∈ claims := by
      refine List.count_pos_iff.mp ?_
      rw [(hall e.id e (hg.mem_inOrder.mp he) hidle).1]
      exact Nat.one_pos
    refine ⟨fun e he h0 hidle => ?_, smooth_of_walk hsorted hwalk fun e he _ hidle => hmem e he hidle⟩
    have hlt := walk_lt hwalk e.id (hmem e he hidle)
    rw [h0] at hlt
    exact absurd hlt (Nat.lt_irrefl _)
  · rintro ⟨hzero, hsmooth⟩
    obtain ⟨fuel, claims, hwalk, hcount⟩ := hsmooth.walk hsorted
    obtain ⟨hfst, hown⟩ := @sweep_spec consumer minIdleMs count clock _ hg fuel 0 StreamId.min _ hg fun _ _ => rfl
    rw [hwalk] at hfst
    obtain ⟨⟨claims', g'⟩, hsweep, rfl⟩ := Option.map_eq_some_iff.mp hfst
    refine ⟨fuel, claims', g', hsweep, fun id e he hidle => ?_⟩
    have hid := hg.keyed id e he
    subst hid
    have hin := hg.mem_inOrder.mpr he
    have hlt : StreamId.min < e.id := by
      refine Nat.pos_of_ne_zero fun h0 => hzero e hin ?_ hidle
      exact StreamId.ext_iff'.mpr h0
    have hone := hcount e hin hlt hidle
    refine ⟨hone, ?_⟩
    rw [hown claims' g' hsweep e.id, if_pos]
    exact List.count_pos_iff.mp (by rw [hone]; exact Nat.one_pos)

end ConsumerGroup

/-- The calls over a group claim every idle entry once exactly if its list is clear. -/
theorem ConsumerGroup.sweptOnce_iff_clear {g : ConsumerGroup} (hg : g.pending.Filed) (consumer : String)
    (minIdleMs count : Nat) (clock : Nat → Readings) :
    g.SweptOnce consumer minIdleMs count clock ↔
      Clear minIdleMs count clock 0 count StreamId.min g.pending.inOrder := by
  have hclear : Clear minIdleMs count clock 0 count StreamId.min
      (g.pending.inOrder.filter fun _ => true) ↔ _ :=
    clear_iff_smooth hg.pairwise_inOrder (fun _ _ _ => rfl) 0
  rw [List.filter_true] at hclear
  rw [sweptOnce_iff hg, hclear]
  refine and_congr_left fun _ => forall_congr' fun e => forall_congr' fun _ => ?_
  rw [StreamId.ext_iff', StreamId.le_iff]
  exact imp_congr_left Nat.le_zero.symm

/-- Entries that were idle stay so while the clock does not run back. -/
theorem PendingEntry.Idle.mono {e : PendingEntry} {minIdleMs now later : Nat} (h : e.Idle minIdleMs now)
    (hle : now ≤ later) : e.Idle minIdleMs later :=
  Nat.le_trans h (Nat.div_le_div_right (Nat.sub_le_sub_right hle _))

/-- Over a clock that does not run back, entries behind the start of which none is the
neighbour of another are clear for calls of any positive count. -/
theorem clear_of_apart {minIdleMs count : Nat} {clock : Nat → Readings} (hcount : 0 < count)
    (hclock : ∀ call, (clock 0).found ≤ (clock call).found ∧ (clock call).found ≤ (clock call).claimed)
    {es : List PendingEntry} (hs : es.Pairwise fun a b => a.id < b.id)
    (hseq : ∀ e ∈ es, e.id.seq + 1 < 2 ^ 64)
    (hapart : es.Pairwise fun a b => b.id ≠ StreamId.new a.id.millis (a.id.seq + 1))
    (call : Nat) {room : Nat} (hroom : 0 < room) {start : StreamId} (hstart : ∀ e ∈ es, start < e.id) :
    Clear minIdleMs count clock call room start es := by
  induction es generalizing call room start with
  | nil => trivial
  | cons e es ih =>
      obtain ⟨hlt, hs⟩ := List.pairwise_cons.mp hs
      obtain ⟨hne, hapart⟩ := List.pairwise_cons.mp hapart
      obtain ⟨he, hes⟩ := List.forall_mem_cons.mp hstart
      have hseq' := fun f hf => hseq f (List.mem_cons_of_mem e hf)
      have htakes (hfound : e.Idle minIdleMs (clock call).found) : Takes minIdleMs (clock call) room start e :=
        ⟨hroom, he, hfound, hfound.mono (hclock call).2⟩
      refine ⟨fun hidle => htakes (hidle.mono (hclock call).1), ?_⟩
      split
      · split
        · have hbound := hseq e List.mem_cons_self
          refine ⟨hbound, ih hs hseq' hapart (call + 1) hcount fun f hf => ?_⟩
          have hle : StreamId.new e.id.millis (e.id.seq + 1) ≤ f.id :=
            StreamId.not_lt.mp fun h => Nat.not_lt_of_le ((lt_behind hbound).mp h) (hlt f hf)
          exact Nat.lt_of_le_of_ne hle fun heq => hne f hf (StreamId.ext_iff'.mpr heq.symm)
        · next hmore =>
            refine ih hs hseq' hapart call (Nat.pos_of_ne_zero fun h0 => hmore ?_) hes
            rw [h0]
            exact fun f hf => absurd hf (by simp)
      · next hnot =>
          rw [if_neg fun h => hnot (htakes h.2)]
          exact ih hs hseq' hapart call hroom hes

namespace StreamRun

/-- Over any group of a run the calls claim every entry that was idle, once, exactly if its
list and the readings of the clock are such that nothing is lost. -/
theorem auto_claim_sweeps_iff (ops : List StreamOp) (group : String) (g : ConsumerGroup)
    (hg : (ops.foldl step initial).stream.consumerGroups.get? group = some g) (consumer : String)
    (minIdleMs count : Nat) (clock : Nat → Readings) :
    g.SweptOnce consumer minIdleMs count clock ↔
      Clear minIdleMs count clock 0 count StreamId.min g.pending.inOrder :=
  ConsumerGroup.sweptOnce_iff_clear (groupsFiled_run ops group g hg) consumer minIdleMs count clock

/-- Calls of one entry each over `1-0` and `2-0`. -/
theorem auto_claim_sweeps_spread :
    ∃ g, (readByAlice.foldl step initial).stream.consumerGroups.get? "g" = some g ∧
      g.SweptOnce "bob" 0 1 fun _ => ⟨5, 5, 5⟩ := by
  have hentries : (((readByAlice.foldl step initial).stream.consumerGroups.get? "g").map (·.pending.inOrder)) =
      some [⟨StreamId.new 1 0, "alice", 0, 1, 0⟩, ⟨StreamId.new 2 0, "alice", 0, 1, 0⟩] := by
    rfl
  obtain ⟨g, hg, hlist⟩ := Option.map_eq_some_iff.mp hentries
  refine ⟨g, hg, (auto_claim_sweeps_iff readByAlice "g" g hg "bob" 0 1 fun _ => ⟨5, 5, 5⟩).mpr ?_⟩
  rw [hlist]
  exact clear_of_apart Nat.one_pos (fun _ => ⟨le_rfl, le_rfl⟩) (by decide) (by decide) (by decide) 0 Nat.one_pos
    (by decide)

/-- Two entries of one millisecond, read by one consumer. -/
def adjacentByAlice : List StreamOp :=
  [.addAuto oneField 1, .addAuto oneField 1, .group (.create "g" (some StreamId.min)) (.at 0),
    .group (.readGroup "g" "alice" StreamId.max none false) (.at 0)]

/-- Calls of one entry each pass over the second of two neighbours. -/
theorem auto_claim_passes_over :
    ∃ g, (adjacentByAlice.foldl step initial).stream.consumerGroups.get? "g" = some g ∧
      ¬ g.SweptOnce "bob" 0 1 fun _ => ⟨5, 5, 5⟩ := by
  have hentries : (((adjacentByAlice.foldl step initial).stream.consumerGroups.get? "g").map (·.pending.inOrder)) =
      some [⟨StreamId.new 1 0, "alice", 0, 1, 0⟩, ⟨StreamId.new 1 1, "alice", 0, 1, 0⟩] := by
    rfl
  obtain ⟨g, hg, hlist⟩ := Option.map_eq_some_iff.mp hentries
  refine ⟨g, hg, ?_⟩
  rw [ConsumerGroup.sweptOnce_iff_clear (groupsFiled_run adjacentByAlice "g" g hg), hlist]
  decide

end StreamRun

end Ferrous
