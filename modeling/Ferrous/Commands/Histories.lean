/-
# `Commands.Histories` — reading what one has been given

XREADGROUP with an ID instead of `>` is meant to show a consumer what it has not
acknowledged.  `read_group` takes the same way as for new entries: it selects from the
stream, whoever the entries are pending for, and hands out what it has selected once
more.  So the read shows the history where the stream happens to hold nothing else
behind the ID, and leaves the group alone where it hands nothing out.
-/
import Ferrous.Commands.GroupReads
import Ferrous.Storage.PendingEntries

namespace Ferrous

open Lib Args

/-! ## The history of a consumer -/

/-- As many as the count asks for. -/
def upTo {α : Type} (count : Option Nat) (xs : List α) : List α :=
  match count with
  | some n => xs.take n
  | none => xs

/-- There are none because there were none, or because none were asked for. -/
theorem upTo_eq_nil_iff {α : Type} {count : Option Nat} {xs : List α} :
    upTo count xs = [] ↔ count = some 0 ∨ xs = [] := by
  cases count with
  | some n => rw [upTo, List.take_eq_nil_iff, Option.some_inj]
  | none => simp [upTo]

theorem map_upTo {α β : Type} (f : α → β) (count : Option Nat) (xs : List α) :
    (upTo count xs).map f = upTo count (xs.map f) := by
  cases count with
  | some n => exact List.map_take
  | none => rfl

/-- The IDs pending for a consumer behind an ID, in order, as many as the count asks for. -/
def PendingEntryList.history (p : PendingEntryList) (consumer : String) (after : StreamId)
    (count : Option Nat) : List StreamId :=
  upTo count (p.ids.filter fun id => decide (p.owner? id = some consumer) && decide (after < id))

/-- A consumer has no history because nothing of it is pending there. -/
theorem PendingEntryList.history_eq_nil_iff (p : PendingEntryList) (consumer : String)
    (after : StreamId) (count : Option Nat) :
    p.history consumer after count = [] ↔
      count = some 0 ∨ ∀ id, p.owner? id = some consumer → ¬ after < id := by
  rw [history, upTo_eq_nil_iff, List.filter_eq_nil_iff]
  refine or_congr Iff.rfl (forall_congr' fun id => ?_)
  rw [mem_ids, Bool.and_eq_true, decide_eq_true_eq, decide_eq_true_eq, not_and]
  constructor
  · exact fun h hown => h (by rw [hown]; nofun) hown
  · exact fun h _ hown => h hown

/-- Nothing is different for the others: their pending entries, the cursor of the group and
the number of pending entries, counted and listed. -/
structure ConsumerGroup.Undisturbed (consumer : String) (g g' : ConsumerGroup) : Prop where
  others : ∀ id e, e.consumer ≠ consumer →
    (g'.pending.entriesById.get? id = some e ↔ g.pending.entriesById.get? id = some e)
  cursor : g'.lastDeliveredId = g.lastDeliveredId
  total : g'.totalPending = g.totalPending
  listed : g'.pending.len = g.pending.len

theorem ConsumerGroup.Undisturbed.refl (consumer : String) (g : ConsumerGroup) :
    g.Undisturbed consumer g :=
  ⟨fun _ _ _ => Iff.rfl, rfl, rfl, rfl⟩

/-- Handing out entries again counts them again. -/
theorem ConsumerGroup.not_undisturbed_addPending (g : ConsumerGroup) (consumer : String)
    {es : List StreamEntry} (hes : es ≠ []) (now : Nat) :
    ¬ g.Undisturbed consumer (g.addPending consumer es now) := by
  intro h
  have htotal := h.total
  have hpos := List.length_pos_iff.mpr hes
  rw [addPending_totalPending] at htotal
  omega

/-- The ID behind which a read looks; the greatest one stands for the cursor of the group. -/
def ConsumerGroup.readsBehind (g : ConsumerGroup) (after : StreamId) : StreamId :=
  if after = StreamId.max then g.lastDeliveredId else after

namespace Stream

/-- What was read is the history of the consumer, and nobody else notices. -/
structure ShowsHistory (s : Stream) (g : ConsumerGroup) (group consumer : String) (after : StreamId)
    (count : Option Nat) (r : List StreamEntry × Stream) : Prop where
  answer : r.1.map (·.id) = g.pending.history consumer after count
  stored : ∀ e ∈ r.1, e ∈ s.entries
  entries : r.2.entries = s.entries
  group : ∃ g', r.2.consumerGroups.get? group = some g' ∧ g.Undisturbed consumer g'

/-- The entries stored behind an ID: those from the first that is not below it, which is left
out if the ID is its own. -/
def behind (s : Stream) (id : StreamId) : List StreamEntry :=
  let rest := s.entries.dropWhile fun e => e.id < id
  if rest.head?.map (·.id) = some id then rest.tail else rest

/-- Nothing is asked for; or nothing is stored behind the ID and nothing of the consumer is
pending there; or, under NOACK, what is stored behind the ID is what is pending for the
consumer there, as far as the count goes. -/
def HistoryOnly (s : Stream) (g : ConsumerGroup) (consumer : String) (after : StreamId)
    (count : Option Nat) (noack : Bool) : Prop :=
  count = some 0 ∨
    (s.behind (g.readsBehind after) = [] ∧ ∀ id, g.pending.owner? id = some consumer → ¬ after < id) ∨
    (noack = true ∧
      upTo count ((s.behind (g.readsBehind after)).map (·.id)) = g.pending.history consumer after count)

/-! ## A read of the group -/

/-- What a read answers and leaves. -/
theorem readGroup_eq {s : Stream} {group : String} {g : ConsumerGroup}
    (hg : s.consumerGroups.get? group = some g) (consumer : String) (after : StreamId) (count : Option Nat)
    (noack : Bool) (now : Nat) :
    s.readGroup group consumer after count noack now =
      .ok (s.groupEntries g after count,
        if noack = true ∨ s.groupEntries g after count = [] then s
        else s.setGroup group (g.addPending consumer (s.groupEntries g after count) now)) := by
  simp only [readGroup, hg]
  change (if !noack && !(s.groupEntries g after count).isEmpty then
      Except.ok (s.groupEntries g after count,
        s.setGroup group (g.addPending consumer (s.groupEntries g after count) now))
    else .ok (s.groupEntries g after count, s)) = _
  by_cases h : noack = true ∨ s.groupEntries g after count = []
  · rw [if_pos h, if_neg]
    rcases h with h | h <;> simp [h]
  · rw [if_neg h, if_pos]
    simpa [not_or] using h

/-- The position the search gives is where the entries behind the ID begin. -/
theorem drop_eq_behind (s : Stream) (after : StreamId) :
    s.entries.drop (if foundAt s.entries after then lowerBound s.entries after + 1
      else lowerBound s.entries after) = s.behind after := by
  have hrest : s.entries.drop (lowerBound s.entries after) = s.entries.dropWhile (·.id < after) := by
    have hsplit := congrArg (List.drop (lowerBound s.entries after))
      (List.takeWhile_append_dropWhile : _ ++ s.entries.dropWhile (·.id < after) = s.entries)
    exact hsplit.symm.trans List.drop_left
  have hfound : foundAt s.entries after = true ↔
      (s.entries.dropWhile (·.id < after)).head?.map (·.id) = some after := by
    rw [foundAt, beq_iff_eq, ← hrest, List.head?_drop]
  unfold behind
  by_cases h : foundAt s.entries after = true
  · rw [if_pos h, if_pos (hfound.mp h), ← hrest, List.tail_drop]
  · rw [if_neg h, if_neg (mt hfound.mpr h), hrest]

/-- In a stream that is in order these are the entries with greater IDs. -/
theorem behind_eq_filter {s : Stream} (h : s.entries.Pairwise fun a b => a.id < b.id) (id : StreamId) :
    s.behind id = s.entries.filter fun e => id < e.id := by
  rw [← drop_eq_behind, drop_after h]

/-- A read selects what is stored behind its ID, as many as the count asks for. -/
theorem rangeAfter_eq_upTo (s : Stream) (after : StreamId) (count : Option Nat) :
    s.rangeAfter after count = upTo count (s.behind after) := by
  rw [rangeAfter, drop_eq_behind]
  cases count with
  | some n => rfl
  | none =>
      have hle : (s.behind after).length ≤ s.entries.length := by
        rw [← drop_eq_behind, List.length_drop]
        omega
      exact List.take_of_length_le hle

theorem groupEntries_eq (s : Stream) (g : ConsumerGroup) (after : StreamId) (count : Option Nat) :
    s.groupEntries g after count = upTo count (s.behind (g.readsBehind after)) := by
  unfold groupEntries ConsumerGroup.readsBehind
  split <;> exact rangeAfter_eq_upTo _ _ _

/-- The condition, by what the read selects. -/
theorem historyOnly_iff (s : Stream) (g : ConsumerGroup) (consumer : String) (after : StreamId)
    (count : Option Nat) (noack : Bool) :
    s.HistoryOnly g consumer after count noack ↔
      (s.groupEntries g after count).map (·.id) = g.pending.history consumer after count ∧
        (noack = true ∨ s.groupEntries g after count = []) := by
  have hnone : s.groupEntries g after count = [] ∧ g.pending.history consumer after count = [] ↔
      count = some 0 ∨ (s.behind (g.readsBehind after) = [] ∧
        ∀ id, g.pending.owner? id = some consumer → ¬ after < id) := by
    rw [groupEntries_eq, upTo_eq_nil_iff, PendingEntryList.history_eq_nil_iff, or_and_left]
  rw [HistoryOnly, ← or_assoc, ← hnone, ← map_upTo, ← groupEntries_eq]
  constructor
  · rintro (⟨hread, hown⟩ | ⟨hack, hsame⟩)
    · exact ⟨by rw [hread, hown, List.map_nil], .inr hread⟩
    · exact ⟨hsame, .inl hack⟩
  · rintro ⟨hsame, hack | hread⟩
    · exact .inr ⟨hack, hsame⟩
    · exact .inl ⟨hread, by rw [← hsame, hread, List.map_nil]⟩

theorem mem_of_mem_groupEntries {s : Stream} {g : ConsumerGroup} {after : StreamId} {count : Option Nat}
    {e : StreamEntry} (h : e ∈ s.groupEntries g after count) : e ∈ s.entries := by
  unfold groupEntries at h
  split at h
  all_goals
    unfold rangeAfter at h
    exact List.mem_of_mem_drop (List.mem_of_mem_take h)

/-- A read shows a consumer its history and disturbs nobody exactly if the stream holds just
that behind the ID, and none of it is handed out again. -/
theorem showsHistory_iff {s : Stream} {group : String} {g : ConsumerGroup}
    (hg : s.consumerGroups.get? group = some g) {consumer : String} {after : StreamId}
    {count : Option Nat} {noack : Bool} {now : Nat} {r : List StreamEntry × Stream}
    (hr : s.readGroup group consumer after count noack now = .ok r) :
    s.ShowsHistory g group consumer after count r ↔ s.HistoryOnly g consumer after count noack := by
  rw [readGroup_eq hg] at hr
  obtain rfl := Except.ok.inj hr
  rw [historyOnly_iff]
  constructor
  · intro hshows
    refine ⟨hshows.answer, ?_⟩
    by_contra hout
    obtain ⟨g', hg', hsame⟩ := hshows.group
    dsimp only at hg'
    rw [if_neg hout, setGroup, Map.get?_set_self] at hg'
    cases hg'
    exact g.not_undisturbed_addPending consumer (fun h => hout (.inr h)) now hsame
  · rintro ⟨hanswer, hout⟩
    refine ⟨hanswer, fun _ he => mem_of_mem_groupEntries he, ?_, ?_⟩
    · rw [if_pos hout]
    · rw [if_pos hout]
      exact ⟨g, hg, .refl consumer g⟩

end Stream

/-! ## XREADGROUP -/

variable {ω : Nat → Ctx} {db : Nat}

/-- A round of XREADGROUP reads the group of its stream, and the loop goes on. -/
theorem readGroupLoop_round {w : World} (hw : w.Ready db) {k i : RespFrame} {key : Key} {id : String}
    (hpair : readGroupPair k i = .ok (key, id)) {after : StreamId} (hstart : readGroupStart id = some after)
    {s : Stream} (hseen : seen (ω w.calls) (w.engine.entryAt db key) = .found s) {group consumer : String}
    {o : ReadGroupOptions} {r : List StreamEntry × Stream}
    (hr : s.readGroup group consumer after o.limit o.noack (ω w.calls).sysNow = .ok r)
    (rest : List (RespFrame × RespFrame)) (acc : List RespFrame) :
    ∃ w' t, (readGroupLoop db group consumer o ((k, i) :: rest) acc).run (World.step ω) w =
        (readGroupLoop db group consumer o rest
          (if r.1.isEmpty then acc else acc ++ [streamFrame key r.1])).run (World.step ω) w' ∧
      w'.engine.entryAt db key = some ⟨.stream r.2, t⟩ ∧ OnlyChanges db key w.engine w'.engine := by
  obtain ⟨a, w', hstep, -, hch, ha⟩ :=
    step_group (ω := ω) hw key (g := .readGroup group consumer after o.limit o.noack)
      (c := .readGroup group consumer after o.limit o.noack) fun _ _ => rfl
  have happly : (GroupCmd.readGroup group consumer after o.limit o.noack).apply (ω w.calls) s =
      (.ok r.1, r.2) := by
    simp only [GroupCmd.apply, hr, GroupCmd.settle]
  obtain ⟨t, hentry, -⟩ := seen_found hseen
  rw [hseen] at ha
  simp only [happly] at ha
  obtain ⟨rfl, hleft⟩ := ha
  refine ⟨w', t, ?_, ?_, hch⟩
  · show ((reading (readGroupPair k i) _).run (World.step ω) w) = _
    rw [hpair]
    simp only [reading, hstart]
    exact run_need hstep
  · rw [hleft, hentry]
    rfl

/-- Each stream that XREADGROUP reads with an ID is shown as the history of the consumer,
without a trace, exactly if nothing is stored behind the ID and nothing of the consumer is
pending there, or it holds just its pending entries there and NOACK keeps them where they are. -/
theorem history_read_iff {w : World} (hw : w.Ready db) {k i : RespFrame} {key : Key} {id : String}
    (hpair : readGroupPair k i = .ok (key, id)) {after : StreamId} (hstart : readGroupStart id = some after)
    {s : Stream} (hseen : seen (ω w.calls) (w.engine.entryAt db key) = .found s) {group : String}
    {g : ConsumerGroup} (hg : s.consumerGroups.get? group = some g) (consumer : String)
    (o : ReadGroupOptions) :
    ∃ r, s.readGroup group consumer after o.limit o.noack (ω w.calls).sysNow = .ok r ∧
      (∀ rest acc, ∃ w' t, (readGroupLoop db group consumer o ((k, i) :: rest) acc).run (World.step ω) w =
          (readGroupLoop db group consumer o rest
            (if r.1.isEmpty then acc else acc ++ [streamFrame key r.1])).run (World.step ω) w' ∧
        w'.engine.entryAt db key = some ⟨.stream r.2, t⟩ ∧ OnlyChanges db key w.engine w'.engine) ∧
      (s.ShowsHistory g group consumer after o.limit r ↔ s.HistoryOnly g consumer after o.limit o.noack) := by
  have hr := Stream.readGroup_eq hg consumer after o.limit o.noack (ω w.calls).sysNow
  exact ⟨_, hr, fun rest acc => readGroupLoop_round hw hpair hstart hseen hr rest acc,
    Stream.showsHistory_iff hg hr⟩

/-- The stream of which one consumer has read both entries. -/
def readStream : Stream := (StreamRun.readByAlice.foldl StreamRun.step StreamRun.initial).stream

/-- A store with that stream. -/
def readStore : World :=
  (World.step (fun _ => .at 0) _ (.key 0 "s".toBytes (.setValue (.stream readStream) none)) ⟨Engine.new, 0⟩).2

theorem readStore_spec : readStore.Ready 0 ∧
    seen (.at 0) (readStore.engine.entryAt 0 "s".toBytes) = .found readStream := by
  have hready : World.Ready 0 ⟨Engine.new, 0⟩ := ⟨by decide, rfl⟩
  obtain ⟨e', hstep, -, hent⟩ := World.step_key "s".toBytes (.setValue (.stream readStream) none)
    hready.database hready.unlimited (ω := fun _ => .at 0)
  refine ⟨hready.step _, ?_⟩
  rw [readStore, hstep]
  have hstored : e'.entryAt 0 "s".toBytes = some ⟨.stream readStream, none⟩ := hent
  rw [hstored]
  exact seen_stream rfl

/-- With NOACK the consumer that has both entries is shown both. -/
theorem history_read_noack :
    ∃ g r, readStream.consumerGroups.get? "g" = some g ∧
      readStream.readGroup "g" "alice" (StreamId.new 0 0) none true 0 = .ok r ∧
      readStream.ShowsHistory g "g" "alice" (StreamId.new 0 0) none r := by
  have hpair : readGroupPair (.fromString "s") (.fromString "0") =
      .ok ("s".toBytes, fromUtf8Lossy "0".toBytes) := rfl
  have hstart : readGroupStart (fromUtf8Lossy "0".toBytes) = some (StreamId.new 0 0) := rfl
  have hgroup : (readStream.consumerGroups.get? "g").map (fun g =>
      decide (upTo none ((readStream.behind (g.readsBehind (StreamId.new 0 0))).map (·.id)) =
        g.pending.history "alice" (StreamId.new 0 0) none)) = some true := by
    rfl
  obtain ⟨g, hg, honly⟩ := Option.map_eq_some_iff.mp hgroup
  obtain ⟨hready, hseen⟩ := readStore_spec
  obtain ⟨r, hr, -, hiff⟩ := history_read_iff (ω := fun _ => .at 0) hready hpair hstart hseen hg "alice"
    { noack := true }
  exact ⟨g, r, hg, hr, hiff.mpr (.inr (.inr ⟨rfl, of_decide_eq_true honly⟩))⟩

/-- Another consumer that reads its history, which is empty, is given both. -/
theorem history_read_gives_away :
    ∃ g r, readStream.consumerGroups.get? "g" = some g ∧
      readStream.readGroup "g" "bob" (StreamId.new 0 0) none false 0 = .ok r ∧
      ¬ readStream.ShowsHistory g "g" "bob" (StreamId.new 0 0) none r := by
  have hgroup : (readStream.consumerGroups.get? "g").map (fun g =>
      ((readStream.groupEntries g (StreamId.new 0 0) none).map (·.id),
        g.pending.history "bob" (StreamId.new 0 0) none)) =
      some ([StreamId.new 1 0, StreamId.new 2 0], []) := by
    rfl
  obtain ⟨g, hg, hfig⟩ := Option.map_eq_some_iff.mp hgroup
  obtain ⟨hread, hown⟩ := Prod.mk.inj hfig
  refine ⟨g, _, hg, Stream.readGroup_eq hg _ _ _ _ _, fun h => ?_⟩
  have hanswer := h.answer
  rw [hown] at hanswer
  cases hread.symm.trans hanswer

end Ferrous
