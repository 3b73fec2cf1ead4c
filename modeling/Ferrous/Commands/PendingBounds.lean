/-
# `Commands.PendingBounds` — the bounds XPENDING asks for

The handler reads a bound as `-` or `+`, or as an ID, and hands a text that is neither on
as no bound at all.  What it then gets back is the range only where the list serves it.
-/
import Ferrous.Commands.Failures
import Ferrous.Storage.PendingRanges

namespace Ferrous

open Lib Args

/-! ## Detailed entries -/

/-- `PendingEntryInfo`. -/
structure PendingEntryInfo where
  id : StreamId
  consumer : String
  idleTime : Nat
  deliveryCount : Nat

/-- An entry as `get_pending_range` reports it at a reading of the clock. -/
def PendingEntryInfo.of (now : Nat) (e : PendingEntry) : PendingEntryInfo :=
  ⟨e.id, e.consumer, ConsumerGroup.idleMs now e.lastDelivery, e.deliveryCount⟩

/-- The frame of a reported entry. -/
def PendingEntryInfo.frame (i : PendingEntryInfo) : RespFrame :=
  .list [.fromString i.id.toText, .fromString i.consumer, count i.idleTime, count i.deliveryCount]

namespace ConsumerGroup

/-- `get_pending_range`; none where the range panics. -/
def getPendingRange (g : ConsumerGroup) (now : Nat) (start stop : Option StreamId) (count : Nat)
    (consumer : Option String) : Option (List PendingEntryInfo) :=
  (g.pending.getRange start stop count consumer).map fun es => es.map (PendingEntryInfo.of now)

/-- The first entries between the bounds that the consumer owns, or anyone, in the order
of their IDs. -/
def pendingWithin (g : ConsumerGroup) (now : Nat) (start stop : Option StreamId) (count : Nat)
    (consumer : Option String) : List PendingEntryInfo :=
  (g.pending.within start stop count consumer).map (PendingEntryInfo.of now)

end ConsumerGroup

/-- Entries of the table are told apart by what is reported of them. -/
theorem PendingEntryInfo.map_of_inj {p : PendingEntryList} {now : Nat} {es es' : List PendingEntry}
    (hes : ∀ e ∈ es, p.entriesById.get? e.id = some e) (hes' : ∀ e ∈ es', p.entriesById.get? e.id = some e)
    (h : es.map (PendingEntryInfo.of now) = es'.map (PendingEntryInfo.of now)) : es = es' := by
  have hid := congrArg (List.map PendingEntryInfo.id) h
  rw [List.map_map, List.map_map] at hid
  have hback (l : List PendingEntry) (hl : ∀ e ∈ l, p.entriesById.get? e.id = some e) :
      (l.map (PendingEntryInfo.id ∘ PendingEntryInfo.of now)).filterMap p.entriesById.get? = l := by
    rw [List.filterMap_map]
    refine (List.filterMap_congr fun e he => ?_).trans List.filterMap_some
    exact hl e he
  rw [← hback es hes, hid, hback es' hes']

namespace PendingEntryList.Filed

variable {p : PendingEntryList}

theorem mem_within (h : p.Filed) {start stop : Option StreamId} {count : Nat} {consumer : Option String}
    {e : PendingEntry} (he : e ∈ p.within start stop count consumer) : p.entriesById.get? e.id = some e :=
  h.mem_inOrder.mp (List.mem_filter.mp (List.mem_of_mem_take he)).1

theorem mem_getRange (h : p.Filed) {start stop : Option StreamId} {count : Nat} {consumer : Option String}
    {es : List PendingEntry} (hes : p.getRange start stop count consumer = some es) {e : PendingEntry}
    (he : e ∈ es) : p.entriesById.get? e.id = some e := by
  cases consumer with
  | some c =>
      rw [getRange_some] at hes
      cases hes
      exact h.mem_rowEntries (List.mem_of_mem_take he)
  | none =>
      unfold getRange at hes
      dsimp only at hes
      split at hes
      · cases hes
      · cases hes
        exact h.mem_inOrder.mp (List.mem_filter.mp (List.mem_of_mem_take he)).1

end PendingEntryList.Filed

/-- Each count is reported its part of the range exactly if the list serves the range. -/
theorem ConsumerGroup.getPendingRange_iff {g : ConsumerGroup} (h : g.pending.Filed) (now : Nat)
    (start stop : Option StreamId) (consumer : Option String) :
    (∀ count, g.getPendingRange now start stop count consumer =
        some (g.pendingWithin now start stop count consumer)) ↔
      g.pending.RangeServed start stop consumer := by
  rw [← h.getRange_iff]
  refine forall_congr' fun count => ?_
  unfold getPendingRange pendingWithin
  cases hes : g.pending.getRange start stop count consumer with
  | none => exact iff_of_false nofun nofun
  | some es =>
      rw [Option.map_some, Option.some.injEq, Option.some.injEq]
      refine ⟨fun hmap => ?_, fun heq => by rw [heq]⟩
      exact PendingEntryInfo.map_of_inj (fun e => h.mem_getRange hes) (fun e => h.mem_within) hmap

/-! ## Bounds -/

/-- The text of a part that is a bulk string. -/
def textAt (parts : Parts) (i : Nat) : Option String := ((parts[i]?).bind RespFrame.bulk?).map fromUtf8Lossy

/-- What a client wrote for a bound: the mark of an open end, or the two halves of an ID. -/
def Wrote (mark text : String) (bound : Option StreamId) : Prop :=
  (text = mark ∧ bound = none) ∨ ∃ id, StreamId.Denotes text id ∧ bound = some id

/-- The text is a bound. -/
def IsBound (mark text : String) : Prop := text = mark ∨ ∃ id, StreamId.Denotes text id

/-- The bound the handler makes of a text. -/
def boundOf (mark text : String) : Option StreamId := if text = mark then none else StreamId.fromString text

theorem wrote_boundOf {mark text : String} (h : IsBound mark text) : Wrote mark text (boundOf mark text) := by
  unfold boundOf
  by_cases hmark : text = mark
  · rw [if_pos hmark]
    exact .inl ⟨hmark, rfl⟩
  · obtain ⟨id, hid⟩ := h.resolve_left hmark
    rw [if_neg hmark]
    exact .inr ⟨id, hid, hid.fromString⟩

theorem Wrote.isBound {mark text : String} {bound : Option StreamId} (h : Wrote mark text bound) :
    IsBound mark text := h.imp And.left fun ⟨id, hid, _⟩ => ⟨id, hid⟩

theorem textOr_eq (complaint : String) (parts : Parts) (i : Nat) :
    textOr complaint parts i = match textAt parts i with
      | some s => .ok s
      | none => reject complaint := by
  unfold textOr textAt
  cases (parts[i]?).bind RespFrame.bulk? <;> rfl

/-- The arguments of a range are read exactly if the bounds are texts and the count is a
number. -/
theorem pendingRangeArgs_cases (parts : Parts) :
    (∃ frame, pendingRangeArgs parts = .error frame ∧ frame.isError = true ∧
      ¬ ∃ a b n, 6 ≤ parts.length ∧ textAt parts 3 = some a ∧ textAt parts 4 = some b ∧
        (textAt parts 5).bind parseU64 = some n) ∨
    ∃ a b n, 6 ≤ parts.length ∧ textAt parts 3 = some a ∧ textAt parts 4 = some b ∧
      (textAt parts 5).bind parseU64 = some n ∧
      pendingRangeArgs parts = .ok (boundOf "-" a, boundOf "+" b, n, textAt parts 6) := by
  unfold pendingRangeArgs
  by_cases hlen : parts.length < 6
  · refine .inl ⟨_, by rw [if_pos hlen]; rfl, rfl, ?_⟩
    rintro ⟨a, b, n, hle, -⟩
    omega
  · rw [if_neg hlen, textOr_eq, textOr_eq, textOr_eq]
    cases ha : textAt parts 3 with
    | none =>
        refine .inl ⟨_, rfl, rfl, ?_⟩
        rintro ⟨a, b, n, -, h, -⟩
        cases h
    | some a =>
        cases hb : textAt parts 4 with
        | none =>
            refine .inl ⟨_, rfl, rfl, ?_⟩
            rintro ⟨a, b, n, -, -, h, -⟩
            cases h
        | some b =>
            cases hn : textAt parts 5 with
            | none =>
                refine .inl ⟨_, rfl, rfl, ?_⟩
                rintro ⟨a, b, n, -, -, -, h⟩
                cases h
            | some t =>
                cases hread : parseU64 t with
                | none =>
                    refine .inl ⟨.err "ERR value is not an integer", ?_, rfl, ?_⟩
                    · simp only [bind, Except.bind, hread]
                      rfl
                    · rintro ⟨a, b, n, -, -, -, h⟩
                      rw [Option.bind_some, hread] at h
                      cases h
                | some n =>
                    refine .inr ⟨a, b, n, by omega, rfl, rfl, by rw [Option.bind_some, hread], ?_⟩
                    simp only [pure, bind, Except.bind, hread]
                    rfl

/-! ## The handler -/

section Handler

variable {ω : Nat → Ctx} {w w' : World} {db : Nat} {key : Key} {s : Stream} {group : String} {g : ConsumerGroup}
  {parts : Parts}

/-- What the handler answers with a range, once the stream is there. -/
def rangeReply (g : ConsumerGroup) (now : Nat) (start stop : Option StreamId) (count : Nat)
    (consumer : Option String) : Outcome RespFrame :=
  match g.getPendingRange now start stop count consumer with
  | none => .panic
  | some es => .ok (.list (es.map PendingEntryInfo.frame))

/-- The handler reads the bounds and answers from `get_pending_range`. -/
theorem run_handleXpending (hkey : (parts[1]?).bind RespFrame.bulk? = some key)
    (hgroup : textAt parts 2 = some group) (hlen : 3 < parts.length)
    (hfound : World.step ω KeyOps.GetResult (.key db key .get) w = (.ok (.found (.stream s)), w'))
    (hg : s.consumerGroups.get? group = some g) :
    ((handleXpending db parts).run (World.step ω) w).1 =
      match pendingRangeArgs parts with
      | .error frame => .ok frame
      | .ok (start, stop, n, consumer) => rangeReply g (ω w'.calls).sysNow start stop n consumer := by
  have harity : arity "xpending" (3 ≤ parts.length) = .ok () := by
    rw [arity, if_pos (decide_eq_true (by omega))]
  have hbulk : bulk parts 1 "key" = .ok key := by
    rw [bulk, hkey]
  have htext : text parts 2 "group name" = .ok group := by
    obtain ⟨bytes, hbytes, rfl⟩ := Option.map_eq_some_iff.mp hgroup
    rw [text, bulk, hbytes]
    rfl
  unfold handleXpending
  rw [harity, hbulk, htext]
  change ((fetching db key .nullArray _).run (World.step ω) w).1 = _
  unfold fetching
  rw [run_need hfound]
  dsimp only [KeyOps.GetResult.stream, onStream]
  rw [hg]
  dsimp only
  rewrite [if_neg (by omega)]
  cases hargs : pendingRangeArgs parts with
  | error frame => rfl
  | ok args =>
      obtain ⟨start, stop, n, consumer⟩ := args
      dsimp only [reading]
      have hnow : World.step ω Nat (.store .systemTime) w' =
          (.ok (ω w'.calls).sysNow, ⟨w'.engine, w'.calls + 1⟩) := rfl
      rw [run_need hnow]
      unfold rangeReply ConsumerGroup.getPendingRange
      cases g.pending.getRange start stop n consumer with
      | none => rfl
      | some es =>
          rw [Option.map_some]
          dsimp only
          rw [List.map_map]
          rfl

/-- XPENDING answers with an error, or from `get_pending_range` with the bounds the client
wrote. -/
def PassesBounds (ω : Nat → Ctx) (w : World) (db : Nat) (g : ConsumerGroup) (now : Nat) (parts : Parts) : Prop :=
  (∃ frame, ((handleXpending db parts).run (World.step ω) w).1 = .ok frame ∧ frame.isError = true) ∨
    ∃ a b start stop n, textAt parts 3 = some a ∧ textAt parts 4 = some b ∧
      (textAt parts 5).bind parseU64 = some n ∧ Wrote "-" a start ∧ Wrote "+" b stop ∧
      ((handleXpending db parts).run (World.step ω) w).1 = rangeReply g now start stop n (textAt parts 6)

/-- Where the other arguments of a range are well-formed, so are its bounds. -/
def BoundsWritten (parts : Parts) : Prop :=
  ∀ a b n, 6 ≤ parts.length → textAt parts 3 = some a → textAt parts 4 = some b →
    (textAt parts 5).bind parseU64 = some n → IsBound "-" a ∧ IsBound "+" b

theorem passesBounds_iff (hkey : (parts[1]?).bind RespFrame.bulk? = some key)
    (hgroup : textAt parts 2 = some group) (hlen : 3 < parts.length)
    (hfound : World.step ω KeyOps.GetResult (.key db key .get) w = (.ok (.found (.stream s)), w'))
    (hg : s.consumerGroups.get? group = some g) :
    PassesBounds ω w db g (ω w'.calls).sysNow parts ↔ BoundsWritten parts := by
  have hrun := run_handleXpending hkey hgroup hlen hfound hg
  rcases pendingRangeArgs_cases parts with ⟨frame, hargs, herror, hno⟩ | ⟨a, b, n, hsix, ha, hb, hn, hargs⟩
  · rw [hargs] at hrun
    refine iff_of_true (.inl ⟨frame, hrun, herror⟩) fun a b n hsix ha hb hn => ?_
    exact absurd ⟨a, b, n, hsix, ha, hb, hn⟩ hno
  · rw [hargs] at hrun
    constructor
    · rintro (⟨frame, hframe, herror⟩ | ⟨a', b', start, stop, n', ha', hb', -, hstart, hstop, -⟩)
      · -- the reply to a range is a list
        rw [hrun] at hframe
        dsimp only [rangeReply] at hframe
        split at hframe
        · cases hframe
        · cases hframe
          cases herror
      · intro a'' b'' n'' _ ha'' hb'' _
        rw [ha'] at ha''
        rw [hb'] at hb''
        cases ha''
        cases hb''
        exact ⟨hstart.isBound, hstop.isBound⟩
    · intro hwritten
      obtain ⟨hstart, hstop⟩ := hwritten a b n hsix ha hb hn
      exact .inr ⟨a, b, _, _, n, ha, hb, hn, wrote_boundOf hstart, wrote_boundOf hstop, hrun⟩

/-- In every run of a stream, for every group of it, bounds and consumer:
`get_pending_range` gives each count its part of the range exactly if the pending list serves
the range, and XPENDING passes on the bounds the client wrote exactly if they are bounds. -/
theorem xpending_ranges_iff (ops : List StreamOp) {group : String} {g : ConsumerGroup}
    (hg : (ops.foldl StreamRun.step StreamRun.initial).stream.consumerGroups.get? group = some g)
    (now : Nat) (start stop : Option StreamId) (consumer : Option String)
    (hfound : World.step ω KeyOps.GetResult (.key db key .get) w =
      (.ok (.found (.stream (ops.foldl StreamRun.step StreamRun.initial).stream)), w'))
    (hkey : (parts[1]?).bind RespFrame.bulk? = some key) (hgroup : textAt parts 2 = some group)
    (hlen : 3 < parts.length) :
    ((∀ count, g.getPendingRange now start stop count consumer =
          some (g.pendingWithin now start stop count consumer)) ↔
        g.pending.RangeServed start stop consumer) ∧
      (PassesBounds ω w db g (ω w'.calls).sysNow parts ↔ BoundsWritten parts) :=
  ⟨ConsumerGroup.getPendingRange_iff (StreamRun.groupsFiled_run ops group g hg) now start stop consumer,
    passesBounds_iff hkey hgroup hlen hfound hg⟩

end Handler

/-- A stream with two entries pending with one consumer, under the key `s`. -/
def pendingWorld : World :=
  ⟨((Engine.withConfig 1 .unlimited).withEntry 0 "s".toBytes (.at 0)
    (KeyOps.setValue "s".toBytes
      (.stream (StreamRun.readByAlice.foldl StreamRun.step StreamRun.initial).stream) none)).2, 0⟩

theorem pendingWorld_found :
    ∃ w', World.step (fun _ => .at 0) KeyOps.GetResult (.key 0 "s".toBytes .get) pendingWorld =
      (.ok (.found (.stream (StreamRun.readByAlice.foldl StreamRun.step StreamRun.initial).stream)), w') := by
  generalize hs : (StreamRun.readByAlice.foldl StreamRun.step StreamRun.initial).stream = s
  have hentry : pendingWorld.engine.entryAt 0 "s".toBytes = some ⟨.stream s, none⟩ := by
    unfold pendingWorld
    rw [hs]
    refine (Engine.withEntry_entryAt (by decide) _ _ _ 0 "s".toBytes).trans (if_pos ⟨rfl, rfl, ?_⟩)
    rw [Engine.refuses_of_unlimited rfl]
    rfl
  have hlength : 0 < pendingWorld.engine.databases.length := by
    unfold pendingWorld
    rw [Engine.withEntry_databases_length]
    decide
  have hmemory : pendingWorld.engine.memory.maxMemory = 0 := by
    unfold pendingWorld
    rw [Engine.withEntry_maxMemory]
    rfl
  obtain ⟨e', hstep, -, -⟩ := World.step_key (ω := fun _ => .at 0) "s".toBytes .get hlength hmemory
  rw [hentry] at hstep
  exact ⟨_, hstep⟩

/-- XPENDING of everything. -/
def pendingCommand : Parts :=
  [.fromString "XPENDING", .fromString "s", .fromString "g", .fromString "-", .fromString "+", .fromString "10"]

/-- It is answered with everything, and so is a range of the consumer that has read it. -/
theorem xpending_all :
    ∃ g, (StreamRun.readByAlice.foldl StreamRun.step StreamRun.initial).stream.consumerGroups.get? "g" = some g ∧
      (∀ count, g.getPendingRange 0 none none count none = some (g.pendingWithin 0 none none count none)) ∧
      (∀ count, g.getPendingRange 0 (some (StreamId.new 1 0)) none count (some "alice") =
        some (g.pendingWithin 0 (some (StreamId.new 1 0)) none count (some "alice"))) ∧
      PassesBounds (fun _ => .at 0) pendingWorld 0 g 0 pendingCommand := by
  have hrow : ((StreamRun.readByAlice.foldl StreamRun.step StreamRun.initial).stream.consumerGroups.get? "g").map
      (fun g => (g.pending.liveRow "alice", (g.pending.liveRow "alice").map g.pending.owner?)) =
      some ([StreamId.new 1 0, StreamId.new 2 0], [some "alice", some "alice"]) := by
    rfl
  obtain ⟨g, hg, hfig⟩ := Option.map_eq_some_iff.mp hrow
  obtain ⟨hlive, howners⟩ := Prod.mk.inj hfig
  obtain ⟨w', hfound⟩ := pendingWorld_found
  have hkey : (pendingCommand[1]?).bind RespFrame.bulk? = some "s".toBytes := rfl
  have hgroup : textAt pendingCommand 2 = some "g" := rfl
  have hall := xpending_ranges_iff StreamRun.readByAlice hg 0 none none none hfound hkey hgroup (by decide)
  have hown := xpending_ranges_iff StreamRun.readByAlice hg 0 (some (StreamId.new 1 0)) none (some "alice")
    hfound hkey hgroup (by decide)
  refine ⟨g, hg, hall.1.mpr ?_, hown.1.mpr ?_, hall.2.mpr ?_⟩
  · exact Nat.zero_le _
  · rw [hlive] at howners
    refine ⟨?_, ?_, ?_⟩
    · rw [hlive]
      decide
    · rw [hlive]
      simpa using howners
    · rw [hlive]
      decide
  · intro a b n _ ha hb _
    have hstart : textAt pendingCommand 3 = some "-" := rfl
    have hstop : textAt pendingCommand 4 = some "+" := rfl
    rw [hstart] at ha
    rw [hstop] at hb
    cases ha
    cases hb
    exact ⟨.inl rfl, .inl rfl⟩

/-- A range with its ends the wrong way round panics. -/
theorem inverted_range_panics :
    ∃ g, (StreamRun.readByAlice.foldl StreamRun.step StreamRun.initial).stream.consumerGroups.get? "g" = some g ∧
      g.getPendingRange 0 (some (StreamId.new 2 0)) (some (StreamId.new 1 0)) 10 none = none ∧
      g.getPendingRange 0 (some (StreamId.new 2 0)) (some (StreamId.new 1 0)) 10 none ≠
        some (g.pendingWithin 0 (some (StreamId.new 2 0)) (some (StreamId.new 1 0)) 10 none) := by
  have hthere : ((StreamRun.readByAlice.foldl StreamRun.step StreamRun.initial).stream.consumerGroups.get?
      "g").isSome = true := by
    rfl
  obtain ⟨g, hg⟩ := Option.isSome_iff_exists.mp hthere
  have hpanic : g.getPendingRange 0 (some (StreamId.new 2 0)) (some (StreamId.new 1 0)) 10 none = none := by
    have hinverted : StreamId.new 1 0 < StreamId.new 2 0 := by decide
    simp only [ConsumerGroup.getPendingRange, PendingEntryList.getRange, Option.getD_some, if_pos hinverted,
      Option.map_none]
  refine ⟨g, hg, hpanic, fun heq => ?_⟩
  rw [hpanic] at heq
  cases heq

end Ferrous
