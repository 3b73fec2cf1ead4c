/-
# `Commands.Deadlines` — deadlines that fit the clock

SET with EX or PX, SETEX, PSETEX, EXPIRE and PEXPIRE add a number the client chose to
a reading of the clock, and past the range of the clock that sum panics while the shard
is locked.  `SET ... NX`, EXPIRE and PEXPIRE read the clock once for the value and once
more for the index; the others store one sum in both.
-/
import Ferrous.Commands.Failures
import Ferrous.Storage.Expiry

namespace Ferrous

open Lib

/-! ## Calls -/

/-- A command with a time in it, but for its key. -/
inductive TimedCall
  | set (value : Bytes) (options : Parts)
  | setex (text value : Bytes)
  | psetex (text value : Bytes)
  | expire (text : Bytes)
  | pexpire (text : Bytes)

namespace TimedCall

/-- The frames of the command. -/
def frames (key : Key) : TimedCall → Parts
  | set value options => .fromString "SET" :: .fromBytes key :: .fromBytes value :: options
  | setex text value => [.fromString "SETEX", .fromBytes key, .fromBytes text, .fromBytes value]
  | psetex text value => [.fromString "PSETEX", .fromBytes key, .fromBytes text, .fromBytes value]
  | expire text => [.fromString "EXPIRE", .fromBytes key, .fromBytes text]
  | pexpire text => [.fromString "PEXPIRE", .fromBytes key, .fromBytes text]

/-- The handler of the command. -/
def program (db : Nat) (key : Key) (call : TimedCall) : StoreProg RespFrame :=
  match call with
  | set .. => handleSet db (call.frames key)
  | setex .. => handleSetex db (call.frames key)
  | psetex .. => handlePsetex db (call.frames key)
  | expire .. => handleExpire db (call.frames key)
  | pexpire .. => handlePexpire db (call.frames key)

/-- The time a command asks for; none if its argument is no unsigned number, or one of
the options of SET is wrong.  EXPIRE reads an `i64`. -/
def duration : TimedCall → Option Duration
  | set _ options =>
      match setOptions options {} with
      | .ok o => o.expiration
      | .error _ => none
  | setex text _ => (parseU64 (fromUtf8Lossy text)).map fromSecs
  | psetex text _ => (parseU64 (fromUtf8Lossy text)).map fromMillis
  | expire text =>
      (parseI64 (fromUtf8Lossy text)).bind fun n => if 0 ≤ n then some (fromSecs n.toNat) else none
  | pexpire text => (parseU64 (fromUtf8Lossy text)).map fromMillis

/-- EXPIRE without time deletes the key. -/
def Deletes (d : Duration) : TimedCall → Prop
  | expire _ => d = 0
  | _ => False

/-- The last reading of the clock to which a command adds its time; none where it
stores no deadline: SET refuses the empty key, NX leaves a live key and XX one that is
not, and EXPIRE and PEXPIRE find no key. -/
def base (ω : Nat → Ctx) (w : World) (db : Nat) (key : Key) (d : Duration) : TimedCall → Option Instant
  | set _ options =>
      match setOptions options {} with
      | .error _ => none
      | .ok o =>
          if key.isEmpty then none
          else if o.nx then
            if KeyOps.live (ω w.calls) (w.engine.entryAt db key) then none else some (ω w.calls).indexStamp
          else if o.xx then
            if KeyOps.live (ω w.calls) (w.engine.entryAt db key) then some (ω (w.calls + 1)).stamp else none
          else some (ω w.calls).stamp
  | setex .. => some (ω w.calls).stamp
  | psetex .. => some (ω w.calls).stamp
  | expire _ =>
      if d = 0 then none else (w.engine.entryAt db key).map fun _ => (ω w.calls).indexStamp
  | pexpire _ => (w.engine.entryAt db key).map fun _ => (ω w.calls).indexStamp

/-- The command stores a deadline, and the deadline is past the range of the clock. -/
def Overflows (ω : Nat → Ctx) (w : World) (db : Nat) (key : Key) (d : Duration) (call : TimedCall) : Prop :=
  ∃ t, call.base ω w db key d = some t ∧ instantLimit ≤ t + d

end TimedCall

/-- A reading of the clock by one of the operations of a run. -/
def Reading (ω : Nat → Ctx) (w w' : World) (t : Instant) : Prop :=
  ∃ i, w.calls ≤ i ∧ i < w'.calls ∧ (t = (ω i).now ∨ t = (ω i).stamp ∨ t = (ω i).indexStamp)

/-- `+OK`, or `:1`. -/
def RespFrame.Succeeds (frame : RespFrame) : Prop := frame = .ok ∨ frame = .integer 1

/-- A command replies; and where it reports success, the deadline of the value and that
of the index are each a reading of the clock plus the time.  A key that is deleted has
neither. -/
def TimedCall.Timely (ω : Nat → Ctx) (w : World) (db : Nat) (key : Key) (d : Duration) (call : TimedCall) :
    Prop :=
  let r := (call.program db key).run (World.step ω) w
  ∃ frame, r.1 = .ok frame ∧
    (frame.Succeeds →
      (call.Deletes d → r.2.engine.entryAt db key = none ∧ r.2.engine.indexed? db key = none) ∧
        (¬ call.Deletes d →
          (∃ sv t, r.2.engine.entryAt db key = some sv ∧ sv.expiresAt = some (t + d) ∧ Reading ω w r.2 t) ∧
            ∃ t, r.2.engine.indexed? db key = some (t + d) ∧ Reading ω w r.2 t))

/-! ## One operation -/

/-- What a step leaves of the row of its key. -/
def IndexStep.leaves (old : Option Instant) : IndexStep → Option Instant
  | .keep => old
  | .record deadline => some deadline
  | .forget => none

/-- The row of a key after an operation on it that is not refused. -/
theorem Engine.withEntry_indexed {α : Type} {e : Engine} {db : Nat} (hdb : db < e.databases.length) (key : Key)
    (ctx : Ctx) (f : KeyOp α) (h : e.refuses (f ctx (e.entryAt db key)) = false) :
    (e.withEntry db key ctx f).2.indexed? db key =
      (f ctx (e.entryAt db key)).index.leaves (e.indexed? db key) := by
  have hsh := shardAt_of_database (List.getElem?_eq_getElem hdb) (getShardIndex key)
  have hentry := Engine.entryAt_of_shardAt hsh
  have hafter := withEntry_shardAt e db key ctx f db (getShardIndex key)
  rw [hsh, Option.map_some, ← hentry, if_pos ⟨rfl, rfl, by rw [h]; rfl⟩] at hafter
  rw [Engine.indexed?_of_shardAt hafter, Engine.indexed?_of_shardAt hsh]
  unfold Shard.applyStep
  cases hi : (f ctx (e.entryAt db key)).index with
  | keep => rfl
  | record deadline => exact Map.get?_set_self _ _ _
  | forget => exact Map.get?_del_self _ _

section Runs

variable {α : Type} {ω : Nat → Ctx} {w : World} {db : Nat} {key : Key}

/-- What one operation answers and leaves. -/
theorem World.Ready.step_key (hw : w.Ready db) (key : Key) (c : KeyCmd α) :
    ∃ e', World.step ω α (.key db key c) w =
        ((c.step key (ω w.calls) (w.engine.entryAt db key)).result, ⟨e', w.calls + 1⟩) ∧
      e'.entryAt db key =
        (c.step key (ω w.calls) (w.engine.entryAt db key)).entry.leaves (w.engine.entryAt db key) ∧
      e'.indexed? db key =
        (c.step key (ω w.calls) (w.engine.entryAt db key)).index.leaves (w.engine.indexed? db key) := by
  obtain ⟨e', hrun, -, hentry⟩ := World.step_key (ω := ω) key c hw.database hw.unlimited
  refine ⟨e', hrun, hentry, ?_⟩
  have hafter : (w.engine.withEntry db key (ω w.calls) (c.step key)).2 = e' :=
    congrArg (fun r => r.2.engine) hrun
  rw [← hafter]
  exact Engine.withEntry_indexed hw.database key _ _ (Engine.refuses_of_unlimited hw.unlimited _)

/-- A handler of one operation that answers. -/
theorem run_onKey_ok (hw : w.Ready db) {c : KeyCmd α} (render : α → RespFrame) {st : KeyStep α}
    (hst : c.step key (ω w.calls) (w.engine.entryAt db key) = st) {a : α} (ha : st.result = .ok a) :
    ∃ e', (onKey .raise db key c render).run (World.step ω) w = (.ok (render a), ⟨e', w.calls + 1⟩) ∧
      e'.entryAt db key = st.entry.leaves (w.engine.entryAt db key) ∧
      e'.indexed? db key = st.index.leaves (w.engine.indexed? db key) := by
  obtain ⟨e', hrun, hentry, hrow⟩ := hw.step_key (ω := ω) key c
  rw [hst] at hrun hentry hrow
  refine ⟨e', ?_, hentry, hrow⟩
  unfold onKey calling
  rw [Prog.run_call, hrun, ha]
  rfl

/-- A handler of one operation that panics. -/
theorem run_onKey_of_panic (hw : w.Ready db) {c : KeyCmd α} (render : α → RespFrame)
    (h : (c.step key (ω w.calls) (w.engine.entryAt db key)).result = .panic) :
    ((onKey .raise db key c render).run (World.step ω) w).1 = .panic := by
  obtain ⟨e', hrun, -, -⟩ := hw.step_key (ω := ω) key c
  unfold onKey calling
  rw [Prog.run_call, hrun, h]
  rfl

end Runs

/-- A step that stores a deadline `d` after a reading of its context, in the value and in
the index, or panics because the deadline after the reading `t` is past the range. -/
def KeyStep.Times {α : Type} (ctx : Ctx) (t : Instant) (d : Duration) (st : KeyStep α) : Prop :=
  (instantLimit ≤ t + d ∧ st.result = .panic) ∨
    (t + d < instantLimit ∧ ∃ a v,
      st.result = .ok a ∧ st.entry = .store ⟨v, some (ctx.stamp + d)⟩ ∧ st.index = .record (t + d))

section Steps

variable {ctx : Ctx} {entry : Option StoredValue} {d : Duration}

theorem instantAdd_of_lt {t : Instant} (h : t + d < instantLimit) : instantAdd t d = some (t + d) := if_pos h

theorem instantAdd_of_le {t : Instant} (h : instantLimit ≤ t + d) : instantAdd t d = none :=
  if_neg (Nat.not_lt.mpr h)

theorem setValue_times (key : Key) (v : Value) (entry : Option StoredValue) :
    (KeyOps.setValue key v (some d) ctx entry).Times ctx ctx.stamp d := by
  unfold KeyOps.setValue
  rcases Nat.lt_or_ge (ctx.stamp + d) instantLimit with h | h
  · simp only [instantAdd_of_lt h]
    exact .inr ⟨h, (), v, rfl, rfl, rfl⟩
  · simp only [instantAdd_of_le h]
    exact .inl ⟨h, rfl⟩

theorem setStringNxEx_times (key : Key) (value : Bytes) (hlive : KeyOps.live ctx entry = false) :
    (KeyOps.setStringNxEx key value d ctx entry).Times ctx ctx.indexStamp d := by
  unfold KeyOps.setStringNxEx
  rw [hlive, if_neg Bool.false_ne_true]
  rcases Nat.lt_or_ge (ctx.indexStamp + d) instantLimit with h | h
  · have hfirst : ctx.stamp + d < instantLimit :=
      Nat.lt_of_le_of_lt (Nat.add_le_add_right ctx.stamp_le_indexStamp d) h
    simp only [instantAdd_of_lt h, instantAdd_of_lt hfirst]
    exact .inr ⟨h, true, _, rfl, rfl, rfl⟩
  · refine .inl ⟨h, ?_⟩
    simp only [instantAdd_of_le h]
    cases instantAdd ctx.stamp d <;> rfl

theorem expire_times (sv : StoredValue) :
    (KeyOps.expire d ctx (some sv)).Times ctx ctx.indexStamp d := by
  unfold KeyOps.expire
  dsimp only
  rcases Nat.lt_or_ge (ctx.indexStamp + d) instantLimit with h | h
  · have hfirst : ctx.stamp + d < instantLimit :=
      Nat.lt_of_le_of_lt (Nat.add_le_add_right ctx.stamp_le_indexStamp d) h
    simp only [instantAdd_of_lt h, instantAdd_of_lt hfirst]
    exact .inr ⟨h, true, sv.value, rfl, rfl, rfl⟩
  · refine .inl ⟨h, ?_⟩
    rw [instantAdd_of_le h]
    split <;> rfl

end Steps

/-! ## The commands -/

section Commands

variable {ω : Nat → Ctx} {w : World} {db : Nat} {key : Key} {d : Duration} {call : TimedCall}

/-- The command panics where its deadline overflows, and is timely where it does not. -/
def TimedCall.Settled (ω : Nat → Ctx) (w : World) (db : Nat) (key : Key) (d : Duration) (call : TimedCall) :
    Prop :=
  (call.Overflows ω w db key d ∧ ((call.program db key).run (World.step ω) w).1 = .panic) ∨
    (¬ call.Overflows ω w db key d ∧ call.Timely ω w db key d)

/-- A command that reports no success, and stores nothing. -/
theorem TimedCall.settled_of_declined {w' : World} {frame : RespFrame}
    (hrun : (call.program db key).run (World.step ω) w = (.ok frame, w')) (hframe : ¬ frame.Succeeds)
    (hbase : call.base ω w db key d = none) : call.Settled ω w db key d := by
  refine .inr ⟨?_, frame, by rw [hrun], fun h => absurd h hframe⟩
  rintro ⟨t, ht, -⟩
  rw [hbase] at ht
  cases ht

/-- A command that comes down to an operation which times its key, in a world whose
engine is the one the command found. -/
theorem TimedCall.settled_of_times {α : Type} {c : KeyCmd α} {render : α → RespFrame} {calls : Nat} {t : Instant}
    (hw : w.Ready db) (hcalls : w.calls ≤ calls)
    (hrun : (call.program db key).run (World.step ω) w =
      (onKey .raise db key c render).run (World.step ω) ⟨w.engine, calls⟩)
    (hbase : call.base ω w db key d = some t) (ht : t = (ω calls).stamp ∨ t = (ω calls).indexStamp)
    (hkept : ¬ call.Deletes d)
    (hstep : (c.step key (ω calls) (w.engine.entryAt db key)).Times (ω calls) t d) :
    call.Settled ω w db key d := by
  have hw' : World.Ready db ⟨w.engine, calls⟩ := ⟨hw.database, hw.unlimited⟩
  unfold TimedCall.Settled TimedCall.Timely
  rw [hrun]
  rcases hstep with ⟨hover, hpanic⟩ | ⟨hfits, a, v, hok, hentry, hindex⟩
  · exact .inl ⟨⟨t, hbase, hover⟩, run_onKey_of_panic hw' render hpanic⟩
  · refine .inr ⟨?_, ?_⟩
    · rintro ⟨t', ht', hover⟩
      rw [hbase] at ht'
      cases ht'
      exact absurd hfits (Nat.not_lt.mpr hover)
    · obtain ⟨e', hrun', hentry', hrow'⟩ := run_onKey_ok (ω := ω) hw' render (c := c) rfl hok
      rw [hrun']
      refine ⟨render a, rfl, fun _ => ⟨fun h => absurd h hkept, fun _ => ⟨?_, ?_⟩⟩⟩
      · refine ⟨⟨v, some ((ω calls).stamp + d)⟩, (ω calls).stamp, ?_, rfl, ?_⟩
        · change e'.entryAt db key = _
          rw [hentry', hentry]
          rfl
        · exact ⟨calls, hcalls, Nat.lt_succ_self calls, .inr (.inl rfl)⟩
      · refine ⟨t, ?_, calls, hcalls, Nat.lt_succ_self calls, .inr ht⟩
        change e'.indexed? db key = _
        rw [hrow', hindex]
        rfl

/-- The options of a SET that asks for a time. -/
theorem options_of_duration {value : Bytes} {options : Parts}
    (h : (TimedCall.set value options).duration = some d) :
    ∃ o, setOptions options {} = .ok o ∧ o.expiration = some d := by
  change (match setOptions options {} with
    | .ok o => o.expiration
    | .error _ => none) = some d at h
  cases ho : setOptions options {} with
  | error frame =>
      rw [ho] at h
      cases h
  | ok o =>
      rw [ho] at h
      exact ⟨o, rfl, h⟩

/-- SET, whatever its options. -/
theorem set_settled (hw : w.Ready db) {value : Bytes} {options : Parts}
    (hd : (TimedCall.set value options).duration = some d) :
    (TimedCall.set value options).Settled ω w db key d := by
  obtain ⟨o, ho, hexp⟩ := options_of_duration hd
  have hbase : (TimedCall.set value options).base ω w db key d =
      if key.isEmpty then none
      else if o.nx then
        if KeyOps.live (ω w.calls) (w.engine.entryAt db key) then none else some (ω w.calls).indexStamp
      else if o.xx then
        if KeyOps.live (ω w.calls) (w.engine.entryAt db key) then some (ω (w.calls + 1)).stamp else none
      else some (ω w.calls).stamp := by
    simp only [TimedCall.base, ho]
  have hkept : ¬ (TimedCall.set value options).Deletes d := id
  cases key with
  | nil =>
      refine @TimedCall.settled_of_declined ω w db [] d _ w (.err _) rfl ?_ hbase
      rintro (h | h) <;> cases h
  | cons b bs =>
      have hprogram : (TimedCall.set value options).program db (b :: bs) =
          if o.nx then
            onKey .raise db (b :: bs) (.setStringNxEx value d) fun b => if b then .ok else .nullBulk
          else if o.xx then do
            let there ← need (.key db (b :: bs) .exists?)
            if there then onKey .raise db (b :: bs) (setString value (some d)) fun _ => .ok
            else return .nullBulk
          else onKey .raise db (b :: bs) (setString value (some d)) fun _ => .ok := by
        change reading (do
          let o ← setOptions options {}
          return (b :: bs, value, o)) _ = _
        rw [ho]
        simp only [bind, Except.bind, pure, Except.pure, reading, hexp]
      rw [List.isEmpty_cons, if_neg Bool.false_ne_true] at hbase
      cases hnx : o.nx with
      | true =>
          rw [hnx, if_pos rfl] at hprogram hbase
          cases hlive : KeyOps.live (ω w.calls) (w.engine.entryAt db (b :: bs)) with
          | true =>
              rw [hlive, if_pos rfl] at hbase
              have hstep : (KeyCmd.setStringNxEx value d).step (b :: bs) (ω w.calls) (w.engine.entryAt db (b :: bs)) =
                  .answer false := if_pos hlive
              obtain ⟨e', hrun, -, -⟩ := run_onKey_ok hw (fun b => if b then RespFrame.ok else .nullBulk) hstep rfl
              rw [← hprogram] at hrun
              refine TimedCall.settled_of_declined hrun ?_ hbase
              rintro (h | h) <;> cases h
          | false =>
              rw [hlive, if_neg Bool.false_ne_true] at hbase
              exact TimedCall.settled_of_times hw le_rfl (by rw [hprogram]) hbase (.inr rfl) hkept
                (setStringNxEx_times (b :: bs) value hlive)
      | false =>
          rw [hnx, if_neg Bool.false_ne_true] at hprogram hbase
          cases hxx : o.xx with
          | true =>
              rw [hxx, if_pos rfl] at hprogram hbase
              have hexists : World.step ω Bool (.key db (b :: bs) .exists?) w =
                  (.ok (KeyOps.live (ω w.calls) (w.engine.entryAt db (b :: bs))), ⟨w.engine, w.calls + 1⟩) := by
                have hsh := Engine.shardAt_of_database (List.getElem?_eq_getElem hw.database)
                  (getShardIndex (b :: bs))
                rw [Engine.entryAt_of_shardAt hsh]
                exact congrArg (fun r => (r.1, (⟨r.2, w.calls + 1⟩ : World)))
                  (@Engine.withEntry_answer _ _ _ _ _ (ω w.calls) KeyOps.exists? _ hsh rfl)
              cases hlive : KeyOps.live (ω w.calls) (w.engine.entryAt db (b :: bs)) with
              | true =>
                  rw [hlive] at hexists hbase
                  have hrun : ((TimedCall.set value options).program db (b :: bs)).run (World.step ω) w =
                      (onKey .raise db (b :: bs) (setString value (some d)) fun _ => .ok).run (World.step ω)
                        ⟨w.engine, w.calls + 1⟩ := by
                    rw [hprogram]
                    exact Prog.run_bind_of_ok _ (Prog.run_perform_of_ok _ hexists) _
                  exact TimedCall.settled_of_times hw (Nat.le_succ w.calls) hrun hbase (.inl rfl) hkept
                    (setValue_times (b :: bs) (.string value) (w.engine.entryAt db (b :: bs)))
              | false =>
                  rw [hlive] at hexists hbase
                  refine @TimedCall.settled_of_declined ω w db _ d _ ⟨w.engine, w.calls + 1⟩ .nullBulk ?_ ?_ hbase
                  · rw [hprogram]
                    exact Prog.run_bind_of_ok _ (Prog.run_perform_of_ok _ hexists) _
                  · rintro (h | h) <;> cases h
          | false =>
              rw [hxx, if_neg Bool.false_ne_true] at hprogram hbase
              exact TimedCall.settled_of_times (c := setString value (some d)) hw le_rfl (by rw [hprogram]) hbase
                (.inl rfl) hkept (setValue_times (b :: bs) (.string value) (w.engine.entryAt db (b :: bs)))

/-- SETEX. -/
theorem setex_settled (hw : w.Ready db) {text value : Bytes} {n : Nat}
    (hn : parseU64 (fromUtf8Lossy text) = some n) :
    (TimedCall.setex text value).Settled ω w db key (fromSecs n) := by
  have hnat : Args.nat ((TimedCall.setex text value).frames key) 2 "expiration" = .ok n :=
    Args.numeral_of_text Args.notInteger "expiration" rfl hn
  have hprogram : (TimedCall.setex text value).program db key =
      onKey .raise db key (setString value (some (fromSecs n))) fun _ => .ok := by
    change reading (do
      let n ← Args.nat ((TimedCall.setex text value).frames key) 2 "expiration"
      return (key, n, value)) _ = _
    rw [hnat]
    rfl
  exact TimedCall.settled_of_times (c := setString value (some (fromSecs n))) hw le_rfl (by rw [hprogram]) rfl
    (.inl rfl) id (setValue_times key (.string value) (w.engine.entryAt db key))

/-- PSETEX. -/
theorem psetex_settled (hw : w.Ready db) {text value : Bytes} {n : Nat}
    (hn : parseU64 (fromUtf8Lossy text) = some n) :
    (TimedCall.psetex text value).Settled ω w db key (fromMillis n) := by
  have hnat : Args.nat ((TimedCall.psetex text value).frames key) 2 "expiration" = .ok n :=
    Args.numeral_of_text Args.notInteger "expiration" rfl hn
  have hprogram : (TimedCall.psetex text value).program db key =
      onKey .raise db key (setString value (some (fromMillis n))) fun _ => .ok := by
    change reading (do
      let n ← Args.nat ((TimedCall.psetex text value).frames key) 2 "expiration"
      return (key, n, value)) _ = _
    rw [hnat]
    rfl
  exact TimedCall.settled_of_times (c := setString value (some (fromMillis n))) hw le_rfl (by rw [hprogram]) rfl
    (.inl rfl) id (setValue_times key (.string value) (w.engine.entryAt db key))

/-- EXPIRE and PEXPIRE with a time that is not zero for EXPIRE. -/
theorem expire_settled (hw : w.Ready db)
    (hprogram : call.program db key = onKey .raise db key (.expire d) .flag)
    (hbase : call.base ω w db key d = (w.engine.entryAt db key).map fun _ => (ω w.calls).indexStamp)
    (hkept : ¬ call.Deletes d) : call.Settled ω w db key d := by
  cases hentry : w.engine.entryAt db key with
  | none =>
      rw [hentry] at hbase
      have hstep : (KeyCmd.expire d).step key (ω w.calls) (w.engine.entryAt db key) = .answer false := by
        rw [hentry]
        rfl
      obtain ⟨e', hrun, -, -⟩ := run_onKey_ok hw RespFrame.flag hstep rfl
      rw [← hprogram] at hrun
      refine TimedCall.settled_of_declined hrun ?_ hbase
      rintro (h | h) <;> cases h
  | some sv =>
      rw [hentry] at hbase
      refine TimedCall.settled_of_times (c := .expire d) hw le_rfl (by rw [hprogram]) hbase (.inr rfl) hkept ?_
      rw [hentry]
      exact expire_times sv

/-- EXPIRE with no time. -/
theorem expire_zero_settled (hw : w.Ready db) {text : Bytes}
    (hprogram : (TimedCall.expire text).program db key = onKey .raise db key .delete .flag) :
    (TimedCall.expire text).Settled ω w db key 0 := by
  cases hentry : w.engine.entryAt db key with
  | none =>
      have hstep : KeyCmd.delete.step key (ω w.calls) (w.engine.entryAt db key) = .answer false := by
        rw [hentry]
        rfl
      obtain ⟨e', hrun, -, -⟩ := run_onKey_ok hw RespFrame.flag hstep rfl
      rw [← hprogram] at hrun
      refine TimedCall.settled_of_declined hrun ?_ rfl
      rintro (h | h) <;> cases h
  | some sv =>
      obtain ⟨e', hrun, hafter, hrow⟩ := run_onKey_ok (ω := ω) hw RespFrame.flag (c := .delete) rfl
        (a := true) (by rw [hentry]; rfl)
      rw [hentry] at hafter hrow
      rw [← hprogram] at hrun
      refine .inr ⟨?_, ?_⟩
      · rintro ⟨t, ht, -⟩
        cases ht
      · unfold TimedCall.Timely
        rw [hrun]
        exact ⟨_, rfl, fun _ => ⟨fun _ => ⟨hafter, hrow⟩, fun h => absurd rfl h⟩⟩

/-- Every one of the commands. -/
theorem TimedCall.settled (hw : w.Ready db) (hd : call.duration = some d) : call.Settled ω w db key d := by
  cases call with
  | set value options => exact set_settled hw hd
  | setex text value =>
      obtain ⟨n, hn, rfl⟩ := Option.map_eq_some_iff.mp hd
      exact setex_settled hw hn
  | psetex text value =>
      obtain ⟨n, hn, rfl⟩ := Option.map_eq_some_iff.mp hd
      exact psetex_settled hw hn
  | expire text =>
      obtain ⟨n, hn, hd⟩ := Option.bind_eq_some_iff.mp hd
      have hint : Args.int ((TimedCall.expire text).frames key) 2 "seconds" = .ok n :=
        Args.numeral_of_text Args.notInteger "seconds" rfl hn
      have hprogram : (TimedCall.expire text).program db key =
          if n ≤ 0 then onKey .raise db key .delete .flag
          else onKey .raise db key (.expire (fromSecs n.toNat)) .flag := by
        change reading (do
          let n ← Args.int ((TimedCall.expire text).frames key) 2 "seconds"
          return (key, n)) _ = _
        rw [hint]
        rfl
      obtain ⟨hn, rfl⟩ : 0 ≤ n ∧ fromSecs n.toNat = d := by simpa using hd
      by_cases hzero : n = 0
      · subst hzero
        exact expire_zero_settled hw hprogram
      · rw [if_neg (by omega)] at hprogram
        have hpos : fromSecs n.toNat ≠ 0 := Nat.mul_ne_zero (by omega) (by decide)
        exact expire_settled hw hprogram (if_neg hpos) hpos
  | pexpire text =>
      obtain ⟨n, hn, rfl⟩ := Option.map_eq_some_iff.mp hd
      have hnat : Args.nat ((TimedCall.pexpire text).frames key) 2 "milliseconds" = .ok n :=
        Args.numeral_of_text Args.notInteger "milliseconds" rfl hn
      have hprogram : (TimedCall.pexpire text).program db key = onKey .raise db key (.expire (fromMillis n)) .flag := by
        change reading (do
          let n ← Args.nat ((TimedCall.pexpire text).frames key) 2 "milliseconds"
          return (key, n)) _ = _
        rw [hnat]
        rfl
      exact expire_settled hw hprogram rfl id

/-! ## The engine of a server -/

/-- Some run of operations and cleanup phases builds the engine from a fresh one without
a memory limit, as the server makes it. -/
def Engine.Served (numDatabases : Nat) (e : Engine) : Prop :=
  ∃ events : List CleanupEvent, (events.foldl CleanupState.step (.initial numDatabases .unlimited)).engine = e

theorem World.Ready.sweepKey (hw : w.Ready db) (db' : Nat) (i : Fin shardsPerDatabase) (key : Key) (calls : Nat) :
    World.Ready db ⟨w.engine.sweepKey db' i key, calls⟩ := by
  have hready : World.Ready db ⟨w.engine, calls⟩ := ⟨hw.database, hw.unlimited⟩
  unfold Engine.sweepKey
  split
  · exact hready
  · split
    · exact hready
    · refine ⟨?_, hw.unlimited⟩
      change db < (w.engine.databases.set db' _).length
      rw [List.length_set]
      exact hw.database

theorem World.Ready.sweep (db' : Nat) (i : Fin shardsPerDatabase) (keys : List Key) {e : Engine} {calls : Nat}
    (hw : World.Ready db ⟨e, calls⟩) : World.Ready db ⟨e.sweep db' i keys, calls⟩ := by
  induction keys generalizing e with
  | nil => exact hw
  | cons k ks ih => exact ih (hw.sweepKey db' i k calls)

theorem CleanupState.step_ready {s : CleanupState} {calls : Nat} (h : World.Ready db ⟨s.engine, calls⟩)
    (ev : CleanupEvent) : World.Ready db ⟨(s.step ev).engine, calls⟩ := by
  cases ev with
  | op o ctx =>
      have hstep := h.step (ω := fun _ => ctx) o
      exact ⟨hstep.database, hstep.unlimited⟩
  | collect db' i now => exact h
  | remove =>
      unfold CleanupState.step
      cases s.batch with
      | none => exact h
      | some b => exact h.sweep b.db b.shard b.keys

/-- In every run the databases are there and memory stays unlimited. -/
theorem CleanupState.foldl_ready {s : CleanupState} {calls : Nat} (h : World.Ready db ⟨s.engine, calls⟩)
    (events : List CleanupEvent) : World.Ready db ⟨(events.foldl CleanupState.step s).engine, calls⟩ := by
  induction events generalizing s with
  | nil => exact h
  | cons ev events ih => exact ih (CleanupState.step_ready h ev)

theorem Engine.Served.ready {n : Nat} (h : w.engine.Served n) (hdb : db < n) : w.Ready db := by
  obtain ⟨events, hw⟩ := h
  have hinitial : World.Ready db ⟨(CleanupState.initial n .unlimited).engine, w.calls⟩ := by
    refine ⟨?_, rfl⟩
    change db < (List.replicate n Database.new).length
    rwa [List.length_replicate]
  have hrun := CleanupState.foldl_ready hinitial events
  rw [hw] at hrun
  exact hrun

/-- A command with an accepted time replies, and on success has stored deadlines that
are readings of the clock plus that time, exactly if it stores none that is past the
range of the clock. -/
theorem deadlines_timely_iff (ω : Nat → Ctx) {n : Nat} (h : w.engine.Served n) (hdb : db < n) (key : Key)
    (call : TimedCall) (hd : call.duration = some d) :
    call.Timely ω w db key d ↔ ¬ call.Overflows ω w db key d := by
  rcases @TimedCall.settled ω w db key d call (h.ready hdb) hd with ⟨hover, hpanic⟩ | ⟨hfits, htimely⟩
  · refine iff_of_false ?_ (fun h => h hover)
    rintro ⟨frame, hok, -⟩
    cases hpanic.symm.trans hok
  · exact iff_of_true htimely hfits

end Commands

/-- SET with EX and NX, for a key that is not there. -/
theorem set_nx_ex_timely :
    (TimedCall.set "v".toBytes [.fromString "EX", .fromString "10", .fromString "NX"]).Timely (fun _ => .at 0)
      ⟨Engine.withConfig 1 .unlimited, 0⟩ 0 "k".toBytes (fromSecs 10) := by
  refine (deadlines_timely_iff (fun _ => .at 0) (n := 1) ⟨[], rfl⟩ (by decide) "k".toBytes _
    rfl).mpr ?_
  rintro ⟨t, ht, hover⟩
  have hbase : (TimedCall.set "v".toBytes [.fromString "EX", .fromString "10", .fromString "NX"]).base
      (fun _ => .at 0) ⟨Engine.withConfig 1 .unlimited, 0⟩ 0 "k".toBytes (fromSecs 10) = some 0 := by
    rfl
  rw [hbase] at ht
  cases ht
  exact absurd hover (by decide)

/-- SETEX with the greatest number of seconds panics at any time. -/
theorem setex_untimely :
    (TimedCall.setex "18446744073709551615".toBytes "v".toBytes).duration = some (fromSecs (2 ^ 64 - 1)) ∧
      ¬ (TimedCall.setex "18446744073709551615".toBytes "v".toBytes).Timely (fun _ => .at 0)
        ⟨Engine.withConfig 1 .unlimited, 0⟩ 0 "k".toBytes (fromSecs (2 ^ 64 - 1)) := by
  have hd : (TimedCall.setex "18446744073709551615".toBytes "v".toBytes).duration =
      some (fromSecs (2 ^ 64 - 1)) := by
    rfl
  refine ⟨hd, ?_⟩
  have hready : World.Ready 0 ⟨Engine.withConfig 1 .unlimited, 0⟩ := ⟨by decide, rfl⟩
  rcases @TimedCall.settled (fun _ => .at 0) _ _ "k".toBytes _ _ hready hd with ⟨-, hpanic⟩ | ⟨hfits, -⟩
  · rintro ⟨frame, hok, -⟩
    cases hpanic.symm.trans hok
  · exact absurd ⟨0, rfl, by decide⟩ hfits

end Ferrous
