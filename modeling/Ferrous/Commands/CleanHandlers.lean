/-
# `Commands.CleanHandlers` — the handlers that write and fail without a trace

Handler by handler: a run that ends with an error frame or an error has kept
the store.  The exceptions are MSET, ZADD, XREADGROUP, XGROUP CREATE and the
blocking pops, which write before the last thing that can fail.
-/
import Ferrous.Commands.Failures

namespace Ferrous

open Lib Args

variable {ω : Nat → Ctx} {db : Nat}

theorem isError_optBytes (b : Option Bytes) : (RespFrame.optBytes b).isError = false := by
  cases b <;> rfl

/-! ## Operations that do not fail -/

/-- The operation never answers with an error. -/
def KeyCmd.Succeeds {α : Type} (c : KeyCmd α) : Prop :=
  ∀ key ctx entry e, (c.step key ctx entry).result ≠ .err e

theorem KeyCmd.delete_succeeds : (KeyCmd.delete).Succeeds := by
  intro key ctx entry e
  cases entry <;> exact nofun

/-- An operation that does not fail, and then the rest. -/
theorem Sure.need {β : Type} {key : Key} {c : KeyCmd β} {body : β → StoreProg RespFrame}
    (hc : c.Succeeds) (h : ∀ b, Sure ω db (body b)) : Sure ω db (need (.key db key c) >>= body) := by
  intro w hw
  obtain ⟨e', hstep, -, -⟩ := World.step_key key c hw.database hw.unlimited (ω := ω)
  have hready := hw.step (ω := ω) (.key db key c)
  have hne := hc key (ω w.calls) (w.engine.entryAt db key)
  change ¬ Failed ((Prog.call (Op.key db key c) _).run (World.step ω) w).1
  rw [Prog.run_call]
  rw [hstep] at hready ⊢
  cases hr : (c.step key (ω w.calls) (w.engine.entryAt db key)).result with
  | ok b => exact h b _ hready
  | err e => exact absurd hr (hne e)
  | panic => exact id

/-! ## Strings and keys -/

theorem Clean.handleSet (parts : Parts) : Clean ω db (handleSet db parts) := by
  refine Clean.reading fun ⟨key, value, o⟩ => ?_
  dsimp only
  have hstored (b : Bool) : (if b then RespFrame.ok else .nullBulk).isError = false := by
    cases b <;> rfl
  split
  · split
    · exact Clean.onKey hstored
    · exact Clean.onKey hstored
  · split
    · refine Clean.need_reads rfl fun there => ?_
      cases there with
      | true => exact Clean.onKey fun _ => rfl
      | false => exact Clean.ret _
    · exact Clean.onKey fun _ => rfl

theorem Clean.handleGetset (parts : Parts) : Clean ω db (handleGetset db parts) :=
  Clean.reading fun _ => Clean.need_reads rfl fun old =>
    Clean.onKey fun _ => isError_optBytes old

theorem Clean.handleSetnx (parts : Parts) : Clean ω db (handleSetnx db parts) := by
  refine Clean.reading fun ⟨key, value⟩ => Clean.need_reads rfl fun there => ?_
  cases there with
  | true => exact Clean.ret _
  | false => exact Clean.onKey fun _ => rfl

theorem Clean.setWithExpiry (cmd : String) (unit : Nat → Duration) (parts : Parts) :
    Clean ω db (setWithExpiry cmd unit db parts) :=
  Clean.reading fun _ => Clean.onKey fun _ => rfl

theorem Clean.handleAppend (parts : Parts) : Clean ω db (handleAppend db parts) :=
  Clean.reading fun _ => Clean.onKey fun _ => rfl

theorem Clean.handleSetrange (parts : Parts) : Clean ω db (handleSetrange db parts) :=
  Clean.reading fun _ => Clean.onKey fun _ => rfl

theorem Clean.stepBy (cmd : String) (keyArg : Parts → Nat → Args Bytes) (n : Int) (parts : Parts) :
    Clean ω db (stepBy cmd keyArg n db parts) :=
  Clean.reading fun _ => Clean.onKey fun _ => rfl

theorem Clean.handleIncrby (parts : Parts) : Clean ω db (handleIncrby db parts) :=
  Clean.reading fun _ => Clean.onKey fun _ => rfl

theorem Clean.handleDecrby (overflowChecks : Bool) (parts : Parts) :
    Clean ω db (handleDecrby overflowChecks db parts) := by
  refine Clean.reading fun ⟨key, n⟩ => ?_
  dsimp only
  split
  · exact Clean.panic
  · exact Clean.onKey fun _ => rfl

theorem Sure.countKeys {c : KeyCmd Bool} (hc : c.Succeeds) :
    ∀ (ps : Parts) (n : Nat), Sure ω db (countKeys c db ps n)
  | [], _ => Sure.ret rfl
  | p :: ps, n => by
      unfold Ferrous.countKeys
      split
      · exact Sure.countKeys hc ps n
      · exact Sure.need hc fun _ => Sure.countKeys hc ps _

theorem Clean.handleDel (parts : Parts) : Clean ω db (handleDel db parts) :=
  Clean.reading fun _ => (Sure.countKeys KeyCmd.delete_succeeds _ _).clean

theorem Clean.handleExpire (parts : Parts) : Clean ω db (handleExpire db parts) := by
  refine Clean.reading fun ⟨key, seconds⟩ => ?_
  dsimp only
  split <;> exact Clean.onKey fun _ => rfl

theorem Clean.handlePexpire (parts : Parts) : Clean ω db (handlePexpire db parts) :=
  Clean.reading fun _ => Clean.onKey fun _ => rfl

/-- A RENAME that fails leaves the store alone. -/
theorem Clean.call_rename {old new : Key} {k : Except FerrousError Unit → StoreProg RespFrame}
    (hok : Sure ω db (k (.ok ()))) (herr : ∀ e, Clean ω db (k (.error e))) :
    Clean ω db (.call (.store (.rename db old new)) k) := by
  intro w hw
  have hready := hw.step (ω := ω) (.store (.rename db old new))
  have hfst : (World.step ω _ (.store (.rename db old new)) w).1 = _ :=
    Engine.rename_fst w.engine db old new
  rw [if_pos hw.database] at hfst
  unfold CleanAt
  rw [Prog.run_call]
  cases hold : w.engine.entryAt db old with
  | some sv =>
      rw [hold] at hfst
      rcases hstep : World.step ω _ (.store (.rename db old new)) w with ⟨r, w'⟩
      rw [hstep] at hready hfst
      obtain rfl : r = .ok () := hfst
      exact fun hf => absurd hf (hok _ hready)
  | none =>
      rw [hold] at hfst
      have hkept : Kept ω w (World.step ω _ (.store (.rename db old new)) w).2 := by
        refine ⟨Nat.le_succ _, fun db' key => .inl ?_⟩
        show SameEntry _ ((w.engine.rename db old new).2.entryAt db' key)
        rw [Engine.rename_entryAt, hold]
        exact .refl _
      rcases hstep : World.step ω _ (.store (.rename db old new)) w with ⟨r, w'⟩
      rw [hstep] at hready hfst hkept
      obtain rfl : r = .err (.command .noSuchKey) := hfst
      exact fun hf => hkept.trans (herr _ _ hready hf)

theorem Clean.handleRename (parts : Parts) : Clean ω db (handleRename db parts) :=
  Clean.reading fun _ => Clean.call_rename (Sure.ret rfl) (clean_answering _ _)

theorem Clean.handleRenamenx (parts : Parts) : Clean ω db (handleRenamenx db parts) := by
  refine Clean.reading fun ⟨old, new⟩ => Clean.need_reads rfl fun there => ?_
  cases there with
  | false => exact Clean.ret _
  | true =>
      refine Clean.need_reads rfl fun taken => ?_
      cases taken with
      | true => exact Clean.ret _
      | false => exact Clean.call_rename (Sure.ret rfl) (clean_answering _ _)

/-- Flushing a database that exists succeeds. -/
theorem step_flushDb {w : World} (h : db < w.engine.databases.length) :
    ∃ w', World.step ω _ (.store (.flushDb db)) w = (.ok (), w') ∧
      w'.engine.databases.length = w.engine.databases.length := by
  refine ⟨(World.step ω _ (.store (.flushDb db)) w).2, ?_, StoreCmd.run_length _ _ _⟩
  have hd : w.engine.databases[db]? = some w.engine.databases[db] := List.getElem?_eq_getElem h
  simp only [World.step, Op.run, StoreCmd.run, Engine.flushDb, hd]

theorem Clean.handleFlushdb (parts : Parts) : Clean ω db (handleFlushdb db parts) := by
  refine Clean.reading fun _ => Sure.clean fun w hw => ?_
  obtain ⟨w', hstep, -⟩ := step_flushDb (ω := ω) hw.database
  rw [calling, Prog.run_call, hstep]
  exact nofun

theorem flushFrom_ok : ∀ (n db : Nat) (w : World), db + n ≤ w.engine.databases.length →
    ¬ Failed ((flushFrom db n).run (World.step ω) w).1
  | 0, _, _, _ => nofun
  | n + 1, db, w, h => by
      have hdb : db < w.engine.databases.length := by omega
      obtain ⟨w', hstep, hlen⟩ := step_flushDb (ω := ω) hdb
      rw [flushFrom, Prog.run_call, hstep]
      exact flushFrom_ok n (db + 1) w' (by omega)

theorem Clean.handleFlushall (parts : Parts) : Clean ω db (handleFlushall parts) := by
  refine Clean.reading fun _ => Sure.clean fun w _ => ?_
  exact flushFrom_ok _ 0 ⟨w.engine, w.calls + 1⟩ (Nat.zero_add _).le

/-! ## Lists, sets and hashes -/

theorem Clean.pushing (cmd : String) (c : List Bytes → KeyCmd Nat) (parts : Parts) :
    Clean ω db (pushing cmd c db parts) :=
  Clean.reading fun _ => Clean.onKey fun _ => rfl

theorem Clean.handleLset (parts : Parts) : Clean ω db (handleLset db parts) :=
  Clean.reading fun _ => Clean.onKey fun _ => rfl

theorem Clean.handleLtrim (parts : Parts) : Clean ω db (handleLtrim db parts) :=
  Clean.reading fun _ => Clean.onKey fun _ => rfl

theorem Clean.handleLrem (parts : Parts) : Clean ω db (handleLrem db parts) :=
  Clean.reading fun _ => Clean.onKey fun _ => rfl

theorem Clean.handleSadd (parts : Parts) : Clean ω db (handleSadd db parts) :=
  Clean.reading fun _ => Clean.onKey fun _ => rfl

theorem Clean.handleSrem (parts : Parts) : Clean ω db (handleSrem db parts) :=
  Clean.reading fun _ => Clean.onKey fun _ => rfl

theorem Clean.handleSpop (parts : Parts) : Clean ω db (handleSpop db parts) := by
  refine Clean.reading fun ⟨key, n⟩ => Clean.onKey fun members => ?_
  split
  · exact isError_optBytes _
  · rfl

theorem Clean.settingFields (cmd : String) {render : Nat → RespFrame}
    (h : ∀ n, (render n).isError = false) (parts : Parts) :
    Clean ω db (settingFields cmd render db parts) :=
  Clean.reading fun _ => Clean.onKey h

theorem Clean.handleHdel (parts : Parts) : Clean ω db (handleHdel db parts) :=
  Clean.reading fun _ => Clean.onKey fun _ => rfl

theorem Clean.handleHincrby (parts : Parts) : Clean ω db (handleHincrby db parts) :=
  Clean.reading fun _ => Clean.onKey fun _ => rfl

/-! ## Sorted sets -/

/-- No other type stands under the key. -/
def ZsetAt (db : Nat) (key : Key) (w : World) : Prop :=
  ∀ sv, w.engine.entryAt db key = some sv → ∃ z, sv.value = .sortedSet z

theorem wrongType_fails {α : Type} {st : KeyStep α} (h : st = .wrongType) :
    st.result = .err (.storage .wrongType) := by
  rw [h]
  rfl

namespace KeyOps

variable {α : Type} {absent : KeyStep α} {f : StoredValue → SkipList → KeyStep α} {ctx : Ctx}

theorem onZset_some {sv : StoredValue} {z : SkipList} (h : sv.value = .sortedSet z) :
    onZset absent f ctx (some sv) = f sv z := by
  simp only [onZset, h]

/-- Another type than a sorted set. -/
theorem onZset_other {sv : StoredValue} (h : ∀ z, sv.value ≠ .sortedSet z) :
    onZset absent f ctx (some sv) = .wrongType := by
  unfold onZset
  split
  · next hz => cases hz
  · next sv' hsv =>
      cases hsv
      split
      · next z hz => exact absurd hz (h z)
      · rfl

end KeyOps

/-- Whether a sorted set, or nothing, stands under a key is decided by its entry. -/
theorem zsetAt_or (w : World) (db : Nat) (key : Key) :
    ZsetAt db key w ∨ ∃ sv, w.engine.entryAt db key = some sv ∧ ∀ z, sv.value ≠ .sortedSet z := by
  cases h : w.engine.entryAt db key with
  | none => exact .inl fun sv hsv => by rw [h] at hsv; cases hsv
  | some sv =>
      by_cases hz : ∃ z, sv.value = .sortedSet z
      · exact .inl fun sv' hsv => by rw [h] at hsv; cases hsv; exact hz
      · exact .inr ⟨sv, rfl, fun z hv => hz ⟨z, hv⟩⟩

/-- Removing a member succeeds on a sorted set, and leaves one or nothing. -/
theorem step_zrem {w : World} (hw : w.Ready db) {key : Key} (h : ZsetAt db key w) (member : Bytes) :
    ∃ b w', World.step ω _ (.key db key (.zrem member)) w = (.ok b, w') ∧ ZsetAt db key w' := by
  obtain ⟨e', hstep, -, hent⟩ := World.step_key key (.zrem member) hw.database hw.unlimited (ω := ω)
  cases hold : w.engine.entryAt db key with
  | none =>
      rw [hold] at hstep hent
      exact ⟨false, _, hstep, fun sv hsv => by rw [show _ = none from hent] at hsv; cases hsv⟩
  | some sv =>
      obtain ⟨z, hz⟩ := h sv hold
      rw [hold] at hstep hent
      simp only [KeyCmd.step, KeyOps.zrem, KeyOps.onZset_some hz] at hstep hent
      rcases hrem : z.remove member with ⟨_ | score, z'⟩
      · rw [hrem] at hstep hent
        refine ⟨false, _, hstep, fun sv' hsv' => ?_⟩
        rw [show _ = some sv from hent] at hsv'
        cases hsv'
        exact ⟨z, hz⟩
      · rw [hrem] at hstep hent
        refine ⟨true, _, hstep, fun sv' hsv' => ?_⟩
        simp only [KeyStep.shrink] at hent
        rw [hent] at hsv'
        split at hsv'
        · cases hsv'
        · cases hsv'
          exact ⟨z', rfl⟩

/-- Reading a range succeeds on a sorted set. -/
theorem step_zrange {w : World} (hw : w.Ready db) {key : Key} (h : ZsetAt db key w)
    (start stop : Int) (reverse : Bool) :
    ∃ ms w', World.step ω _ (.key db key (.zrange start stop reverse)) w = (.ok ms, w') ∧
      ZsetAt db key w' := by
  obtain ⟨e', hstep, -, hent⟩ :=
    World.step_key key (.zrange start stop reverse) hw.database hw.unlimited (ω := ω)
  cases hold : w.engine.entryAt db key with
  | none =>
      rw [hold] at hstep hent
      exact ⟨[], _, hstep, fun sv hsv => by rw [show _ = none from hent] at hsv; cases hsv⟩
  | some sv =>
      obtain ⟨z, hz⟩ := h sv hold
      rw [hold] at hstep hent
      simp only [KeyCmd.step, KeyOps.zrange, KeyOps.onZset_some hz] at hstep hent
      refine ⟨_, _, hstep, fun sv' hsv' => ?_⟩
      rw [show _ = some sv from hent] at hsv'
      cases hsv'
      exact ⟨z, hz⟩

/-- An operation on a sorted set fails on another type, and nothing follows. -/
theorem CleanAt.need_wrongType {w : World} (hw : w.Ready db) {key : Key} {β : Type} {c : KeyCmd β}
    {body : β → StoreProg RespFrame}
    (h : c.step key (ω w.calls) (w.engine.entryAt db key) = .wrongType) :
    CleanAt ω (need (.key db key c) >>= body) w := by
  have hkept := World.step_key_kept (ω := ω) (w := w) (c := c) db key
    ((c.step_tidy key _ _).keeps (wrongType_fails h))
  obtain ⟨e', hstep, -, -⟩ := World.step_key key c hw.database hw.unlimited (ω := ω)
  rw [wrongType_fails h] at hstep
  show CleanAt ω (Prog.call (Op.key db key c) _) w
  unfold CleanAt
  rw [Prog.run_call]
  rw [hstep] at hkept ⊢
  exact fun _ => hkept

theorem zremLoop_sure : ∀ (ps : Parts) (n : Nat) (key : Key) (w : World), w.Ready db →
    ZsetAt db key w → ¬ Failed ((zremLoop db key ps n).run (World.step ω) w).1
  | [], _, _, _, _, _ => nofun
  | p :: ps, n, key, w, hw, h => by
      unfold zremLoop
      split
      · exact zremLoop_sure ps n key w hw h
      · next member _ =>
          obtain ⟨b, w', hstep, h'⟩ := step_zrem (ω := ω) hw h member
          have hready := hw.step (ω := ω) (.key db key (.zrem member))
          rw [hstep] at hready
          rw [run_need hstep]
          exact zremLoop_sure ps _ key w' hready h'

theorem zremLoop_clean : ∀ (ps : Parts) (n : Nat) (key : Key), Clean ω db (zremLoop db key ps n)
  | [], _, _ => Clean.ret _
  | p :: ps, n, key => fun w hw => by
      rcases zsetAt_or w db key with h | ⟨sv, hsv, hz⟩
      · exact fun hf => absurd hf (zremLoop_sure (p :: ps) n key w hw h)
      · unfold zremLoop
        split
        · exact zremLoop_clean ps n key w hw
        · next member _ =>
            refine CleanAt.need_wrongType hw ?_
            rw [hsv]
            show KeyOps.zrem member (ω w.calls) (some sv) = .wrongType
            exact KeyOps.onZset_other hz

theorem Clean.handleZrem (parts : Parts) : Clean ω db (handleZrem db parts) :=
  Clean.reading fun key => zremLoop_clean _ _ key

theorem isError_popped (results : List RespFrame) : (popped results).isError = false := by
  unfold popped
  split <;> rfl

theorem popLoop_sure : ∀ (n : Nat) (results : List RespFrame) (key : Key) (position : Int)
    (w : World), w.Ready db → ZsetAt db key w →
    ¬ Failed ((popLoop db key position n results).run (World.step ω) w).1
  | 0, results, _, _, w, hw, _ => Sure.ret (isError_popped results) w hw
  | n + 1, results, key, position, w, hw, h => by
      obtain ⟨ms, w₁, hstep, h₁⟩ := step_zrange (ω := ω) hw h position position false
      have hw₁ := hw.step (ω := ω) (.key db key (.zrange position position false))
      rw [hstep] at hw₁
      rw [popLoop, run_need hstep]
      cases ms with
      | nil => exact Sure.ret (isError_popped results) w₁ hw₁
      | cons m ms =>
          obtain ⟨member, score⟩ := m
          obtain ⟨b, w₂, hstep₂, h₂⟩ := step_zrem (ω := ω) hw₁ h₁ member
          have hw₂ := hw₁.step (ω := ω) (.key db key (.zrem member))
          rw [hstep₂] at hw₂
          dsimp only [List.head?_cons]
          rw [run_need hstep₂]
          exact popLoop_sure n _ key position w₂ hw₂ h₂

theorem Clean.popping (cmd : String) (position : Int) (parts : Parts) :
    Clean ω db (popping cmd position db parts) := by
  refine Clean.reading fun ⟨key, n⟩ w hw => ?_
  rcases zsetAt_or w db key with h | ⟨sv, hsv, hz⟩
  · exact fun hf => absurd hf (popLoop_sure n [] key position w hw h)
  · cases n with
    | zero => exact Clean.ret _ w hw
    | succ n =>
        refine CleanAt.need_wrongType hw ?_
        rw [hsv]
        show KeyOps.zrange position position false (ω w.calls) (some sv) = .wrongType
        exact KeyOps.onZset_other hz

theorem Clean.handleZincrby (parts : Parts) : Clean ω db (handleZincrby db parts) :=
  Clean.reading fun _ => Clean.onKey fun _ => rfl

/-! ## Streams -/

theorem Clean.handleXadd (parts : Parts) : Clean ω db (handleXadd db parts) := by
  refine Clean.reading fun ⟨key, id, fields⟩ => ?_
  dsimp only
  split
  · exact Clean.onKey fun _ => rfl
  · split
    · exact Clean.ret _
    · split
      · exact Clean.ret _
      · exact Clean.call_last (fun _ => Sure.ret rfl) fun _ => Clean.ret _

theorem Clean.handleXtrim (parts : Parts) : Clean ω db (handleXtrim db parts) :=
  Clean.reading fun _ => Clean.onKey fun _ => rfl

theorem Clean.handleXdel (parts : Parts) : Clean ω db (handleXdel db parts) :=
  Clean.reading fun _ => Clean.onKey fun _ => rfl

/-! ## Consumer groups -/

theorem Clean.onStream {α : Type} {missing : RespFrame} {found : α → StoreProg RespFrame}
    (h : ∀ a, Clean ω db (found a)) (r : StreamAccess α) : Clean ω db (onStream missing found r) := by
  cases r with
  | found a => exact h a
  | wrongType => exact Clean.ret _
  | missing => exact Clean.ret _

theorem Clean.fetching {key : Key} {missing : RespFrame} {found : Stream → StoreProg RespFrame}
    (h : ∀ s, Clean ω db (found s)) : Clean ω db (fetching db key missing found) :=
  Clean.need_reads rfl fun _ => Clean.onStream h _

/-- The group command leaves the stream alone where its answer is rendered as an error. -/
def GroupCmd.FailsClean {α : Type} (c : GroupCmd α) (render : α → RespFrame) : Prop :=
  ∀ ctx s, (render (c.apply ctx s).1).isError = true → (c.apply ctx s).2 = s

/-- A command that settles what it tried does, when its successes are rendered as no errors. -/
theorem GroupCmd.failsClean_of_settle {α : Type} {c : GroupCmd (Except String α)}
    {render : Except String α → RespFrame} (hc : ∀ ctx s, ∃ r, c.apply ctx s = settle s r)
    (h : ∀ a, (render (.ok a)).isError = false) : c.FailsClean render := by
  intro ctx s he
  obtain ⟨r, hr⟩ := hc ctx s
  rw [hr] at he ⊢
  cases r with
  | error msg => rfl
  | ok p =>
      rw [show (settle s (.ok p)).1 = .ok p.1 from rfl, h] at he
      cases he

/-- A group command whose errors leave the stream alone. -/
theorem Clean.grouping {α : Type} {key : Key} {g : GroupCmd α} {c : KeyCmd (StreamAccess α)}
    {missing : RespFrame} {render : α → RespFrame}
    (hc : ∀ ctx entry, c.step key ctx entry = KeyOps.onGroups g ctx entry)
    (h : g.FailsClean render) : Clean ω db (grouping db key c missing render) := by
  intro w hw
  obtain ⟨e', hstep, -, -⟩ := World.step_key key c hw.database hw.unlimited (ω := ω)
  have hkept := World.step_key_kept (ω := ω) (w := w) (c := c) db key
  show CleanAt ω (Prog.call (Op.key db key c) _) w
  unfold CleanAt
  rw [Prog.run_call]
  rw [hstep] at hkept ⊢
  rw [hc] at hkept ⊢
  refine KeyOps.onGroups_rule (P := fun st => (st.Keeps (ω w.calls) (w.engine.entryAt db key) →
      Kept ω w ⟨e', w.calls + 1⟩) →
    Failed (Prog.andThen (st.result, (⟨e', w.calls + 1⟩ : World)) _).1 →
      Kept ω w (Prog.andThen (st.result, (⟨e', w.calls + 1⟩ : World)) _).2)
    (ω w.calls) ?_ ?_ ?_ ?_ hkept
  · exact fun hk _ => hk (KeyStep.keeps_of_keep rfl)
  · exact fun sv hsv he hk _ => hk (.inr ⟨rfl, sv, hsv, he⟩)
  · intro sv s hsv _ hs hk hf
    refine hk (.inl ?_)
    have hstream : (g.apply (ω w.calls) s).2 = s := h _ _ hf
    rw [hsv, EntryStep.leaves, hstream]
    exact ⟨by rw [hs]; exact .refl _, rfl⟩
  · exact fun hk _ => hk (KeyStep.keeps_of_keep rfl)

theorem Clean.handleXgroupDestroy (parts : Parts) : Clean ω db (handleXgroupDestroy db parts) :=
  Clean.reading fun ⟨_, group⟩ =>
    Clean.grouping (g := .destroy group) (fun _ _ => rfl) fun _ _ h => nomatch h

theorem Clean.handleXgroupCreateconsumer (parts : Parts) :
    Clean ω db (handleXgroupCreateconsumer db parts) := by
  refine Clean.reading fun ⟨_, group, consumer⟩ =>
    Clean.grouping (g := .createConsumer group consumer) (fun _ _ => rfl) fun ctx s h => ?_
  simp only [GroupCmd.apply] at h ⊢
  split
  · rfl
  · next g hg =>
      rw [hg] at h
      cases h

theorem Clean.handleXgroupDelconsumer (parts : Parts) : Clean ω db (handleXgroupDelconsumer db parts) :=
  Clean.reading fun ⟨_, group, consumer⟩ =>
    Clean.grouping (g := .deleteConsumer group consumer) (fun _ _ => rfl) fun _ _ h => nomatch h

theorem Clean.handleXgroupSetid (parts : Parts) : Clean ω db (handleXgroupSetid db parts) := by
  refine Clean.reading fun ⟨key, group, id⟩ => ?_
  dsimp only
  cases groupStart false id with
  | error complaint => exact Clean.fetching fun _ => Clean.ret _
  | ok start =>
      refine Clean.grouping (g := .setId group start) (fun _ _ => rfl) fun ctx s h => ?_
      cases hg : s.consumerGroups.get? group with
      | none => simp only [GroupCmd.apply, hg]
      | some g =>
          simp only [GroupCmd.apply, hg] at h
          cases h

theorem Clean.handleXack (parts : Parts) : Clean ω db (handleXack db parts) :=
  Clean.reading fun ⟨_, group, ids⟩ =>
    Clean.grouping (g := .acknowledge group ids) (fun _ _ => rfl)
      (GroupCmd.failsClean_of_settle (fun _ _ => ⟨_, rfl⟩) fun _ => rfl)

theorem Clean.handleXclaim (parts : Parts) : Clean ω db (handleXclaim db parts) := by
  refine Clean.reading fun ⟨key, group, consumer, idle, ids, force, justid⟩ =>
    Clean.grouping (g := .claim group consumer idle ids force) (fun _ _ => rfl)
      (GroupCmd.failsClean_of_settle (fun _ _ => ⟨_, rfl⟩) fun es => ?_)
  dsimp only
  split <;> rfl

end Ferrous
