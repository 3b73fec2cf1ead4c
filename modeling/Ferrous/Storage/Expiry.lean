/-
# `Storage.Expiry` — when active expiration removes only expired keys

The cleanup thread works from `expiring_keys`, not from the values: it collects
the names whose recorded deadline has passed, and in a second phase, under
another lock, removes whatever is stored under them.  So a value is safe only
while the rows of the index promise no more than it has: `ShardOk` says that
every value under a listed name expires no later than its row, and the held
batch makes the same promise with the cleanup's own clock reading.

SET without expiry, SETNX, a pop that empties a key followed by a write that
makes it again, and RENAME all leave a row behind and can break the promise
(`cleanup_removes_live_key`).  `deadlineSafe` is the exact guard: an operation
may not give a listed name a value that outlives its row.  Under it every run
removes expired values only (`cleanup_removes_expired`).
-/
import Ferrous.Storage.Effects
import Ferrous.Storage.KeyFacts
import Ferrous.Lib.Run

namespace Ferrous

open Lib

/-! ## Runs of client operations and cleanup phases -/

/-- The names the cleanup has collected from a shard and not yet removed, with
the clock reading it collected them by. -/
structure Batch where
  db : Nat
  shard : Fin shardsPerDatabase
  now : Instant
  keys : List Key

/-- The store and what the cleanup thread holds. -/
structure CleanupState where
  engine : Engine
  batch : Option Batch

/-- One step of a run: an engine operation, or one phase of the cleanup of one
shard.  The loop visits shards in turn; here it may take them in any order. -/
inductive CleanupEvent : Type 1
  | op {α : Type} (o : Op α) (ctx : Ctx)
  | collect (db : Nat) (shard : Fin shardsPerDatabase) (now : Instant)
  | remove

namespace CleanupState

/-- The state after an event. -/
def step (s : CleanupState) : CleanupEvent → CleanupState
  | .op o ctx => { s with engine := (o.run ctx s.engine).2 }
  | .collect db i now => { s with batch := some ⟨db, i, now, s.engine.collectExpired db i now⟩ }
  | .remove =>
      match s.batch with
      | none => s
      | some b => ⟨s.engine.sweep b.db b.shard b.keys, none⟩

/-- A freshly built engine, before the cleanup has collected anything. -/
def initial (numDatabases : Nat) (memory : MemoryManager) : CleanupState :=
  ⟨Engine.withConfig numDatabases memory, none⟩

end CleanupState

/-- The entry under a key in the data map of a shard. -/
def Engine.dataAt (e : Engine) (db : Nat) (i : Fin shardsPerDatabase) (key : Key) :
    Option StoredValue :=
  (e.shardAt db i).bind fun sh => sh.data.get? key

/-- Whatever the second phase removes in a state, at a time `t` not before the
names were collected, had a deadline not later than `t`. -/
def RemovesExpired (s : CleanupState) : Prop :=
  ∀ b t db i key sv, s.batch = some b → b.now ≤ t →
    s.engine.dataAt db i key = some sv → (s.step .remove).engine.dataAt db i key = none →
    ∃ deadline, sv.expiresAt = some deadline ∧ deadline ≤ t

/-! ## The guard -/

/-- A deadline is there and not later than `limit`. -/
def expiresBy (deadline : Option Instant) (limit : Instant) : Bool :=
  match deadline with
  | some d => decide (d ≤ limit)
  | none => false

/-- The deadline an operation gives the key anew; an entry it changes in place
keeps the one it had. -/
def KeyStep.newDeadline {α : Type} (old : Option StoredValue) (st : KeyStep α) :
    Option (Option Instant) :=
  match st.entry with
  | .store sv => if old.map (·.expiresAt) = some sv.expiresAt then none else some sv.expiresAt
  | _ => none

/-- Whether a step leaves the key's row of the index as it is. -/
def KeyStep.keepsRow {α : Type} (st : KeyStep α) : Bool :=
  match st.index with
  | .keep => true
  | _ => false

namespace CleanupState

/-- The clock reading a name was collected by, if the cleanup holds it. -/
def held (s : CleanupState) (db : Nat) (key : Key) : Option Instant :=
  s.batch.bind fun b =>
    if b.db = db ∧ b.shard = getShardIndex key ∧ key ∈ b.keys then some b.now else none

/-- A new deadline for a key is within its row, if the row stays, and within
the reading it was collected by, if the cleanup holds its name. -/
def admits (s : CleanupState) (db : Nat) (key : Key) (keepsRow : Bool)
    (deadline : Option Instant) : Bool :=
  (if keepsRow then ((s.engine.indexed? db key).map (expiresBy deadline)).getD true else true) &&
    ((s.held db key).map (expiresBy deadline)).getD true

end CleanupState

/-- The keys a RENAME moves between. -/
def StoreCmd.renames {α : Type} : StoreCmd α → Option (Nat × Key × Key)
  | rename db oldKey newKey => some (db, oldKey, newKey)
  | _ => none

/-- The event gives no listed name a value that outlives its row, and no
collected name a value that outlives the reading it was collected by. -/
def deadlineSafe (s : CleanupState) : CleanupEvent → Bool
  | .op (.key db k c) ctx =>
      let st := c.step k ctx (s.engine.entryAt db k)
      ((st.newDeadline (s.engine.entryAt db k)).map (s.admits db k st.keepsRow)).getD true
  | .op (.store c) _ =>
      match c.renames with
      | some (db, oldKey, newKey) =>
          ((s.engine.entryAt db oldKey).map fun sv => s.admits db newKey true sv.expiresAt).getD true
      | none => true
  | _ => true

/-! ## The invariant -/

/-- Every value under a listed name expires no later than its row. -/
def ShardOk (sh : Shard) : Prop :=
  ∀ key row sv, sh.expiringKeys.get? key = some row → sh.data.get? key = some sv →
    expiresBy sv.expiresAt row

/-- Every value under a collected name expires no later than the reading. -/
def BatchOk (b : Batch) (sh : Shard) : Prop :=
  ∀ key sv, key ∈ b.keys → sh.data.get? key = some sv → expiresBy sv.expiresAt b.now

/-- The rows and the held batch keep their promise. -/
structure CleanupOk (s : CleanupState) : Prop where
  shards : ∀ db i sh, s.engine.shardAt db i = some sh → ShardOk sh
  batch : ∀ b sh, s.batch = some b → s.engine.shardAt b.db b.shard = some sh → BatchOk b sh

theorem expiresBy_mono {deadline : Option Instant} {a b : Nat} (hab : a ≤ b)
    (h : expiresBy deadline a) : expiresBy deadline b := by
  cases deadline with
  | none => cases h
  | some d =>
      simp only [expiresBy, decide_eq_true_eq] at h ⊢
      exact Nat.le_trans h hab

/-! ### Steps on one key -/

section ApplyStep

variable {α : Type} {sh : Shard} {key : Key} {st : KeyStep α}

theorem Shard.applyStep_data_ne {key' : Key} (h : key' ≠ key) :
    (sh.applyStep key st).data.get? key' = sh.data.get? key' := by
  unfold Shard.applyStep
  dsimp only
  cases st.entry with
  | keep => rfl
  | store sv => exact Map.get?_set_ne _ _ h
  | remove => exact Map.get?_del_ne _ h

theorem Shard.applyStep_index_ne {key' : Key} (h : key' ≠ key) :
    (sh.applyStep key st).expiringKeys.get? key' = sh.expiringKeys.get? key' := by
  unfold Shard.applyStep
  dsimp only
  cases st.index with
  | keep => rfl
  | record r => exact Map.get?_set_ne _ _ h
  | forget => exact Map.get?_del_ne _ h

/-- The entry after a step: the one stored, or the one that was there. -/
theorem Shard.applyStep_data_self {sv : StoredValue}
    (h : (sh.applyStep key st).data.get? key = some sv) :
    st.entry = .store sv ∨ (st.entry = .keep ∧ sh.data.get? key = some sv) := by
  unfold Shard.applyStep at h
  dsimp only at h
  cases he : st.entry with
  | keep => rw [he] at h; exact .inr ⟨rfl, h⟩
  | store sv' =>
      rw [he] at h
      simp only [Map.get?_set_self, Option.some.injEq] at h
      exact .inl (by rw [h])
  | remove => rw [he] at h; simp at h

/-- The row after a step: the one recorded, or the one that was there. -/
theorem Shard.applyStep_index_self {row : Instant}
    (h : (sh.applyStep key st).expiringKeys.get? key = some row) :
    st.index = .record row ∨ (st.index = .keep ∧ sh.expiringKeys.get? key = some row) := by
  unfold Shard.applyStep at h
  dsimp only at h
  cases hi : st.index with
  | keep => rw [hi] at h; exact .inr ⟨rfl, h⟩
  | record r =>
      rw [hi] at h
      simp only [Map.get?_set_self, Option.some.injEq] at h
      exact .inl (by rw [h])
  | forget => rw [hi] at h; simp at h

/-- A value stored with the deadline that was there already. -/
theorem KeyStep.newDeadline_eq_none {old : Option StoredValue} {sv : StoredValue}
    (hs : st.entry = .store sv) (h : st.newDeadline old = none) :
    ∃ sv₀, old = some sv₀ ∧ sv₀.expiresAt = sv.expiresAt := by
  simp only [newDeadline, hs] at h
  split at h
  · next hm =>
      cases old with
      | none => cases hm
      | some sv₀ => exact ⟨sv₀, rfl, by simpa using hm⟩
  · cases h

theorem KeyStep.newDeadline_eq_some {old : Option StoredValue} {sv : StoredValue}
    {deadline : Option Instant} (hs : st.entry = .store sv)
    (h : st.newDeadline old = some deadline) : sv.expiresAt = deadline := by
  simp only [newDeadline, hs] at h
  split at h
  · cases h
  · simpa using h

/-- A tidy step keeps the promise of the rows, if a new deadline is within the
row it leaves. -/
theorem ShardOk.applyStep (hsh : ShardOk sh) (ht : st.Tidy)
    (hg : ∀ deadline row, st.newDeadline (sh.data.get? key) = some deadline → st.index = .keep →
      sh.expiringKeys.get? key = some row → expiresBy deadline row) :
    ShardOk (sh.applyStep key st) := by
  intro k row sv hrow hdata
  by_cases hk : k = key
  · subst hk
    rcases Shard.applyStep_index_self hrow with hi | ⟨hi, hrow'⟩
    · -- a recorded row comes with a value that expires no later
      obtain ⟨v, d, he, hle⟩ := ht.record_by row hi
      rcases Shard.applyStep_data_self hdata with hs | ⟨hs, -⟩
      · rw [he] at hs
        cases hs
        simpa [expiresBy] using hle
      · rw [he] at hs; cases hs
    · rcases Shard.applyStep_data_self hdata with hs | ⟨-, hold⟩
      · cases hn : st.newDeadline (sh.data.get? k) with
        | none =>
            obtain ⟨sv₀, hold, heq⟩ := KeyStep.newDeadline_eq_none hs hn
            rw [← heq]
            exact hsh k row sv₀ hrow' hold
        | some deadline =>
            rw [KeyStep.newDeadline_eq_some hs hn]
            exact hg deadline row hn hi hrow'
      · exact hsh k row sv hrow' hold
  · rw [Shard.applyStep_index_ne hk] at hrow
    rw [Shard.applyStep_data_ne hk] at hdata
    exact hsh k row sv hrow hdata

/-- The same for the promise of a held batch. -/
theorem BatchOk.applyStep {b : Batch} (hb : BatchOk b sh)
    (hg : ∀ deadline, key ∈ b.keys → st.newDeadline (sh.data.get? key) = some deadline →
      expiresBy deadline b.now) :
    BatchOk b (sh.applyStep key st) := by
  intro k sv hmem hdata
  by_cases hk : k = key
  · subst hk
    rcases Shard.applyStep_data_self hdata with hs | ⟨-, hold⟩
    · cases hn : st.newDeadline (sh.data.get? k) with
      | none =>
          obtain ⟨sv₀, hold, heq⟩ := KeyStep.newDeadline_eq_none hs hn
          rw [← heq]
          exact hb k sv₀ hmem hold
      | some deadline =>
          rw [KeyStep.newDeadline_eq_some hs hn]
          exact hg deadline hmem hn
    · exact hb k sv hmem hold
  · rw [Shard.applyStep_data_ne hk] at hdata
    exact hb k sv hmem hdata

end ApplyStep

/-! ### Moving, flushing, sweeping -/

theorem ShardOk.takeOut {sh : Shard} (h : ShardOk sh) (key : Key) : ShardOk (sh.takeOut key) := by
  intro k row sv hrow hdata
  simp only [Shard.takeOut, Map.get?_del] at hdata
  split at hdata
  · cases hdata
  · exact h k row sv hrow hdata

theorem BatchOk.takeOut {sh : Shard} {b : Batch} (h : BatchOk b sh) (key : Key) :
    BatchOk b (sh.takeOut key) := by
  intro k sv hmem hdata
  simp only [Shard.takeOut, Map.get?_del] at hdata
  split at hdata
  · cases hdata
  · exact h k sv hmem hdata

theorem ShardOk.putIn {sh : Shard} {key : Key} {sv : StoredValue} (h : ShardOk sh)
    (hg : ∀ row, sh.expiringKeys.get? key = some row → expiresBy sv.expiresAt row) :
    ShardOk (sh.putIn key sv) := by
  intro k row sv' hrow hdata
  simp only [Shard.putIn, Map.get?_set] at hdata hrow
  split at hdata
  · next hk =>
      cases hdata
      exact hg row (hk ▸ hrow)
  · exact h k row sv' hrow hdata

theorem BatchOk.putIn {sh : Shard} {b : Batch} {key : Key} {sv : StoredValue} (h : BatchOk b sh)
    (hg : key ∈ b.keys → expiresBy sv.expiresAt b.now) : BatchOk b (sh.putIn key sv) := by
  intro k sv' hmem hdata
  simp only [Shard.putIn, Map.get?_set] at hdata
  split at hdata
  · next hk =>
      cases hdata
      exact hg (hk ▸ hmem)
  · exact h k sv' hmem hdata

theorem ShardOk.flush (sh : Shard) : ShardOk sh.flush := by
  intro k row sv hrow
  simp [Shard.flush] at hrow

theorem BatchOk.flush (sh : Shard) (b : Batch) : BatchOk b sh.flush := by
  intro k sv _ hdata
  simp [Shard.flush] at hdata

theorem ShardOk.withWatch {sh : Shard} (h : ShardOk sh) (w : WatchTracker) :
    ShardOk { sh with watch := w } :=
  fun k row sv hrow hdata => h k row sv hrow hdata

theorem BatchOk.withWatch {sh : Shard} {b : Batch} (h : BatchOk b sh) (w : WatchTracker) :
    BatchOk b { sh with watch := w } :=
  fun k sv hmem hdata => h k sv hmem hdata

/-- Remove a name from a shard as the second phase does. -/
def Shard.sweepOut (sh : Shard) (key : Key) : Shard :=
  match sh.data.get? key with
  | none => sh
  | some _ =>
      { data := sh.data.del key
        expiringKeys := sh.expiringKeys.del key
        watch := sh.watch.markKeyModified key }

theorem ShardOk.sweepOut {sh : Shard} (h : ShardOk sh) (key : Key) : ShardOk (sh.sweepOut key) := by
  unfold Shard.sweepOut
  split
  · exact h
  · intro k row sv hrow hdata
    simp only [Map.get?_del] at hrow hdata
    split at hdata
    · cases hdata
    · next hk =>
        rw [if_neg hk] at hrow
        exact h k row sv hrow hdata

theorem Shard.sweepOut_data_ne {sh : Shard} {key key' : Key} (h : key' ≠ key) :
    (sh.sweepOut key).data.get? key' = sh.data.get? key' := by
  unfold Shard.sweepOut
  split
  · rfl
  · exact Map.get?_del_ne _ h

theorem Engine.sweepKey_shardAt (e : Engine) (db : Nat) (i : Fin shardsPerDatabase) (key : Key)
    (db' : Nat) (j : Fin shardsPerDatabase) :
    (Engine.sweepKey db i e key).shardAt db' j =
      (e.shardAt db' j).map fun sh => if db' = db ∧ j = i then sh.sweepOut key else sh := by
  unfold Engine.sweepKey
  cases hd : e.databases[db]? with
  | none =>
      by_cases h : db' = db
      · subst h
        simp [Engine.shardAt, hd]
      · simp [h]
  | some d =>
      dsimp only
      cases hv : (d i).data.get? key with
      | none =>
          by_cases h : db' = db ∧ j = i
          · obtain ⟨rfl, rfl⟩ := h
            simp [Engine.shardAt, hd, Shard.sweepOut, hv]
          · simp [h]
      | some sv =>
          dsimp only
          have hlt : db < e.databases.length := (List.getElem?_eq_some_iff.mp hd).1
          unfold Engine.shardAt
          rw [List.getElem?_set]
          by_cases hdb : db = db'
          · subst hdb
            rw [if_pos rfl, if_pos hlt, hd]
            by_cases hj : j = i
            · subst hj
              simp [Shard.sweepOut, hv]
            · simp [hj]
          · have hdb' : ¬ db' = db := fun h => hdb h.symm
            simp only [hdb, hdb', false_and, if_false, Option.map_id']

theorem Engine.sweep_shardAt (db : Nat) (i : Fin shardsPerDatabase) (keys : List Key) (db' : Nat)
    (j : Fin shardsPerDatabase) (e : Engine) :
    (e.sweep db i keys).shardAt db' j =
      (e.shardAt db' j).map fun sh =>
        if db' = db ∧ j = i then keys.foldl Shard.sweepOut sh else sh := by
  induction keys generalizing e with
  | nil => simp [Engine.sweep]
  | cons key keys ih =>
      have h := ih (Engine.sweepKey db i e key)
      simp only [Engine.sweep, List.foldl_cons] at h ⊢
      rw [h, Engine.sweepKey_shardAt, Option.map_map]
      congr 1
      funext sh
      by_cases hc : db' = db ∧ j = i <;> simp [hc]

theorem ShardOk.foldl_sweepOut {sh : Shard} (h : ShardOk sh) (keys : List Key) :
    ShardOk (keys.foldl Shard.sweepOut sh) := by
  induction keys generalizing sh with
  | nil => exact h
  | cons key keys ih => exact ih (h.sweepOut key)

/-- Only collected names are removed. -/
theorem foldl_sweepOut_data_of_notMem {keys : List Key} {key : Key} (h : key ∉ keys) (sh : Shard) :
    (keys.foldl Shard.sweepOut sh).data.get? key = sh.data.get? key := by
  induction keys generalizing sh with
  | nil => rfl
  | cons k keys ih =>
      simp only [List.mem_cons, not_or] at h
      rw [List.foldl_cons, ih h.2, Shard.sweepOut_data_ne h.1]

/-! ### One event -/

/-- The entry and the row of a key, read from its shard. -/
theorem Engine.indexed?_of_shardAt {e : Engine} {db : Nat} {key : Key} {sh : Shard}
    (h : e.shardAt db (getShardIndex key) = some sh) :
    e.indexed? db key = sh.expiringKeys.get? key := by
  rw [Engine.indexed?, Engine.shard?_eq_shardAt, h]
  rfl

theorem Engine.entryAt_of_shardAt {e : Engine} {db : Nat} {key : Key} {sh : Shard}
    (h : e.shardAt db (getShardIndex key) = some sh) : e.entryAt db key = sh.data.get? key := by
  rw [Engine.entryAt_eq, h]
  rfl

theorem CleanupState.held_of_mem {s : CleanupState} {b : Batch} {key : Key}
    (hb : s.batch = some b) (hs : b.shard = getShardIndex key) (hk : key ∈ b.keys) :
    s.held b.db key = some b.now := by
  simp [CleanupState.held, hb, hs, hk]

/-- What `admits` promises about the row of the key. -/
theorem CleanupState.row_of_admits {s : CleanupState} {db : Nat} {key : Key} {sh : Shard}
    {deadline : Option Instant} {row : Instant} (h : s.admits db key true deadline)
    (hsh : s.engine.shardAt db (getShardIndex key) = some sh)
    (hrow : sh.expiringKeys.get? key = some row) : expiresBy deadline row := by
  simp only [CleanupState.admits, if_true, Bool.and_eq_true] at h
  have h₁ := h.1
  rw [Engine.indexed?_of_shardAt hsh, hrow] at h₁
  exact h₁

/-- What `admits` promises about a held name. -/
theorem CleanupState.batch_of_admits {s : CleanupState} {b : Batch} {key : Key} {keepsRow : Bool}
    {deadline : Option Instant} (h : s.admits b.db key keepsRow deadline) (hb : s.batch = some b)
    (hs : b.shard = getShardIndex key) (hk : key ∈ b.keys) : expiresBy deadline b.now := by
  simp only [CleanupState.admits, Bool.and_eq_true] at h
  have h₂ := h.2
  rw [CleanupState.held_of_mem hb hs hk] at h₂
  exact h₂

theorem CleanupOk.key_op {s : CleanupState} (hs : CleanupOk s) {α : Type} {db : Nat} {k : Key}
    {c : KeyCmd α} {ctx : Ctx} (hg : deadlineSafe s (.op (.key db k c) ctx)) :
    CleanupOk (s.step (.op (.key db k c) ctx)) := by
  -- the guard, read at the shard of the key
  have guard : ∀ sh, s.engine.shardAt db (getShardIndex k) = some sh → ∀ deadline,
      (c.step k ctx (sh.data.get? k)).newDeadline (sh.data.get? k) = some deadline →
      s.admits db k (c.step k ctx (sh.data.get? k)).keepsRow deadline := by
    intro sh hsh deadline hd
    simp only [deadlineSafe] at hg
    rw [Engine.entryAt_of_shardAt hsh, hd] at hg
    exact hg
  constructor
  · intro db' i sh' h'
    simp only [CleanupState.step, Op.run_shardAt, Option.map_eq_some_iff] at h'
    obtain ⟨sh, hsh, rfl⟩ := h'
    simp only [Op.onShard]
    split
    · next hc =>
        obtain ⟨rfl, rfl, -⟩ := hc
        refine (hs.shards _ _ sh hsh).applyStep (c.step_tidy k ctx _) ?_
        intro deadline row hd hi hrow
        have ha := guard sh hsh deadline hd
        rw [KeyStep.keepsRow, hi] at ha
        exact CleanupState.row_of_admits ha hsh hrow
    · exact hs.shards _ _ sh hsh
  · intro b sh' hb h'
    simp only [CleanupState.step, Op.run_shardAt, Option.map_eq_some_iff] at hb h'
    obtain ⟨sh, hsh, rfl⟩ := h'
    have hold := hs.batch b sh hb hsh
    simp only [Op.onShard]
    split
    · next hc =>
        obtain ⟨rfl, hi, -⟩ := hc
        refine hold.applyStep fun deadline hk hd => ?_
        exact CleanupState.batch_of_admits (guard sh (hi ▸ hsh) deadline hd) hb hi hk
    · exact hold

theorem CleanupOk.store_op {s : CleanupState} (hs : CleanupOk s) {α : Type} {c : StoreCmd α}
    {ctx : Ctx} (hg : deadlineSafe s (.op (.store c) ctx)) :
    CleanupOk (s.step (.op (.store c) ctx)) := by
  -- what the operation does to a shard keeps both promises
  have main : ∀ db i sh, s.engine.shardAt db i = some sh →
      ShardOk (c.onShard s.engine db i sh) ∧
        ∀ b, s.batch = some b → b.db = db → b.shard = i → BatchOk b (c.onShard s.engine db i sh) := by
    intro db i sh hsh
    have h₁ := hs.shards db i sh hsh
    have h₂ : ∀ b, s.batch = some b → b.db = db → b.shard = i → BatchOk b sh := by
      rintro b hb rfl rfl
      exact hs.batch b sh hb hsh
    cases c with
    | rename db' old new =>
        simp only [StoreCmd.onShard]
        cases hv : s.engine.entryAt db' old with
        | none => exact ⟨h₁, h₂⟩
        | some sv =>
            have ha : s.admits db' new true sv.expiresAt := by
              simpa [deadlineSafe, StoreCmd.renames, hv] using hg
            have h₁' : ShardOk (if db = db' ∧ i = getShardIndex old then sh.takeOut old else sh) := by
              split
              · exact h₁.takeOut old
              · exact h₁
            have h₂' : ∀ b, s.batch = some b → b.db = db → b.shard = i →
                BatchOk b (if db = db' ∧ i = getShardIndex old then sh.takeOut old else sh) := by
              intro b hb hdb hi
              split
              · exact (h₂ b hb hdb hi).takeOut old
              · exact h₂ b hb hdb hi
            have hix : (if db = db' ∧ i = getShardIndex old then sh.takeOut old else sh).expiringKeys
                = sh.expiringKeys := by
              split <;> rfl
            dsimp only
            split
            · next hc =>
                obtain ⟨rfl, rfl⟩ := hc
                refine ⟨h₁'.putIn fun row hrow => ?_, fun b hb hdb hi => ?_⟩
                · rw [hix] at hrow
                  exact CleanupState.row_of_admits ha hsh hrow
                · subst hdb
                  exact (h₂' b hb rfl hi).putIn fun hk =>
                    CleanupState.batch_of_admits ha hb hi hk
            · exact ⟨h₁', h₂'⟩
    | flushDb db' =>
        simp only [StoreCmd.onShard]
        split
        · exact ⟨.flush sh, fun b _ _ _ => .flush sh b⟩
        · exact ⟨h₁, h₂⟩
    | registerWatch db' k =>
        simp only [StoreCmd.onShard]
        split
        · exact ⟨h₁.withWatch _, fun b hb hdb hi => (h₂ b hb hdb hi).withWatch _⟩
        · exact ⟨h₁, h₂⟩
    | unregisterWatch db' k =>
        simp only [StoreCmd.onShard]
        split
        · exact ⟨h₁.withWatch _, fun b hb hdb hi => (h₂ b hb hdb hi).withWatch _⟩
        · exact ⟨h₁, h₂⟩
    | _ => exact ⟨h₁, h₂⟩
  constructor
  · intro db i sh' h'
    simp only [CleanupState.step, Op.run_shardAt, Option.map_eq_some_iff] at h'
    obtain ⟨sh, hsh, rfl⟩ := h'
    exact (main db i sh hsh).1
  · intro b sh' hb h'
    simp only [CleanupState.step, Op.run_shardAt, Option.map_eq_some_iff] at hb h'
    obtain ⟨sh, hsh, rfl⟩ := h'
    exact (main _ _ sh hsh).2 b hb rfl rfl

/-- Names are collected by rows that promise no later than the reading. -/
theorem BatchOk.collect {e : Engine} {db : Nat} {i : Fin shardsPerDatabase} {now : Instant}
    {sh : Shard} (hsh : e.shardAt db i = some sh) (h : ShardOk sh) :
    BatchOk ⟨db, i, now, e.collectExpired db i now⟩ sh := by
  intro key sv hmem hdata
  unfold Engine.shardAt at hsh
  cases hd : e.databases[db]? with
  | none => rw [hd] at hsh; cases hsh
  | some d =>
      rw [hd] at hsh
      simp only [Option.map_some, Option.some.injEq] at hsh
      subst hsh
      simp only [Engine.collectExpired, hd, List.mem_map, List.mem_filter, decide_eq_true_eq] at hmem
      obtain ⟨⟨k, row⟩, ⟨hp, hle⟩, rfl⟩ := hmem
      exact expiresBy_mono hle (h k row sv (Map.mem_toPairs.mp hp) hdata)

/-- A guarded event keeps the promises. -/
theorem CleanupOk.step {s : CleanupState} {ev : CleanupEvent} (hs : CleanupOk s)
    (hg : deadlineSafe s ev) : CleanupOk (s.step ev) := by
  cases ev with
  | op o ctx =>
      cases o with
      | key db k c => exact hs.key_op hg
      | store c => exact hs.store_op hg
  | collect db i now =>
      refine ⟨hs.shards, fun b sh hb hsh => ?_⟩
      simp only [CleanupState.step, Option.some.injEq] at hb hsh
      subst hb
      exact BatchOk.collect hsh (hs.shards _ _ sh hsh)
  | remove =>
      cases hb : s.batch with
      | none => simpa only [CleanupState.step, hb] using hs
      | some b =>
          simp only [CleanupState.step, hb]
          refine ⟨fun db i sh' h' => ?_, fun b' sh' hb' _ => ?_⟩
          · simp only [Engine.sweep_shardAt, Option.map_eq_some_iff] at h'
            obtain ⟨sh, hsh, rfl⟩ := h'
            split
            · exact (hs.shards _ _ sh hsh).foldl_sweepOut _
            · exact hs.shards _ _ sh hsh
          · cases hb'

/-- While the promises hold, the second phase removes expired values only. -/
theorem CleanupOk.removesExpired {s : CleanupState} (hs : CleanupOk s) : RemovesExpired s := by
  intro b t db i key sv hb ht hbefore hafter
  unfold Engine.dataAt at hbefore hafter
  obtain ⟨sh, hsh, hdata⟩ := Option.bind_eq_some_iff.mp hbefore
  simp only [CleanupState.step, hb, Engine.sweep_shardAt, hsh, Option.map_some,
    Option.bind_some] at hafter
  split at hafter
  · next hc =>
      obtain ⟨rfl, rfl⟩ := hc
      have hmem : key ∈ b.keys := by
        by_contra hn
        rw [foldl_sweepOut_data_of_notMem hn, hdata] at hafter
        cases hafter
      have h := expiresBy_mono ht (hs.batch b sh hb hsh key sv hmem hdata)
      cases hd : sv.expiresAt with
      | none => rw [hd] at h; cases h
      | some d =>
          rw [hd] at h
          exact ⟨d, rfl, by simpa [expiresBy] using h⟩
  · rw [hdata] at hafter
    cases hafter

theorem CleanupOk.initial (n : Nat) (m : MemoryManager) : CleanupOk (.initial n m) := by
  refine ⟨fun db i sh h => ?_, fun b sh hb => ?_⟩
  · simp only [CleanupState.initial, Engine.withConfig, Engine.shardAt, List.getElem?_replicate,
      Option.map_eq_some_iff] at h
    obtain ⟨d, hd, rfl⟩ := h
    split at hd
    · cases hd
      intro k row sv hrow
      simp [Database.new, Shard.new] at hrow
    · cases hd
  · cases hb

/-! ## The result -/

/-- In every run from a fresh engine whose steps all keep deadlines within the
rows, every removal of the cleanup is of an expired value. -/
theorem cleanup_removes_expired (n : Nat) (m : MemoryManager) (events : List CleanupEvent)
    (hg : Guarded (fun s ev => deadlineSafe s ev = true) CleanupState.step (.initial n m) events)
    (done rest : List CleanupEvent) (hrun : done ++ rest = events) :
    RemovesExpired (done.foldl CleanupState.step (.initial n m)) := by
  subst hrun
  exact (hg.of_append.inv (fun _ _ h g => h.step g) (CleanupOk.initial n m)).removesExpired

/-- SET with one second to live, and a cleanup that collects the name two
seconds later. -/
def expiredKeyRun : List CleanupEvent :=
  [.op (.key 0 "k".toBytes (.setValue (.string "v".toBytes) (some (fromSecs 1)))) (.at 0),
    .collect 0 (getShardIndex "k".toBytes) (fromSecs 2)]

theorem expiredKeyRun_removes_expired :
    Guarded (fun s ev => deadlineSafe s ev = true) CleanupState.step (.initial 1 .unlimited)
        expiredKeyRun ∧
      RemovesExpired (expiredKeyRun.foldl CleanupState.step (.initial 1 .unlimited)) :=
  have hg : Guarded (fun s ev => deadlineSafe s ev = true) CleanupState.step
      (.initial 1 .unlimited) expiredKeyRun := by
    refine ⟨?_, ?_, trivial⟩
    · rfl
    · rfl
  ⟨hg, cleanup_removes_expired 1 .unlimited expiredKeyRun hg expiredKeyRun [] (List.append_nil _)⟩

/-- The same SET, then a SET without expiry before the cleanup looks. -/
def liveKeyRun : List CleanupEvent :=
  [.op (.key 0 "k".toBytes (.setValue (.string "v".toBytes) (some (fromSecs 1)))) (.at 0),
    .op (.key 0 "k".toBytes (.setValue (.string "w".toBytes) none)) (.at 1),
    .collect 0 (getShardIndex "k".toBytes) (fromSecs 2)]

/-- The row of the first SET outlives it, and the cleanup removes the second
value, which has no deadline. -/
theorem cleanup_removes_live_key :
    ¬ RemovesExpired (liveKeyRun.foldl CleanupState.step (.initial 1 .unlimited)) := by
  intro h
  obtain ⟨d, hd, -⟩ := h ⟨0, getShardIndex "k".toBytes, fromSecs 2, ["k".toBytes]⟩ (fromSecs 2) 0
    (getShardIndex "k".toBytes) "k".toBytes ⟨.string "w".toBytes, none⟩ rfl (le_refl _)
    rfl rfl
  cases hd

end Ferrous
