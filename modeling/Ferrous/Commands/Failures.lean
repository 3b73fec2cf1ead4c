/-
# `Commands.Failures` — what a failed command leaves behind

A command fails when its reply is an error frame or its handler passes an error
on.  `Kept` says that a stretch of a run has changed no entry, lazy expiry
apart; `Clean` that a handler which fails has kept the store.  The rules are by
the shape of a handler: arguments refused before the first call, a call that
fails by itself, reads before the one call that writes.
-/
import Ferrous.Commands.Strings
import Ferrous.Commands.Collections
import Ferrous.Commands.SortedSets
import Ferrous.Commands.Groups
import Ferrous.Storage.RdbRecords

namespace Ferrous

open Lib Args

/-! ## Same contents -/

namespace Value.Same

theorem refl : ∀ v : Value, v.Same v
  | .string _ => rfl
  | .list _ => rfl
  | .set _ => fun _ => rfl
  | .hash _ => fun _ => rfl
  | .sortedSet _ => ⟨rfl, fun _ => rfl⟩
  | .stream _ => rfl

theorem trans : ∀ {a b c : Value}, a.Same b → b.Same c → a.Same c
  | .string _, .string _, .string _, h, g => Eq.trans h g
  | .list _, .list _, .list _, h, g => Eq.trans h g
  | .set _, .set _, .set _, h, g => fun m => (h m).trans (g m)
  | .hash _, .hash _, .hash _, h, g => fun f => (h f).trans (g f)
  | .sortedSet _, .sortedSet _, .sortedSet _, h, g =>
      ⟨h.1.trans g.1, fun m => (h.2 m).trans (g.2 m)⟩
  | .stream _, .stream _, .stream _, h, g => Eq.trans h g

end Value.Same

namespace SameEntry

theorem refl : ∀ v : Option StoredValue, SameEntry v v
  | none => trivial
  | some sv => ⟨Value.Same.refl sv.value, rfl⟩

theorem trans : ∀ {a b c : Option StoredValue}, SameEntry a b → SameEntry b c → SameEntry a c
  | none, none, none, _, _ => trivial
  | some _, some _, some _, h, g => ⟨h.1.trans g.1, h.2.trans g.2⟩

/-- The same entry expires at the same time. -/
theorem isExpired : ∀ {a b : Option StoredValue}, SameEntry a b → ∀ {sv : StoredValue} {now : Instant},
    b = some sv → sv.isExpired now → ∃ sv', a = some sv' ∧ sv'.isExpired now
  | some a, some b, h, sv, now, hb, he => by
      cases hb
      refine ⟨a, rfl, ?_⟩
      rw [StoredValue.isExpired, h.2]
      exact he

end SameEntry

/-- From `w` to `w'` an entry is still what it was, or it was past its deadline
at a reading of the clock between the two and has been removed. -/
def KeptEntry (ω : Nat → Ctx) (w w' : World) (db : Nat) (key : Key) : Prop :=
  SameEntry (w.engine.entryAt db key) (w'.engine.entryAt db key) ∨
    w'.engine.entryAt db key = none ∧ ∃ sv i, w.engine.entryAt db key = some sv ∧
      w.calls ≤ i ∧ i < w'.calls ∧ sv.isExpired (ω i).now

/-- One stretch of a run after another. -/
theorem KeptEntry.trans {ω : Nat → Ctx} {w w₁ w₂ : World} {db : Nat} {key : Key} (hle : w.calls ≤ w₁.calls)
    (hle' : w₁.calls ≤ w₂.calls) (h : KeptEntry ω w w₁ db key) (g : KeptEntry ω w₁ w₂ db key) :
    KeptEntry ω w w₂ db key := by
  rcases h with hs | ⟨hn, sv, i, hsv, hi, hi', he⟩
  · rcases g with gs | ⟨gn, sv, i, gsv, gi, gi', ge⟩
    · exact .inl (hs.trans gs)
    · obtain ⟨sv', hsv', he'⟩ := hs.isExpired gsv ge
      exact .inr ⟨gn, sv', i, hsv', hle.trans gi, gi', he'⟩
  · rcases g with gs | ⟨-, sv', i', gsv, -⟩
    · refine .inr ⟨?_, sv, i, hsv, hi, hi'.trans_le hle', he⟩
      rw [hn] at gs
      cases hg : w₂.engine.entryAt db key with
      | none => rfl
      | some v => rw [hg] at gs; exact gs.elim
    · rw [hn] at gsv
      cases gsv

/-- The keys, values and deadlines of every database are what they were. -/
structure Kept (ω : Nat → Ctx) (w w' : World) : Prop where
  calls_le : w.calls ≤ w'.calls
  entry : ∀ db key, KeptEntry ω w w' db key

namespace Kept

variable {ω : Nat → Ctx} {w w₁ w₂ : World}

theorem refl (ω : Nat → Ctx) (w : World) : Kept ω w w := ⟨le_rfl, fun _ _ => .inl (.refl _)⟩

theorem trans (h : Kept ω w w₁) (g : Kept ω w₁ w₂) : Kept ω w w₂ where
  calls_le := h.calls_le.trans g.calls_le
  entry db key := (h.entry db key).trans h.calls_le g.calls_le (g.entry db key)

end Kept

/-! ## One step -/

/-- The step leaves its entry as it is, or removes it past its deadline. -/
def KeyStep.Keeps {α : Type} (ctx : Ctx) (entry : Option StoredValue) (st : KeyStep α) : Prop :=
  SameEntry entry (st.entry.leaves entry) ∨
    st.entry.leaves entry = none ∧ ∃ sv, entry = some sv ∧ sv.isExpired ctx.now

/-- The step only looks at its entry, and removes it past its deadline at most. -/
def KeyStep.Looks {α : Type} (ctx : Ctx) (entry : Option StoredValue) (st : KeyStep α) : Prop :=
  st.entry.leaves entry = entry ∨
    st.entry.leaves entry = none ∧ ∃ sv, entry = some sv ∧ sv.isExpired ctx.now

namespace KeyStep

variable {α : Type} {ctx : Ctx} {entry : Option StoredValue}

theorem Looks.keeps {st : KeyStep α} (h : st.Looks ctx entry) : st.Keeps ctx entry := by
  refine h.imp_left fun hsame => ?_
  rw [hsame]
  exact .refl _

theorem looks_of_keep {st : KeyStep α} (h : st.entry = .keep) : st.Looks ctx entry := by
  refine .inl ?_
  rw [h]
  rfl

theorem keeps_of_keep {st : KeyStep α} (h : st.entry = .keep) : st.Keeps ctx entry := (looks_of_keep h).keeps

/-- A failed step keeps its entry. -/
theorem Tidy.keeps {st : KeyStep α} (h : st.Tidy) {e : FerrousError} (he : st.result = .err e) :
    st.Keeps ctx entry :=
  keeps_of_keep (h.err_keeps e he).1

theorem viaGet_looks (f : Option Value → Outcome α) : (KeyOps.viaGet f ctx entry).Looks ctx entry :=
  KeyOps.viaGet_rule (P := fun st => st.Looks ctx entry) ctx (looks_of_keep rfl)
    (fun sv hsv he => .inr ⟨rfl, sv, hsv, he⟩) fun _ _ _ => looks_of_keep rfl

end KeyStep

/-- The operation changes nothing, whatever it finds. -/
def KeyCmd.Reads {α : Type} (c : KeyCmd α) : Prop :=
  ∀ key ctx entry, (c.step key ctx entry).Keeps ctx entry

/-- The operations on one key that only look: at most an entry past its
deadline goes. -/
def KeyCmd.reads {α : Type} : KeyCmd α → Bool
  | get | getString | exists? | ttl | pttl | keyType | strlen | getrange .. | llen | lrange ..
  | lindex _ | smembers | sismember _ | scard | srandmember _ | hget _ | hmget _ | hgetall | hlen
  | hexists _ | hkeys | hvals | zscore _ | zrank .. | zrange .. | zrangebyscore .. | zcount ..
  | zcard | xrange .. | xlen | hscan .. | sscan .. | zscan .. => true
  | _ => false

namespace KeyOps

variable {α : Type} {ctx : Ctx} {entry : Option StoredValue} {absent : KeyStep α}

/-! Typed accesses that only look. -/

theorem onString_looks {f : StoredValue → Bytes → KeyStep α} (h₀ : absent.entry = .keep)
    (h₁ : ∀ sv b, (f sv b).entry = .keep) : (onString absent f ctx entry).Looks ctx entry :=
  onString_rule (P := fun st => st.Looks ctx entry) ctx (fun _ => KeyStep.looks_of_keep h₀)
    (fun sv b _ _ => KeyStep.looks_of_keep (h₁ sv b)) (KeyStep.looks_of_keep rfl)

theorem onList_looks {f : StoredValue → List Bytes → KeyStep α} (h₀ : absent.entry = .keep)
    (h₁ : ∀ sv l, (f sv l).entry = .keep) : (onList absent f ctx entry).Looks ctx entry :=
  onList_rule (P := fun st => st.Looks ctx entry) ctx (fun _ => KeyStep.looks_of_keep h₀)
    (fun sv l _ _ => KeyStep.looks_of_keep (h₁ sv l)) (KeyStep.looks_of_keep rfl)

theorem onSet_looks {f : StoredValue → FSet Bytes → KeyStep α} (h₀ : absent.entry = .keep)
    (h₁ : ∀ sv m, (f sv m).entry = .keep) : (onSet absent f ctx entry).Looks ctx entry :=
  onSet_rule (P := fun st => st.Looks ctx entry) ctx (fun _ => KeyStep.looks_of_keep h₀)
    (fun sv m _ _ => KeyStep.looks_of_keep (h₁ sv m)) (KeyStep.looks_of_keep rfl)

theorem onHash_looks {f : StoredValue → Map Bytes Bytes → KeyStep α} (h₀ : absent.entry = .keep)
    (h₁ : ∀ sv h, (f sv h).entry = .keep) : (onHash absent f ctx entry).Looks ctx entry :=
  onHash_rule (P := fun st => st.Looks ctx entry) ctx (fun _ => KeyStep.looks_of_keep h₀)
    (fun sv h _ _ => KeyStep.looks_of_keep (h₁ sv h)) (KeyStep.looks_of_keep rfl)

theorem onZset_looks {f : StoredValue → SkipList → KeyStep α} (h₀ : absent.entry = .keep)
    (h₁ : ∀ sv z, (f sv z).entry = .keep) : (onZset absent f ctx entry).Looks ctx entry :=
  onZset_rule (P := fun st => st.Looks ctx entry) ctx (fun _ => KeyStep.looks_of_keep h₀)
    (fun sv z _ _ => KeyStep.looks_of_keep (h₁ sv z)) (KeyStep.looks_of_keep rfl)

theorem onStream_looks {f : StoredValue → Stream → KeyStep α} (h₀ : absent.entry = .keep)
    (h₁ : ∀ sv x, (f sv x).entry = .keep) : (onStream absent f ctx entry).Looks ctx entry :=
  onStream_rule (P := fun st => st.Looks ctx entry) ctx (fun _ => KeyStep.looks_of_keep h₀)
    (fun sv x _ _ => KeyStep.looks_of_keep (h₁ sv x)) (KeyStep.looks_of_keep rfl)

end KeyOps

/-- What a reading operation does with the entry it finds. -/
theorem KeyCmd.reads_looks {α : Type} {c : KeyCmd α} (h : c.reads) (key : Key) (ctx : Ctx)
    (entry : Option StoredValue) : (c.step key ctx entry).Looks ctx entry := by
  cases c with
  | get =>
      simp only [step, KeyOps.get]
      split
      · exact KeyStep.looks_of_keep rfl
      · next sv =>
          split
          · next he => exact .inr ⟨rfl, sv, rfl, he⟩
          · exact KeyStep.looks_of_keep rfl
  | getString => exact KeyStep.viaGet_looks _
  | exists? => exact KeyStep.looks_of_keep rfl
  | ttl => exact KeyStep.looks_of_keep rfl
  | pttl =>
      refine KeyStep.looks_of_keep ?_
      simp only [step, KeyOps.pttl]
      split <;> rfl
  | keyType =>
      refine KeyStep.looks_of_keep ?_
      simp only [step, KeyOps.keyType]
      split <;> rfl
  | strlen => exact KeyOps.onString_looks rfl fun _ _ => rfl
  | getrange start stop =>
      refine KeyOps.onString_looks rfl fun _ b => ?_
      dsimp only
      split
      · rfl
      · split
        · rfl
        · split <;> rfl
  | llen => exact KeyOps.onList_looks rfl fun _ _ => rfl
  | lrange start stop => exact KeyOps.onList_looks rfl fun _ _ => rfl
  | lindex index => exact KeyOps.onList_looks rfl fun _ _ => rfl
  | smembers => exact KeyOps.onSet_looks rfl fun _ _ => rfl
  | sismember member => exact KeyOps.onSet_looks rfl fun _ _ => rfl
  | scard => exact KeyOps.onSet_looks rfl fun _ _ => rfl
  | srandmember count =>
      refine KeyOps.onSet_looks rfl fun _ m => ?_
      dsimp only
      split
      · rfl
      · split
        · rfl
        · split
          · rfl
          · split <;> rfl
  | hget field => exact KeyOps.onHash_looks rfl fun _ _ => rfl
  | hmget fields => exact KeyOps.onHash_looks rfl fun _ _ => rfl
  | hgetall => exact KeyOps.onHash_looks rfl fun _ _ => rfl
  | hlen => exact KeyOps.onHash_looks rfl fun _ _ => rfl
  | hexists field => exact KeyOps.onHash_looks rfl fun _ _ => rfl
  | hkeys => exact KeyOps.onHash_looks rfl fun _ _ => rfl
  | hvals => exact KeyOps.onHash_looks rfl fun _ _ => rfl
  | zscore member => exact KeyOps.onZset_looks rfl fun _ _ => rfl
  | zrank member reverse => exact KeyOps.onZset_looks rfl fun _ _ => rfl
  | zrange start stop reverse => exact KeyOps.onZset_looks rfl fun _ _ => rfl
  | zrangebyscore lo hi reverse => exact KeyOps.onZset_looks rfl fun _ _ => rfl
  | zcount lo hi => exact KeyOps.onZset_looks rfl fun _ _ => rfl
  | zcard => exact KeyOps.onZset_looks rfl fun _ _ => rfl
  | xrange start stop n reverse => exact KeyOps.onStream_looks rfl fun _ _ => rfl
  | xlen => exact KeyOps.onStream_looks rfl fun _ _ => rfl
  | hscan cursor pattern n noValues => exact KeyStep.viaGet_looks _
  | sscan cursor pattern n => exact KeyStep.viaGet_looks _
  | zscan cursor pattern n => exact KeyStep.viaGet_looks _
  | _ => cases h

/-- An operation that only looks changes nothing. -/
theorem KeyCmd.reads_spec {α : Type} {c : KeyCmd α} (h : c.reads) : c.Reads := fun key ctx entry =>
  (reads_looks h key ctx entry).keeps

/-- The operations on several keys that change no entry. -/
def StoreCmd.reads {α : Type} : StoreCmd α → Bool
  | rename .. => false
  | flushDb _ => false
  | _ => true

/-- They change no entry. -/
theorem StoreCmd.run_entryAt {α : Type} {c : StoreCmd α} (h : c.reads) (ctx : Ctx) (e : Engine)
    (db : Nat) (key : Key) : (c.run ctx e).2.entryAt db key = e.entryAt db key := by
  rw [Engine.entryAt_eq, c.run_shardAt ctx e, Engine.entryAt_eq]
  cases e.shardAt db (getShardIndex key) with
  | none => rfl
  | some sh =>
      cases c with
      | rename db old new => cases h
      | flushDb db => cases h
      | registerWatch db' k =>
          simp only [onShard, Option.map_some, Option.bind_some]
          split <;> rfl
      | unregisterWatch db' k =>
          simp only [onShard, Option.map_some, Option.bind_some]
          split <;> rfl
      | _ => rfl

/-! ## The store a server works on -/

/-- The database exists, and no memory is refused. -/
structure World.Ready (db : Nat) (w : World) : Prop where
  database : db < w.engine.databases.length
  unlimited : w.engine.memory.maxMemory = 0

theorem StoreCmd.run_maxMemory {α : Type} (c : StoreCmd α) (ctx : Ctx) (e : Engine) :
    (c.run ctx e).2.memory.maxMemory = e.memory.maxMemory := by
  cases c with
  | rename db old new =>
      simp only [run, Engine.rename]
      split
      · rfl
      · split
        · rfl
        · split <;> rfl
  | flushDb db =>
      simp only [run, Engine.flushDb]
      split <;> rfl
  | registerWatch db k =>
      simp only [run, Engine.registerWatch]
      split <;> rfl
  | unregisterWatch db k =>
      simp only [run, Engine.unregisterWatch]
      split <;> rfl
  | getAllKeys db => exact congrArg (·.memory.maxMemory) (Engine.reading_snd _ _ _)
  | keys db p => exact congrArg (·.memory.maxMemory) (Engine.reading_snd _ _ _)
  | scan db cursor p t n => exact congrArg (·.memory.maxMemory) (Engine.reading_snd _ _ _)
  | sunion db ks =>
      simp only [run, Engine.sunion]
      split
      · rfl
      · exact congrArg (·.memory.maxMemory) (Engine.reading_snd _ _ _)
  | sinter db ks =>
      simp only [run, Engine.sinter]
      split
      · rfl
      · exact congrArg (·.memory.maxMemory) (Engine.reading_snd _ _ _)
  | sdiff db ks =>
      simp only [run, Engine.sdiff]
      split
      · rfl
      · exact congrArg (·.memory.maxMemory) (Engine.reading_snd _ _ _)
  | xread db ks n b =>
      simp only [run, Engine.xread]
      split
      · rfl
      · split
        · rfl
        · exact congrArg (·.memory.maxMemory) (Engine.reading_snd _ _ _)
  | wasModifiedSince db k n =>
      simp only [run, Engine.wasModifiedSince]
      split <;> rfl
  | _ => rfl

/-- Every operation leaves the databases there and the memory unlimited. -/
theorem World.Ready.step {db : Nat} {w : World} (h : w.Ready db) {ω : Nat → Ctx} {β : Type}
    (o : Op β) : (World.step ω β o w).2.Ready db := by
  cases o with
  | key db' k c =>
      refine ⟨?_, ?_⟩
      · show _ < (w.engine.withEntry db' k (ω w.calls) (c.step k)).2.databases.length
        rw [Engine.withEntry_databases_length]
        exact h.database
      · show (w.engine.withEntry db' k (ω w.calls) (c.step k)).2.memory.maxMemory = 0
        rw [Engine.withEntry_maxMemory]
        exact h.unlimited
  | store c =>
      refine ⟨?_, ?_⟩
      · show _ < (c.run (ω w.calls) w.engine).2.databases.length
        rw [c.run_length]
        exact h.database
      · show (c.run (ω w.calls) w.engine).2.memory.maxMemory = 0
        rw [c.run_maxMemory]
        exact h.unlimited

/-- An operation on several keys that reads keeps the store. -/
theorem World.step_store_kept {ω : Nat → Ctx} {w : World} {β : Type} {c : StoreCmd β} (h : c.reads) :
    Kept ω w (World.step ω β (.store c) w).2 where
  calls_le := Nat.le_succ _
  entry db key := by
    refine .inl ?_
    show SameEntry _ ((c.run (ω w.calls) w.engine).2.entryAt db key)
    rw [StoreCmd.run_entryAt h]
    exact .refl _

/-- An operation on one key whose step keeps the entry keeps the store. -/
theorem World.step_key_kept {ω : Nat → Ctx} {w : World} (db : Nat) (key : Key) {β : Type}
    {c : KeyCmd β}
    (h : (c.step key (ω w.calls) (w.engine.entryAt db key)).Keeps (ω w.calls) (w.engine.entryAt db key)) :
    Kept ω w (World.step ω β (.key db key c) w).2 := by
  refine ⟨Nat.le_succ _, fun db' key' => ?_⟩
  unfold KeptEntry
  show SameEntry _ ((w.engine.withEntry db key (ω w.calls) (c.step key)).2.entryAt db' key') ∨
    (w.engine.withEntry db key (ω w.calls) (c.step key)).2.entryAt db' key' = none ∧ _
  by_cases hdb : db < w.engine.databases.length
  · rw [Engine.withEntry_entryAt hdb]
    split
    · next hc =>
        obtain ⟨rfl, rfl, -⟩ := hc
        rcases h with hs | ⟨hn, sv, hsv, he⟩
        · exact .inl hs
        · exact .inr ⟨hn, sv, w.calls, hsv, le_rfl, Nat.lt_succ_self _, he⟩
    · exact .inl (.refl _)
  · rw [Engine.withEntry_missing hdb]
    exact .inl (.refl _)

/-- The operations that change no entry. -/
def Op.reads {α : Type} : Op α → Bool
  | .key _ _ c => c.reads
  | .store c => c.reads

/-- They keep the store. -/
theorem World.step_kept {ω : Nat → Ctx} {β : Type} {o : Op β} (h : o.reads) (w : World) :
    Kept ω w (World.step ω β o w).2 := by
  cases o with
  | key db key c => exact World.step_key_kept db key (KeyCmd.reads_spec h key _ _)
  | store c => exact World.step_store_kept h

/-! ## Handlers -/

/-- After an operation that succeeds the handler goes on from the state it leaves. -/
theorem run_need {ω : Nat → Ctx} {α β : Type} {o : Op β} {body : β → StoreProg α} {w w' : World} {b : β}
    (h : World.step ω β o w = (.ok b, w')) :
    (need o >>= body).run (World.step ω) w = (body b).run (World.step ω) w' :=
  Prog.run_bind_of_ok _ (Prog.run_perform_of_ok _ h) _

/-- The command failed: its reply is an error frame, or an error was passed on. -/
def Failed : Outcome RespFrame → Prop
  | .ok f => f.isError = true
  | .err _ => True
  | .panic => False

/-- A run of the program that fails keeps the store. -/
def CleanAt (ω : Nat → Ctx) (p : StoreProg RespFrame) (w : World) : Prop :=
  Failed (p.run (World.step ω) w).1 → Kept ω w (p.run (World.step ω) w).2

/-- From every store with the database, a run that fails keeps the store. -/
def Clean (ω : Nat → Ctx) (db : Nat) (p : StoreProg RespFrame) : Prop :=
  ∀ w : World, w.Ready db → CleanAt ω p w

/-- From every store with the database, the program does not fail. -/
def Sure (ω : Nat → Ctx) (db : Nat) (p : StoreProg RespFrame) : Prop :=
  ∀ w : World, w.Ready db → ¬ Failed (p.run (World.step ω) w).1

section Rules

variable {ω : Nat → Ctx} {db : Nat}

theorem cleanAt_ret (f : RespFrame) (w : World) : CleanAt ω (.ret f) w := fun _ => .refl ω w

theorem Clean.ret (f : RespFrame) : Clean ω db (.ret f) := fun w _ => cleanAt_ret f w

theorem Clean.fail (e : FerrousError) : Clean ω db (.fail e) := fun w _ _ => .refl ω w

theorem Clean.panic : Clean ω db .panic := fun _ _ h => h.elim

theorem Sure.ret {f : RespFrame} (h : f.isError = false) : Sure ω db (.ret f) := by
  intro w _ hf
  have hf : f.isError = true := hf
  rw [h] at hf
  cases hf

theorem Sure.clean {p : StoreProg RespFrame} (h : Sure ω db p) : Clean ω db p :=
  fun w hw hf => absurd hf (h w hw)

/-- Arguments that are refused leave the store alone. -/
theorem Clean.reading {α : Type} {args : Args α} {body : α → StoreProg RespFrame}
    (h : ∀ a, Clean ω db (body a)) : Clean ω db (reading args body) := by
  cases args with
  | error f => exact Clean.ret f
  | ok a => exact h a

/-- After an operation that kept the store, what holds of the rest holds of the whole. -/
theorem CleanAt.call {β : Type} {o : Op β} {k : Except FerrousError β → StoreProg RespFrame} {w : World}
    (hk : Kept ω w (World.step ω β o w).2)
    (h : ∀ r, CleanAt ω (k r) (World.step ω β o w).2) : CleanAt ω (.call o k) w := by
  unfold CleanAt
  rw [Prog.run_call]
  rcases hstep : World.step ω β o w with ⟨r, w'⟩
  rw [hstep] at hk h
  cases r with
  | ok b => exact fun hf => hk.trans (h (.ok b) hf)
  | err e => exact fun hf => hk.trans (h (.error e) hf)
  | panic => exact fun hf => hf.elim

/-- A read, and then the rest. -/
theorem Clean.call_reads {β : Type} {o : Op β} {k : Except FerrousError β → StoreProg RespFrame}
    (ho : o.reads) (h : ∀ r, Clean ω db (k r)) : Clean ω db (.call o k) :=
  fun _ hw => CleanAt.call (World.step_kept ho _) fun r => h r _ (hw.step _)

/-- An operation on one key after which the handler does not fail: where the
operation itself fails, it has left the entry alone. -/
theorem Clean.call_last {β : Type} {key : Key} {c : KeyCmd β}
    {k : Except FerrousError β → StoreProg RespFrame} (hok : ∀ b, Sure ω db (k (.ok b)))
    (herr : ∀ e, Clean ω db (k (.error e))) : Clean ω db (.call (.key db key c) k) := by
  intro w hw
  unfold CleanAt
  obtain ⟨e', hstep, -, -⟩ := World.step_key key c hw.database hw.unlimited (ω := ω)
  have hready := hw.step (ω := ω) (.key db key c)
  have htidy := c.step_tidy key (ω w.calls) (w.engine.entryAt db key)
  have hkept := World.step_key_kept (ω := ω) (w := w) (c := c) db key
  rw [Prog.run_call]
  rw [hstep] at hready hkept ⊢
  cases hr : (c.step key (ω w.calls) (w.engine.entryAt db key)).result with
  | ok b => exact fun hf => absurd hf (hok b _ hready)
  | err e => exact fun hf => (hkept (htidy.keeps hr)).trans (herr e _ hready hf)
  | panic => exact fun hf => hf.elim

/-- A handler that ends with the outcome of an operation does not fail after a success. -/
theorem sure_answering {α : Type} {onError : OnError} {render : α → RespFrame}
    (h : ∀ a, (render a).isError = false) (a : α) :
    Sure ω db (answering onError render (.ok a)) :=
  Sure.ret (h a)

theorem clean_answering {α : Type} (onError : OnError) (render : α → RespFrame) (e : FerrousError) :
    Clean ω db (answering onError render (.error e)) := by
  unfold answering
  dsimp only
  split
  · exact .ret _
  · exact .fail _

/-- The handlers of one operation on a key. -/
theorem Clean.onKey {α : Type} {onError : OnError} {key : Key} {c : KeyCmd α} {render : α → RespFrame}
    (h : ∀ a, (render a).isError = false) : Clean ω db (onKey onError db key c render) :=
  Clean.call_last (sure_answering h) (clean_answering onError render)

theorem Clean.keyed {α : Type} {cmd : String} {onError : OnError} {c : KeyCmd α}
    {render : α → RespFrame} (h : ∀ a, (render a).isError = false) (parts : Parts) :
    Clean ω db (keyed cmd onError c render db parts) :=
  Clean.reading fun _ => Clean.onKey h

/-- A read whose error is passed on, and then the rest. -/
theorem Clean.need_reads {β : Type} {o : Op β} {body : β → StoreProg RespFrame} (ho : o.reads)
    (h : ∀ b, Clean ω db (body b)) : Clean ω db (need o >>= body) := by
  refine Clean.call_reads ho fun r => ?_
  cases r with
  | ok b => exact h b
  | error e => exact .fail e

end Rules

end Ferrous
