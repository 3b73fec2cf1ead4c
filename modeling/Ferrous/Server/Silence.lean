/-
# `Server.Silence` — replies that are not sent

A pop that puts its connection to sleep and a SHUTDOWN that is carried out
answer with the marker, which is not written.  In a transaction the marker
becomes an element of the array EXEC answers with; the serialiser stops at it
with the header and the elements before it in the buffer.  `breaks` reads off
the state before the frame whether this happens.
-/
import Ferrous.Server.Replies
import Ferrous.Server.Quiet

namespace Ferrous

open Lib Args

namespace Server

variable {env : Env} {db : Nat} {parts : Parts} {s : Server}

/-! ## Commands that answer with the marker -/

/-- The pop is accepted and finds no element. -/
def silentPop (db : Nat) (parts : Parts) (s : Server) : Bool :=
  match timeoutArg parts, bulks "key" (parts.drop 1).dropLast with
  | .ok _, .ok keys =>
      decide (3 ≤ parts.length) && decide (db < s.blocking.registries.length) &&
        decide (db < s.world.engine.databases.length) && keys.all (s.world.engine.vacant db)
  | _, _ => false

/-- The command answers with the marker, if it answers. -/
def silent (db : Nat) (parts : Parts) (s : Server) : Bool :=
  match rawCommand parts with
  | some .shutdown => shutsDown parts
  | some .blpop => silentPop db parts s
  | some .brpop => silentPop db parts s
  | _ => false

/-- Some command of a queue does, when it is its turn. -/
def queueSilent (env : Env) (db : Nat) : List Parts → Server → Bool
  | [], _ => false
  | parts :: rest, s =>
      silent db parts s || queueSilent env db rest (processNormalCommand env parts db 0 s).2

/-- The frame is an EXEC that runs its queue, and some command of the queue
answers with the marker. -/
def breaks (env : Env) (s : Server) (id : ConnId) (f : RespFrame) : Bool :=
  match s.connections.get? id with
  | none => false
  | some conn =>
      cleanCommand f == some .exec && admitted env conn && conn.transactionState.inTransaction &&
        match s.onStore env (checkWatched conn.dbIndex conn.transactionState.watchedKeys.toPairs) with
        | (.ok false, s') => !conn.transactionState.aborted &&
            queueSilent env conn.dbIndex conn.transactionState.queuedCommands (s'.setTransaction id {})
        | _ => false

/-! ## Pops that find nothing -/

/-- A pop of a vacant key finds nothing and leaves vacant keys vacant. -/
theorem pop_of_vacant {w : World} (op : BlockingOp) {key : Key} (hdb : db < w.engine.databases.length)
    (h : w.engine.vacant db key = true) (ω : Nat → Ctx) :
    (World.step ω _ (.key db key (popOp op)) w).1 = .ok none ∧
      (World.step ω _ (.key db key (popOp op)) w).2.engine.databases.length = w.engine.databases.length ∧
      ∀ k, w.engine.vacant db k = true →
        (World.step ω _ (.key db key (popOp op)) w).2.engine.vacant db k = true := by
  have hstep : (World.step ω _ (.key db key (popOp op)) w).1 = .ok none ∧
      (World.step ω _ (.key db key (popOp op)) w).2.engine.vacant db key = true := by
    have hentry : w.engine.entryAt db key = none ∨ ∃ d, w.engine.entryAt db key = some ⟨.list [], d⟩ := by
      unfold Engine.vacant at h
      rcases he : w.engine.entryAt db key with _ | ⟨v, d⟩
      · exact .inl rfl
      · rw [he] at h
        cases v with
        | list items => exact .inr ⟨d, by rw [List.isEmpty_iff.mp h]⟩
        | _ => cases h
    constructor
    · change (w.engine.withEntry db key _ _).1 = _
      rw [Engine.withEntry_fst hdb]
      rcases hentry with he | ⟨d, he⟩
      all_goals
        rw [he]
        cases op <;> rfl
    · unfold Engine.vacant
      have hsnd := Engine.withEntry_snd hdb key (ω w.calls) ((popOp op).step key) db key
      rw [if_pos ⟨rfl, rfl⟩] at hsnd
      have hnone : (World.step ω _ (.key db key (popOp op)) w).2.engine.entryAt db key = none := by
        refine hsnd.trans ?_
        rcases hentry with he | ⟨d, he⟩
        all_goals
          rw [he]
          cases op <;> rfl
      rw [hnone]
  refine ⟨hstep.1, Engine.withEntry_databases_length .., fun k hk => ?_⟩
  by_cases hkey : k = key
  · exact hkey ▸ hstep.2
  · have hsame : (World.step ω _ (.key db key (popOp op)) w).2.engine.entryAt db k =
        w.engine.entryAt db k := by
      refine (Engine.withEntry_snd hdb key (ω w.calls) ((popOp op).step key) db k).trans ?_
      rw [if_neg fun hc => hkey hc.2]
    rw [vacant_congr hsame]
    exact hk

theorem tryPops_of_vacant {ω : Nat → Ctx} (op : BlockingOp) (keys : List Key) {w : World}
    (hdb : db < w.engine.databases.length) (h : ∀ key ∈ keys, w.engine.vacant db key = true) :
    ∃ w', (tryPops op db keys).run (World.step ω) w = (.ok none, w') := by
  induction keys generalizing w with
  | nil => exact ⟨w, rfl⟩
  | cons key keys ih =>
      obtain ⟨hnone, hlen, hvac⟩ := pop_of_vacant op hdb (h key List.mem_cons_self) ω
      rw [tryPops, Prog.bind_eq, need, Prog.run_perform_bind]
      rcases hpop : World.step ω _ (.key db key (popOp op)) w with ⟨r, w₁⟩
      rw [hpop] at hnone hlen hvac
      cases hnone
      exact ih (w := w₁) (hlen ▸ hdb) fun k hk => hvac k (h k (List.mem_cons_of_mem _ hk))

/-- A pop that finds nothing has a database. -/
theorem database_of_tryPops {ω : Nat → Ctx} {op : BlockingOp} {keys : List Key} {w w' : World}
    (hne : keys ≠ []) (h : (tryPops op db keys).run (World.step ω) w = (.ok none, w')) :
    db < w.engine.databases.length := by
  cases keys with
  | nil => exact absurd rfl hne
  | cons key keys =>
      rw [tryPops, Prog.bind_eq, need, Prog.run_perform_bind] at h
      by_contra hdb
      have hmiss : (World.step ω _ (.key db key (popOp op)) w).1 = .err Engine.invalidDatabase :=
        congrArg Prod.fst (Engine.withEntry_missing hdb _ _ _)
      rcases hpop : World.step ω _ (.key db key (popOp op)) w with ⟨r, w₁⟩
      rw [hpop] at h hmiss
      cases hmiss
      cases h

/-! ## What a command answers -/

theorem length_bulks {what : String} (ps : Parts) {keys : List Bytes} (h : bulks what ps = .ok keys) :
    keys.length = ps.length := by
  induction ps generalizing keys with
  | nil =>
      cases h
      rfl
  | cons p ps ih =>
      rw [bulks] at h
      cases hp : p.bulk? with
      | none =>
          rw [hp] at h
          cases h
      | some b =>
          rw [hp] at h
          cases hb : bulks what ps with
          | error f =>
              rw [hb] at h
              cases h
          | ok bs =>
              rw [hb] at h
              cases h
              exact congrArg (· + 1) (ih hb)

/-- A silent pop answers with the marker, if it answers. -/
theorem blockingPop_silent {id : ConnId} (op : BlockingOp) (h : silentPop db parts s = true) :
    (blockingPop env (opWord op) op db id parts s).1 = .ok .noResponse ∨
      (blockingPop env (opWord op) op db id parts s).1 = .panic := by
  unfold silentPop at h
  cases ht : timeoutArg parts with
  | error f => simp [ht] at h
  | ok t =>
      cases hkeys : bulks "key" (parts.drop 1).dropLast with
      | error f =>
          rw [ht, hkeys] at h
          cases h
      | ok keys =>
          simp only [ht, hkeys, Bool.and_eq_true, decide_eq_true_eq, List.all_eq_true] at h
          obtain ⟨⟨⟨hlen, hreg⟩, hdb⟩, hvac⟩ := h
          rw [blockingPop_eq op hlen ht]
          cases hd : waitTime t with
          | none => exact .inr rfl
          | some d =>
              obtain ⟨w', hrun⟩ := tryPops_of_vacant op keys hdb hvac (ω := env.ω)
              simp only [popOrBlock, hkeys, Action.reading, Action.storing, onStore, hrun, block, hreg,
                BlockingManager.registerBlocked, if_true]
              split
              · exact .inr rfl
              · exact .inl rfl

/-- Any other pop does not. -/
theorem blockingPop_not_silent {id : ConnId} (op : BlockingOp) (h : silentPop db parts s = false) :
    (blockingPop env (opWord op) op db id parts s).1 ≠ .ok .noResponse := by
  rcases @blockingPop_cases env id db parts op s with
    ⟨-, hne⟩ | ⟨t, keys, ht, hkeys, hlen, hreg, hvac, hd, hok, -⟩
  · exact hne
  · exfalso
    have hdb : db < s.world.engine.databases.length := by
      rw [blockingPop_eq op hlen ht] at hok
      obtain ⟨d, hd, -⟩ := Option.bind_eq_some_iff.mp (Option.isSome_iff_exists.mp hd).choose_spec
      have hne : keys ≠ [] := by
        have hcount := length_bulks _ hkeys
        rw [List.length_dropLast, List.length_drop] at hcount
        rintro rfl
        rw [List.length_nil] at hcount
        omega
      simp only [hd, popOrBlock, hkeys, Action.reading, Action.storing, onStore] at hok
      rcases hrun : (tryPops op db keys).run (World.step env.ω) s.world with ⟨⟨_ | p⟩ | e | _, w'⟩
      · exact database_of_tryPops hne hrun
      · rw [hrun] at hok
        cases hok
      · rw [hrun] at hok
        cases hok
      · rw [hrun] at hok
        cases hok
    unfold silentPop at h
    simp only [ht, hkeys, hlen, hreg, hdb, decide_true, Bool.true_and, hvac, Bool.true_eq_false] at h

theorem silent_of_ne {c : Command} (hc : rawCommand parts = some c) (hblpop : c ≠ .blpop)
    (hbrpop : c ≠ .brpop) (hshutdown : c ≠ .shutdown) : silent db parts s = false := by
  unfold silent
  rw [hc]
  cases c with
  | blpop => exact absurd rfl hblpop
  | brpop => exact absurd rfl hbrpop
  | shutdown => exact absurd rfl hshutdown
  | _ => rfl

/-- What a command leaves behind and answers: the marker where it is silent, a
frame of the wording elsewhere. -/
structure Heeds (L : String → Prop) (Q : RespFrame → Prop) (db : Nat) (parts : Parts) (s : Server)
    (r : Outcome RespFrame × Server) : Prop where
  keeps : s.Keeps L Q r.2
  answers : silent db parts s = false → Says L Q r.1
  marks : silent db parts s = true → r.1 = .ok .noResponse ∨ r.1 = .panic

section Answering

variable {L : String → Prop} {Q : RespFrame → Prop}
  {A : ∀ β : Type, Op β → Except FerrousError β → Prop} (W : Wording L Q) (H : Answers L A)
  (G : GroupAnswers L A) (E : env.Speaks L Q A) {id : ConnId}

include W

/-- A line about a name that is in the table. -/
theorem table_line {name : String} {c : Command} (h : Command.parse name = some c) : L name := by
  have htable : Command.table.all (fun p => plainText p.1) = true := rfl
  obtain ⟨l₁, l₂, hl, -⟩ := List.lookup_eq_some_iff.mp h
  exact W.plain (List.all_eq_true.mp htable (name, c) (hl ▸ List.mem_append_right _ List.mem_cons_self))

theorem everywhere_unknownCommand {name : String} (h : L name) : (unknownCommand name).Everywhere Q :=
  W.error (W.wrap (plainText_of_chars rfl) (plainText_of_chars rfl) h)

include H E

theorem speaks_serverHandler {c : Command} {a : Action} (h : serverHandler env db id parts c = some a)
    (hblpop : c ≠ .blpop) (hbrpop : c ≠ .brpop) (hshutdown : c ≠ .shutdown)
    (hecho : ∀ t ∈ c.echoed parts, L t) : a.Speaks L Q := by
  cases c with
  | select => exact Option.some.inj h ▸ speaks_handleSelect W
  | blpop => exact absurd rfl hblpop
  | brpop => exact absurd rfl hbrpop
  | lpush => exact Option.some.inj h ▸ speaks_pushAndNotify E (worded_pushing W H parts rfl _)
  | rpush => exact Option.some.inj h ▸ speaks_pushAndNotify E (worded_pushing W H parts rfl _)
  | save => exact Option.some.inj h ▸ speaks_handleSave W H E
  | bgsave => exact Option.some.inj h ▸ speaks_handleBgsave W E
  | lastsave => exact Option.some.inj h ▸ speaks_handleLastsave W
  | bgrewriteaof => exact Option.some.inj h ▸ speaks_handleBgrewriteaof W E
  | client => exact Option.some.inj h ▸ speaks_handleClient W hecho
  | auth => exact Option.some.inj h ▸ speaks_handleAuth W
  | replicaof => exact Option.some.inj h ▸ speaks_handleReplicaof W E
  | slaveof => exact Option.some.inj h ▸ speaks_handleReplicaof W E
  | sync => exact Option.some.inj h ▸ speaks_handleSync W H E
  | psync => exact Option.some.inj h ▸ speaks_psyncReply W
  | quit => exact Option.some.inj h ▸ .reply W.ok
  | evalsha => exact Option.some.inj h ▸ speaks_handleEvalsha W E
  | shutdown => exact absurd rfl hshutdown
  | script => exact Option.some.inj h ▸ speaks_handleScript W E hecho
  | _ => cases h

theorem heeds_blockingPop {c : Command} (op : BlockingOp) (hop : blockingOp (some c) = some op)
    (hc : rawCommand parts = some c) (hs : s.Fluent L Q) :
    Heeds L Q db parts s (blockingPop env (opWord op) op db id parts s) := by
  have hspeaks : s.Keeps L Q (blockingPop env (opWord op) op db id parts s).2 ∧
      ((blockingPop env (opWord op) op db id parts s).1 = .ok .noResponse ∨
        Says L Q (blockingPop env (opWord op) op db id parts s).1) := by
    cases op with
    | blpop => exact speaks_blockingPop W H E rfl .blpop s hs
    | brpop => exact speaks_blockingPop W H E rfl .brpop s hs
  have hsilent : silent db parts s = silentPop db parts s := by
    unfold silent
    rw [hc]
    obtain ⟨h, -⟩ | ⟨h, -⟩ := blockingOp_eq_some hop
    all_goals rw [h]
  refine ⟨hspeaks.1, fun h => ?_, fun h => blockingPop_silent op (hsilent ▸ h)⟩
  exact hspeaks.2.resolve_left (blockingPop_not_silent op (hsilent ▸ h))

omit H E in
theorem heeds_handleShutdown (hc : rawCommand parts = some .shutdown) (hs : s.Fluent L Q) :
    Heeds L Q db parts s (handleShutdown env parts s) := by
  have hsilent : silent db parts s = shutsDown parts := by
    unfold silent
    rw [hc]
  rcases @handleShutdown_cases env parts with ⟨h, save, heq⟩ | ⟨h, cs, hcs, heq⟩
  · obtain ⟨⟨w, hw⟩, hr⟩ := @ending_cases env save s
    rw [heq]
    refine ⟨hw ▸ .same hs rfl rfl rfl, fun hno => ?_, fun _ => hr⟩
    rw [hsilent, h] at hno
    cases hno
  · rw [heq]
    refine ⟨.refl hs, fun _ => W.err hcs, fun hyes => ?_⟩
    rw [hsilent, h] at hyes
    cases hyes

include G

theorem heeds_dispatch {bytes : Bytes} (hhead : (parts.head?).bind RespFrame.bulk? = some bytes)
    (hparts : ∀ p ∈ parts, p.Everywhere Q) (hecho : ∀ t ∈ echoed parts, L t) (hs : s.Fluent L Q) :
    Heeds L Q db parts s (dispatch env db id parts (Command.rawName bytes) s) := by
  have hraw : rawCommand parts = Command.parse (Command.rawName bytes) := by
    rw [rawCommand, hhead, Option.map_some, Option.bind_some]
  have hplain {r : Outcome RespFrame × Server} (hno : silent db parts s = false)
      (hr : s.Keeps L Q r.2 ∧ Says L Q r.1) : Heeds L Q db parts s r :=
    ⟨hr.1, fun _ => hr.2, fun h => by
      rw [hno] at h
      cases h⟩
  unfold dispatch
  unfold echoed at hecho
  rw [hhead] at hecho
  cases hc : Command.parse (Command.rawName bytes) with
  | none =>
      have hno : silent db parts s = false := by
        unfold silent
        rw [hraw, hc]
      simp only [hc, List.mem_singleton, forall_eq] at hecho
      exact hplain hno ⟨.refl hs, everywhere_unknownCommand W hecho⟩
  | some c =>
      rw [hc] at hraw
      simp only [hc] at hecho
      dsimp only
      by_cases hblpop : c = .blpop
      · subst hblpop
        exact heeds_blockingPop W H E .blpop rfl hraw hs
      by_cases hbrpop : c = .brpop
      · subst hbrpop
        exact heeds_blockingPop W H E .brpop rfl hraw hs
      by_cases hshutdown : c = .shutdown
      · subst hshutdown
        exact heeds_handleShutdown W hraw hs
      refine hplain (silent_of_ne hraw hblpop hbrpop hshutdown) ?_
      cases hp : c.storeHandler env (s.proc env) db parts with
      | some p =>
          have hrun := Prog.Returns.run E.answers (worded_storeHandler W H G E hp hparts hecho) s.world
          have hworld (w : World) : s.Keeps L Q { s with world := w } := .same hs rfl rfl rfl
          dsimp only [onStore]
          rcases hr : p.run (World.step env.ω) s.world with ⟨f | e | _, w⟩
          all_goals rw [hr] at hrun
          · exact ⟨hworld w, hrun⟩
          · exact ⟨hworld w, hrun⟩
          · exact ⟨hworld w, trivial⟩
      | none =>
          dsimp only
          cases ha : serverHandler env db id parts c with
          | some a => exact speaks_serverHandler W H E ha hblpop hbrpop hshutdown hecho s hs
          | none => exact ⟨.refl hs, everywhere_unknownCommand W (table_line W hc)⟩

omit W G H E in
theorem keeps_logCommand (hs : s.Fluent L Q) (write : Bool) :
    s.Keeps L Q (logCommand env write parts s) := by
  unfold logCommand
  split
  · exact .same hs rfl rfl rfl
  · exact .refl hs

omit G H E in
/-- The replicas get the parts as they came. -/
theorem keeps_propagate (hparts : ∀ p ∈ parts, p.Everywhere Q) (hs : s.Fluent L Q) (write : Bool)
    (r : Outcome RespFrame) : s.Keeps L Q (propagate write parts r s) := by
  have hrole : ∀ replId offset,
      (s.replication.propagateCommand (.list parts)).2.role = .master replId offset → L replId := by
    intro replId offset h
    unfold ReplicationManager.propagateCommand at h
    split at h
    · exact hs.role _ _ h
    · next master current hmaster =>
        split at h
        · exact hs.role _ _ h
        · cases h
          exact hs.role _ _ hmaster
  unfold propagate
  split
  · split
    · have hrep : s.Keeps L Q
          { s with replication := (s.replication.propagateCommand (.list parts)).2 } :=
        ⟨⟨hs.queued, hrole⟩, [], (List.append_nil _).symm, nofun⟩
      refine hrep.trans (.foldl hrep.fluent _ fun s hs i _ => .send hs fun f hf => ?_)
      cases hf
      exact W.list hparts
    · exact .refl hs
  · exact .refl hs

/-- What `process_normal_command` leaves behind and answers. -/
theorem heeds_processNormalCommand (hparts : ∀ p ∈ parts, p.Everywhere Q)
    (hecho : ∀ t ∈ echoed parts, L t) (hs : s.Fluent L Q) :
    Heeds L Q db parts s (processNormalCommand env parts db id s) := by
  unfold processNormalCommand
  cases hhead : (parts.head?).bind RespFrame.bulk? with
  | none =>
      have hno : silent db parts s = false := by
        unfold silent rawCommand
        rw [hhead]
        rfl
      refine ⟨.refl hs, fun _ => W.err rfl, fun h => ?_⟩
      rw [hno] at h
      cases h
  | some bytes =>
      have hlog : s.Keeps L Q (logCommand env
          (((Command.parse (Command.rawName bytes)).map Command.isWrite).getD false) parts s) :=
        keeps_logCommand hs _
      have hsame : silent db parts (logCommand env
          (((Command.parse (Command.rawName bytes)).map Command.isWrite).getD false) parts s) =
          silent db parts s := by
        unfold logCommand
        split <;> rfl
      have h := @heeds_dispatch env db parts _ L Q A W H G E id bytes hhead hparts hecho hlog.fluent
      dsimp only
      generalize logCommand env (((Command.parse (Command.rawName bytes)).map Command.isWrite).getD false)
        parts s = s₁ at hlog hsame h ⊢
      generalize dispatch env db id parts (Command.rawName bytes) s₁ = r at h ⊢
      refine ⟨(hlog.trans h.keeps).trans (keeps_propagate W hparts h.keeps.fluent _ _), fun hno => ?_, fun hyes => ?_⟩
      · exact h.answers (hsame.trans hno)
      · exact h.marks (hsame.trans hyes)

end Answering

/-! ## EXEC -/

/-- The replies to a queue stand behind those there were. -/
theorem runQueued_list (queue : List Parts) (results : List RespFrame) (s : Server) :
    (runQueued env db queue results s).1 = .panic ∨
      ∃ fs, (runQueued env db queue results s).1 = .ok (.list (results ++ fs)) := by
  induction queue generalizing results s with
  | nil => exact .inr ⟨[], by rw [List.append_nil]; rfl⟩
  | cons parts rest ih =>
      rw [runQueued]
      dsimp only
      rcases processNormalCommand env parts db 0 s with ⟨f | e | _, s'⟩
      · refine (ih (results ++ [f]) s').imp_right fun ⟨fs, h⟩ => ⟨f :: fs, ?_⟩
        rw [h, List.append_assoc, List.singleton_append]
      · refine (ih (results ++ [.err e.display]) s').imp_right fun ⟨fs, h⟩ => ⟨.err e.display :: fs, ?_⟩
        rw [h, List.append_assoc, List.singleton_append]
      · exact .inl rfl

/-- What `handle_exec` leaves behind and answers. -/
structure HeedsQueue (L : String → Prop) (Q : RespFrame → Prop) (breaking : Bool) (s : Server)
    (r : Outcome RespFrame × Server) : Prop where
  keeps : s.Keeps L Q r.2
  answers : breaking = false → r.1 = .ok .noResponse ∨ Says L Q r.1
  marks : breaking = true → r.1 = .panic ∨ ∃ fs, r.1 = .ok (.list fs) ∧ .noResponse ∈ fs

theorem HeedsQueue.of_said {L : String → Prop} {Q : RespFrame → Prop} {r : Outcome RespFrame × Server}
    (h : s.Keeps L Q r.2 ∧ (r.1 = .ok .noResponse ∨ Says L Q r.1)) : HeedsQueue L Q false s r :=
  ⟨h.1, fun _ => h.2, nofun⟩

section Frames

variable {L : String → Prop} {Q : RespFrame → Prop}
  {A : ∀ β : Type, Op β → Except FerrousError β → Prop} (W : Wording L Q) (H : Answers L A)
  (G : GroupAnswers L A) (E : env.Speaks L Q A) {id : ConnId}

/-- The parts have the property of frames, and what is repeated of them that of
lines. -/
structure Decent (L : String → Prop) (Q : RespFrame → Prop) (parts : Parts) : Prop where
  frames : ∀ p ∈ parts, p.Everywhere Q
  lines : ∀ t ∈ echoed parts, L t

include W H G E

theorem keeps_runQueued (queue : List Parts) (results : List RespFrame)
    (hqueue : ∀ parts ∈ queue, Decent L Q parts) (hs : s.Fluent L Q) :
    s.Keeps L Q (runQueued env db queue results s).2 := by
  induction queue generalizing results s with
  | nil => exact .refl hs
  | cons parts rest ih =>
      have hparts := hqueue parts List.mem_cons_self
      have hrest := fun ps hps => hqueue ps (List.mem_cons_of_mem _ hps)
      have hheeds : Heeds L Q db parts s (processNormalCommand env parts db 0 s) :=
        heeds_processNormalCommand W H G E hparts.frames hparts.lines hs
      have h := hheeds.keeps
      rw [runQueued]
      dsimp only
      rcases hr : processNormalCommand env parts db 0 s with ⟨f | e | _, s'⟩
      all_goals rw [hr] at h
      · exact h.trans (ih _ hrest h.fluent)
      · exact h.trans (ih _ hrest h.fluent)
      · exact h

/-- A queue without silent commands is answered with frames of the wording. -/
theorem answers_runQueued (queue : List Parts) (results : List RespFrame)
    (hqueue : ∀ parts ∈ queue, Decent L Q parts) (hs : s.Fluent L Q)
    (hresults : ∀ f ∈ results, f.Everywhere Q) (hno : queueSilent env db queue s = false) :
    Says L Q (runQueued env db queue results s).1 := by
  induction queue generalizing results s with
  | nil => exact W.list hresults
  | cons parts rest ih =>
      have hparts := hqueue parts List.mem_cons_self
      have hrest := fun ps hps => hqueue ps (List.mem_cons_of_mem _ hps)
      have h : Heeds L Q db parts s (processNormalCommand env parts db 0 s) :=
        heeds_processNormalCommand W H G E hparts.frames hparts.lines hs
      rw [queueSilent, Bool.or_eq_false_iff] at hno
      have hsaid := h.answers hno.1
      have hkeeps := h.keeps
      have hsilent := hno.2
      have hmore {f : RespFrame} (hf : f.Everywhere Q) : ∀ g ∈ results ++ [f], g.Everywhere Q := by
        intro g hg
        rcases List.mem_append.mp hg with hg | hg
        · exact hresults g hg
        · exact List.mem_singleton.mp hg ▸ hf
      rw [runQueued]
      dsimp only
      rcases hr : processNormalCommand env parts db 0 s with ⟨f | e | _, s'⟩
      all_goals rw [hr] at hsaid hkeeps hsilent
      · exact ih _ hrest hkeeps.fluent (hmore hsaid) hsilent
      · exact ih _ hrest hkeeps.fluent (hmore (W.error hsaid)) hsilent
      · trivial

/-- The marker of a silent command is an element of the reply. -/
theorem marks_runQueued (queue : List Parts) (results : List RespFrame)
    (hqueue : ∀ parts ∈ queue, Decent L Q parts) (hs : s.Fluent L Q)
    (hyes : queueSilent env db queue s = true) :
    (runQueued env db queue results s).1 = .panic ∨
      ∃ fs, (runQueued env db queue results s).1 = .ok (.list fs) ∧ .noResponse ∈ fs := by
  induction queue generalizing results s with
  | nil => cases hyes
  | cons parts rest ih =>
      have hparts := hqueue parts List.mem_cons_self
      have hrest := fun ps hps => hqueue ps (List.mem_cons_of_mem _ hps)
      have h : Heeds L Q db parts s (processNormalCommand env parts db 0 s) :=
        heeds_processNormalCommand W H G E hparts.frames hparts.lines hs
      have hmarks := h.marks
      have hkeeps := h.keeps
      rw [queueSilent, Bool.or_eq_true] at hyes
      rw [runQueued]
      dsimp only
      rcases hr : processNormalCommand env parts db 0 s with ⟨f | e | _, s'⟩
      all_goals rw [hr] at hmarks hkeeps hyes
      · rcases hyes with hyes | hyes
        · have hf : f = .noResponse := by
            rcases hmarks hyes with h | h
            · exact Outcome.ok.inj h
            · cases h
          refine (runQueued_list rest (results ++ [f]) s').imp_right fun ⟨fs, hfs⟩ => ⟨_, hfs, ?_⟩
          exact List.mem_append_left _ (List.mem_append_right _ (List.mem_singleton.mpr hf.symm))
        · exact ih _ hrest hkeeps.fluent hyes
      · rcases hyes with hyes | hyes
        · rcases hmarks hyes with h | h <;> cases h
        · exact ih _ hrest hkeeps.fluent hyes
      · exact .inl rfl

omit W H G E in
theorem discreet_checkWatched (watched : List (Key × Nat)) : Discreet L A (checkWatched db watched) := by
  induction watched with
  | nil => exact .ret _
  | cons p watched ih =>
      refine .bind (.attempt _) fun r => ?_
      split
      · exact ih
      · exact .ret _

/-- What EXEC leaves behind and answers. -/
theorem heeds_handleExec {conn : Connection} (hconn : s.connections.get? id = some conn)
    (hqueue : ∀ parts ∈ conn.transactionState.queuedCommands, Decent L Q parts) (hs : s.Fluent L Q) :
    HeedsQueue L Q (conn.transactionState.inTransaction &&
        match s.onStore env (checkWatched conn.dbIndex conn.transactionState.watchedKeys.toPairs) with
        | (.ok false, s') => !conn.transactionState.aborted &&
            queueSilent env conn.dbIndex conn.transactionState.queuedCommands (s'.setTransaction id {})
        | _ => false) s (handleExec env id s) := by
  have hquiet : Discreet L A (checkWatched conn.dbIndex conn.transactionState.watchedKeys.toPairs) :=
    discreet_checkWatched _
  have hline := Prog.Returns.run E.answers hquiet s.world
  have hworld (w : World) : s.Keeps L Q { s with world := w } := .same hs rfl rfl rfl
  have hset (w : World) : s.Keeps L Q (({ s with world := w } : Server).setTransaction id {}) :=
    (hworld w).trans (.onConnection (hworld w).fluent _ fun _ _ => List.forall_mem_nil _)
  unfold handleExec
  rw [hconn]
  dsimp only
  cases htx : conn.transactionState.inTransaction with
  | false => exact .of_said ⟨.refl hs, .inr (W.err rfl)⟩
  | true =>
      simp only [Bool.not_true, Bool.false_eq_true, if_false, Action.storing, onStore, Bool.true_and]
      rcases hr : (checkWatched conn.dbIndex conn.transactionState.watchedKeys.toPairs).run
        (World.step env.ω) s.world with ⟨violated | e | _, w⟩
      all_goals rw [hr] at hline
      · cases violated with
        | true => exact .of_said ⟨hset w, .inr W.nullArray⟩
        | false =>
            dsimp only
            cases conn.transactionState.aborted with
            | true => exact .of_said ⟨hset w, .inr W.nullArray⟩
            | false =>
                simp only [Bool.or_false, Bool.false_eq_true, if_false, Bool.not_false, Bool.true_and]
                have hkeep (db : Nat) := @keeps_runQueued env db _ L Q A W H G E _ [] hqueue (hset w).fluent
                refine ⟨(hset w).trans (hkeep _), fun hno => .inr ?_, fun hyes => ?_⟩
                · exact answers_runQueued W H G E _ [] hqueue (hset w).fluent (List.forall_mem_nil _) hno
                · exact marks_runQueued W H G E _ [] hqueue (hset w).fluent hyes
      · exact .of_said ⟨hworld w, .inr hline⟩
      · exact .of_said ⟨hworld w, .inr trivial⟩

/-! ## Frames -/

omit H G E in
theorem speaks_beforeAuth (c : Option Command) (hparts : ∀ p ∈ parts, p.Everywhere Q) :
    (beforeAuth env id parts c).Speaks L Q := by
  unfold beforeAuth
  split
  · exact speaks_handleAuth W
  · exact .reply (everywhere_handlePing W parts hparts)
  · exact .reply W.ok
  · exact .error W rfl

omit H G in
theorem speaks_immediate {c : Command} {a : Action} (h : immediate env id parts c = some a)
    (hexec : c ≠ .exec) (hs : s.Fluent L Q) :
    s.Keeps L Q (a s).2 ∧ ((a s).1 = .ok .noResponse ∨ Says L Q (a s).1) := by
  have hplain {a : Action} (ha : a.Speaks L Q) :
      s.Keeps L Q (a s).2 ∧ ((a s).1 = .ok .noResponse ∨ Says L Q (a s).1) :=
    ⟨(ha s hs).1, .inr (ha s hs).2⟩
  cases c with
  | monitor => exact Option.some.inj h ▸ hplain (speaks_handleMonitor W)
  | multi => exact Option.some.inj h ▸ hplain (speaks_handleMulti W)
  | exec => exact absurd rfl hexec
  | discard => exact Option.some.inj h ▸ hplain (speaks_handleDiscard W)
  | watch => exact Option.some.inj h ▸ hplain (speaks_handleWatch W)
  | unwatch => exact Option.some.inj h ▸ hplain (speaks_handleUnwatch W E)
  | publish => exact Option.some.inj h ▸ hplain (speaks_handlePublish W)
  | subscribe => exact Option.some.inj h ▸ speaks_subscribing W rfl _ s hs
  | unsubscribe => exact Option.some.inj h ▸ speaks_unsubscribing W _ _ s hs
  | psubscribe => exact Option.some.inj h ▸ speaks_subscribing W rfl _ s hs
  | punsubscribe => exact Option.some.inj h ▸ speaks_unsubscribing W _ _ s hs
  | auth => exact Option.some.inj h ▸ hplain (speaks_handleAuth W)
  | replconf => exact Option.some.inj h ▸ hplain (speaks_handleReplconf W)
  | _ => cases h

/-- A frame that is no EXEC, behind the synchronisation commands. -/
theorem answers_processFrame {f : RespFrame} (hf : Decent L Q (frameParts f))
    (hexec : cleanCommand f ≠ some .exec) (hs : s.Fluent L Q) :
    s.Keeps L Q (processFrame env id f s).2 ∧
      ((processFrame env id f s).1 = .ok .noResponse ∨ Says L Q (processFrame env id f s).1) := by
  have hplain {a : Action} (ha : a.Speaks L Q) :
      s.Keeps L Q (a s).2 ∧ ((a s).1 = .ok .noResponse ∨ Says L Q (a s).1) :=
    ⟨(ha s hs).1, .inr (ha s hs).2⟩
  have hparts (ps : Parts) (c : Option Command) (hps : Decent L Q ps) (hc : c ≠ some .exec) :
      s.Keeps L Q (processParts env id ps c s).2 ∧
        ((processParts env id ps c s).1 = .ok .noResponse ∨ Says L Q (processParts env id ps c s).1) := by
    unfold processParts withConnection
    cases hconn : s.connections.get? id with
    | none => exact ⟨.refl hs, .inr (W.err rfl)⟩
    | some conn =>
        dsimp only
        split
        · exact hplain (speaks_beforeAuth W c hps.frames)
        · unfold afterAuth
          cases himm : c.bind (immediate env id ps) with
          | some a =>
              obtain ⟨c', hc', ha⟩ := Option.bind_eq_some_iff.mp himm
              exact speaks_immediate W E ha (fun h => hc (h ▸ hc')) hs
          | none =>
              dsimp only
              split
              · exact hplain (speaks_queueCommand W hps.frames)
              · dsimp only
                split
                · exact ⟨.refl hs, .inr (W.err rfl)⟩
                · have h : Heeds L Q conn.dbIndex ps s (processNormalCommand env ps conn.dbIndex id s) :=
                    heeds_processNormalCommand W H G E hps.frames hps.lines hs
                  refine ⟨h.keeps, ?_⟩
                  cases hsil : silent conn.dbIndex ps s with
                  | false => exact .inr (h.answers hsil)
                  | true =>
                      rcases h.marks hsil with hr | hr
                      · exact .inl hr
                      · refine .inr ?_
                        rw [hr]
                        trivial
  unfold processFrame
  split
  · next first rest =>
      cases hb : first.bulk? with
      | none => exact hplain (.error W rfl)
      | some bytes =>
          have hclean : cleanCommand (.array (some (first :: rest))) =
              Command.parse (Command.cleanName bytes) := by
            simp only [cleanCommand, frameParts, List.head?_cons, Option.bind_some, hb]
          exact hparts _ _ hf (hclean ▸ hexec)
  · exact hplain (.error W rfl)

/-- What a frame leaves behind and is answered. -/
theorem heeds_answerFrame {f : RespFrame} (hf : Decent L Q (frameParts f))
    (hqueue : ∀ conn, s.connections.get? id = some conn →
      ∀ parts ∈ conn.transactionState.queuedCommands, Decent L Q parts) (hs : s.Fluent L Q) :
    HeedsQueue L Q (breaks env s id f) s (answerFrame env id f s) := by
  by_cases hexec : cleanCommand f = some .exec
  · have hgate := @answerFrame_immediate env id s f _ _ hexec rfl nofun
    cases hconn : s.connections.get? id with
    | none =>
        rw [hconn] at hgate
        have hbreaks : breaks env s id f = false := by
          unfold breaks
          rw [hconn]
        rw [hgate, hbreaks]
        exact .of_said ⟨.refl hs, .inr (W.err rfl)⟩
    | some conn =>
        rw [hconn] at hgate
        have h := heeds_handleExec W H G E hconn (hqueue conn hconn) hs
        rw [hgate]
        unfold breaks
        rw [hconn, hexec]
        dsimp only
        cases admitted env conn with
        | true => exact h
        | false => exact .of_said ⟨.refl hs, .inr (W.err rfl)⟩
  · have hbreaks : breaks env s id f = false := by
      unfold breaks
      split
      · rfl
      · rw [beq_eq_false_iff_ne.mpr hexec, Bool.false_and, Bool.false_and, Bool.false_and]
    rw [hbreaks]
    refine .of_said ?_
    have hanswer : (∃ psync, answerFrame env id f = handleSyncCommand env psync id (frameParts f)) ∨
        answerFrame env id f = processFrame env id f := by
      unfold answerFrame
      split
      · exact .inl ⟨false, rfl⟩
      · exact .inl ⟨true, rfl⟩
      · exact .inr rfl
    rcases hanswer with ⟨psync, h⟩ | h
    · rw [h]
      have hsync := @speaks_handleSyncCommand L Q A W H env E id (frameParts f) psync s hs
      exact ⟨hsync.1, .inr hsync.2⟩
    · rw [h]
      exact answers_processFrame W H G E hf hexec hs

/-! ## Events -/

omit W H G E in
/-- Connections that go take their queues with them. -/
theorem Keeps.fewer (hs : s.Fluent L Q) {s' : Server}
    (hc : ∀ i c, s'.connections.get? i = some c → s.connections.get? i = some c)
    (hr : s'.replication = s.replication) (hsent : s'.sent = s.sent) : s.Keeps L Q s' where
  fluent := ⟨fun i c hget => hs.queued i c (hc i c hget), fun i o hrole => hs.role i o (hr ▸ hrole)⟩
  adds := ⟨[], by rw [hsent, List.append_nil], nofun⟩

omit W H G E in
theorem keeps_del (hs : s.Fluent L Q) {s' : Server} {j : ConnId}
    (hc : s'.connections = s.connections.del j) (hr : s'.replication = s.replication)
    (hsent : s'.sent = s.sent) : s.Keeps L Q s' := by
  refine .fewer hs (fun i c hget => ?_) hr hsent
  rw [hc, Map.get?_del] at hget
  split at hget
  · cases hget
  · exact hget

omit H G E in
theorem keeps_wakeClient {w : WakeupRequest} {s' : Server} (hs : s.Fluent L Q)
    (h : wakeClient env s w = some s') : s.Keeps L Q s' := by
  obtain ⟨r, world', -, rfl | ⟨c, value, -, -, -, rfl⟩⟩ := wakeClient_cases h
  · exact .same hs rfl rfl rfl
  · have hworld : s.Keeps L Q { s with world := world' } := .same hs rfl rfl rfl
    have hpop : ∀ f, Sent.frame (popFrame w.key value) = .frame f → f.Everywhere Q := by
      rintro f ⟨⟩
      exact everywhere_popFrame W _ _
    have hsend := hworld.trans (@Keeps.send L Q _ w.connId hworld.fluent _ hpop)
    exact hsend.trans (.onQueue hsend.fluent _ fun _ => rfl)

omit H G E in
theorem keeps_timeOut (hs : s.Fluent L Q) (i : ConnId) : s.Keeps L Q (timeOut s i) := by
  unfold timeOut
  split
  · split
    · have hsend : s.Keeps L Q (s.send i (.frame .nullArray)) := .send hs fun f hf => by
        cases hf
        exact W.nullArray
      exact hsend.trans (.onQueue hsend.fluent _ fun _ => rfl)
    · exact .refl hs
  · exact .refl hs

omit H G E in
/-- What the loop does apart from frames and their replies. -/
theorem keeps_step {ev : LoopEvent} {s' : Server} (hs : s.Fluent L Q) (h : ev.step env s = some s')
    (hcommand : ∀ i f, ev ≠ .command i f) (hreplies : ∀ i items, ev ≠ .replies i items) :
    s.Keeps L Q s' := by
  cases ev with
  | wakeups =>
      refine processWakeups_inv (fun s₁ w s₂ h₁ hw => ?_) (.same hs rfl rfl rfl) h
      exact h₁.trans (keeps_wakeClient W h₁.fluent hw)
  | accept addr =>
      obtain rfl := Option.some.inj h
      unfold Server.accept
      split
      · exact .same hs rfl rfl rfl
      · refine ⟨⟨fun i c hget => ?_, hs.role⟩, [], (List.append_nil _).symm, List.forall_mem_nil _⟩
        rw [Map.get?_set] at hget
        split at hget
        · cases hget
          exact List.forall_mem_nil _
        · exact hs.queued i c hget
  | command i f => exact absurd rfl (hcommand i f)
  | replies i items => exact absurd rfl (hreplies i items)
  | close i => exact Option.some.inj h ▸ .onQueue hs _ fun _ => rfl
  | fail i =>
      obtain rfl := Option.some.inj h
      unfold removeFailed
      split
      · exact keeps_del hs rfl rfl rfl
      · exact .refl hs
  | timeouts now =>
      obtain rfl := Option.some.inj h
      refine processBlockedTimeouts_inv (fun s₁ i h₁ => ?_) (.same hs rfl rfl rfl)
      exact h₁.trans (keeps_timeOut W h₁.fluent i)
  | cleanup =>
      obtain rfl := Option.some.inj h
      exact .foldl hs _ fun s hs i _ => keeps_del hs rfl rfl rfl

end Frames

/-! ## All or nothing -/

end Server

/-- Scripts and the slow log answer with frames without the marker. -/
structure Env.Complete (env : Env) : Prop where
  lua : ∀ script keys args db,
    (env.lua.eval script keys args db).Returns (fun _ _ _ => True) (fun _ => True) RespFrame.Complete
  slowlog : ∀ n, ∀ f ∈ (env.process n).slowlog, f.Complete

theorem Env.Complete.speaks {env : Env} (h : env.Complete) :
    env.Speaks (fun _ => True) (· ≠ .noResponse) fun _ _ _ => True where
  answers β o w := by
    rcases World.step env.ω β o w with ⟨b | e | _, w'⟩ <;> trivial
  lua := h.lua
  scriptLoad _ _ _ := trivial
  slowlog := h.slowlog
  saveError _ _ _ := trivial
  bgsaveError _ _ _ := trivial
  bgrewriteError _ _ _ := trivial
  replId _ := trivial

namespace Server

variable {env : Env} {s : Server}

/-- The frame of a command is one the parser of a connection gave. -/
def LoopEvent.Received : LoopEvent → Prop
  | .command _ f => ∃ p p', RespParser.parse p = (.ok (some f), p')
  | _ => True

/-- No frame in a frame is the marker. -/
theorem wording_complete : Wording (fun _ => True) (· ≠ .noResponse) :=
  ⟨fun _ => trivial, fun _ _ _ => trivial, fun _ => nofun, fun _ => nofun, fun _ => nofun, fun _ => nofun,
    fun _ => nofun⟩

theorem answers_any : Answers (fun _ => True) fun _ _ _ => True := ⟨fun _ => trivial, fun _ => trivial⟩

theorem groupAnswers_any : GroupAnswers (fun _ => True) fun _ _ _ => True :=
  ⟨fun _ => trivial, fun _ _ => trivial, fun _ _ => trivial, fun _ _ => trivial⟩

/-- What a connection received has no marker in it. -/
theorem decent_received {id : ConnId} {f : RespFrame} (h : (LoopEvent.command id f).Received) :
    Decent (fun _ => True) (· ≠ .noResponse) (frameParts f) := by
  obtain ⟨p, p', hp⟩ := h
  have hf := RespParser.parse_complete hp
  refine ⟨?_, fun _ _ => trivial⟩
  unfold frameParts
  split
  · exact (RespFrame.everywhere_list.mp hf).2
  · exact List.forall_mem_nil _

theorem decent_queued (hs : s.Fluent (fun _ => True) (· ≠ .noResponse)) (id : ConnId) (conn : Connection)
    (hconn : s.connections.get? id = some conn) :
    ∀ parts ∈ conn.transactionState.queuedCommands, Decent (fun _ => True) (· ≠ .noResponse) parts :=
  fun parts hparts => ⟨hs.queued id conn hconn parts hparts, fun _ _ => trivial⟩

/-- Queues are free of the marker in every state of a run. -/
theorem Fluent.step (E : env.Complete) {s' : Server} {ev : LoopEvent}
    (hs : s.Fluent (fun _ => True) (· ≠ .noResponse)) (hev : ev.Received) (h : ev.step env s = some s') :
    s'.Fluent (fun _ => True) (· ≠ .noResponse) := by
  by_cases hcommand : ∃ i f, ev = .command i f
  · obtain ⟨i, f, rfl⟩ := hcommand
    obtain ⟨-, rfl⟩ := command_eq h
    exact (heeds_answerFrame wording_complete answers_any groupAnswers_any E.speaks (decent_received hev)
      (decent_queued hs i) hs).keeps.fluent
  by_cases hreplies : ∃ i items, ev = .replies i items
  · obtain ⟨i, items, rfl⟩ := hreplies
    obtain rfl := Option.some.inj h
    exact ⟨fun j c hget => hs.queued j c (sendAll_connections s i items ▸ hget), fun _ _ _ => trivial⟩
  exact (keeps_step wording_complete hs h (fun i f hf => hcommand ⟨i, f, hf⟩)
    fun i items hi => hreplies ⟨i, items, hi⟩).fluent

theorem fluent_initial (e : Engine) (replId : String) (backlogSize : Nat) :
    (initial e replId backlogSize).Fluent (fun _ => True) (· ≠ .noResponse) where
  queued i c hget := by
    rw [initial, Map.get?_empty] at hget
    cases hget
  role _ _ _ := trivial

/-- Of everything the server hands to a connection the buffer gets all or
nothing, but for the reply of an EXEC that breaks. -/
theorem sends_all_or_nothing_iff (env : Env) (E : env.Complete) (e : Engine) (replId : String)
    (backlogSize : Nat) (es : List LoopEvent) (s : Server)
    (h : Lib.Runs (fun _ ev => ev.Received) (LoopEvent.step env) (initial e replId backlogSize) es s) :
    (∀ id f r s', (LoopEvent.command id f).Received → answerFrame env id f s = (.ok r, s') →
        ∀ buffer, r.AllOrNothing buffer ↔ breaks env s id f = false) ∧
      ∀ (ev : LoopEvent) s', ev.Received → (∀ id items, ev ≠ .replies id items) → ev.step env s = some s' →
        ∃ items, s'.sent = s.sent ++ items ∧
          ∀ p ∈ items, ∀ f, p.2 = .frame f → ∀ buffer, f.AllOrNothing buffer := by
  have hs : s.Fluent (fun _ => True) (· ≠ .noResponse) :=
    h.inv (fun _ _ _ hs hev hstep => hs.step E hev hstep) (fluent_initial e replId backlogSize)
  have hframe {id : ConnId} {f : RespFrame} (hev : (LoopEvent.command id f).Received) :
      HeedsQueue (fun _ => True) (· ≠ .noResponse) (breaks env s id f) s (answerFrame env id f s) :=
    heeds_answerFrame wording_complete answers_any groupAnswers_any E.speaks (decent_received hev)
      (decent_queued hs id) hs
  refine ⟨fun id f r s' hev hr buffer => ?_, fun ev s' hev hreplies hstep => ?_⟩
  · have hheeds := hframe hev
    rw [hr] at hheeds
    rw [RespFrame.allOrNothing_iff]
    cases hb : breaks env s id f with
    | false =>
        refine iff_of_true ?_ rfl
        exact (hheeds.answers hb).imp_left Outcome.ok.inj
    | true =>
        refine iff_of_false (fun hr => ?_) nofun
        obtain hp | ⟨fs, hfs, hmem⟩ := hheeds.marks hb
        · cases hp
        · cases hfs
          rcases hr with hr | hr
          · cases hr
          · exact ((RespFrame.everywhere_list.mp hr).2 _ hmem).here rfl
  · have hkeeps : s.Keeps (fun _ => True) (· ≠ .noResponse) s' := by
      by_cases hcommand : ∃ i f, ev = .command i f
      · obtain ⟨i, f, rfl⟩ := hcommand
        obtain ⟨-, rfl⟩ := command_eq hstep
        exact (hframe hev).keeps
      · exact keeps_step wording_complete hs hstep (fun i f hf => hcommand ⟨i, f, hf⟩) hreplies
    obtain ⟨items, hsent, hitems⟩ := hkeeps.adds
    exact ⟨items, hsent, fun p hp f hf buffer => (RespFrame.allOrNothing_iff f buffer).mpr
      (.inr (hitems p hp f hf))⟩

/-- A client comes and queues commands. -/
def queueing (ws : List String) : List LoopEvent :=
  [.accept "a", .command 1 (.list (words ["MULTI"])), .command 1 (.list (words ws))]

/-- The parser of a connection gives an array that was written to it. -/
theorem received_list {fs : List RespFrame} {id : ConnId} (hw : (RespFrame.list fs).Wire) :
    (LoopEvent.command id (.list fs)).Received := by
  have htag : RespFrame.lengthLine '*' fs.length = 42 :: (intBytes fs.length ++ RespFrame.crlf) :=
    RespFrame.line_eq (b := 42) (by decide) _
  obtain ⟨bs, hbs⟩ : ∃ bs, (RespFrame.list fs).serialize.1 = 42 :: bs :=
    ⟨intBytes fs.length ++ RespFrame.crlf ++ (RespFrame.serializeAll fs).1, by
      rw [RespFrame.list, RespFrame.serialize, RespFrame.andThen_of_ok rfl, htag, List.cons_append]⟩
  have hread := (RespFrame.parseFrame_serialize _ hw []).2
  rw [List.append_nil, hbs] at hread
  have hskip : (⟨42 :: bs, 0⟩ : RespParser).skip RespParser.isBlank = ⟨42 :: bs, 0⟩ := rfl
  have hping : ¬ (42 :: bs).take 4 = "PING".toBytes := by
    intro h
    have hhead : some (42 : UInt8) = "PING".toBytes.head? := congrArg List.head? h
    exact absurd hhead (by decide)
  refine ⟨⟨42 :: bs, 0⟩,
    ((⟨42 :: bs, 0 + (bs.length + 1)⟩ : RespParser).skip RespParser.isLineEnd).compact, ?_⟩
  unfold RespParser.parse
  simp only [hskip, RespParser.unread, List.drop_zero, hping, hread, List.length_cons, if_false,
    Nat.le_zero_eq, Nat.succ_ne_zero]

/-- A command of short words can be on the wire. -/
theorem wire_words {ws : List String} (h : RespFrame.allocatable RespFrame.frameSize (words ws).length)
    (hws : ∀ w ∈ ws, RespFrame.allocatable 1 w.toBytes.length) : (RespFrame.list (words ws)).Wire := by
  refine ⟨h, ?_⟩
  clear h
  induction ws with
  | nil => trivial
  | cons w ws ih => exact ⟨hws w List.mem_cons_self, ih fun v hv => hws v (List.mem_cons_of_mem _ hv)⟩

theorem queueing_runs {ws : List String} (h : RespFrame.allocatable RespFrame.frameSize (words ws).length)
    (hws : ∀ w ∈ ws, RespFrame.allocatable 1 w.toBytes.length)
    {s : Server} (hs : LoopEvent.step (.quiet none) (.command 1 (.list (words ws)))
      (answerFrame (.quiet none) 1 (.list (words ["MULTI"])) (accept (.quiet none)
        (initial Engine.new "0" 16) "a")).2 = some s) :
    Lib.Runs (fun _ ev => LoopEvent.Received ev) (LoopEvent.step (.quiet none))
      (initial Engine.new "0" 16) (queueing ws) s :=
  .cons trivial rfl (.cons (received_list (wire_words (by decide) (by decide))) rfl
    (.cons (received_list (wire_words h hws)) hs .nil))

theorem complete_quiet : (Env.quiet none).Complete where
  lua _ _ _ _ := RespFrame.Everywhere.here (Q := (· ≠ .noResponse)) (f := .nullBulk) nofun
  slowlog _ := nofun

/-- A queue that only reads is answered with the whole array. -/
theorem queueing_all_or_nothing :
    ∃ s, Lib.Runs (fun _ ev => LoopEvent.Received ev) (LoopEvent.step (.quiet none))
        (initial Engine.new "0" 16) (queueing ["GET", "k"]) s ∧
      ∀ id f r s', (LoopEvent.command id f).Received → answerFrame (.quiet none) id f s = (.ok r, s') →
        ∀ buffer, r.AllOrNothing buffer ↔ breaks (.quiet none) s id f = false := by
  have hrun : ∃ s, Lib.Runs (fun _ ev => LoopEvent.Received ev) (LoopEvent.step (.quiet none))
      (initial Engine.new "0" 16) (queueing ["GET", "k"]) s :=
    ⟨_, queueing_runs (by decide) (by decide) rfl⟩
  obtain ⟨s, hs⟩ := hrun
  exact ⟨s, hs, (sends_all_or_nothing_iff (.quiet none) complete_quiet Engine.new "0" 16 _ s hs).1⟩

/-- With a pop in the queue that blocks, EXEC answers with the marker in an array. -/
theorem queueing_breaks :
    ∃ s, Lib.Runs (fun _ ev => LoopEvent.Received ev) (LoopEvent.step (.quiet none))
        (initial Engine.new "0" 16) (queueing ["BLPOP", "k", "0"]) s ∧
      (LoopEvent.command 1 (.list (words ["EXEC"]))).Received ∧
      (answerFrame (.quiet none) 1 (.list (words ["EXEC"])) s).1 = .ok (.list [.noResponse]) ∧
      ¬ (RespFrame.list [.noResponse]).AllOrNothing [] := by
  refine ⟨_, queueing_runs (by decide) (by decide) rfl,
    received_list (wire_words (by decide) (by decide)), ?_, fun h => ?_⟩
  · rfl
  · have hsent := h.2 (by decide)
    exact absurd hsent (by decide)

end Server

end Ferrous
