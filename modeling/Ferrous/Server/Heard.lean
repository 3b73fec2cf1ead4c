/-
# `Server.Heard` — no wake-up is missed

One event that announces what it brings keeps the lists served: a list with
more elements than pending requests is expected by nobody.  When no request is
left, a key somebody is blocked on holds no element.
-/
import Ferrous.Server.Announced
import Ferrous.Storage.AbsenceKeys

namespace Ferrous

open Lib Args

namespace Server

variable {env : Env} {q q' : List WakeupRequest} {conns conns' : Map ConnId Connection} {e : Engine}
  {s s' : Server} {id : ConnId}

/-! ## The invariant -/

/-- Whoever is blocked now was blocked before, on the same keys. -/
def Inherits (conns conns' : Map ConnId Connection) : Prop :=
  ∀ j c' b, conns'.get? j = some c' → c'.state = .blocked b →
    ∃ c, conns.get? j = some c ∧ c.state = .blocked b

theorem Inherits.trans {conns'' : Map ConnId Connection} (h : Inherits conns conns')
    (g : Inherits conns' conns'') : Inherits conns conns'' := by
  intro j c'' b hc hb
  obtain ⟨c', hc', hb'⟩ := g j c'' b hc hb
  exact h j c' b hc' hb'

theorem Served.inherit (h : Served q conns e) (hin : Inherits conns conns') : Served q conns' e := by
  rintro db key j ⟨c', b, hc', hb, hmem, hno⟩
  obtain ⟨c, hc, hb⟩ := hin j c' b hc' hb
  exact h db key j ⟨c, b, hc, hb, hmem, hno⟩

/-- More requests serve more. -/
theorem Served.more (h : Served q conns e) (hq : q <+: q') : Served q' conns e := by
  rintro db key j ⟨c, b, hc, hb, hmem, hno⟩
  exact (h db key j ⟨c, b, hc, hb, hmem, fun w hw => hno w (hq.subset hw)⟩).trans hq.sublist.countP_le

/-- Shorter lists are served as well. -/
theorem Served.shorter {e' : Engine} (h : Served q conns e)
    (hle : ∀ db key, e'.lengthAt db key ≤ e.lengthAt db key) : Served q conns e' :=
  fun db key j hj => (hle db key).trans (h db key j hj)

theorem Served.kept {ω : Nat → Ctx} {w w' : World} (h : Served q conns w.engine) (hk : Kept ω w w') :
    Served q conns w'.engine :=
  h.shorter hk.lengthAt_le

/-- The lists of the server are served by its own queue. -/
def Heard (s : Server) : Prop := Served s.blocking.wakeQueue s.connections s.world.engine

/-- Store and queue stay, and nobody is newly blocked. -/
theorem Heard.of_same (h : Heard s) (hq : s'.blocking.wakeQueue = s.blocking.wakeQueue)
    (hw : s'.world = s.world) (hin : Inherits s.connections s'.connections) : Heard s' := by
  unfold Heard
  rw [hq, hw]
  exact h.inherit hin

theorem inherits_of_state (h : ∀ j c', conns'.get? j = some c' →
      ∃ c, conns.get? j = some c ∧ (c'.state = c.state ∨ c'.state = .closing)) :
    Inherits conns conns' := by
  intro j c' b hc' hb
  obtain ⟨c, hc, hs | hs⟩ := h j c' hc'
  · exact ⟨c, hc, hs ▸ hb⟩
  · rw [hs] at hb
    cases hb

theorem Calm.inherits (h : Server.Calm id s s') (hz : s.connections.contains 0 = false) :
    Inherits s.connections s'.connections := by
  refine inherits_of_state fun j c' hc' => ?_
  by_cases hj : j = id
  · exact hj ▸ h.own c' (hj ▸ hc')
  · refine h.state j c' ⟨hj, fun hzero => ?_⟩ hc'
    have hpresent := h.present 0
    rw [hz, ← hzero, Map.contains, hc'] at hpresent
    cases hpresent

/-- What is done for connection 0 blocks nobody. -/
theorem Footprint.inherits (h : Footprint 0 s s') (hz : s.connections.contains 0 = false) :
    Inherits s.connections s'.connections :=
  (h.calm Nat.one_ne_zero : Server.Calm 1 s s').inherits hz

/-! ## Operations -/

/-- An operation that announces what it brings. -/
theorem served_step {β : Type} (o : Op β) (w : World)
    (h : Served s.blocking.wakeQueue s.connections w.engine) (hok : s.announced false β o w) :
    Served s.blocking.wakeQueue s.connections (World.step env.ω β o w).2.engine := by
  intro db' key' j hj
  cases o with
  | key db key c =>
      refine (World.step_key_lengthAt db key c db' key').trans ?_
      split
      · next hc =>
          obtain ⟨rfl, rfl⟩ := hc
          exact hok j hj nofun
      · exact h db' key' j hj
  | store c =>
      rcases World.step_store_lengthAt (ω := env.ω) (w := w) c db' key' with hle | ⟨old, hc, hle⟩
      · exact hle.trans (h db' key' j hj)
      · have hok : ∀ j, Expects s.blocking.wakeQueue s.connections db' key' j →
            w.engine.lengthAt db' old ≤ requests s.blocking.wakeQueue db' key' := by
          simpa only [announced, hc] using hok
        exact hle.le.trans (hok j hj)

/-- A program along which every operation announces what it brings. -/
theorem served_run {α : Type} {p : StoreProg α} {w : World}
    (h : Served s.blocking.wakeQueue s.connections w.engine)
    (hok : p.Along (World.step env.ω) (s.announced false) w) :
    Served s.blocking.wakeQueue s.connections (p.run (World.step env.ω) w).2.engine :=
  Prog.Along.inv (I := fun w => Served s.blocking.wakeQueue s.connections w.engine)
    (fun _ o w hw ho => served_step o w hw ho) hok h

/-! ## Pushes -/

/-- What a notification does to the queue. -/
theorem notify_wakeQueue (s : Server) (db : Nat) (key : Key) :
    (s.notify db key).blocking.wakeQueue = s.blocking.wakeQueue ++
      ((s.nextClient db key).map fun client => ⟨client.connId, db, key, client.opType⟩).toList := by
  unfold notify nextClient
  split
  · dsimp only [BlockingManager.notifyKeyReady, BlockingManager.waiters]
    cases hr : s.blocking.registries[db]? with
    | none => simp
    | some r =>
        have hfst := r.popFirstWaiter_fst key
        rw [Option.map_some, Option.getD_some]
        rcases hp : r.popFirstWaiter key with ⟨_ | client, r'⟩
        all_goals
          rw [hp] at hfst
          rw [← hfst]
        · simp [hp]
        · simp [hp]
  · simp

/-- A push of the engine answers with the new length, or is refused. -/
theorem push_step {c : List Bytes → KeyCmd Nat} (hc : c = .lpush ∨ c = .rpush) (elements : List Bytes)
    (key : Key) (ctx : Ctx) (entry : Option StoredValue) :
    ((c elements).step key ctx entry).charge = none ∧
      (((c elements).step key ctx entry).result =
          .ok (listLength (((c elements).step key ctx entry).entry.leaves entry)) ∨
        ((c elements).step key ctx entry).result = .err (.storage .wrongType) ∧
          ((c elements).step key ctx entry).entry = .keep) := by
  rcases entry with _ | ⟨v, d⟩
  · rcases hc with rfl | rfl
    · exact ⟨rfl, .inl (congrArg Outcome.ok List.length_reverse.symm)⟩
    · exact ⟨rfl, .inl rfl⟩
  · cases v with
    | list items => rcases hc with rfl | rfl <;> exact ⟨rfl, .inl rfl⟩
    | _ => rcases hc with rfl | rfl <;> exact ⟨rfl, .inr ⟨rfl, rfl⟩⟩

/-- A push answers with the length of the list, or leaves every list as it is. -/
theorem step_push {c : List Bytes → KeyCmd Nat} (hc : c = .lpush ∨ c = .rpush) (elements : List Bytes)
    (db : Nat) (key : Key) (w : World) :
    (World.step env.ω _ (.key db key (c elements)) w).1 =
        .ok ((World.step env.ω _ (.key db key (c elements)) w).2.engine.lengthAt db key) ∨
      (∃ err, (World.step env.ω _ (.key db key (c elements)) w).1 = .err err) ∧ ∀ db' key',
        (World.step env.ω _ (.key db key (c elements)) w).2.engine.lengthAt db' key' ≤
          w.engine.lengthAt db' key' := by
  simp only [World.step, Op.run]
  by_cases hdb : db < w.engine.databases.length
  · obtain ⟨hcharge, hres⟩ := push_step hc elements key (env.ω w.calls) (w.engine.entryAt db key)
    have hrefuses := w.engine.refuses_of_charge hcharge
    unfold Engine.lengthAt
    rw [Engine.withEntry_fst hdb, Engine.withEntry_snd hdb, if_pos ⟨rfl, rfl⟩, Engine.answerOf,
      Engine.leftBy, hrefuses]
    rcases hres with hok | ⟨herr, hkeep⟩
    · exact .inl hok
    · refine .inr ⟨⟨_, herr⟩, fun db' key' => ?_⟩
      rw [Engine.withEntry_snd hdb]
      split
      · next hc =>
          obtain ⟨rfl, rfl⟩ := hc
          rw [Engine.leftBy, hrefuses, hkeep]
          exact le_rfl
      · exact le_rfl
  · rw [Engine.withEntry_missing hdb]
    exact .inr ⟨⟨_, rfl⟩, fun _ _ => le_rfl⟩

/-- The server notifies exactly when the handler answers with a positive number. -/
theorem pushAndNotify_cases (handler : Nat → Parts → StoreProg RespFrame) (db : Nat) (parts : Parts)
    (s : Server) :
    ((pushAndNotify env handler db parts s).2 = (s.onStore env (handler db parts)).2 ∧
        ∀ n key, (s.onStore env (handler db parts)).1 = .ok (.integer n) →
          (parts[1]?).bind RespFrame.bulk? = some key → ¬ (0 < n ∧ 3 ≤ parts.length)) ∨
      ∃ key, (parts[1]?).bind RespFrame.bulk? = some key ∧
        (pushAndNotify env handler db parts s).2 = (s.onStore env (handler db parts)).2.notify db key := by
  unfold pushAndNotify Action.storing
  rcases s.onStore env (handler db parts) with ⟨f | e | _, s₁⟩
  · dsimp only
    split
    · next n key hkey =>
        split
        · exact .inr ⟨key, hkey, rfl⟩
        · next hno =>
            refine .inl ⟨rfl, fun n' _ hn _ => ?_⟩
            obtain rfl : n' = n := RespFrame.integer.inj (Outcome.ok.inj hn).symm
            exact hno
    · next hno =>
        exact .inl ⟨rfl, fun n key hn hkey => absurd hkey (hno n key (Outcome.ok.inj hn))⟩
  · exact .inl ⟨rfl, nofun⟩
  · exact .inl ⟨rfl, nofun⟩

theorem served_notify (h : Served s.blocking.wakeQueue conns e) (db : Nat) (key : Key) :
    Served (s.notify db key).blocking.wakeQueue conns e :=
  h.more (Server.Calm.notify s 0 db key).queue

theorem notify_world (s : Server) (db : Nat) (key : Key) : (s.notify db key).world = s.world := by
  unfold notify
  split <;> rfl

/-- Handlers that make replies of errors always answer. -/
theorem run_answering {α : Type} (render : α → RespFrame) (r : Except FerrousError α) (w : World) :
    ∃ f, (answering .reply render r).run (World.step env.ω) w = (.ok f, w) := by
  cases r with
  | ok a => exact ⟨_, rfl⟩
  | error err =>
      have hframe : ∃ f, OnError.reply.frame err = some f := by
        unfold OnError.frame
        split
        all_goals first | exact ⟨_, rfl⟩ | cases ‹OnError.reply = _›
      obtain ⟨f, hf⟩ := hframe
      refine ⟨f, ?_⟩
      rw [answering, hf]
      rfl

/-- A notification serves the client it wakes. -/
theorem served_notify_self {db : Nat} {key : Key}
    (h : ∀ db' key' j, Expects s.blocking.wakeQueue conns db' key' j → ¬ (db' = db ∧ key' = key) →
      e.lengthAt db' key' ≤ requests s.blocking.wakeQueue db' key')
    (hkey : ∀ j, Expects s.blocking.wakeQueue conns db key j →
      (s.nextClient db key).map (·.connId) ≠ some j →
        e.lengthAt db key ≤ requests s.blocking.wakeQueue db key + (s.nextClient db key).toList.length) :
    Served (s.notify db key).blocking.wakeQueue conns e := by
  intro db' key' j hj
  have hbefore : Expects s.blocking.wakeQueue conns db' key' j := by
    obtain ⟨c, b, hc, hb, hmem, hno⟩ := hj
    exact ⟨c, b, hc, hb, hmem, fun w hw => hno w ((Server.Calm.notify s 0 db key).queue.subset hw)⟩
  by_cases hat : db' = db ∧ key' = key
  · obtain ⟨rfl, rfl⟩ := hat
    obtain ⟨-, -, -, -, -, hno⟩ := hj
    rw [notify_wakeQueue] at hno ⊢
    cases hnext : s.nextClient db' key' with
    | none =>
        rw [hnext] at hkey
        simpa using hkey j hbefore nofun
    | some client =>
        rw [hnext] at hkey hno
        have hne : client.connId ≠ j := fun hid =>
          hno _ (List.mem_append_right _ (List.mem_singleton_self _)) ⟨hid, rfl, rfl⟩
        have hle := hkey j hbefore fun h => hne (Option.some.inj h)
        simpa [requests, List.countP_append] using hle
  · exact (h db' key' j hbefore hat).trans (Server.Calm.notify s 0 db key).queue.sublist.countP_le

/-- A push and the notification after it, when it announces what it brings. -/
theorem served_pushAndNotify {cmd : String} {c : List Bytes → KeyCmd Nat} (hc : c = .lpush ∨ c = .rpush)
    {db : Nat} {parts : Parts} (h : Heard s)
    (hok : (pushing cmd c db parts).Along (World.step env.ω) (s.announced true) s.world) :
    Served (pushAndNotify env (pushing cmd c) db parts s).2.blocking.wakeQueue s.connections
      (pushAndNotify env (pushing cmd c) db parts s).2.world.engine := by
  have hcases := @pushAndNotify_cases env (pushing cmd c) db parts s
  -- where the lists are served without the notification, they are with it
  have hserved (hs : Served s.blocking.wakeQueue s.connections
      (s.onStore env (pushing cmd c db parts)).2.world.engine) :
      Served (pushAndNotify env (pushing cmd c) db parts s).2.blocking.wakeQueue s.connections
        (pushAndNotify env (pushing cmd c) db parts s).2.world.engine := by
    rcases hcases with ⟨heq, -⟩ | ⟨key, -, heq⟩
    · rwa [heq]
    · rw [heq]
      rw [notify_world]
      exact served_notify (s := (s.onStore env (pushing cmd c db parts)).2) hs db key
  cases hargs : keyAndAll cmd "element" parts with
  | error f =>
      refine hserved ?_
      simp only [pushing, reading, hargs]
      exact h
  | ok args =>
      obtain ⟨key, elements⟩ := args
      obtain ⟨hlen, hkey, -⟩ := keyAndAll_ok hargs
      have hprog : pushing cmd c db parts =
          .call (.key db key (c elements)) (answering .reply count) := by
        simp only [pushing, reading, hargs]
        rfl
      rw [hprog] at hok hcases hserved
      have hlengths := World.step_key_lengthAt (ω := env.ω) (w := s.world) db key (c elements)
      have hpush := @step_push env c hc elements db key s.world
      have hannounced : s.announced true _ (.key db key (c elements)) s.world := hok.1
      simp only [onStore, Prog.run_call] at hcases hserved
      rcases hr : World.step env.ω _ (.key db key (c elements)) s.world with ⟨n | err | _, w'⟩
      all_goals rw [hr] at hlengths hpush hcases hserved
      · obtain rfl : n = w'.engine.lengthAt db key :=
          hpush.elim (fun h => Outcome.ok.inj h) fun h => by
            obtain ⟨⟨_, h⟩, -⟩ := h
            cases h
        rcases hcases with ⟨-, hno⟩ | ⟨key', hkey', heq⟩
        · -- an answer of zero, which no push gives
          refine hserved fun db' key' j hj => ?_
          by_cases hat : db' = db ∧ key' = key
          · obtain ⟨rfl, rfl⟩ := hat
            have hzero : w'.engine.lengthAt db' key' = 0 := by
              have hno := hno _ key' rfl hkey
              omega
            exact hzero.le.trans (Nat.zero_le _)
          · refine (hlengths db' key').trans ?_
            rw [if_neg hat]
            exact h db' key' j hj
        · obtain rfl : key' = key := Option.some.inj (hkey'.symm.trans hkey)
          rw [heq, notify_world]
          refine served_notify_self (s := { s with world := w' }) (fun db'' key'' j hj hat => ?_)
            fun j hj hne => ?_
          · refine (hlengths db'' key'').trans ?_
            rw [if_neg hat]
            exact h db'' key'' j hj
          · refine (hlengths db key').trans ?_
            rw [if_pos ⟨rfl, rfl⟩]
            exact hannounced j hj hne
      · refine hserved (h.shorter fun db' key' => ?_)
        obtain ⟨f, hf⟩ := @run_answering env _ count (.error err) w'
        simp only [Prog.andThen, hf]
        rcases hpush with hpush | ⟨-, hle⟩
        · cases hpush
        · exact hle db' key'
      · rcases hpush with hpush | ⟨⟨_, hpush⟩, -⟩
        · cases hpush
        · cases hpush

/-! ## Commands -/

variable {db : Nat} {parts : Parts}

/-- The pops of a blocking command lengthen no list. -/
theorem lengthAt_tryPops_le (db : Nat) (ω : Nat → Ctx) (op : BlockingOp) (keys : List Key) (w : World) (db' : Nat)
    (key' : Key) :
    ((tryPops op db keys).run (World.step ω) w).2.engine.lengthAt db' key' ≤ w.engine.lengthAt db' key' := by
  have hpop (w : World) (key : Key) :
      (World.step ω _ (.key db key (popOp op)) w).2.engine.lengthAt db' key' ≤ w.engine.lengthAt db' key' := by
    refine (World.step_key_lengthAt db key (popOp op) db' key').trans ?_
    have hnone : (popOp op).brought (w.engine.entryAt db key) = 0 := by cases op <;> rfl
    rw [hnone, ite_self, Nat.add_zero]
  induction keys generalizing w with
  | nil => exact le_rfl
  | cons key keys ih =>
      have hstep := hpop w key
      rw [tryPops, Prog.bind_eq, need, Prog.run_perform_bind]
      rcases hr : World.step ω _ (.key db key (popOp op)) w with ⟨⟨_ | v⟩ | err | _, w'⟩
      all_goals rw [hr] at hstep
      · exact (ih w').trans hstep
      · exact hstep
      · exact hstep
      · exact hstep

/-- A blocking pop leaves what its pops leave, or what it found. -/
theorem blockingPop_world (cmd : String) (op : BlockingOp) (s : Server) :
    (blockingPop env cmd op db id parts s).2.world = s.world ∨
      ∃ keys, (blockingPop env cmd op db id parts s).2.world =
        ((tryPops op db keys).run (World.step env.ω) s.world).2 := by
  have hpop (timeout : Option Duration) : (popOrBlock env op db id parts timeout s).2.world = s.world ∨
      ∃ keys, (popOrBlock env op db id parts timeout s).2.world =
        ((tryPops op db keys).run (World.step env.ω) s.world).2 := by
    refine Action.reading_rule (P := fun r => r.2.world = s.world ∨ ∃ keys, r.2.world =
      ((tryPops op db keys).run (World.step env.ω) s.world).2) (fun _ => .inl rfl) fun keys => .inr ⟨keys, ?_⟩
    unfold Action.storing onStore
    rcases (tryPops op db keys).run (World.step env.ω) s.world with ⟨found | err | _, w'⟩
    · cases found with
      | some p => rfl
      | none =>
          dsimp only
          unfold block
          split
          · rfl
          · split
            · rfl
            · exact onConnection_world _ _ _
    · rfl
    · rfl
  refine Action.reading_rule (P := fun r => r.2.world = s.world ∨ ∃ keys, r.2.world =
    ((tryPops op db keys).run (World.step env.ω) s.world).2) (fun _ => .inl rfl) fun t => ?_
  split
  · exact hpop none
  · cases fromSecsF64 t with
    | none => exact .inl rfl
    | some d => exact hpop (some d)

theorem lengthAt_blockingPop_le (cmd : String) (op : BlockingOp) (s : Server) (db' : Nat) (key' : Key) :
    (blockingPop env cmd op db id parts s).2.world.engine.lengthAt db' key' ≤
      s.world.engine.lengthAt db' key' := by
  rcases @blockingPop_world env id db parts cmd op s with hw | ⟨keys, hw⟩
  · rw [hw]
  · rw [hw]
    exact lengthAt_tryPops_le db env.ω op keys s.world db' key'

/-- An action that runs a program and answers with its reply. -/
theorem storing_reply_world (p : StoreProg RespFrame) (s : Server) :
    (Action.storing env p .reply s).2.world = (p.run (World.step env.ω) s.world).2 := by
  unfold Action.storing onStore
  rcases p.run (World.step env.ω) s.world with ⟨f | err | _, w'⟩ <;> rfl

/-- EVALSHA runs the script it names, or nothing. -/
theorem handleEvalsha_world (s : Server) (db : Nat) :
    (handleEvalsha env parts s).2.world = s.world ∨
      ∃ p, s.storeProgram env db parts .evalsha = some p ∧
        (handleEvalsha env parts s).2.world = (p.run (World.step env.ω) s.world).2 := by
  unfold handleEvalsha arity
  by_cases hlen : 3 ≤ parts.length
  · rw [decide_eq_true hlen]
    cases hsha : ((parts[1]?).bind RespFrame.bulk?).bind fromUtf8 with
    | none => exact .inl rfl
    | some sha1 =>
        simp only [if_true, Action.reading, bind, Except.bind, pure, Except.pure]
        cases hscript : s.scriptCache.get? sha1 with
        | none => exact .inl rfl
        | some script =>
            refine .inr ⟨_, ?_, storing_reply_world _ s⟩
            simp only [storeProgram, cachedScript, if_pos hlen, hsha, Option.bind_some, hscript,
              Option.map_some]
  · rw [decide_eq_false hlen]
    exact .inl rfl

theorem served_handleEvalsha (h : Heard s)
    (hok : ∀ p, s.storeProgram env db parts .evalsha = some p →
      p.Along (World.step env.ω) (s.announced false) s.world) :
    Served s.blocking.wakeQueue s.connections (handleEvalsha env parts s).2.world.engine := by
  rcases @handleEvalsha_world env parts s db with hw | ⟨p, hp, hw⟩
  · rw [hw]
    exact h
  · rw [hw]
    exact served_run h (hok p hp)

/-- A handler of the server that does not notify. -/
theorem served_serverHandler {c : Command} {a : Action} (h : Heard s) (hno : notifying c = false)
    (hok : ∀ p, s.storeProgram env db parts c = some p →
      p.Along (World.step env.ω) (s.announced false) s.world)
    (ha : serverHandler env db id parts c = some a) :
    Served s.blocking.wakeQueue s.connections (a s).2.world.engine := by
  cases c with
  | lpush => cases hno
  | rpush => cases hno
  | blpop => exact Option.some.inj ha ▸ h.shorter (lengthAt_blockingPop_le "blpop" .blpop s)
  | brpop => exact Option.some.inj ha ▸ h.shorter (lengthAt_blockingPop_le "brpop" .brpop s)
  | evalsha =>
      exact Option.some.inj ha ▸ served_handleEvalsha h hok
  | _ => first | (cases ha; done) | exact h.kept (quiet_serverHandler rfl (by decide) ha s)

theorem announcesCommand_logCommand {write : Bool} (h : announcesCommand env db parts s) :
    announcesCommand env db parts (logCommand env write parts s) := by
  unfold logCommand
  split
  · exact h
  · exact h

theorem Heard.logCommand {write : Bool} (h : Heard s) : Heard (logCommand env write parts s) := by
  unfold Server.logCommand
  split
  · exact h
  · exact h

theorem propagate_world (write : Bool) (r : Outcome RespFrame) (s : Server) :
    (propagate write parts r s).world = s.world :=
  propagate_keeps (fun s => send_world s) (fun _ _ => rfl) write parts r s

theorem storeProgram_of_storeHandler {c : Command} {p : StoreProg RespFrame} (hn : notifying c = false)
    (hp : c.storeHandler env (s.proc env) db parts = some p) : s.storeProgram env db parts c = some p := by
  cases c with
  | lpush => cases hn
  | rpush => cases hn
  | evalsha => cases hp
  | _ => exact hp

/-- The table, on a command that announces what it brings. -/
theorem served_dispatch {name : String} (h : Heard s)
    (hok : ∀ c p, Command.parse name = some c → s.storeProgram env db parts c = some p →
      p.Along (World.step env.ω) (s.announced (notifying c)) s.world) :
    Served (dispatch env db id parts name s).2.blocking.wakeQueue s.connections
      (dispatch env db id parts name s).2.world.engine := by
  have hqueue := (@within_dispatch env id db parts name s).1.queue
  revert hqueue
  unfold dispatch
  cases hc : Command.parse name with
  | none => exact fun _ => h
  | some c =>
      intro hqueue
      have hok := fun p => hok c p hc
      cases hn : notifying c with
      | true =>
          rw [hn] at hok
          cases c with
          | lpush => exact served_pushAndNotify (.inl rfl) h (hok _ rfl)
          | rpush => exact served_pushAndNotify (.inr rfl) h (hok _ rfl)
          | _ => cases hn
      | false =>
          rw [hn] at hok
          refine Served.more ?_ hqueue
          dsimp only
          cases hp : c.storeHandler env (s.proc env) db parts with
          | some p =>
              exact served_run h (hok p (storeProgram_of_storeHandler hn hp))
          | none =>
              dsimp only
              cases ha : serverHandler env db id parts c with
              | some a => exact served_serverHandler h hn hok ha
              | none => exact h

/-- A command that announces what it brings. -/
theorem served_processNormalCommand (h : Heard s) (hok : announcesCommand env db parts s) :
    Served (processNormalCommand env parts db id s).2.blocking.wakeQueue s.connections
      (processNormalCommand env parts db id s).2.world.engine := by
  unfold processNormalCommand
  cases hb : (parts.head?).bind RespFrame.bulk? with
  | none => exact h
  | some bytes =>
      dsimp only
      generalize ((Command.parse (Command.rawName bytes)).map Command.isWrite).getD false = write
      have hraw : rawCommand parts = Command.parse (Command.rawName bytes) := by
        rw [rawCommand, hb, Option.map_some, Option.bind_some]
      have hdispatch := @served_dispatch env _ id db parts (Command.rawName bytes)
        (h.logCommand : Heard (Server.logCommand env write parts s)) fun c p hc hp =>
          announcesCommand_logCommand hok c p (hraw.trans hc) hp
      rw [logCommand_connections] at hdispatch
      rw [propagate_world]
      exact hdispatch.more (calm_propagate id parts write _ _).queue

/-! ## Queues and frames -/

/-- A queue whose commands announce what they bring. -/
theorem heard_runQueued (queue : List Parts) (results : List RespFrame) {s : Server} (h : Heard s)
    (hz : s.connections.contains 0 = false) (hok : announcesQueue env db queue s) :
    Heard (runQueued env db queue results s).2 := by
  induction queue generalizing s results with
  | nil => exact h
  | cons parts queue ih =>
      obtain ⟨hcmd, hrest⟩ := hok
      have hfoot := (@within_processNormalCommand env 0 db parts s).1
      have hnext : Heard (processNormalCommand env parts db 0 s).2 :=
        (served_processNormalCommand h hcmd).inherit (hfoot.inherits hz)
      unfold runQueued
      rcases hr : processNormalCommand env parts db 0 s with ⟨f | err | _, s'⟩
      all_goals rw [hr] at hfoot hrest hnext
      · exact ih _ hnext ((hfoot.present 0).trans hz) hrest
      · exact ih _ hnext ((hfoot.present 0).trans hz) hrest
      · exact hnext

theorem Heard.setTransaction (h : Heard s) (id : ConnId) (t : TransactionState)
    (hz : s.connections.contains 0 = false) : Heard (s.setTransaction id t) :=
  h.of_same (by rw [Server.setTransaction, onConnection_blocking])
    (by rw [Server.setTransaction, onConnection_world])
    ((calm_setTransaction s id t : Server.Calm id s _).inherits hz)

theorem readOnly_checkWatched (db : Nat) (ps : List (Key × Nat)) : ReadOnly (checkWatched db ps) := by
  induction ps with
  | nil => trivial
  | cons p ps ih =>
      refine .attempt rfl fun r => ?_
      split
      · exact ih
      · exact .ret true

theorem heard_handleExec {conn : Connection} (h : Heard s) (hz : s.connections.contains 0 = false)
    (hconn : s.connections.get? id = some conn) (hok : announcesExec env id conn s) :
    Heard (handleExec env id s).2 := by
  unfold handleExec
  rw [hconn]
  dsimp only
  cases htx : conn.transactionState.inTransaction with
  | false => exact h
  | true =>
      have hok := hok htx
      have hkept := (readOnly_checkWatched conn.dbIndex conn.transactionState.watchedKeys.toPairs).kept
        env.ω s.world
      simp only [Action.storing, onStore, Bool.not_true, Bool.false_eq_true, if_false] at hok ⊢
      rcases hr : (checkWatched conn.dbIndex conn.transactionState.watchedKeys.toPairs).run
        (World.step env.ω) s.world with ⟨violated | err | _, w'⟩
      all_goals rw [hr] at hok hkept
      · have hs : Heard { s with world := w' } := Served.kept (w := s.world) h hkept
        have hset := hs.setTransaction id {} hz
        dsimp only
        split
        · exact hset
        · next hgo =>
            obtain ⟨rfl, hab⟩ : violated = false ∧ conn.transactionState.aborted = false := by
              simpa using hgo
            refine heard_runQueued _ _ hset ?_ (hok hab)
            exact ((@calm_setTransaction id { s with world := w' } id {}).present 0).trans hz
      · exact Served.kept (w := s.world) h hkept
      · exact Served.kept (w := s.world) h hkept

theorem readOnly_unregisterAll (db : Nat) (keys : List Key) : ReadOnly (unregisterAll db keys) := by
  induction keys with
  | nil => trivial
  | cons key keys ih => exact .attempt rfl fun _ => ih

theorem quiet_withConnection {i : ConnId} {body : Connection → Action} (h : ∀ c, (body c).Quiet env) :
    (withConnection i body).Quiet env := by
  intro s
  unfold withConnection
  split
  · exact h _ s
  · exact .refl _ _

theorem quiet_watchLoop (id : ConnId) (db : Nat) (ps : Parts) : (watchLoop env id db ps).Quiet env := by
  induction ps with
  | nil => exact .reply _
  | cons p ps ih =>
      unfold watchLoop
      split
      · exact .error _
      · next key _ =>
          intro s
          have hread : ReadOnly (Prog.attempt (.store (.registerWatch db key)) :
            StoreProg (Except FerrousError Nat)) := Prog.Uses.attempt rfl
          have hkept := hread.kept env.ω s.world
          refine Kept.trans ?_ (ih _)
          rw [onConnection_world]
          exact hkept

/-- The commands that bypass the queue, EXEC apart, keep the store. -/
theorem quiet_immediate {c : Command} {a : Action} (h : immediate env id parts c = some a)
    (hc : c ≠ .exec) : a.Quiet env := by
  cases c with
  | monitor =>
      refine Option.some.inj h ▸ .reading fun _ => .of_world fun s => ?_
      exact onConnection_world _ _ _
  | multi =>
      refine Option.some.inj h ▸ quiet_withConnection fun c => .of_world fun s => ?_
      split
      · rfl
      · exact onConnection_world _ _ _
  | exec => exact absurd rfl hc
  | discard =>
      refine Option.some.inj h ▸ quiet_withConnection fun c => .of_world fun s => ?_
      split
      · exact onConnection_world _ _ _
      · rfl
  | watch =>
      refine Option.some.inj h ▸ quiet_withConnection fun c => .reading fun _ => ?_
      split
      · exact .error _
      · exact quiet_watchLoop id _ _
  | unwatch =>
      exact Option.some.inj h ▸ quiet_withConnection fun c =>
        .storing (readOnly_unregisterAll _ _) fun _ => .of_world fun s => onConnection_world _ _ _
  | publish =>
      exact Option.some.inj h ▸ .reading fun _ => .of_world fun s => sendEach_keeps s (fun s => send_world s) _ _ _
  | subscribe =>
      exact Option.some.inj h ▸ .reading fun _ => .of_world fun s => sendAll_world _ _ _
  | unsubscribe =>
      exact Option.some.inj h ▸ .reading fun _ => .of_world fun s => sendAll_world _ _ _
  | psubscribe =>
      exact Option.some.inj h ▸ .reading fun _ => .of_world fun s => sendAll_world _ _ _
  | punsubscribe =>
      exact Option.some.inj h ▸ .reading fun _ => .of_world fun s => sendAll_world _ _ _
  | auth => exact Option.some.inj h ▸ quiet_handleAuth id parts
  | replconf =>
      refine Option.some.inj h ▸ .reading fun sub => .of_world fun s => ?_
      split
      · rfl
      · rfl
      · split
        · rfl
        · split
          · rfl
          · split <;> rfl
      · split <;> rfl
      · rfl
  | _ => cases h

theorem quiet_sendDump (id : ConnId) (response : RespFrame) : (sendDump env id response).Quiet env := by
  intro s
  unfold sendDump
  split
  · exact .refl _ _
  · split
    · exact .refl _ _
    · next r _ =>
        exact (Action.Quiet.storing (readOnly_generateRdbBytes _) fun data =>
          .of_world fun s => sendAll_world _ _ _) { s with replication := r }

theorem quiet_handleSyncCommand (psync : Bool) (id : ConnId) (parts : Parts) :
    (handleSyncCommand env psync id parts).Quiet env := by
  intro s
  unfold handleSyncCommand
  split
  · split
    · exact .refl _ _
    · exact .refl _ _
    · exact quiet_sendDump id _ s
  · have hsync : Kept env.ω s.world (handleSync env s).2.world := quiet_handleSync s
    rcases hr : handleSync env s with ⟨f | err | _, s'⟩
    all_goals rw [hr] at hsync
    · exact hsync.trans (quiet_sendDump id f s')
    · exact hsync
    · exact hsync

theorem quiet_beforeAuth (id : ConnId) (parts : Parts) (c : Option Command) :
    (beforeAuth env id parts c).Quiet env := by
  unfold beforeAuth
  split
  · exact quiet_handleAuth id parts
  · exact .reply _
  · exact .reply _
  · exact .error _

/-- What a frame does to the store: it keeps it, or it is an EXEC or a command
that is carried out. -/
theorem answerFrame_world (id : ConnId) (f : RespFrame) (s : Server) :
    Kept env.ω s.world (answerFrame env id f s).2.world ∨
      ∃ conn, s.connections.get? id = some conn ∧ admitted env conn = true ∧
        (cleanCommand f = some .exec ∧ answerFrame env id f s = handleExec env id s ∨
          (cleanCommand f).bind (immediate env id (frameParts f)) = none ∧
            conn.transactionState.inTransaction = false ∧ s.held env (cleanCommand f) = false ∧
              answerFrame env id f s = processNormalCommand env (frameParts f) conn.dbIndex id s) := by
  by_cases hsync : frameName f = some .sync
  · simp only [answerFrame, hsync]
    exact .inl (quiet_handleSyncCommand false id _ s)
  by_cases hpsync : frameName f = some .psync
  · simp only [answerFrame, hpsync]
    exact .inl (quiet_handleSyncCommand true id _ s)
  rw [answerFrame_of_ne hsync hpsync]
  rcases processFrame_cases env id f with ⟨msg, hf⟩ | hf
  · rw [hf]
    exact .inl (.refl _ _)
  · rw [hf]
    unfold processParts withConnection
    cases hconn : s.connections.get? id with
    | none => exact .inl (.refl _ _)
    | some conn =>
        dsimp only
        split
        · exact .inl (quiet_beforeAuth id _ _ s)
        · next hgate =>
            have had : ¬ admitted env conn = false := fun h => hgate (by simpa [admitted] using h)
            have had : admitted env conn = true := by simpa using had
            unfold afterAuth
            cases himm : (cleanCommand f).bind (immediate env id (frameParts f)) with
            | some a =>
                dsimp only
                obtain ⟨c, hc, ha⟩ := Option.bind_eq_some_iff.mp himm
                by_cases hexec : c = .exec
                · subst hexec
                  obtain rfl := Option.some.inj ha
                  exact .inr ⟨conn, rfl, had, .inl ⟨hc, rfl⟩⟩
                · exact .inl (quiet_immediate ha hexec s)
            | none =>
                dsimp only
                cases htx : conn.transactionState.inTransaction with
                | true =>
                    refine .inl ?_
                    rw [if_pos rfl]
                    exact quiet_withConnection (fun _ => .of_world fun s => onConnection_world _ _ _) s
                | false =>
                    rw [if_neg (by simp)]
                    cases hheld : s.held env (cleanCommand f) with
                    | true => exact .inl (.refl _ _)
                    | false => exact .inr ⟨conn, rfl, had, .inr ⟨rfl, htx, rfl, rfl⟩⟩

/-- Whoever is blocked after a frame was blocked before, unless it is a pop that
puts its connection to sleep. -/
theorem inherits_answerFrame (hid : id ≠ 0) (hz : s.connections.contains 0 = false) (f : RespFrame) :
    Inherits s.connections (answerFrame env id f s).2.connections ∨
      ∃ (conn : Connection) (op : BlockingOp), answerFrame env id f s = blockingPop env (opWord op) op conn.dbIndex id (frameParts f) s := by
  rcases @answerFrame_cases env id hid f s with hawake | ⟨conn, op, -, -, -, -, -, heq⟩
  · cases hauth : authenticates env f with
    | false => exact .inl ((hawake.calm hauth).inherits hz)
    | true =>
        have hc : cleanCommand f = some .auth := by
          simpa using (Bool.and_eq_true_iff.mp hauth).1
        rcases @answerFrame_auth env id f hc s with hs | hs
        · rw [hs]
          exact .inl fun j c b hc hb => ⟨c, hc, hb⟩
        · rw [hs]
          rcases handleAuth_cases id (frameParts f) env s with hs | ⟨-, hs⟩
          · rw [hs]
            exact .inl fun j c b hc hb => ⟨c, hc, hb⟩
          · rw [hs]
            refine .inl fun j c' b hc' hb => ?_
            rw [onConnection_get?] at hc'
            split at hc'
            · obtain ⟨c, -, rfl⟩ := Option.map_eq_some_iff.mp hc'
              cases hb
            · exact ⟨c', hc', hb⟩
  · exact .inr ⟨conn, op, heq⟩

theorem lengthAt_of_vacant {db : Nat} {key : Key} (h : e.vacant db key = true) : e.lengthAt db key = 0 := by
  unfold Engine.vacant at h
  unfold Engine.lengthAt
  cases hent : e.entryAt db key with
  | none => rfl
  | some sv =>
      rw [hent] at h
      obtain ⟨v, d⟩ := sv
      cases v with
      | list items =>
          have h : items.isEmpty = true := h
          exact congrArg List.length (List.isEmpty_iff.mp h)
      | _ => cases h

/-- A client that goes to sleep waits for lists without elements. -/
theorem heard_block {op : BlockingOp} {keys : List Key} (timeout : Option Duration) (h : Heard s)
    (hempty : ∀ key ∈ keys, s.world.engine.lengthAt db key = 0) :
    Heard (block env op db id keys timeout s).2 := by
  unfold block
  split
  · exact h
  · next deadline _ =>
      split
      · exact h
      · next m hm =>
          have hqueue : m.wakeQueue = s.blocking.wakeQueue := BlockingManager.wakeQueue_registerBlocked hm
          unfold Heard
          rw [onConnection_blocking, onConnection_world, hqueue]
          rintro db' key' j ⟨c', b, hc', hb, hmem, hno⟩
          rw [onConnection_get?] at hc'
          split at hc'
          · obtain ⟨c, -, rfl⟩ := Option.map_eq_some_iff.mp hc'
            obtain rfl := ConnectionState.blocked.inj hb
            obtain ⟨key, hkey, heq⟩ := List.mem_map.mp hmem
            obtain ⟨rfl, rfl⟩ := Prod.mk.inj heq
            exact (hempty key hkey).le.trans (Nat.zero_le _)
          · exact h db' key' j ⟨c', b, hc', hb, hmem, hno⟩

theorem heard_popOrBlock {op : BlockingOp} (timeout : Option Duration) (h : Heard s) :
    Heard (popOrBlock env op db id parts timeout s).2 := by
  refine Action.reading_rule (P := fun r => Heard r.2) (fun _ => h) fun keys => ?_
  have hrun := lengthAt_tryPops_le db env.ω op keys s.world
  unfold Action.storing onStore
  rcases hr : (tryPops op db keys).run (World.step env.ω) s.world with ⟨found | err | _, w'⟩
  all_goals rw [hr] at hrun
  · have hs : Heard { s with world := w' } := Served.shorter h hrun
    cases found with
    | some p => exact hs
    | none =>
        obtain ⟨hvac, -⟩ := tryPops_none op keys hr
        refine heard_block timeout hs fun key hkey => Nat.le_zero.mp ?_
        exact (hrun db key).trans (lengthAt_of_vacant (hvac key hkey)).le
  · exact Served.shorter h hrun
  · exact Served.shorter h hrun

theorem heard_blockingPop (cmd : String) (op : BlockingOp) (h : Heard s) :
    Heard (blockingPop env cmd op db id parts s).2 := by
  refine Action.reading_rule (P := fun r => Heard r.2) (fun _ => h) fun t => ?_
  split
  · exact heard_popOrBlock none h
  · cases fromSecsF64 t with
    | none => exact h
    | some d => exact heard_popOrBlock (some d) h

/-- A frame that announces what it brings. -/
theorem heard_answerFrame {f : RespFrame} (hid : id ≠ 0) (hz : s.connections.contains 0 = false)
    (h : Heard s) (hok : announcesFrame env id f s) : Heard (answerFrame env id f s).2 := by
  have hqueue := (@within_answerFrame env id hid f s).queue
  have hinherits : Inherits s.connections (answerFrame env id f s).2.connections ∨ _ :=
    inherits_answerFrame hid hz f
  rcases hinherits with hin | ⟨conn, op, heq⟩
  · rcases @answerFrame_world env id f s with hkept | ⟨conn, hconn, had, ⟨hexec, heq⟩ | ⟨himm, htx, hheld, heq⟩⟩
    · exact (Served.more (Served.kept h hkept) hqueue).inherit hin
    · rw [heq]
      exact heard_handleExec h hz hconn ((hok conn hconn had).1 hexec)
    · have hserved := @served_processNormalCommand env s id conn.dbIndex (frameParts f) h
        ((hok conn hconn had).2 himm htx hheld)
      rw [← heq] at hserved
      exact hserved.inherit hin
  · rw [heq]
    exact heard_blockingPop _ op h

/-! ## Wake-ups -/

theorem popOp_some {op : BlockingOp} {key : Key} {ctx : Ctx} {entry : Option StoredValue} {value : Bytes}
    (h : ((popOp op).step key ctx entry).result = .ok (some value)) :
    ∃ items d, entry = some ⟨.list items, d⟩ ∧ items ≠ [] := by
  rcases entry with _ | ⟨v, d⟩
  · cases op <;> cases h
  · cases v with
    | list items =>
        refine ⟨items, d, rfl, ?_⟩
        rintro rfl
        cases op <;> cases h
    | _ => cases op <;> cases h

/-- A pop takes one element of its list, or there is none. -/
theorem pop_lengthAt {ω : Nat → Ctx} {op : BlockingOp} {key : Key} {w w' : World} {r : Option Bytes}
    (h : World.step ω _ (.key db key (popOp op)) w = (.ok r, w')) :
    (r = none → w'.engine.lengthAt db key = 0) ∧
      (r ≠ none → w'.engine.lengthAt db key < w.engine.lengthAt db key) ∧
        ∀ db' key', w'.engine.lengthAt db' key' ≤ w.engine.lengthAt db' key' := by
  have hle (db' : Nat) (key' : Key) : w'.engine.lengthAt db' key' ≤ w.engine.lengthAt db' key' := by
    have hstep := World.step_key_lengthAt (ω := ω) (w := w) db key (popOp op) db' key'
    have hnone : (popOp op).brought (w.engine.entryAt db key) = 0 := by cases op <;> rfl
    rwa [h, hnone, ite_self, Nat.add_zero] at hstep
  refine ⟨fun hr => ?_, fun hr => ?_, hle⟩
  · subst hr
    exact Nat.le_zero.mp ((hle db key).trans (lengthAt_of_vacant (pop_none op key h).1).le)
  · obtain ⟨value, rfl⟩ := Option.ne_none_iff_exists'.mp hr
    obtain ⟨hres, rfl⟩ := Prod.mk.inj h
    simp only [Op.run] at hres ⊢
    by_cases hdb : db < w.engine.databases.length
    · rw [Engine.withEntry_fst hdb, Engine.answerOf] at hres
      split at hres
      · cases hres
      · next hrefuses =>
          obtain ⟨items, d, hent, hne⟩ := popOp_some hres
          obtain ⟨-, rest, -, -, hleaves, hlt⟩ := popOp_step op key (ω w.calls) hne d
          unfold Engine.lengthAt
          rw [Engine.withEntry_snd hdb, if_pos ⟨rfl, rfl⟩, Engine.leftBy, if_neg hrefuses, hent, hleaves]
          refine lt_of_le_of_lt ?_ hlt
          split
          · exact Nat.zero_le _
          · exact le_rfl
    · rw [Engine.withEntry_missing hdb] at hres
      cases hres

/-- A wake-up pops, blocks nobody, and answers a client it has an element for. -/
theorem wakeClient_pops {w : WakeupRequest} (h : wakeClient env s w = some s') :
    ∃ r world', World.step env.ω _ (.key w.db w.key (popOp w.opType)) s.world = (.ok r, world') ∧
      s'.world = world' ∧ Inherits s.connections s'.connections ∧
        (r ≠ none → s'.isBlocked w.connId = false) := by
  have hrun : s.onStore env (need (.key w.db w.key (popOp w.opType))) =
      ((need (.key w.db w.key (popOp w.opType))).run (World.step env.ω) s.world |>.1,
        { s with world := ((need (.key w.db w.key (popOp w.opType))).run (World.step env.ω) s.world).2 }) := rfl
  unfold wakeClient at h
  rw [hrun, need, Prog.perform, Prog.run_call] at h
  rcases hstep : World.step env.ω _ (.key w.db w.key (popOp w.opType)) s.world with ⟨r | err | _, w₁⟩
  all_goals
    rw [hstep] at h
    dsimp only [Prog.andThen, Prog.run_ret, Prog.run_fail] at h
  · refine ⟨r, w₁, rfl, ?_⟩
    cases r with
    | none =>
        cases h
        exact ⟨rfl, fun j c b hc hb => ⟨c, hc, hb⟩, fun hne => absurd rfl hne⟩
    | some value =>
        dsimp only at h
        cases hconn : s.connections.get? w.connId with
        | none =>
            rw [hconn] at h
            cases h
            exact ⟨rfl, fun j c b hc hb => ⟨c, hc, hb⟩, fun _ => by simp [isBlocked, hconn]⟩
        | some c =>
            rw [hconn] at h
            dsimp only at h
            split at h
            · cases h
              refine ⟨by rw [onConnection_world, send_world], fun j c' b hc' hb => ?_, fun _ => ?_⟩
              · rw [onConnection_get?, send_connections] at hc'
                split at hc'
                · obtain ⟨c, -, rfl⟩ := Option.map_eq_some_iff.mp hc'
                  cases hb
                · exact ⟨c', hc', hb⟩
              · rw [isBlocked, onConnection_get?_self, send_connections, hconn]
                rfl
            · next hb =>
                cases h
                refine ⟨rfl, fun j c b hc hb => ⟨c, hc, hb⟩, fun _ => ?_⟩
                rw [isBlocked, hconn]
                simpa using hb
  · cases h
  · cases h

theorem requests_cons (w : WakeupRequest) (q : List WakeupRequest) (db : Nat) (key : Key) :
    requests (w :: q) db key = requests q db key + if w.db = db ∧ w.key = key then 1 else 0 := by
  unfold requests
  rw [List.countP_cons]
  simp only [decide_eq_true_eq]

/-- What one wake-up does with the requests that are left. -/
theorem served_wakeClient {w : WakeupRequest} {ws : List WakeupRequest}
    (h : Served (w :: ws) s.connections s.world.engine) (hs : wakeClient env s w = some s') :
    Served ws s'.connections s'.world.engine := by
  obtain ⟨r, world', hstep, hworld, hin, hanswered⟩ := wakeClient_pops hs
  obtain ⟨hnone, hsome, hle⟩ := pop_lengthAt hstep
  rw [hworld]
  rintro db key j ⟨c', b, hc', hb, hmem, hno⟩
  obtain ⟨c, hc, hcb⟩ := hin j c' b hc' hb
  by_cases hat : w.db = db ∧ w.key = key
  · obtain ⟨rfl, rfl⟩ := hat
    cases r with
    | none => exact (hnone rfl).le.trans (Nat.zero_le _)
    | some value =>
        -- the client of the request is awake now, so it is another one that waits
        have hj : w.connId ≠ j := by
          rintro rfl
          have hawake := hanswered nofun
          rw [isBlocked, hc', Option.map_some, Option.getD_some, hb] at hawake
          cases hawake
        have hbefore := h w.db w.key j ⟨c, b, hc, hcb, hmem, fun w' hw' => by
          rcases List.mem_cons.mp hw' with rfl | hw'
          · exact fun heq => hj heq.1
          · exact hno w' hw'⟩
        rw [requests_cons, if_pos ⟨rfl, rfl⟩] at hbefore
        exact Nat.le_of_lt_succ ((hsome nofun).trans_le hbefore)
  · have hbefore := h db key j ⟨c, b, hc, hcb, hmem, fun w' hw' => by
      rcases List.mem_cons.mp hw' with rfl | hw'
      · exact fun heq => hat heq.2
      · exact hno w' hw'⟩
    rw [requests_cons, if_neg hat] at hbefore
    exact (hle db key).trans hbefore

/-- The wake-ups of a turn. -/
theorem heard_processWakeups (h : Heard s) (hs : processWakeups env s = some s') : Heard s' := by
  have hqueue (ws : List WakeupRequest) {s s' : Server}
      (h : Served (ws ++ s.blocking.wakeQueue) s.connections s.world.engine)
      (hs : ws.foldlM (wakeClient env) s = some s') : Heard s' := by
    induction ws generalizing s with
    | nil => exact Option.some.inj hs ▸ h
    | cons w ws ih =>
        rw [List.foldlM_cons] at hs
        obtain ⟨s₁, hw, hrest⟩ := Option.bind_eq_some_iff.mp hs
        refine ih ?_ hrest
        have hsame : s₁.blocking = s.blocking := by
          obtain ⟨-, world', -, rfl | ⟨-, -, -, -, -, rfl⟩⟩ := wakeClient_cases hw
          · rfl
          · rw [onConnection_blocking, send_blocking]
        rw [hsame]
        exact served_wakeClient h hw
  refine hqueue _ ?_ hs
  have hsplit : s.blocking.processWakeups.1 ++ s.blocking.processWakeups.2.wakeQueue =
      s.blocking.wakeQueue := List.take_append_drop _ _
  rw [hsplit]
  exact h

/-! ## Events -/

/-- A connection that is answered blocks nobody. -/
theorem inherits_answered (s : Server) (id : ConnId) (item : Sent) :
    Inherits s.connections
      ((s.send id item).onConnection id fun c => { c with state := .authenticated }).connections := by
  intro j c' b hc' hb
  rw [onConnection_get?, send_connections] at hc'
  split at hc'
  · obtain ⟨c, -, rfl⟩ := Option.map_eq_some_iff.mp hc'
    cases hb
  · exact ⟨c', hc', hb⟩

theorem inherits_del (conns : Map ConnId Connection) (id : ConnId) : Inherits conns (conns.del id) := by
  intro j c b hc hb
  by_cases hj : j = id
  · rw [hj, Map.get?_del_self] at hc
    cases hc
  · rw [Map.get?_del_ne _ hj] at hc
    exact ⟨c, hc, hb⟩

theorem Inherits.refl (conns : Map ConnId Connection) : Inherits conns conns := fun _ c _ hc hb => ⟨c, hc, hb⟩

theorem Heard.accept (h : Heard s) (addr : String) : Heard (accept env s addr) := by
  unfold Server.accept
  split
  · exact h
  · refine Heard.of_same h rfl rfl fun j c b hc hb => ?_
    by_cases hj : j = s.nextId
    · rw [hj, Map.get?_set_self] at hc
      obtain rfl := Option.some.inj hc
      dsimp only at hb
      split at hb <;> cases hb
    · rw [Map.get?_set_ne _ _ hj] at hc
      exact ⟨c, hc, hb⟩

theorem Heard.timeOut (h : Heard s) (id : ConnId) : Heard (s.timeOut id) := by
  unfold Server.timeOut
  split
  · split
    · exact h.of_same (by rw [onConnection_blocking, send_blocking])
        (by rw [onConnection_world, send_world]) (inherits_answered s id _)
    · exact h
  · exact h

theorem Heard.cleanup (ids : List ConnId) {s : Server} (h : Heard s) :
    Heard (ids.foldl removeClosed s) := by
  induction ids generalizing s with
  | nil => exact h
  | cons id ids ih =>
      exact ih (h.of_same (BlockingManager.unregisterFrom_eq s.blocking s.world.engine.databases.length id).1
        rfl (inherits_del _ id))

/-- One event that announces what it brings. -/
theorem Heard.step {ev : LoopEvent} (h : Heard s) (hz : s.connections.contains 0 = false)
    (hok : Announces env s ev) (hs : ev.step env s = some s') : Heard s' := by
  cases ev with
  | wakeups => exact heard_processWakeups h hs
  | accept addr => exact Option.some.inj hs ▸ h.accept addr
  | command id f =>
      obtain ⟨hc, rfl⟩ := command_eq hs
      exact heard_answerFrame (ne_zero_of_contains hz hc) hz h hok
  | replies id items =>
      obtain rfl := Option.some.inj hs
      refine h.of_same ?_ (sendAll_world _ _ _) ?_
      · rw [sendAll_blocking]
      · rw [sendAll_connections]
        exact .refl _
  | close id =>
      refine Option.some.inj hs ▸ h.of_same ?_ (onConnection_world _ _ _)
        ((Calm.closeConnection s id id).inherits hz)
      rw [closeConnection, onConnection_blocking]
  | fail id =>
      obtain rfl := Option.some.inj hs
      unfold removeFailed
      split
      · exact h.of_same rfl rfl (inherits_del _ id)
      · exact h
  | timeouts now =>
      exact Option.some.inj hs ▸ processBlockedTimeouts_inv (fun _ id h => h.timeOut id) h
  | cleanup => exact Option.some.inj hs ▸ Heard.cleanup _ h

theorem heard_initial (e : Engine) (replId : String) (backlogSize : Nat) :
    Heard (initial e replId backlogSize) := by
  rintro db key j ⟨c, b, hc, -⟩
  cases hc

/-- In a run whose events announce what they bring, when no wake-up is pending,
the keys of a blocked connection have no element. -/
theorem no_missed_wakeup (env : Env) (e : Engine) (replId : String) (backlogSize : Nat)
    (es : List LoopEvent) (s : Server)
    (h : Lib.Runs (Announces env) (LoopEvent.step env) (initial e replId backlogSize) es s)
    (hq : s.blocking.wakeQueue = []) (j : ConnId) (c : Connection) (b : BlockedState)
    (hc : s.connections.get? j = some c) (hb : c.state = .blocked b) :
    ∀ p ∈ b.keys, s.elements p.1 p.2 = [] := by
  obtain ⟨-, hheard⟩ : Gone 0 s ∧ Heard s :=
    h.inv (I := fun s => Gone 0 s ∧ Heard s)
      (fun _ _ _ hi hok hs => ⟨hi.1.step hi.1.2 hs, hi.2.step hi.1.2 hok hs⟩)
      ⟨⟨Nat.one_pos, rfl⟩, heard_initial e replId backlogSize⟩
  intro p hp
  have hle := hheard p.1 p.2 j ⟨c, b, hc, hb, hp, by rw [hq]; exact nofun⟩
  rw [hq] at hle
  have hzero : s.world.engine.lengthAt p.1 p.2 = 0 := Nat.le_zero.mp hle
  unfold Engine.lengthAt at hzero
  unfold elements
  split
  · next items d hent =>
      rw [hent] at hzero
      exact List.length_eq_zero_iff.mp hzero
  · rfl

/-- One client waits for a key, and another pushes one element onto it. -/
def awaited : List LoopEvent :=
  [.accept "a", .accept "b", .command 1 (.list (words ["BLPOP", "k", "0"])),
   .command 2 (.list (words ["RPUSH", "k", "v"])), .wakeups]

/-- The state the push is taken from. -/
def waiting : Server :=
  (answerFrame (.quiet none) 1 (.list (words ["BLPOP", "k", "0"]))
    (accept (.quiet none) (accept (.quiet none) (initial Engine.new "0" 16) "a") "b")).2

theorem awaited_heard :
    ∃ s, Lib.Runs (Announces (.quiet none)) (LoopEvent.step (.quiet none))
        (initial Engine.new "0" 16) awaited s ∧ s.blocking.wakeQueue = [] ∧
      ∀ j c b, s.connections.get? j = some c → c.state = .blocked b →
        ∀ p ∈ b.keys, s.elements p.1 p.2 = [] := by
  have hrun : ∃ s, Lib.Runs (Announces (.quiet none)) (LoopEvent.step (.quiet none))
      (initial Engine.new "0" 16) awaited s ∧ s.blocking.wakeQueue = [] := by
    refine ⟨_, .cons trivial rfl (.cons trivial rfl (.cons ?_ rfl (.cons ?_ rfl (.cons trivial rfl .nil)))), ?_⟩
    · intro conn hconn had
      refine ⟨nofun, fun _ _ _ c p hc hp => ?_⟩
      obtain rfl : Command.blpop = c := Option.some.inj hc
      cases hp
    · intro conn hconn had
      refine ⟨nofun, fun _ _ _ c p hc hp => ?_⟩
      obtain rfl := Option.some.inj hconn
      obtain rfl : Command.rpush = c := Option.some.inj hc
      obtain rfl := Option.some.inj hp
      refine ⟨fun j hj hne => ?_, ?_⟩
      · obtain ⟨c', b, hc', hb, -⟩ := hj
        have hwaits : ∀ p ∈ waiting.connections.toPairs, p.2.state.isBlocked = true → p.1 = 1 := by
          decide
        have hone : j = 1 := hwaits (j, c') (Map.mem_toPairs.mpr hc') (by rw [hb]; rfl)
        exact absurd (congrArg some hone.symm) hne
      · trivial
    · rfl
  obtain ⟨s, hs, hq⟩ := hrun
  exact ⟨s, hs, hq, fun j c b hc hb =>
    no_missed_wakeup (.quiet none) Engine.new "0" 16 awaited s hs hq j c b hc hb⟩

/-- Two clients wait for a key, and a third pushes two elements onto it. -/
def overlooked : List Turn :=
  [⟨["a", "b", "c"], [], 0, []⟩,
   ⟨[], [(1, .frames [.list (words ["BLPOP", "k", "0"])]), (2, .frames [.list (words ["BLPOP", "k", "0"])])], 0, []⟩,
   ⟨[], [(3, .frames [.list (words ["RPUSH", "k", "x", "y"])])], 0, []⟩,
   ⟨[], [], 0, []⟩]

/-- The second client sleeps on, with an element in its list. -/
theorem overlooked_not_heard :
    ¬ ∀ s, run (.quiet none) (initial Engine.new "0" 16) overlooked = some s →
      s.blocking.wakeQueue = [] → ∀ j c b, s.connections.get? j = some c → c.state = .blocked b →
        ∀ p ∈ b.keys, s.elements p.1 p.2 = [] := by
  intro h
  have hrun : ∃ s, run (.quiet none) (initial Engine.new "0" 16) overlooked = some s :=
    Option.isSome_iff_exists.mp rfl
  obtain ⟨s, hs⟩ := hrun
  have hstate : (run (.quiet none) (initial Engine.new "0" 16) overlooked).map (fun s =>
      (s.blocking.wakeQueue, (s.connections.get? 2).map (·.state), s.elements 0 "k".toBytes)) =
        some ([], some (.blocked ⟨[(0, "k".toBytes)], none, .blpop⟩), ["y".toBytes]) := by
    rfl
  rw [hs, Option.map_some, Option.some.injEq, Prod.mk.injEq, Prod.mk.injEq] at hstate
  obtain ⟨hq, hconn, helements⟩ := hstate
  obtain ⟨c, hc, hb⟩ := Option.map_eq_some_iff.mp hconn
  have hempty := h s hs hq 2 c _ hc hb (0, "k".toBytes) (List.mem_singleton_self _)
  rw [helements] at hempty
  cases hempty

end Server

end Ferrous
