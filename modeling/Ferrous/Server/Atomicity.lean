/-
# `Server.Atomicity` — commands that fail after they have written

Along the dispatch table: a command that fails has kept the store, except for
the five that write before the last thing that can fail.  `restates` says of
these, by the arguments and the store before the command, when the part that
was carried out shows nothing; then, and only then, they fail without a trace
as well.  A blocking pop is among them because it takes an empty list away in
passing.
-/
import Ferrous.Commands.CleanHandlers
import Ferrous.Commands.GroupReads
import Ferrous.Commands.Halfway
import Ferrous.Server.Heard
import Ferrous.Server.Logged

namespace Ferrous

open Lib Args

/-! ## XGROUP -/

section Groups

variable {ω : Nat → Ctx} {db : Nat}

/-- The subcommand of a command, in upper case; without one there is none. -/
theorem subcommand_word (cmd : String) (parts : Parts) :
    (parts[1]?).bind word? =
      (do arity cmd (2 ≤ parts.length); text parts 1 "subcommand" : Args String).toOption.map toUppercase := by
  unfold arity text bulk word?
  cases hp : parts[1]? with
  | none =>
      split <;> rfl
  | some p =>
      have hlen : 2 ≤ parts.length := (List.getElem?_eq_some_iff.mp hp).1
      rw [if_pos (decide_eq_true hlen), Option.bind_some, Option.bind_some]
      cases p.bulk? <;> rfl

/-- Of the subcommands of XGROUP, CREATE can fail halfway. -/
def groupRestates (ω : Nat → Ctx) (w : World) (db : Nat) (parts : Parts) : Prop :=
  (parts[1]?).bind word? = some "CREATE" → createRestates ω w db parts

/-- A failed XGROUP keeps the store exactly if it is no CREATE that makes a stream first. -/
theorem handleXgroup_cleanAt_iff {w : World} (hw : w.Ready db) (parts : Parts) :
    CleanAt ω (handleXgroup db parts) w ↔ groupRestates ω w db parts := by
  unfold handleXgroup subcommands groupRestates
  rw [subcommand_word "xgroup" parts]
  cases (do arity "xgroup" (2 ≤ parts.length); text parts 1 "subcommand" : Args String) with
  | error f => exact ⟨fun _ => nofun, fun _ => Clean.ret _ w hw⟩
  | ok sub =>
      have hclean {p : StoreProg RespFrame} (hp : Clean ω db p) (hne : toUppercase sub ≠ "CREATE") :
          CleanAt ω p w ↔ ((Except.ok sub : Args String).toOption.map toUppercase = some "CREATE" →
            createRestates ω w db parts) :=
        ⟨fun _ h => absurd (Option.some.inj h) hne, fun _ => hp w hw⟩
      dsimp only [reading]
      split
      · next hsub =>
          refine (handleXgroupCreate_cleanAt_iff hw parts).trans ⟨fun h _ => h, fun h => h ?_⟩
          exact congrArg some hsub
      · next hsub => exact hclean (Clean.handleXgroupDestroy parts) (by rw [hsub]; decide)
      · next hsub => exact hclean (Clean.handleXgroupCreateconsumer parts) (by rw [hsub]; decide)
      · next hsub => exact hclean (Clean.handleXgroupDelconsumer parts) (by rw [hsub]; decide)
      · next hsub => exact hclean (Clean.handleXgroupSetid parts) (by rw [hsub]; decide)
      · next hsub => exact hclean (Clean.ret _) (by rw [hsub]; decide)
      · next hcreate _ _ _ _ _ => exact hclean (Clean.ret _) hcreate

end Groups

/-! ## Blocking pops -/

/-- The keys a blocking pop passes before it comes to a key of another type; none if
it comes to an element or to the end first. -/
def Engine.passesTo (e : Engine) (db : Nat) : List Key → Option (List Key)
  | [] => none
  | key :: keys =>
      match e.entryAt db key with
      | none => (e.passesTo db keys).map (key :: ·)
      | some ⟨.list [], _⟩ => (e.passesTo db keys).map (key :: ·)
      | some ⟨.list _, _⟩ => none
      | some _ => some []

namespace Server

/-- The empty lists a blocking pop takes away before it fails are past their deadlines. -/
def popRestates (ω : Nat → Ctx) (w : World) (db : Nat) (parts : Parts) : Prop :=
  ∀ t keys passed, 3 ≤ parts.length → timeoutArg parts = .ok t → (waitTime t).isSome = true →
    bulks "key" (parts.drop 1).dropLast = .ok keys → w.engine.passesTo db keys = some passed →
      ∀ key ∈ passed, ∀ sv, w.engine.entryAt db key = some sv →
        ∃ i ≤ passed.length, sv.isExpired (ω (w.calls + i)).now

section Pops

variable {ω : Nat → Ctx} {db : Nat} {w : World}

/-- One pop: what it answers and leaves. -/
theorem step_pop (hw : w.Ready db) (op : BlockingOp) (key : Key) :
    ∃ r e', World.step ω _ (.key db key (popOp op)) w = (r, ⟨e', w.calls + 1⟩) ∧
      OnlyChanges db key w.engine e' ∧
      match w.engine.entryAt db key with
      | none => r = .ok none ∧ e'.entryAt db key = none
      | some ⟨.list [], _⟩ => r = .ok none ∧ e'.entryAt db key = none
      | some ⟨.list _, _⟩ => ∃ v, r = .ok (some v)
      | some sv => (∃ e, r = .err e) ∧ e'.entryAt db key = some sv := by
  obtain ⟨e', hstep, hch, hent⟩ := World.step_key key (popOp op) hw.database hw.unlimited (ω := ω)
  refine ⟨_, e', hstep, hch, ?_⟩
  cases hold : w.engine.entryAt db key with
  | none =>
      rw [hold] at hent
      cases op with
      | blpop => exact ⟨rfl, hent⟩
      | brpop => exact ⟨rfl, hent⟩
  | some sv =>
      rw [hold] at hent
      obtain ⟨v, t⟩ := sv
      cases v with
      | list items =>
          cases items with
          | nil =>
              cases op with
              | blpop => exact ⟨rfl, hent⟩
              | brpop => exact ⟨rfl, hent⟩
          | cons x xs =>
              cases op with
              | blpop => exact ⟨x, rfl⟩
              | brpop => exact ⟨_, congrArg Outcome.ok (List.getLast?_eq_some_getLast (List.cons_ne_nil x xs))⟩
      | _ =>
          cases op with
          | blpop => exact ⟨⟨_, rfl⟩, hent⟩
          | brpop => exact ⟨⟨_, rfl⟩, hent⟩

/-- Taking an empty list away does not change which keys are passed. -/
theorem passesTo_of_passed {e e' : Engine} {key : Key} (hch : OnlyChanges db key e e')
    (hold : e.entryAt db key = none ∨ ∃ t, e.entryAt db key = some ⟨.list [], t⟩)
    (hnew : e'.entryAt db key = none) (keys : List Key) : e'.passesTo db keys = e.passesTo db keys := by
  induction keys with
  | nil => rfl
  | cons k ks ih =>
      unfold Engine.passesTo
      by_cases hk : k = key
      · subst hk
        rw [hnew, ih]
        rcases hold with h | ⟨t, h⟩
        · rw [h]
        · rw [h]
      · rw [hch.others db k fun h => hk h.2, ih]

/-- A walk that comes to a key of another type has taken away what it passed; another
does not fail. -/
theorem tryPops_walk (op : BlockingOp) (keys : List Key) (hw : w.Ready db) :
    match w.engine.passesTo db keys with
    | none => ∃ r w', (tryPops op db keys).run (World.step ω) w = (.ok r, w')
    | some passed => ∃ e w', (tryPops op db keys).run (World.step ω) w = (.err e, w') ∧
        w'.calls = w.calls + passed.length + 1 ∧
        ∀ db' k, w'.engine.entryAt db' k =
          if db' = db ∧ k ∈ passed then none else w.engine.entryAt db' k := by
  induction keys generalizing w with
  | nil => exact ⟨none, w, rfl⟩
  | cons key keys ih =>
      obtain ⟨r, e', hstep, hch, hr⟩ := step_pop (ω := ω) hw op key
      have hw' := hw.step (ω := ω) (.key db key (popOp op))
      rw [hstep] at hw'
      -- a key without elements
      have hpassed (hold : w.engine.entryAt db key = none ∨ ∃ t, w.engine.entryAt db key = some ⟨.list [], t⟩)
          (hok : r = .ok none) (hnew : e'.entryAt db key = none) :
          match (w.engine.passesTo db keys).map (key :: ·) with
          | none => ∃ r w', (tryPops op db (key :: keys)).run (World.step ω) w = (.ok r, w')
          | some passed => ∃ e w', (tryPops op db (key :: keys)).run (World.step ω) w = (.err e, w') ∧
              w'.calls = w.calls + passed.length + 1 ∧
              ∀ db' k, w'.engine.entryAt db' k =
                if db' = db ∧ k ∈ passed then none else w.engine.entryAt db' k := by
        subst hok
        have hrun : (tryPops op db (key :: keys)).run (World.step ω) w =
            (tryPops op db keys).run (World.step ω) ⟨e', w.calls + 1⟩ := run_need hstep
        have hrest := ih hw'
        dsimp only at hrest
        rw [passesTo_of_passed hch hold hnew keys] at hrest
        rw [hrun]
        cases hp : w.engine.passesTo db keys with
        | none =>
            rw [hp] at hrest
            exact hrest
        | some passed =>
            rw [hp] at hrest
            obtain ⟨e, w', hrun', hcalls, hent⟩ := hrest
            refine ⟨e, w', hrun', ?_, fun db' k => ?_⟩
            · rw [hcalls, List.length_cons]
              omega
            · rw [hent]
              by_cases hat : db' = db ∧ k = key
              · obtain ⟨rfl, rfl⟩ := hat
                simp [hnew]
              · have hmem : db' = db ∧ k ∈ key :: passed ↔ db' = db ∧ k ∈ passed := by
                  rw [List.mem_cons]
                  exact and_congr_right fun hdb => or_iff_right fun hk => hat ⟨hdb, hk⟩
                simp only [hmem, hch.others db' k hat]
      have hfailed (hent : e'.entryAt db key = w.engine.entryAt db key) {e : FerrousError} (he : r = .err e) :
          ∃ e w', (tryPops op db (key :: keys)).run (World.step ω) w = (.err e, w') ∧
            w'.calls = w.calls + ([] : List Key).length + 1 ∧
            ∀ db' k, w'.engine.entryAt db' k =
              if db' = db ∧ k ∈ ([] : List Key) then none else w.engine.entryAt db' k := by
        have hrun : (tryPops op db (key :: keys)).run (World.step ω) w = (.err e, ⟨e', w.calls + 1⟩) := by
          rw [tryPops, Prog.bind_eq, need, Prog.run_perform_bind, hstep, he]
          rfl
        refine ⟨e, _, hrun, rfl, fun db' k => ?_⟩
        rw [if_neg fun h => absurd h.2 List.not_mem_nil]
        by_cases hat : db' = db ∧ k = key
        · rw [hat.1, hat.2]
          exact hent
        · exact hch.others db' k hat
      unfold Engine.passesTo
      cases hold : w.engine.entryAt db key with
      | none =>
          rw [hold] at hr
          exact hpassed (.inl hold) hr.1 hr.2
      | some sv =>
          obtain ⟨v, t⟩ := sv
          rw [hold] at hr hfailed
          cases v with
          | list items =>
              cases items with
              | nil => exact hpassed (.inr ⟨t, hold⟩) hr.1 hr.2
              | cons x xs =>
                  obtain ⟨v, rfl⟩ := hr
                  exact ⟨_, _, run_need hstep⟩
          | _ =>
              obtain ⟨⟨e, he⟩, hent⟩ := hr
              exact hfailed hent he

/-- A failed walk keeps the store exactly if the lists it took away are past their deadlines. -/
theorem kept_of_walk_iff {w' : World} {passed : List Key} (hcalls : w'.calls = w.calls + passed.length + 1)
    (hent : ∀ db' k, w'.engine.entryAt db' k = if db' = db ∧ k ∈ passed then none else w.engine.entryAt db' k) :
    Kept ω w w' ↔ ∀ key ∈ passed, ∀ sv, w.engine.entryAt db key = some sv →
      ∃ i ≤ passed.length, sv.isExpired (ω (w.calls + i)).now := by
  constructor
  · intro h key hkey sv hsv
    have hnone : w'.engine.entryAt db key = none := (hent db key).trans (if_pos ⟨rfl, hkey⟩)
    have hentry := h.entry db key
    rw [KeptEntry, hnone, hsv] at hentry
    rcases hentry with hs | ⟨-, sv', i, hsv', hi, hi', he⟩
    · exact hs.elim
    · cases hsv'
      refine ⟨i - w.calls, by omega, ?_⟩
      rw [Nat.add_sub_cancel' hi]
      exact he
  · intro h
    refine ⟨by omega, fun db' key => ?_⟩
    unfold KeptEntry
    rw [hent]
    split
    · next hat =>
        obtain ⟨rfl, hkey⟩ := hat
        cases hsv : w.engine.entryAt db' key with
        | none => exact .inl trivial
        | some sv =>
            obtain ⟨i, hi, he⟩ := h key hkey sv hsv
            exact .inr ⟨rfl, sv, w.calls + i, rfl, Nat.le_add_right _ _, by omega, he⟩
    · exact .inl (.refl _)

end Pops

/-! ## Actions -/

/-- A command that fails has kept the store. -/
def FailsClean (env : Env) (s : Server) (r : Outcome RespFrame × Server) : Prop :=
  Failed r.1 → Kept env.ω s.world r.2.world

section Actions

variable {env : Env} {s : Server} {db : Nat} {parts : Parts} {id : ConnId}

theorem failsClean_reply (f : RespFrame) : FailsClean env s (.ok f, s) := fun _ => .refl _ _

theorem Quiet.failsClean {a : Action} (h : Action.Quiet env a) : FailsClean env s (a s) := fun _ => h s

theorem failsClean_onStore_iff (p : StoreProg RespFrame) :
    FailsClean env s (s.onStore env p) ↔ CleanAt env.ω p s.world := Iff.rfl

/-- Going to sleep is no failure. -/
theorem not_failed_block (hreg : db < s.blocking.registries.length) (op : BlockingOp) (keys : List Key)
    (timeout : Option Duration) : ¬ Failed (block env op db id keys timeout s).1 := by
  unfold block
  split
  · exact fun h => h
  · next deadline hdeadline =>
      obtain ⟨blocking, hb⟩ : ∃ blocking, s.blocking.registerBlocked db id keys op deadline = some blocking :=
        ⟨_, if_pos hreg⟩
      rw [hb]
      exact nofun

theorem failsClean_blockingPop_iff (hw : s.world.Ready db) (hreg : db < s.blocking.registries.length)
    (cmd : String) (op : BlockingOp) :
    FailsClean env s (blockingPop env cmd op db id parts s) ↔ popRestates env.ω s.world db parts := by
  have hrefused {f : RespFrame} (hr : blockingPop env cmd op db id parts s = (.ok f, s))
      (hrestates : popRestates env.ω s.world db parts) :
      FailsClean env s (blockingPop env cmd op db id parts s) ↔ popRestates env.ω s.world db parts :=
    iff_of_true (hr ▸ failsClean_reply f) hrestates
  by_cases hlen : 3 ≤ parts.length
  · cases ht : timeoutArg parts with
    | error f =>
        refine hrefused (f := f) ?_ fun t _ _ _ h => ?_
        · unfold blockingPop arity
          rw [if_pos (decide_eq_true hlen), ht]
          rfl
        · rw [ht] at h
          cases h
    | ok t =>
        rw [blockingPop_eq op hlen ht]
        cases hd : waitTime t with
        | none =>
            refine iff_of_true (fun h => h.elim) fun t' _ _ _ h hsome => ?_
            cases ht.symm.trans h
            rw [hd] at hsome
            cases hsome
        | some d =>
            unfold popOrBlock
            cases hkeys : bulks "key" (parts.drop 1).dropLast with
            | error f =>
                refine iff_of_true (failsClean_reply f) fun _ _ _ _ _ _ h => ?_
                rw [hkeys] at h
                cases h
            | ok keys =>
                have hwalk := tryPops_walk (ω := env.ω) op keys hw
                cases hp : s.world.engine.passesTo db keys with
                | none =>
                    rw [hp] at hwalk
                    obtain ⟨r, w', hrun⟩ := hwalk
                    refine iff_of_true ?_ fun _ _ _ _ _ _ h hsome => ?_
                    · intro hf
                      simp only [Action.reading, Action.storing, onStore, hrun] at hf
                      cases r with
                      | none =>
                          have hsleep := @not_failed_block env { s with world := w' } db id hreg op keys d
                          exact absurd hf hsleep
                      | some p => cases hf
                    · cases hkeys.symm.trans h
                      rw [hp] at hsome
                      cases hsome
                | some passed =>
                    rw [hp] at hwalk
                    obtain ⟨e, w', hrun, hcalls, hent⟩ := hwalk
                    refine Iff.trans ?_ ((kept_of_walk_iff (ω := env.ω) hcalls hent).trans ?_)
                    · simp only [FailsClean, Action.reading, Action.storing, onStore, hrun, Failed, true_imp_iff]
                    · constructor
                      · intro h t' keys' passed' _ _ _ hkeys' hp'
                        cases hkeys.symm.trans hkeys'
                        cases hp.symm.trans hp'
                        exact h
                      · intro h
                        exact h t keys passed hlen ht (by rw [hd]; rfl) hkeys hp
  · refine hrefused (f := .err ("ERR wrong number of arguments for '" ++ cmd ++ "' command")) ?_
      fun _ _ _ h => absurd h hlen
    unfold blockingPop arity
    rw [if_neg (by simpa using hlen)]
    rfl

/-- LPUSH and RPUSH: the handler fails as it does without the wake-up. -/
theorem failsClean_pushAndNotify {handler : Nat → Parts → StoreProg RespFrame}
    (h : CleanAt env.ω (handler db parts) s.world) :
    FailsClean env s (pushAndNotify env handler db parts s) := by
  unfold CleanAt at h
  unfold FailsClean pushAndNotify Action.storing onStore
  rcases hrun : (handler db parts).run (World.step env.ω) s.world with ⟨f | e | _, w'⟩
  all_goals rw [hrun] at h
  · dsimp only
    split
    · exact nofun
    · exact h
  · exact h
  · exact h

end Actions

/-! ## The dispatch table -/

section Dispatch

variable {env : Env} {s : Server} {db : Nat} {parts : Parts} {id : ConnId} {c : Command}

/-- The commands that can write before they fail, and the scripts. -/
def halfway : List Command := [.mset, .zadd, .xgroup, .xreadgroup, .blpop, .brpop, .eval, .evalsha]

/-- The other handlers on the store fail without a trace. -/
theorem clean_storeHandler {proc : Process} {p : StoreProg RespFrame} (hc : c ∉ halfway)
    (h : c.storeHandler env proc db parts = some p) : Clean env.ω db p := by
  cases c with
  | set => exact Option.some.inj h ▸ Clean.handleSet parts
  | incr => exact Option.some.inj h ▸ Clean.stepBy _ _ _ parts
  | decr => exact Option.some.inj h ▸ Clean.stepBy _ _ _ parts
  | incrby => exact Option.some.inj h ▸ Clean.handleIncrby parts
  | decrby => exact Option.some.inj h ▸ Clean.handleDecrby _ parts
  | del => exact Option.some.inj h ▸ Clean.handleDel parts
  | expire => exact Option.some.inj h ▸ Clean.handleExpire parts
  | flushdb => exact Option.some.inj h ▸ Clean.handleFlushdb parts
  | flushall => exact Option.some.inj h ▸ Clean.handleFlushall parts
  | setnx => exact Option.some.inj h ▸ Clean.handleSetnx parts
  | setex => exact Option.some.inj h ▸ Clean.setWithExpiry _ _ parts
  | psetex => exact Option.some.inj h ▸ Clean.setWithExpiry _ _ parts
  | getset => exact Option.some.inj h ▸ Clean.handleGetset parts
  | append => exact Option.some.inj h ▸ Clean.handleAppend parts
  | setrange => exact Option.some.inj h ▸ Clean.handleSetrange parts
  | rename => exact Option.some.inj h ▸ Clean.handleRename parts
  | renamenx => exact Option.some.inj h ▸ Clean.handleRenamenx parts
  | pexpire => exact Option.some.inj h ▸ Clean.handlePexpire parts
  | persist => exact Option.some.inj h ▸ Clean.keyed (fun _ => rfl) parts
  | lpop => exact Option.some.inj h ▸ Clean.keyed isError_optBytes parts
  | rpop => exact Option.some.inj h ▸ Clean.keyed isError_optBytes parts
  | lset => exact Option.some.inj h ▸ Clean.handleLset parts
  | ltrim => exact Option.some.inj h ▸ Clean.handleLtrim parts
  | lrem => exact Option.some.inj h ▸ Clean.handleLrem parts
  | sadd => exact Option.some.inj h ▸ Clean.handleSadd parts
  | srem => exact Option.some.inj h ▸ Clean.handleSrem parts
  | spop => exact Option.some.inj h ▸ Clean.handleSpop parts
  | hset => exact Option.some.inj h ▸ Clean.settingFields _ (fun _ => rfl) parts
  | hmset => exact Option.some.inj h ▸ Clean.settingFields _ (fun _ => rfl) parts
  | hdel => exact Option.some.inj h ▸ Clean.handleHdel parts
  | hincrby => exact Option.some.inj h ▸ Clean.handleHincrby parts
  | zrem => exact Option.some.inj h ▸ Clean.handleZrem parts
  | zincrby => exact Option.some.inj h ▸ Clean.handleZincrby parts
  | zpopmin => exact Option.some.inj h ▸ Clean.popping _ _ parts
  | zpopmax => exact Option.some.inj h ▸ Clean.popping _ _ parts
  | xadd => exact Option.some.inj h ▸ Clean.handleXadd parts
  | xtrim => exact Option.some.inj h ▸ Clean.handleXtrim parts
  | xdel => exact Option.some.inj h ▸ Clean.handleXdel parts
  | xack => exact Option.some.inj h ▸ Clean.handleXack parts
  | xclaim => exact Option.some.inj h ▸ Clean.handleXclaim parts
  | mset => exact absurd (by decide) hc
  | zadd => exact absurd (by decide) hc
  | xgroup => exact absurd (by decide) hc
  | xreadgroup => exact absurd (by decide) hc
  | eval => exact absurd (by decide) hc
  | blpop => cases h
  | brpop => cases h
  | lpush => cases h
  | rpush => cases h
  | evalsha => cases h
  -- the others only read
  | _ => exact fun w _ _ => (readOnly_storeHandler rfl (by decide) h).kept env.ω w

/-- So do the other handlers of the server. -/
theorem failsClean_serverHandler {a : Action} (hw : s.world.Ready db) (hc : c ∉ halfway)
    (h : serverHandler env db id parts c = some a) : FailsClean env s (a s) := by
  cases c with
  | lpush =>
      obtain rfl := Option.some.inj h
      exact failsClean_pushAndNotify (Clean.pushing _ _ parts _ hw)
  | rpush =>
      obtain rfl := Option.some.inj h
      exact failsClean_pushAndNotify (Clean.pushing _ _ parts _ hw)
  | blpop => exact absurd (by decide) hc
  | brpop => exact absurd (by decide) hc
  | evalsha => exact absurd (by decide) hc
  | _ => first | (cases h; done) | exact Quiet.failsClean (quiet_serverHandler rfl (by decide) h)

/-- What a command carried out before it failed shows nothing: of MSET and ZADD the
pairs in front of the refused one say what is there already; XREADGROUP handed out
nothing; XGROUP CREATE made no stream; a blocking pop took no list away. -/
def restates (ω : Nat → Ctx) (w : World) (db : Nat) (parts : Parts) : Option Command → Prop
  | some .mset => msetRestates w db parts
  | some .zadd => zaddRestates w db parts
  | some .xgroup => groupRestates ω w db parts
  | some .xreadgroup => readGroupRestates ω w db parts
  | some .blpop => popRestates ω w db parts
  | some .brpop => popRestates ω w db parts
  | _ => True

theorem restates_of_not_halfway {ω : Nat → Ctx} {w : World} (hc : c ∉ halfway) :
    restates ω w db parts (some c) := by
  cases c with
  | mset => exact absurd (by decide) hc
  | zadd => exact absurd (by decide) hc
  | xgroup => exact absurd (by decide) hc
  | xreadgroup => exact absurd (by decide) hc
  | blpop => exact absurd (by decide) hc
  | brpop => exact absurd (by decide) hc
  | _ => trivial

theorem failsClean_dispatch_iff (hw : s.world.Ready db) (hreg : db < s.blocking.registries.length)
    (hbuilt : s.world.engine.ZsetsBuilt) {name : String} (hscript : Command.parse name ≠ some .eval)
    (hcached : Command.parse name ≠ some .evalsha) :
    FailsClean env s (dispatch env db id parts name s) ↔
      restates env.ω s.world db parts (Command.parse name) := by
  unfold dispatch
  cases hc : Command.parse name with
  | none => exact iff_of_true (failsClean_reply _) trivial
  | some c =>
      rw [hc] at hscript hcached
      by_cases hhalf : c ∈ halfway
      · simp only [halfway, List.mem_cons, List.not_mem_nil, or_false] at hhalf
        rcases hhalf with rfl | rfl | rfl | rfl | rfl | rfl | rfl | rfl
        · exact (failsClean_onStore_iff _).trans (handleMset_cleanAt_iff hw parts)
        · exact (failsClean_onStore_iff _).trans (handleZadd_cleanAt_iff hw hbuilt parts)
        · exact (failsClean_onStore_iff _).trans (handleXgroup_cleanAt_iff hw parts)
        · exact (failsClean_onStore_iff _).trans (handleXreadgroup_cleanAt_iff hw parts)
        · exact failsClean_blockingPop_iff hw hreg "blpop" .blpop
        · exact failsClean_blockingPop_iff hw hreg "brpop" .brpop
        · exact absurd rfl hscript
        · exact absurd rfl hcached
      · refine iff_of_true ?_ (restates_of_not_halfway hhalf)
        dsimp only
        cases hp : c.storeHandler env (s.proc env) db parts with
        | some p => exact clean_storeHandler hhalf hp s.world hw
        | none =>
            cases ha : serverHandler env db id parts c with
            | some a => exact failsClean_serverHandler hw hhalf ha
            | none => exact failsClean_reply _

/-- A command other than a script that fails has kept the store, exactly if what it
carried out before shows nothing. -/
theorem failed_commands_keep_iff (env : Env) {s : Server} {db : Nat} (hw : s.world.Ready db)
    (hreg : db < s.blocking.registries.length) (hbuilt : s.world.engine.ZsetsBuilt) (id : ConnId)
    {parts : Parts} (hscript : rawCommand parts ≠ some .eval) (hcached : rawCommand parts ≠ some .evalsha) :
    FailsClean env s (processNormalCommand env parts db id s) ↔
      restates env.ω s.world db parts (rawCommand parts) := by
  unfold processNormalCommand
  cases hhead : (parts.head?).bind RespFrame.bulk? with
  | none =>
      have hraw : rawCommand parts = none := by
        unfold rawCommand
        rw [hhead]
        rfl
      rw [hraw]
      exact iff_of_true (failsClean_reply _) trivial
  | some bytes =>
      have hraw : rawCommand parts = Command.parse (Command.rawName bytes) := by
        unfold rawCommand
        rw [hhead]
        rfl
      rw [hraw] at hscript hcached ⊢
      have hlog (write : Bool) : ∃ aof, logCommand env write parts s = { s with aof := aof } := by
        unfold logCommand
        split
        · exact ⟨_, rfl⟩
        · exact ⟨s.aof, rfl⟩
      obtain ⟨aof, haof⟩ := hlog (((Command.parse (Command.rawName bytes)).map Command.isWrite).getD false)
      have hdispatch := @failsClean_dispatch_iff env { s with aof := aof } db parts id hw hreg hbuilt _ hscript hcached
      dsimp only
      rw [haof]
      refine Iff.trans ?_ hdispatch
      unfold FailsClean
      rw [propagate_world]

/-- A ZADD that is refused a pair behind two that repeat stored scores has changed nothing. -/
theorem zadd_refused_keeps :
    FailsClean (.quiet none) (initial scoredStore "0" 16)
      (processNormalCommand (.quiet none) (words ["ZADD", "z", "0", "b", "0", "a", "one", "c"]) 0 1
        (initial scoredStore "0" 16)) := by
  have hready : World.Ready 0 (initial scoredStore "0" 16).world := ⟨by decide, rfl⟩
  refine (failed_commands_keep_iff (.quiet none) hready (by decide) scoredStore_built 1 (by decide) (by decide)).mpr ?_
  have hraw : rawCommand (words ["ZADD", "z", "0", "b", "0", "a", "one", "c"]) = some .zadd := rfl
  rw [hraw]
  intro key hkey _
  obtain rfl : "z".toBytes = key := Except.ok.inj hkey
  have hpairs : (leading zaddMember ((words ["ZADD", "z", "0", "b", "0", "a", "one", "c"]).drop 2)).1 =
      [("b".toBytes, ⟨0⟩), ("a".toBytes, ⟨0⟩)] := rfl
  have hentry : (initial scoredStore "0" 16).world.engine.entryAt 0 "z".toBytes =
      some ⟨.sortedSet scoredSet, none⟩ := scoredStore_entry
  rw [hentry]
  dsimp only
  rw [hpairs]
  refine ⟨by decide, fun m s hs => ?_⟩
  rw [SkipList.lastFor_cons, SkipList.lastFor_cons] at hs
  by_cases ha : m = "a".toBytes
  · subst ha
    exact hs
  · rw [if_neg ha] at hs
    by_cases hb : m = "b".toBytes
    · subst hb
      exact hs
    · rw [if_neg hb] at hs
      cases hs

/-- One that is refused a later pair keeps the pairs before. -/
theorem zadd_refused_later :
    ¬ FailsClean (.quiet none) (initial Engine.new "0" 16)
      (processNormalCommand (.quiet none) (words ["ZADD", "z", "1", "a", "two", "b"]) 0 1
        (initial Engine.new "0" 16)) := by
  have hfailed : ((processNormalCommand (.quiet none) (words ["ZADD", "z", "1", "a", "two", "b"]) 0 1
      (initial Engine.new "0" 16)).1.value?.any RespFrame.isError) = true := by
    rfl
  have hchanged : visiblyChanged ((initial Engine.new "0" 16).world.engine.entryAt 0 "z".toBytes)
      ((processNormalCommand (.quiet none) (words ["ZADD", "z", "1", "a", "two", "b"]) 0 1
        (initial Engine.new "0" 16)).2.world.engine.entryAt 0 "z".toBytes) = true := by
    rfl
  intro h
  obtain ⟨f, hf, herror⟩ := (Option.any_eq_true _ _).mp hfailed
  have hkept := h (by
    rw [Outcome.value?_eq_some.mp hf]
    exact herror)
  rw [hkept.not_visiblyChanged 0 "z".toBytes] at hchanged
  cases hchanged

end Dispatch

end Server

end Ferrous
