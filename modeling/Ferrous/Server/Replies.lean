/-
# `Server.Replies` — what the server says

Every frame the server writes is made of the same pieces as the replies of the
store handlers.  Under a wording of lines and frames, a command of which the
lines it repeats (`echoed`) are lines of the wording answers with a frame of
it, and so does whatever else puts frames into write buffers; the marker is
left to the commands that mean it.
-/
import Ferrous.Commands.GroupReplies
import Ferrous.Server.Asleep
import Ferrous.Server.Teardown

namespace Ferrous

open Lib Args

/-! ## Lines that repeat what a client sent -/

/-- The texts of a command that come back in a line of its reply. -/
def Command.echoed (c : Command) (parts : Parts) : List String :=
  let word := (((parts[1]?).bind word?).toList)
  let text (i : Nat) := (((parts[i]?).bind RespFrame.bulk?).map fromUtf8Lossy).toList
  match c with
  | .memory => word.filter (· ∉ ["USAGE", "STATS", "DOCTOR", "HELP"])
  | .xinfo =>
      word.filter (· ∉ ["STREAM", "GROUPS", "CONSUMERS", "HELP"]) ++
        if word = ["CONSUMERS"] then text 3 else []
  | .xgroup =>
      word.filter (· ∉ ["CREATE", "DESTROY", "CREATECONSUMER", "DELCONSUMER", "SETID", "HELP"]) ++
        if word = ["CREATECONSUMER"] ∨ word = ["SETID"] then text 3 else []
  | .xreadgroup => text 2
  | .xclaim => text 2
  | .client =>
      word.filter (· ∉ ["LIST", "KILL", "SETNAME", "GETNAME", "ID", "PAUSE", "UNPAUSE"])
  | .script =>
      ((((parts[1]?).bind RespFrame.bulk?).bind fromUtf8).map toLowercase).toList.filter
        (· ∉ ["load", "exists", "flush", "kill"])
  | .command =>
      (((parts[1]?).bind RespFrame.bulk?).bind fromUtf8).toList.filter fun sub =>
        toLowercase sub ∉ ["count", "info"]
  | _ => []

/-- The texts of a request that come back: a name that is in no table is one. -/
def echoed (parts : Parts) : List String :=
  match (parts.head?).bind RespFrame.bulk? with
  | none => []
  | some bytes =>
      match Command.parse (Command.rawName bytes) with
      | none => [Command.rawName bytes]
      | some c => c.echoed parts

section Wordings

variable {L : String → Prop} {Q : RespFrame → Prop}
  {A : ∀ β : Type, Op β → Except FerrousError β → Prop}

/-! ## The dumps -/

section Dumps

variable (H : Answers L A)

theorem discreet_orPanic {α : Type} (o : Option α) : Discreet L A (Rdb.orPanic o) := by
  cases o <;> trivial

include H

theorem discreet_writeKeyValue (overflowChecks : Bool) (key : Key) (value : Value) (ttl : Option Duration) :
    Discreet L A (Rdb.writeKeyValue overflowChecks key value ttl) := by
  cases ttl with
  | none => exact discreet_orPanic _
  | some ttl =>
      exact .bind (.need H _) fun _ => .bind (discreet_orPanic _) fun _ => .bind (discreet_orPanic _) fun _ => .ret _

theorem discreet_writeKeys (overflowChecks : Bool) (db : Nat) (keys : List Key) :
    Discreet L A (Rdb.writeKeys overflowChecks db keys) := by
  induction keys with
  | nil => exact .ret _
  | cons key keys ih =>
      have hrest (here : Bytes) : Discreet L A (do
          let rest ← Rdb.writeKeys overflowChecks db keys
          pure (here ++ rest)) := .bind ih fun _ => .ret _
      refine .bind (.need H _) fun found => ?_
      cases found with
      | found value => exact .bind (.need H _) fun ttl => .bind (discreet_writeKeyValue H _ _ _ _) hrest
      | _ => exact hrest _

theorem discreet_writeDatabases (overflowChecks : Bool) (db n : Nat) :
    Discreet L A (Rdb.writeDatabases overflowChecks db n) := by
  induction n generalizing db with
  | zero => exact .ret _
  | succ n ih =>
      refine .bind (.bind (.need H _) fun keys => ?_) fun _ => .bind (ih _) fun _ => .ret _
      split
      · exact .ret _
      · exact .bind (discreet_writeKeys H _ _ _) fun _ => .ret _

theorem discreet_writeSnapshot (overflowChecks : Bool) (n : Nat) :
    Discreet L A (Rdb.writeSnapshot overflowChecks n) :=
  .bind (.need H _) fun _ => .bind (discreet_writeDatabases H _ _ _) fun _ => .ret _

theorem discreet_generateKey (overflowChecks : Bool) (db : Nat) (key : Key) :
    Discreet L A (Rdb.generateKey overflowChecks db key) := by
  refine .bind (.need H _) fun found => ?_
  cases found with
  | found value =>
      have hbody (deadline : Bytes) : Discreet L A (do
          let body ← Rdb.orPanic (Rdb.generateValue overflowChecks value)
          pure (deadline ++ Rdb.typeCode value :: (Rdb.writeString key ++ body))) :=
        .bind (discreet_orPanic _) fun _ => .ret _
      refine .bind (.need H _) fun ttl => ?_
      cases ttl with
      | none => exact hbody _
      | some ttl => exact .bind (.need H _) fun _ => .bind (discreet_orPanic _) fun _ => hbody _
  | _ => exact .ret _

theorem discreet_generateKeys (overflowChecks : Bool) (db : Nat) (keys : List Key) :
    Discreet L A (Rdb.generateKeys overflowChecks db keys) := by
  induction keys with
  | nil => exact .ret _
  | cons key keys ih => exact .bind (discreet_generateKey H _ _ _) fun _ => .bind ih fun _ => .ret _

theorem discreet_generateDatabases (overflowChecks : Bool) (db n : Nat) :
    Discreet L A (Rdb.generateDatabases overflowChecks db n) := by
  induction n generalizing db with
  | zero => exact .ret _
  | succ n ih =>
      have hrest (here : Bytes) : Discreet L A (do
          let rest ← Rdb.generateDatabases overflowChecks (db + 1) n
          pure (here ++ rest)) := .bind (ih _) fun _ => .ret _
      refine .bind (.need H _) fun keys => ?_
      dsimp only
      split
      · exact hrest _
      · exact .bind (discreet_generateKeys H _ _ _) fun _ => hrest _

theorem discreet_generateRdbBytes (overflowChecks : Bool) : Discreet L A (Rdb.generateRdbBytes overflowChecks) :=
  .bind (.need H _) fun _ => .bind (.need H _) fun _ => .bind (.need H _) fun _ =>
    .bind (discreet_generateDatabases H _ _ _) fun _ => .ret _

end Dumps

/-! ## The commands of the store -/

/-- What the wording asks of the surroundings: the operations, the scripts, the
process. -/
structure Env.Speaks (L : String → Prop) (Q : RespFrame → Prop)
    (A : ∀ β : Type, Op β → Except FerrousError β → Prop) (env : Env) : Prop where
  answers : ∀ (β : Type) (o : Op β) (w : World),
    Prog.Afterwards (World.step env.ω β o w) fun r _ => A β o r
  lua : ∀ script keys args db, Worded L Q A (env.lua.eval script keys args db)
  scriptLoad : ∀ script e, env.lua.scriptLoad script = .error e → L e.display
  slowlog : ∀ n, ∀ f ∈ (env.process n).slowlog, f.Everywhere Q
  saveError : ∀ n e, (env.process n).saveError = some e → L e.display
  bgsaveError : ∀ n e, (env.process n).bgsaveError = some e → L e.display
  bgrewriteError : ∀ n e, (env.process n).bgrewriteError = some e → L e.display
  replId : ∀ n, L (env.process n).replId

variable (W : Wording L Q) (H : Answers L A) (G : GroupAnswers L A) {env : Env}
  (E : env.Speaks L Q A) {parts : Parts}

include W

omit W in
theorem word?_eq_some {p : Option RespFrame} {bytes : Bytes} (h : p.bind RespFrame.bulk? = some bytes) :
    p.bind word? = some (toUppercase (fromUtf8Lossy bytes)) := by
  obtain ⟨q, rfl, hq⟩ := Option.bind_eq_some_iff.mp h
  simp [word?, hq]

/-- The name of a group is part of a line where it comes back. -/
theorem names_of_line {group : String} (h : L group) : Names L group :=
  W.wrap (plainText_of_chars rfl) (plainText_of_chars rfl) h

include H G E

/-- A command of the store answers with frames of the wording, where the parts
and the texts it repeats have it. -/
theorem worded_storeHandler {c : Command} {p : StoreProg RespFrame} {n db : Nat}
    (h : c.storeHandler env (env.process n) db parts = some p) (hparts : ∀ q ∈ parts, q.Everywhere Q)
    (hecho : ∀ t ∈ c.echoed parts, L t) : Worded L Q A p := by
  cases c with
  | ping => exact Option.some.inj h ▸ .ret (everywhere_handlePing W parts hparts)
  | echo => exact Option.some.inj h ▸ .ret (everywhere_handleEcho W parts hparts)
  | set => exact Option.some.inj h ▸ worded_handleSet W H parts
  | get => exact Option.some.inj h ▸ worded_handleGet W H parts
  | incr => exact Option.some.inj h ▸ worded_stepBy W H parts rfl (fun _ => W.nonEmptyKey) _
  | decr => exact Option.some.inj h ▸ worded_stepBy W H parts rfl (fun _ => W.bulkArg rfl) _
  | incrby => exact Option.some.inj h ▸ worded_handleIncrby W H parts
  | decrby => exact Option.some.inj h ▸ worded_handleDecrby W H parts _
  | del => exact Option.some.inj h ▸ .reading (W.arity rfl) fun _ => worded_countKeys W H _ _ _
  | exists? => exact Option.some.inj h ▸ .reading (W.arity rfl) fun _ => worded_countKeys W H _ _ _
  | expire => exact Option.some.inj h ▸ worded_handleExpire W H parts
  | ttl => exact Option.some.inj h ▸ worded_handleTtl W H parts
  | flushdb => exact Option.some.inj h ▸ worded_handleFlushdb W H parts
  | flushall => exact Option.some.inj h ▸ worded_handleFlushall W H parts
  | dbsize => exact Option.some.inj h ▸ worded_handleDbsize W H parts
  | setnx => exact Option.some.inj h ▸ worded_handleSetnx W H parts
  | setex => exact Option.some.inj h ▸ worded_setWithExpiry W H parts rfl _
  | psetex => exact Option.some.inj h ▸ worded_setWithExpiry W H parts rfl _
  | sleep => exact Option.some.inj h ▸ worded_handleSleep W parts
  | config => exact Option.some.inj h ▸ worded_handleConfig W parts
  | mget => exact Option.some.inj h ▸ worded_handleMget W H parts
  | mset => exact Option.some.inj h ▸ worded_handleMset W H parts
  | getset => exact Option.some.inj h ▸ worded_handleGetset W H parts
  | append => exact Option.some.inj h ▸ worded_handleAppend W H parts
  | strlen => exact Option.some.inj h ▸ .keyed W H rfl W.count
  | getrange => exact Option.some.inj h ▸ worded_handleGetrange W H parts
  | setrange => exact Option.some.inj h ▸ worded_handleSetrange W H parts
  | type => exact Option.some.inj h ▸ worded_handleType W H parts
  | rename => exact Option.some.inj h ▸ worded_handleRename W H parts
  | renamenx => exact Option.some.inj h ▸ worded_handleRenamenx W H parts
  | randomkey => exact Option.some.inj h ▸ worded_handleRandomkey W H parts
  | keys => exact Option.some.inj h ▸ worded_handleKeys W H parts
  | pexpire => exact Option.some.inj h ▸ worded_handlePexpire W H parts
  | pttl => exact Option.some.inj h ▸ .keyed W H rfl W.int
  | persist => exact Option.some.inj h ▸ .keyed W H rfl W.flag
  | lpop => exact Option.some.inj h ▸ .keyed W H rfl W.optBytes
  | rpop => exact Option.some.inj h ▸ .keyed W H rfl W.optBytes
  | llen => exact Option.some.inj h ▸ .keyed W H rfl W.count
  | lrange => exact Option.some.inj h ▸ worded_handleLrange W H parts
  | lindex => exact Option.some.inj h ▸ worded_handleLindex W H parts
  | lset => exact Option.some.inj h ▸ worded_handleLset W H parts
  | ltrim => exact Option.some.inj h ▸ worded_handleLtrim W H parts
  | lrem => exact Option.some.inj h ▸ worded_handleLrem W H parts
  | sadd => exact Option.some.inj h ▸ worded_handleSadd W H parts
  | srem => exact Option.some.inj h ▸ worded_handleSrem W H parts
  | smembers => exact Option.some.inj h ▸ .keyed W H rfl W.items
  | sismember => exact Option.some.inj h ▸ worded_handleSismember W H parts
  | scard => exact Option.some.inj h ▸ .keyed W H rfl W.count
  | sunion => exact Option.some.inj h ▸ worded_combining W H parts rfl _
  | sinter => exact Option.some.inj h ▸ worded_combining W H parts rfl _
  | sdiff => exact Option.some.inj h ▸ worded_combining W H parts rfl _
  | srandmember => exact Option.some.inj h ▸ worded_handleSrandmember W H parts
  | spop => exact Option.some.inj h ▸ worded_handleSpop W H parts
  | hset => exact Option.some.inj h ▸ worded_settingFields W H parts rfl W.count
  | hget => exact Option.some.inj h ▸ worded_handleHget W H parts
  | hmset => exact Option.some.inj h ▸ worded_settingFields W H parts rfl fun _ => W.ok
  | hmget => exact Option.some.inj h ▸ worded_handleHmget W H parts
  | hgetall => exact Option.some.inj h ▸ .keyed W H rfl fun _ => W.items _
  | hdel => exact Option.some.inj h ▸ worded_handleHdel W H parts
  | hlen => exact Option.some.inj h ▸ .keyed W H rfl W.count
  | hexists => exact Option.some.inj h ▸ worded_handleHexists W H parts
  | hkeys => exact Option.some.inj h ▸ .keyed W H rfl W.items
  | hvals => exact Option.some.inj h ▸ .keyed W H rfl W.items
  | hincrby => exact Option.some.inj h ▸ worded_handleHincrby W H parts
  | zadd => exact Option.some.inj h ▸ worded_handleZadd W H parts
  | zrem => exact Option.some.inj h ▸ worded_handleZrem W H parts
  | zscore => exact Option.some.inj h ▸ worded_handleZscore W H parts
  | zcard => exact Option.some.inj h ▸ .keyed W H rfl W.count
  | zrank => exact Option.some.inj h ▸ worded_ranking W H parts rfl _
  | zrevrank => exact Option.some.inj h ▸ worded_ranking W H parts rfl _
  | zrange => exact Option.some.inj h ▸ worded_rangeByIndex W H parts rfl _
  | zrevrange => exact Option.some.inj h ▸ worded_rangeByIndex W H parts rfl _
  | zrangebyscore => exact Option.some.inj h ▸ worded_handleZrangebyscore W H parts
  | zrevrangebyscore => exact Option.some.inj h ▸ worded_handleZrevrangebyscore W H parts
  | zcount => exact Option.some.inj h ▸ worded_handleZcount W H parts
  | zincrby => exact Option.some.inj h ▸ worded_handleZincrby W H parts
  | zpopmin => exact Option.some.inj h ▸ worded_popping W H parts rfl _
  | zpopmax => exact Option.some.inj h ▸ worded_popping W H parts rfl _
  | xadd => exact Option.some.inj h ▸ worded_handleXadd W H parts
  | xrange => exact Option.some.inj h ▸ worded_handleXrange W H parts
  | xrevrange => exact Option.some.inj h ▸ worded_handleXrevrange W H parts
  | xlen => exact Option.some.inj h ▸ .keyed W H rfl W.count
  | xread => exact Option.some.inj h ▸ worded_handleXread W H parts
  | xtrim => exact Option.some.inj h ▸ worded_handleXtrim W H parts
  | xdel => exact Option.some.inj h ▸ worded_handleXdel W H parts
  | xgroup =>
      refine Option.some.inj h ▸ worded_handleXgroup W H G parts (fun bytes hb hne => ?_)
        fun bytes sub hsub hw hb => names_of_line W ?_
      · exact hecho _ (List.mem_append_left _ (by simpa [word?_eq_some hb] using hne))
      · refine hecho _ (List.mem_append_right _ ?_)
        have hword : ((parts[1]?).bind word?).toList = [toUppercase (fromUtf8Lossy sub)] := by
          rw [word?_eq_some hsub]
          rfl
        have hsome : ((parts[1]?).bind word?).toList = ["CREATECONSUMER"] ∨
            ((parts[1]?).bind word?).toList = ["SETID"] := by simpa [hword] using hw
        rw [if_pos hsome]
        simp [hb]
  | xreadgroup =>
      refine Option.some.inj h ▸ worded_handleXreadgroup W H G parts fun bytes hb => names_of_line W ?_
      exact hecho _ (by simp [Command.echoed, hb])
  | xack => exact Option.some.inj h ▸ worded_handleXack W H G parts
  | xclaim =>
      refine Option.some.inj h ▸ worded_handleXclaim W H G parts fun bytes hb => names_of_line W ?_
      exact hecho _ (by simp [Command.echoed, hb])
  | xpending => exact Option.some.inj h ▸ worded_handleXpending W H parts
  | xinfo =>
      refine Option.some.inj h ▸ worded_handleXinfo W H parts (fun bytes hb hne => ?_)
        fun bytes sub hsub hw hb => names_of_line W ?_
      · exact hecho _ (List.mem_append_left _ (by simpa [word?_eq_some hb] using hne))
      · refine hecho _ (List.mem_append_right _ ?_)
        have hword : ((parts[1]?).bind word?).toList = ["CONSUMERS"] := by
          rw [word?_eq_some hsub, hw]
          rfl
        rw [if_pos hword]
        simp [hb]
  | scan => exact Option.some.inj h ▸ worded_handleScan W H parts
  | hscan => exact Option.some.inj h ▸ worded_scanningKey W H parts rfl _ _ W.items
  | sscan => exact Option.some.inj h ▸ worded_scanningKey W H parts rfl _ _ W.items
  | zscan => exact Option.some.inj h ▸ worded_scanningKey W H parts rfl _ _ (everywhere_memberFrames W true)
  | info => exact Option.some.inj h ▸ worded_handleInfo W H parts _
  | slowlog => exact Option.some.inj h ▸ worded_handleSlowlog W parts _ (E.slowlog n)
  | memory =>
      refine Option.some.inj h ▸ worded_handleMemory W H parts _ fun bytes hb hne => hecho _ ?_
      simpa [Command.echoed, word?_eq_some hb] using hne
  | eval => exact Option.some.inj h ▸ worded_handleEval W parts fun _ _ _ => E.lua _ _ _ _
  | command =>
      refine Option.some.inj h ▸ worded_handleCommand W parts fun bytes sub hb htext h₁ h₂ => hecho _ ?_
      simp [Command.echoed, hb, htext, h₁, h₂]
  | _ => cases h

end Wordings

/-! ## What an action says and leaves behind -/

/-- The frame or the text of the error an action ends with. -/
def Says (L : String → Prop) (Q : RespFrame → Prop) : Outcome RespFrame → Prop
  | .ok f => f.Everywhere Q
  | .err e => L e.display
  | .panic => True

namespace Server

/-- Queued parts have the property of frames, and the ID of a master's history
is a line. -/
structure Fluent (L : String → Prop) (Q : RespFrame → Prop) (s : Server) : Prop where
  queued : ∀ id c, s.connections.get? id = some c → ∀ parts ∈ c.transactionState.queuedCommands,
    ∀ p ∈ parts, p.Everywhere Q
  role : ∀ replId offset, s.replication.role = .master replId offset → L replId

/-- The frames written on the way have the property, and what is queued keeps it. -/
structure Keeps (L : String → Prop) (Q : RespFrame → Prop) (s s' : Server) : Prop where
  fluent : s'.Fluent L Q
  adds : ∃ items, s'.sent = s.sent ++ items ∧ ∀ p ∈ items, ∀ f, p.2 = .frame f → f.Everywhere Q

namespace Keeps

variable {L : String → Prop} {Q : RespFrame → Prop} {s s' s'' : Server} {id : ConnId}

theorem trans (h : s.Keeps L Q s') (h' : s'.Keeps L Q s'') : s.Keeps L Q s'' := by
  obtain ⟨items, hs, hitems⟩ := h.adds
  obtain ⟨items', hs', hitems'⟩ := h'.adds
  refine ⟨h'.fluent, items ++ items', by rw [hs', hs, List.append_assoc], fun p hp => ?_⟩
  rcases List.mem_append.mp hp with hp | hp
  · exact hitems p hp
  · exact hitems' p hp

/-- Connections, role and buffers stay as they are. -/
theorem same (h : s.Fluent L Q) (hc : s'.connections = s.connections)
    (hr : s'.replication.role = s.replication.role) (hs : s'.sent = s.sent) : s.Keeps L Q s' where
  fluent := ⟨fun id c hget => h.queued id c (hc ▸ hget), fun i o hrole => h.role i o (hr ▸ hrole)⟩
  adds := ⟨[], by rw [hs, List.append_nil], nofun⟩

theorem refl (h : s.Fluent L Q) : s.Keeps L Q s := same h rfl rfl rfl

/-- A change of one connection that queues only parts of the property. -/
theorem onConnection (h : s.Fluent L Q) (g : Connection → Connection)
    (hg : ∀ c, s.connections.get? id = some c → ∀ parts ∈ (g c).transactionState.queuedCommands,
      ∀ p ∈ parts, p.Everywhere Q) : s.Keeps L Q (s.onConnection id g) where
  fluent := by
    refine ⟨fun j c hget => ?_, fun i o hrole => h.role i o (onConnection_replication s id g ▸ hrole)⟩
    rw [onConnection_get?] at hget
    split at hget
    · obtain ⟨c₀, hc₀, rfl⟩ := Option.map_eq_some_iff.mp hget
      exact hg c₀ hc₀
    · exact h.queued j c hget
  adds := ⟨[], by rw [onConnection_sent, List.append_nil], nofun⟩

/-- A change of one connection that leaves its queue alone. -/
theorem onQueue (h : s.Fluent L Q) (g : Connection → Connection)
    (hg : ∀ c, (g c).transactionState.queuedCommands = c.transactionState.queuedCommands) :
    s.Keeps L Q (s.onConnection id g) :=
  onConnection h g fun c hc => hg c ▸ h.queued id c hc

theorem sendAll (h : s.Fluent L Q) (items : List Sent)
    (hitems : ∀ item ∈ items, ∀ f, item = .frame f → f.Everywhere Q) :
    s.Keeps L Q (s.sendAll id items) := by
  rw [sendAll_eq]
  split
  · refine ⟨⟨h.queued, h.role⟩, items.map (id, ·), rfl, fun p hp f hf => ?_⟩
    obtain ⟨item, hitem, rfl⟩ := List.mem_map.mp hp
    exact hitems item hitem f hf
  · exact refl h

theorem send (h : s.Fluent L Q) {item : Sent} (hitem : ∀ f, item = .frame f → f.Everywhere Q) :
    s.Keeps L Q (s.send id item) :=
  sendAll h [item] fun _ hx => List.mem_singleton.mp hx ▸ hitem

/-- What each step of a loop keeps, the loop keeps. -/
theorem foldl {β : Type} (h : s.Fluent L Q) {step : Server → β → Server} (bs : List β)
    (hstep : ∀ s : Server, s.Fluent L Q → ∀ b ∈ bs, s.Keeps L Q (step s b)) :
    s.Keeps L Q (bs.foldl step s) := by
  induction bs generalizing s with
  | nil => exact refl h
  | cons b bs ih =>
      have hb := hstep s h b List.mem_cons_self
      exact hb.trans (ih hb.fluent fun s hs b hmem => hstep s hs b (List.mem_cons_of_mem _ hmem))

end Keeps

end Server

/-- Wherever the action runs, it says and leaves behind what the wording admits. -/
def Action.Speaks (L : String → Prop) (Q : RespFrame → Prop) (a : Action) : Prop :=
  ∀ s : Server, s.Fluent L Q → s.Keeps L Q (a s).2 ∧ Says L Q (a s).1

namespace Action.Speaks

variable {L : String → Prop} {Q : RespFrame → Prop}
  {A : ∀ β : Type, Op β → Except FerrousError β → Prop} (W : Wording L Q) {env : Env} {α : Type}

theorem reply {f : RespFrame} (h : f.Everywhere Q) : (Action.reply f).Speaks L Q :=
  fun _ hs => ⟨.refl hs, h⟩

theorem fail {e : FerrousError} (h : L e.display) : (Action.fail e).Speaks L Q :=
  fun _ hs => ⟨.refl hs, h⟩

include W in
theorem error {cs : List Char} (h : cs.all plainChar = true) :
    (Action.error (String.ofList cs)).Speaks L Q := reply (W.err h)

theorem panic : Action.Speaks L Q fun s => (.panic, s) := fun _ hs => ⟨.refl hs, trivial⟩

theorem reading {args : Args α} {body : α → Action} (h : Refuses Q args)
    (hbody : ∀ a, (body a).Speaks L Q) : (Action.reading args body).Speaks L Q := by
  cases args with
  | ok a => exact hbody a
  | error f => exact reply (h f rfl)

theorem readingWith {P : α → Prop} {args : Args α} {body : α → Action} (h : Fetches P Q args)
    (hbody : ∀ a, P a → (body a).Speaks L Q) : (Action.reading args body).Speaks L Q := by
  cases args with
  | ok a => exact hbody a h
  | error f => exact reply h

/-- A program, and then what is made of its value. -/
theorem storing (E : env.Speaks L Q A) {P : α → Prop} {p : StoreProg α} {body : α → Action}
    (hp : p.Returns A (fun e => L e.display) P) (hbody : ∀ a, P a → (body a).Speaks L Q) :
    (Action.storing env p body).Speaks L Q := by
  intro s hs
  have hrun := hp.run E.answers s.world
  have hworld (w : World) : s.Keeps L Q { s with world := w } := .same hs rfl rfl rfl
  unfold Action.storing Server.onStore
  rcases hr : p.run (World.step env.ω) s.world with ⟨a | e | _, w⟩
  all_goals rw [hr] at hrun
  · obtain ⟨hkeeps, hsaid⟩ := hbody a hrun _ (hworld w).fluent
    exact ⟨(hworld w).trans hkeeps, hsaid⟩
  · exact ⟨hworld w, hrun⟩
  · exact ⟨hworld w, trivial⟩

include W in
theorem withConnection {i : ConnId} {body : Connection → Action}
    (h : ∀ (s : Server) c, s.Fluent L Q → s.connections.get? i = some c →
      s.Keeps L Q (body c s).2 ∧ Says L Q (body c s).1) :
    (Server.withConnection i body).Speaks L Q := by
  intro s hs
  unfold Server.withConnection
  split
  · next c hc => exact h s c hs hc
  · exact ⟨.refl hs, W.err rfl⟩

end Action.Speaks

namespace Server

/-- The arguments of SHUTDOWN are accepted. -/
def shutsDown (parts : Parts) : Bool :=
  parts.length == 1 ||
    parts.length == 2 && (((parts[1]?).bind RespFrame.bulk?).map fun bytes =>
      decide (toUppercase ((fromUtf8 bytes).getD "") ∈ ["SAVE", "NOSAVE"])).getD false

section Handlers

variable {L : String → Prop} {Q : RespFrame → Prop}
  {A : ∀ β : Type, Op β → Except FerrousError β → Prop} (W : Wording L Q) (H : Answers L A)
  {env : Env} (E : env.Speaks L Q A) {id : ConnId} {db : Nat} {parts : Parts}

include W

/-! ## Lists that clients wait for -/

theorem everywhere_popFrame (key : Key) (value : Bytes) : (popFrame key value).Everywhere Q := by
  refine W.list fun f hf => ?_
  rcases List.mem_cons.mp hf with rfl | hf
  · exact W.bytes _
  · exact List.mem_singleton.mp hf ▸ W.bytes _

omit W in
include H in
theorem discreet_tryPops (op : BlockingOp) (keys : List Key) : Discreet L A (tryPops op db keys) := by
  induction keys with
  | nil => exact .ret _
  | cons key keys ih =>
      refine .bind (.need H _) fun value => ?_
      cases value with
      | some v => exact .ret _
      | none => exact ih

theorem refuses_timeoutArg : Refuses Q (timeoutArg parts) := by
  unfold timeoutArg
  dsimp only
  split
  · split
    · exact W.reject rfl
    · exact .ok _
  · exact W.reject rfl

include H E in
/-- A pop that finds an element, or is refused, speaks; one that puts to sleep
says the marker. -/
theorem speaks_popOrBlock (op : BlockingOp) (timeout : Option Duration) (s : Server)
    (hs : s.Fluent L Q) :
    s.Keeps L Q (popOrBlock env op db id parts timeout s).2 ∧
      ((popOrBlock env op db id parts timeout s).1 = .ok .noResponse ∨
        Says L Q (popOrBlock env op db id parts timeout s).1) := by
  have hworld (w : World) : s.Keeps L Q { s with world := w } := .same hs rfl rfl rfl
  have hrefuses : Refuses Q (bulks "key" (parts.drop 1).dropLast) := W.bulks rfl _
  unfold popOrBlock
  cases hkeys : bulks "key" (parts.drop 1).dropLast with
  | error f => exact ⟨.refl hs, .inr (hrefuses f hkeys)⟩
  | ok keys =>
      have hquiet : Discreet L A (tryPops op db keys) := discreet_tryPops H op keys
      have hrun := Prog.Returns.run E.answers hquiet s.world
      simp only [Action.reading, Action.storing, onStore]
      rcases hr : (tryPops op db keys).run (World.step env.ω) s.world with ⟨found | e | _, w⟩
      all_goals rw [hr] at hrun
      · cases found with
        | some p => exact ⟨hworld w, .inr (everywhere_popFrame W _ _)⟩
        | none =>
            have hblocking (m : BlockingManager) :
                s.Keeps L Q { s with world := w, blocking := m } := .same hs rfl rfl rfl
            dsimp only
            unfold block
            split
            · exact ⟨hworld w, .inr trivial⟩
            · split
              · exact ⟨hworld w, .inr (W.plain (plainText_of_chars rfl))⟩
              · exact ⟨(hblocking _).trans (.onQueue (hblocking _).fluent _ fun _ => rfl), .inl rfl⟩
      · exact ⟨hworld w, .inr hrun⟩
      · exact ⟨hworld w, .inr trivial⟩

include H E in
theorem speaks_blockingPop {cmd : List Char} (hcmd : cmd.all plainChar = true) (op : BlockingOp)
    (s : Server) (hs : s.Fluent L Q) :
    s.Keeps L Q (blockingPop env (String.ofList cmd) op db id parts s).2 ∧
      ((blockingPop env (String.ofList cmd) op db id parts s).1 = .ok .noResponse ∨
        Says L Q (blockingPop env (String.ofList cmd) op db id parts s).1) := by
  have hrefuses : Refuses Q (do
      arity (String.ofList cmd) (3 ≤ parts.length)
      timeoutArg parts) := (W.arity hcmd).bind fun _ => refuses_timeoutArg W
  unfold blockingPop
  cases hargs : (do
      arity (String.ofList cmd) (3 ≤ parts.length)
      timeoutArg parts : Args Float64) with
  | error f => exact ⟨.refl hs, .inr (hrefuses f hargs)⟩
  | ok t =>
      simp only [Action.reading]
      split
      · exact speaks_popOrBlock W H E op _ s hs
      · cases fromSecsF64 t with
        | none => exact ⟨.refl hs, .inr trivial⟩
        | some d => exact speaks_popOrBlock W H E op _ s hs

omit W in
include E in
theorem speaks_pushAndNotify {handler : Nat → Parts → StoreProg RespFrame}
    (h : Worded L Q A (handler db parts)) : (pushAndNotify env handler db parts).Speaks L Q := by
  refine .storing E h fun frame hframe s hs => ?_
  split
  · dsimp only
    refine ⟨?_, hframe⟩
    split
    · unfold notify
      split
      · exact .same hs rfl rfl rfl
      · exact .refl hs
    · exact .refl hs
  · exact ⟨.refl hs, hframe⟩

/-! ## Connections -/

theorem speaks_handleSelect : (handleSelect id parts).Speaks L Q := by
  refine .reading ((W.arity rfl).bind fun _ => W.natArg rfl) fun n s hs => ?_
  split
  · exact ⟨.refl hs, W.err rfl⟩
  · exact ⟨.onQueue hs _ fun _ => rfl, W.ok⟩

theorem speaks_handleAuth : (handleAuth env id parts).Speaks L Q := by
  unfold handleAuth
  split
  · exact .error W rfl
  · split
    · exact .error W rfl
    · split
      · exact .error W rfl
      · split
        · exact fun s hs => ⟨.onQueue hs _ fun _ => rfl, W.ok⟩
        · exact .error W rfl

theorem refuses_killArgs : Refuses Q (killArgs parts) := by
  refine (W.arity rfl).bind fun _ => ?_
  dsimp only
  split
  · split
    · exact W.reject rfl
    · split
      · exact W.reject rfl
      · split
        · exact .pure _
        · exact W.reject rfl
  · split
    · exact W.reject rfl
    · split
      · exact W.reject rfl
      · exact .pure _
  · exact W.reject rfl

theorem speaks_clientKill : (clientKill id parts).Speaks L Q := by
  refine .reading (refuses_killArgs W) fun target s hs => ?_
  cases target with
  | id j =>
      dsimp only
      split
      · exact ⟨.refl hs, W.err rfl⟩
      · exact ⟨.onQueue hs _ fun _ => rfl, W.flag _⟩
  | addr a =>
      exact ⟨.foldl hs _ fun s hs i _ => .onQueue hs _ fun _ => rfl, W.count _⟩

theorem speaks_clientArity {sub : List Char} {n : Nat} {body : Action}
    (hsub : sub.all plainChar = true) (h : body.Speaks L Q) :
    (clientArity (String.ofList sub) n parts body).Speaks L Q := by
  refine .reading ?_ fun _ => h
  unfold Args.arity
  split
  · exact .ok ()
  · exact W.rejectLine (W.wrap (plainText_of_chars rfl) (plainText_of_chars rfl)
      (W.append (plainText_of_chars rfl) (W.plain (plainText_of_chars hsub))))

theorem refuses_pauseArg : Refuses Q (pauseArg parts) := by
  unfold pauseArg
  split
  · exact W.reject rfl
  · split
    · exact W.reject rfl
    · split
      · exact W.reject rfl
      · exact .ok _

omit W in
/-- The end of the pause is no matter of frames. -/
theorem keeps_pausedUntil {s : Server} (hs : s.Fluent L Q) (n : Nat) :
    s.Keeps L Q { s with pausedUntil := n } := .same hs rfl rfl rfl

theorem speaks_handleClient (hecho : ∀ t ∈ Command.client.echoed parts, L t) :
    (handleClient env id parts).Speaks L Q := by
  refine .readingWith (P := fun sub => (parts[1]?).bind word? = some sub) ?_ fun sub hsub => ?_
  · refine .after (W.arity rfl) fun _ => ?_
    split
    · next sub hsub => exact hsub
    · exact W.err rfl
  · split
    · exact speaks_clientArity W rfl fun s hs => ⟨.refl hs, W.text _⟩
    · exact speaks_clientKill W
    · refine speaks_clientArity W rfl ?_
      split
      · exact .error W rfl
      · intro s hs
        dsimp only
        split
        · exact ⟨.onQueue hs _ fun _ => rfl, W.ok⟩
        · exact ⟨.refl hs, W.err rfl⟩
    · refine speaks_clientArity W rfl fun s hs => ?_
      split
      · exact ⟨.refl hs, W.err rfl⟩
      · next c _ =>
          refine ⟨.refl hs, ?_⟩
          cases c.name with
          | none => exact W.nullBulk
          | some name => exact W.text _
    · exact speaks_clientArity W rfl (.reply (W.int _))
    · exact speaks_clientArity W rfl (.reading (refuses_pauseArg W) fun ms s hs =>
        ⟨keeps_pausedUntil hs _, W.ok⟩)
    · exact speaks_clientArity W rfl fun s hs => ⟨keeps_pausedUntil hs _, W.ok⟩
    · refine .reply (W.error (W.wrap (plainText_of_chars rfl) (plainText_of_chars rfl) (hecho sub ?_)))
      simp only [Command.echoed, hsub, Option.toList_some, List.mem_filter, true_and,
        List.mem_cons, List.not_mem_nil, or_false, decide_eq_true_eq, not_or]
      exact ⟨‹_›, ‹_›, ‹_›, ‹_›, ‹_›, ‹_›, ‹_›⟩

/-! ## Persistence and scripts -/

/-- An error that comes back as a reply. -/
theorem speaks_orReply {lead : List Char} (hlead : lead.all plainChar = true) {a : Action}
    (h : a.Speaks L Q) : (orReply (String.ofList lead) a).Speaks L Q := by
  intro s hs
  have ha := h s hs
  unfold orReply
  rcases hr : a s with ⟨f | e | _, s'⟩
  all_goals rw [hr] at ha
  · exact ha
  · exact ⟨ha.1, W.error (W.append (plainText_of_chars hlead) ha.2)⟩
  · exact ha

include H E in
theorem speaks_handleSave : (handleSave env parts).Speaks L Q := by
  refine .reading (W.arity rfl) fun _ s hs => ?_
  split
  · next e he => exact ⟨.refl hs, W.error (W.append (plainText_of_chars rfl) (E.saveError _ _ he))⟩
  · exact speaks_orReply W rfl (.storing E (discreet_writeSnapshot H _ _) fun _ _ => .reply W.ok) s hs

theorem everywhere_started {e : Option FerrousError} {msg : List Char} (hmsg : msg.all plainChar = true)
    (he : ∀ err, e = some err → L err.display) : (started e (String.ofList msg)).Everywhere Q := by
  cases e with
  | none => exact W.statusText hmsg
  | some e => exact W.error (W.append (plainText_of_chars rfl) (he e rfl))

include E in
theorem speaks_handleBgsave : (handleBgsave env parts).Speaks L Q :=
  .reading (W.arity rfl) fun _ _ hs => ⟨.refl hs, everywhere_started W rfl fun _ he => E.bgsaveError _ _ he⟩

theorem speaks_handleLastsave : (handleLastsave env parts).Speaks L Q :=
  .reading (W.arity rfl) fun _ _ hs => ⟨.refl hs, W.count _⟩

include E in
theorem speaks_handleBgrewriteaof : (handleBgrewriteaof env).Speaks L Q := by
  intro s hs
  unfold handleBgrewriteaof
  split
  · exact ⟨.refl hs, everywhere_started W rfl fun _ he => E.bgrewriteError _ _ he⟩
  · exact ⟨.refl hs, W.err rfl⟩

omit W in
/-- SHUTDOWN with arguments it accepts ends the server, and refuses others with
a line. -/
theorem handleShutdown_cases :
    shutsDown parts = true ∧ (∃ save, handleShutdown env parts = ending env save) ∨
      shutsDown parts = false ∧
        ∃ cs : List Char, cs.all plainChar = true ∧ handleShutdown env parts = .error (String.ofList cs) := by
  unfold shutsDown handleShutdown
  by_cases h₁ : parts.length = 1
  · exact .inl ⟨by simp [h₁], true, if_pos h₁⟩
  · by_cases h₂ : parts.length = 2
    · rw [if_neg h₁, if_pos h₂]
      cases hopt : (parts[1]?).bind RespFrame.bulk? with
      | none => exact .inr ⟨by simp [h₂], _, rfl, rfl⟩
      | some bytes =>
          dsimp only
          split
          · next hsave => exact .inl ⟨by simp [h₂, hsave], true, rfl⟩
          · next hsave => exact .inl ⟨by simp [h₂, hsave], false, rfl⟩
          · next h h' => exact .inr ⟨by simpa [h₂] using ⟨h, h'⟩, _, rfl, rfl⟩
    · rw [if_neg h₁, if_neg h₂]
      exact .inr ⟨by simp [h₁, h₂], _, rfl, rfl⟩

omit W in
/-- The end saves, and gives the marker if it gives anything. -/
theorem ending_cases (save : Bool) (s : Server) :
    (∃ w, (ending env save s).2 = { s with world := w }) ∧
      ((ending env save s).1 = .ok .noResponse ∨ (ending env save s).1 = .panic) := by
  unfold ending
  split
  · unfold onStore
    rcases (Rdb.writeSnapshot env.overflowChecks s.world.engine.databases.length).run
      (World.step env.ω) s.world with ⟨a | e | _, w⟩
    · exact ⟨⟨w, rfl⟩, .inl rfl⟩
    · exact ⟨⟨w, rfl⟩, .inl rfl⟩
    · exact ⟨⟨w, rfl⟩, .inr rfl⟩
  · exact ⟨⟨s.world, rfl⟩, .inl rfl⟩

include E in
theorem speaks_handleEvalsha : (handleEvalsha env parts).Speaks L Q := by
  refine .reading ((W.arity rfl).bind fun _ => ?_) fun sha1 s hs => ?_
  · split
    · exact .ok _
    · exact W.reject rfl
  · split
    · exact ⟨.refl hs, W.err rfl⟩
    · exact Action.Speaks.storing E (worded_handleEval W _ fun _ _ _ => E.lua _ _ _ _)
        (fun f hf => .reply hf) s hs

include E in
theorem scriptLoad_line {p : Option RespFrame} {e : FerrousError} (h : scriptLoad env p = .error e) :
    L e.display := by
  unfold scriptLoad at h
  split at h
  · cases h
    exact W.plain (by decide)
  · split at h
    · cases h
      exact W.plain (by decide)
    · next text _ =>
        cases hload : env.lua.scriptLoad text with
        | error e' =>
            rw [hload] at h
            cases h
            exact E.scriptLoad _ _ hload
        | ok sha =>
            rw [hload] at h
            cases h

include E in
theorem speaks_handleScript (hecho : ∀ t ∈ Command.script.echoed parts, L t) :
    (handleScript env parts).Speaks L Q := by
  refine .readingWith (P := fun sub =>
    (((parts[1]?).bind RespFrame.bulk?).bind fromUtf8).map toLowercase = some sub) ?_ fun sub hsub => ?_
  · refine .after (W.arity rfl) fun _ => ?_
    split
    · next sub hsub => exact congrArg (Option.map toLowercase) hsub
    · exact W.err rfl
  · split
    · refine .reading (W.arity rfl) fun _ s hs => ?_
      split
      · exact ⟨.same hs rfl rfl rfl, W.text _⟩
      · next e he => exact ⟨.refl hs, W.error (W.append (plainText_of_chars rfl) (scriptLoad_line W E he))⟩
    · exact .reading (W.arity rfl) fun _ s hs => ⟨.refl hs, W.listMap _ _ fun _ => W.flag _⟩
    · exact .reading (W.arity rfl) fun _ s hs => ⟨.same hs rfl rfl rfl, W.ok⟩
    · exact .reading (W.arity rfl) fun _ => .reply W.ok
    · refine .reply (W.error (W.wrap (plainText_of_chars rfl) (plainText_of_chars rfl) (hecho sub ?_)))
      simp only [Command.echoed, hsub, Option.toList_some, List.mem_filter, true_and, List.mem_cons,
        List.not_mem_nil, or_false, decide_eq_true_eq, not_or]
      exact ⟨‹_›, ‹_›, ‹_›, ‹_›⟩

/-! ## Replication -/

theorem generic_line {cs : List Char} (h : cs.all plainChar = true) :
    L (generic (String.ofList cs)).display :=
  W.append (plainText_of_chars rfl) (W.plain (plainText_of_chars h))

omit W in
/-- A new role, under an ID that is a line where it is a master's. -/
theorem Keeps.setMaster {s : Server} (hs : s.Fluent L Q) {addr : Option String} {replId : String}
    (h : L replId) : s.Keeps L Q { s with replication := s.replication.setMaster addr replId } where
  fluent := by
    refine ⟨hs.queued, fun i o hrole => ?_⟩
    cases addr with
    | some a => cases hrole
    | none =>
        cases hrole
        exact h
  adds := ⟨[], (List.append_nil _).symm, nofun⟩

include E in
theorem speaks_follow (host port : String) : (follow env host port).Speaks L Q := by
  intro s hs
  unfold follow
  split
  · exact ⟨.refl hs, generic_line W rfl⟩
  · split
    · exact ⟨.refl hs, generic_line W rfl⟩
    · exact ⟨.refl hs, generic_line W rfl⟩
    · exact ⟨.setMaster hs (E.replId _), W.ok⟩

include E in
theorem speaks_handleReplicaof : (handleReplicaof env parts).Speaks L Q := by
  unfold handleReplicaof
  split
  · exact .error W rfl
  · split
    · exact .error W rfl
    · split
      · exact .fail (generic_line W rfl)
      · split
        · split
          · exact .error W rfl
          · split
            · exact .error W rfl
            · split
              · exact .fail (generic_line W rfl)
              · split
                · exact .error W rfl
                · exact fun s hs => ⟨.setMaster hs (E.replId _), W.ok⟩
        · split
          · exact .error W rfl
          · split
            · exact .fail (generic_line W rfl)
            · exact speaks_follow W E _ _

omit W in
theorem acknowledge_role (m : ReplicationManager) (i : ConnId) (offset : Nat) :
    (m.acknowledge i offset).role = m.role := by
  unfold ReplicationManager.acknowledge
  split <;> rfl

theorem speaks_handleReplconf : (handleReplconf id parts).Speaks L Q := by
  refine .reading ((W.arity rfl).bind fun _ => W.bulkArg rfl) fun sub s hs => ?_
  split
  · exact ⟨.refl hs, W.ok⟩
  · exact ⟨.refl hs, W.ok⟩
  · split
    · exact ⟨.refl hs, W.err rfl⟩
    · split
      · exact ⟨.refl hs, W.err rfl⟩
      · split
        · exact ⟨.refl hs, generic_line W rfl⟩
        · exact ⟨.same hs rfl (acknowledge_role _ _ _) rfl, W.ok⟩
  · split
    · exact ⟨.refl hs, W.err rfl⟩
    · exact ⟨.refl hs, W.items _⟩
  · exact ⟨.refl hs, W.err rfl⟩

/-- The announcement of a dump is a line where the ID is. -/
theorem everywhere_fullResync {replId : String} (h : L replId) (offset : Nat) :
    (fullResync replId offset).Everywhere Q := by
  have hnat : plainText (toString offset) = true := by
    rw [show toString offset = String.ofList (Nat.toDigits 10 offset) from Nat.repr_eq_ofList_toDigits]
    refine plainText_of_chars (List.all_eq_true.mpr fun c hc => ?_)
    have hdigit := isDigit_toDigits hc
    unfold plainChar
    rw [Bool.and_eq_true, bne_iff_ne, bne_iff_ne]
    constructor
    all_goals
      rintro rfl
      cases hdigit
  have hline := W.wrap (a := "FULLRESYNC ") (c := " " ++ toString offset) (plainText_of_chars rfl)
    (plainText_append.mpr ⟨plainText_of_chars rfl, hnat⟩) h
  rw [← String.append_assoc] at hline
  exact W.status hline

include H E in
theorem speaks_handleSync : (handleSync env).Speaks L Q := by
  intro s hs
  unfold handleSync
  split
  · exact ⟨.refl hs, W.err rfl⟩
  · next replId offset hrole =>
      have hline := hs.role _ _ hrole
      exact speaks_orReply W rfl (.storing E (discreet_generateRdbBytes H _) fun _ _ =>
        .reply (everywhere_fullResync W hline offset)) s hs

theorem everywhere_handlePsync (parts : Parts) {s : Server} (hs : s.Fluent L Q) :
    match handlePsync s.replication parts with
    | .reply f => f.Everywhere Q
    | .full f => f.Everywhere Q
    | .fail e => L e.display := by
  unfold handlePsync
  by_cases hlen : parts.length ≠ 3
  · rw [if_pos hlen]
    exact W.err rfl
  · rw [if_neg hlen]
    cases (parts[1]?).bind RespFrame.bulk? with
    | none => exact W.err rfl
    | some replId =>
        cases (parts[2]?).bind RespFrame.bulk? with
        | none => exact W.err rfl
        | some offset =>
            dsimp only
            by_cases hoffset : fromUtf8Lossy offset ≠ "-1" ∧ parseU64 (fromUtf8Lossy offset) = none
            · rw [if_pos hoffset]
              exact W.err rfl
            · rw [if_neg hoffset]
              cases hrole : s.replication.role with
              | replica a o => exact W.append (plainText_of_chars rfl) (W.plain (plainText_of_chars rfl))
              | master masterId current =>
                  dsimp only
                  split
                  · next h =>
                      split at h
                      · cases h
                        exact W.statusText rfl
                      · cases h
                  · next h =>
                      split at h
                      · cases h
                      · cases h
                        exact everywhere_fullResync W (hs.role _ _ hrole) _
                  · next h =>
                      split at h <;> cases h

theorem speaks_psyncReply : (psyncReply parts).Speaks L Q := by
  intro s hs
  have h := everywhere_handlePsync W parts hs
  unfold psyncReply
  cases hr : handlePsync s.replication parts with
  | reply f =>
      rw [hr] at h
      exact ⟨.refl hs, h⟩
  | full f =>
      rw [hr] at h
      exact ⟨.refl hs, h⟩
  | fail e =>
      rw [hr] at h
      exact ⟨.refl hs, h⟩

/-- The announcement and the dump, which is raw. -/
theorem speaks_sendDump {f : RespFrame} (hf : f.Everywhere Q) (H : Answers L A)
    (E : env.Speaks L Q A) : (sendDump env id f).Speaks L Q := by
  intro s hs
  unfold sendDump
  split
  · exact ⟨.refl hs, W.append (plainText_of_chars rfl) (W.plain (plainText_of_chars rfl))⟩
  · next c hc =>
      split
      · exact ⟨.refl hs, generic_line W rfl⟩
      · next replication hrep =>
          have hrole : replication.role = s.replication.role := by
            unfold ReplicationManager.addReplica at hrep
            split at hrep
            · exact Option.some.inj hrep ▸ rfl
            · cases hrep
          have hkeep : s.Keeps L Q { s with replication := replication } := .same hs rfl hrole rfl
          have hraw (data : Bytes) : Action.Speaks L Q fun s => (.ok f, s.sendAll id
              [.raw ("$" ++ toString data.length ++ "\r\n").toBytes, .raw data, .raw "\r\n".toBytes]) := by
            refine fun s hs => ⟨.sendAll hs _ fun item hitem g hg => ?_, hf⟩
            subst hg
            simp at hitem
          have hdump := Action.Speaks.storing E (discreet_generateRdbBytes H env.overflowChecks)
            (fun data _ => hraw data) _ hkeep.fluent
          exact ⟨hkeep.trans hdump.1, hdump.2⟩

include H E in
theorem speaks_handleSyncCommand (psync : Bool) : (handleSyncCommand env psync id parts).Speaks L Q := by
  intro s hs
  unfold handleSyncCommand
  split
  · have h := everywhere_handlePsync W parts hs
    split
    · next hr =>
        rw [hr] at h
        exact ⟨.refl hs, h⟩
    · next hr =>
        rw [hr] at h
        exact ⟨.refl hs, h⟩
    · next hr =>
        rw [hr] at h
        exact speaks_sendDump W h H E s hs
  · have hsync := speaks_handleSync W H E s hs
    rcases hr : handleSync env s with ⟨f | e | _, s'⟩
    all_goals rw [hr] at hsync
    · have hdump := @speaks_sendDump L Q A W env id f hsync.2 H E s' hsync.1.fluent
      exact ⟨hsync.1.trans hdump.1, hdump.2⟩
    · exact hsync
    · exact hsync

/-! ## Publish and subscribe -/

theorem everywhere_messageFrame (pattern : Option Bytes) (channel message : Bytes) :
    (messageFrame pattern channel message).Everywhere Q := by
  unfold messageFrame
  split
  all_goals
    refine W.list fun f hf => ?_
    simp only [List.mem_cons, List.not_mem_nil, or_false] at hf
  · rcases hf with rfl | rfl | rfl <;> exact W.bulk _
  · rcases hf with rfl | rfl | rfl | rfl <;> exact W.bulk _

theorem everywhere_confirmationFrame (word : String) (r : Bytes × Nat) :
    (confirmationFrame word r).Everywhere Q := by
  refine W.list fun f hf => ?_
  simp only [List.mem_cons, List.not_mem_nil, or_false] at hf
  rcases hf with rfl | rfl | rfl
  · exact W.bulk _
  · exact W.bulk _
  · exact W.integer _

theorem speaks_handlePublish : (handlePublish parts).Speaks L Q := by
  refine .reading ((W.arity rfl).bind fun _ => (W.bulkArg rfl).bind fun _ => (W.bulkArg rfl).bind fun _ =>
    .pure _) fun ⟨channel, message⟩ s hs => ⟨.foldl hs _ fun s hs r _ => .send hs fun f hf => ?_, W.count _⟩
  cases hf
  exact everywhere_messageFrame W _ _ _

/-- The confirmations of a change of subscriptions; the reply is the marker. -/
theorem keeps_confirmations {s : Server} (hs : s.Fluent L Q) (pubsub : PubSubManager) (word : String)
    (confirmed : List (Bytes × Nat)) :
    s.Keeps L Q (({ s with pubsub := pubsub } : Server).sendAll id
      (confirmed.map fun r => .frame (confirmationFrame word r))) := by
  have hsame : s.Keeps L Q { s with pubsub := pubsub } := .same hs rfl rfl rfl
  refine hsame.trans (.sendAll hsame.fluent _ fun item hitem f hf => ?_)
  obtain ⟨r, -, rfl⟩ := List.mem_map.mp hitem
  cases hf
  exact everywhere_confirmationFrame W _ _

theorem speaks_subscribing {word : List Char} (hword : word.all plainChar = true)
    (kind : PubSubManager.Kind) (s : Server) (hs : s.Fluent L Q) :
    s.Keeps L Q (subscribing (String.ofList word) kind id parts s).2 ∧
      ((subscribing (String.ofList word) kind id parts s).1 = .ok .noResponse ∨
        Says L Q (subscribing (String.ofList word) kind id parts s).1) := by
  have hrefuses : Refuses Q (do
      arity (String.ofList word) (2 ≤ parts.length)
      bulks (kindWord kind) (parts.drop 1)) := by
    refine (W.arity hword).bind fun _ => ?_
    cases kind with
    | channel => exact W.bulks rfl _
    | pattern => exact W.bulks rfl _
  unfold subscribing
  cases hargs : (do
      arity (String.ofList word) (2 ≤ parts.length)
      bulks (kindWord kind) (parts.drop 1) : Args (List Bytes)) with
  | error f => exact ⟨.refl hs, .inr (hrefuses f hargs)⟩
  | ok names => exact ⟨keeps_confirmations W hs _ _ _, .inl rfl⟩

theorem speaks_unsubscribing (word : String) (kind : PubSubManager.Kind) (s : Server)
    (hs : s.Fluent L Q) :
    s.Keeps L Q (unsubscribing word kind id parts s).2 ∧
      ((unsubscribing word kind id parts s).1 = .ok .noResponse ∨
        Says L Q (unsubscribing word kind id parts s).1) := by
  have hrefuses : Refuses Q (bulks (kindWord kind) (parts.drop 1)) := by
    cases kind with
    | channel => exact W.bulks rfl _
    | pattern => exact W.bulks rfl _
  unfold unsubscribing
  cases hargs : bulks (kindWord kind) (parts.drop 1) with
  | error f => exact ⟨.refl hs, .inr (hrefuses f hargs)⟩
  | ok names => exact ⟨keeps_confirmations W hs _ _ _, .inl rfl⟩

theorem speaks_handleMonitor : (handleMonitor id parts).Speaks L Q := by
  refine .reading (W.arity rfl) fun _ s hs => ⟨?_, W.ok⟩
  have hsame : s.Keeps L Q { s with monitorSubscribers := s.monitorSubscribers.add id } :=
    .same hs rfl rfl rfl
  exact hsame.trans (.onQueue hsame.fluent _ fun _ => rfl)

/-! ## Transactions -/

theorem speaks_handleMulti : (handleMulti id).Speaks L Q := by
  refine .withConnection W fun s c hs hc => ?_
  split
  · exact ⟨.refl hs, W.err rfl⟩
  · exact ⟨.onConnection hs _ fun _ _ => nofun, W.ok⟩

theorem speaks_handleDiscard : (handleDiscard id).Speaks L Q := by
  refine .withConnection W fun s c hs hc => ?_
  split
  · exact ⟨.onConnection hs _ fun _ _ => nofun, W.ok⟩
  · exact ⟨.refl hs, W.err rfl⟩

theorem speaks_watchLoop (ps : Parts) : (watchLoop env id db ps).Speaks L Q := by
  induction ps with
  | nil => exact .reply W.ok
  | cons p ps ih =>
      rw [watchLoop]
      cases p.bulk? with
      | none => exact .error W rfl
      | some key =>
          intro s hs
          have hworld : s.Keeps L Q
              (s.onStore env (Prog.attempt (.store (.registerWatch db key)))).2 := .same hs rfl rfl rfl
          have hrest (g : Connection → Connection)
              (hg : ∀ c, (g c).transactionState.queuedCommands = c.transactionState.queuedCommands) :
              s.Keeps L Q (watchLoop env id db ps ((s.onStore env
                  (Prog.attempt (.store (.registerWatch db key)))).2.onConnection id g)).2 ∧
                Says L Q (watchLoop env id db ps ((s.onStore env
                  (Prog.attempt (.store (.registerWatch db key)))).2.onConnection id g)).1 := by
            have hconn := hworld.trans (@Keeps.onQueue L Q _ id hworld.fluent g hg)
            exact ⟨hconn.trans (ih _ hconn.fluent).1, (ih _ hconn.fluent).2⟩
          refine hrest _ ?_
          exact fun _ => rfl

theorem speaks_handleWatch : (handleWatch env id parts).Speaks L Q := by
  refine .withConnection W fun s c hs hc => ?_
  refine Action.Speaks.reading (W.arity rfl) (fun _ => ?_) s hs
  split
  · exact .error W rfl
  · exact speaks_watchLoop W _

omit W in
theorem discreet_unregisterAll (keys : List Key) : Discreet L A (unregisterAll db keys) := by
  induction keys with
  | nil => exact .ret _
  | cons key keys ih => exact .bind (.attempt _) fun _ => ih

include E in
theorem speaks_handleUnwatch : (handleUnwatch env id).Speaks L Q := by
  refine .withConnection W fun s c hs hc => ?_
  refine Action.Speaks.storing E (discreet_unregisterAll _) (fun _ _ s' hs' => ?_) s hs
  exact ⟨.onConnection hs' _ fun _ _ => hs.queued id c hc, W.ok⟩

theorem speaks_queueCommand (hparts : ∀ p ∈ parts, p.Everywhere Q) :
    (queueCommand id parts).Speaks L Q := by
  refine .withConnection W fun s c hs hc => ⟨.onConnection hs _ fun _ _ ps hps => ?_, W.statusText rfl⟩
  rcases List.mem_append.mp hps with hps | hps
  · exact hs.queued id c hc ps hps
  · exact List.mem_singleton.mp hps ▸ hparts

end Handlers

end Server

end Ferrous
