/-
# `Server.TwoPaths` — a command of a script and the same command of a client

`redis.call` goes through the command parser and the executor, a client's frame through the
dispatch table.  Unless the command is among the departures, both leave the store the same,
and reply alike.
-/
import Ferrous.Commands.AgreedStreams
import Ferrous.Server.Carried

namespace Ferrous

open Lib Args

namespace Server

variable {env : Env} {db : Nat} {s : Server} {id : ConnId}

/-! ## The table -/

/-- Of what a parser accepts, and that is no departure, the network knows the name, and its
handler goes in lockstep with the executor. -/
def OverNetwork (env : Env) (db : Nat) (entry : String × (Parts → Except FerrousError Unified.Command)) : Prop :=
  ∀ (s : Server) (args : List String) (cmd : Unified.Command), entry.2 (texts args) = .ok cmd →
    ¬ Departs db args cmd →
      ∃ c p, Command.parse entry.1 = some c ∧ c ≠ .evalsha ∧ s.storeProgram env db (texts args) c = some p ∧
        Prog.Lockstep Alike (Executor.executeCommand env.overflowChecks none (some db) cmd) p

namespace OverNetwork

open CommandParser (map_ok keyOnly_ok keyAndBytes_ok)

variable {name : String} {parse : Parts → Except FerrousError Unified.Command}

/-- A command both know. -/
theorem known (c : Command) {handler : Parts → StoreProg RespFrame} (h : Agree env.overflowChecks db parse handler)
    (hname : Command.parse name = some c := by rfl) (hc : c ≠ .evalsha := by decide)
    (hprog : ∀ (s : Server) ps, s.storeProgram env db ps c = some (handler ps) := by exact fun _ _ => rfl) :
    OverNetwork env db (name, parse) :=
  fun s args cmd hparse hdeparts =>
    ⟨c, handler (texts args), hname, hc, hprog s _, h args cmd hparse hdeparts⟩

/-- A command that is always a departure. -/
theorem of_departs (h : ∀ args cmd, parse (texts args) = .ok cmd → Departs db args cmd) :
    OverNetwork env db (name, parse) :=
  fun _ args cmd hparse hdeparts => absurd (h args cmd hparse) hdeparts

/-- The kinds that are departures as such. -/
theorem of_map_departs {γ : Type} {read : Parts → Except FerrousError γ} {wrap : γ → Unified.Command}
    (h : ∀ args c, read (texts args) = .ok c → Departs db args (wrap c)) :
    OverNetwork env db (name, fun ps => (read ps).map wrap) :=
  of_departs fun args cmd hparse => by
    obtain ⟨c, hc, rfl⟩ := map_ok hparse
    exact h args c hc

theorem setnx : OverNetwork env db ("SETNX", fun ps => (CommandParser.parseSetnx ps).map .string) :=
  of_map_departs fun args c h => by
    obtain ⟨a, k, v, rfl, rfl⟩ := keyAndBytes_ok h
    trivial

theorem ttl : OverNetwork env db ("TTL", fun ps => (CommandParser.parseTtl ps).map .key) :=
  of_map_departs fun args c h => by
    obtain ⟨a, k, rfl, rfl⟩ := keyOnly_ok h
    trivial

theorem type : OverNetwork env db ("TYPE", fun ps => (CommandParser.parseType ps).map .key) :=
  of_map_departs fun args c h => by
    obtain ⟨a, k, rfl, rfl⟩ := keyOnly_ok h
    trivial

theorem renamenx : OverNetwork env db ("RENAMENX", fun ps => (CommandParser.parseRenamenx ps).map .key) :=
  of_map_departs fun args c h => by
    obtain ⟨a, k, v, rfl, rfl⟩ := keyAndBytes_ok h
    trivial

theorem info : OverNetwork env db ("INFO", fun ps => (CommandParser.parseInfo ps).map .server) :=
  of_map_departs fun args c h => by
    rcases args with _ | ⟨a, _ | ⟨b, _ | ⟨x, args⟩⟩⟩
    · cases h
    · cases h
      trivial
    · obtain ⟨t, -, h⟩ := bind_ok h
      cases h
      trivial
    · cases h

theorem zpopmin : OverNetwork env db ("ZPOPMIN", fun ps => (CommandParser.parseZpopmin ps).map fun c =>
    .sortedSet (.ranged c)) :=
  of_map_departs fun args c h => by
    rcases args with _ | ⟨a, _ | ⟨k, _ | ⟨n, _ | ⟨x, args⟩⟩⟩⟩
    case cons.cons.nil =>
      cases h
      trivial
    case cons.cons.cons.nil =>
      obtain ⟨m, -, h⟩ := bind_ok h
      cases h
      trivial
    all_goals cases h

theorem zpopmax : OverNetwork env db ("ZPOPMAX", fun ps => (CommandParser.parseZpopmax ps).map fun c =>
    .sortedSet (.ranged c)) :=
  of_map_departs fun args c h => by
    rcases args with _ | ⟨a, _ | ⟨k, _ | ⟨n, _ | ⟨x, args⟩⟩⟩⟩
    case cons.cons.nil =>
      cases h
      trivial
    case cons.cons.cons.nil =>
      obtain ⟨m, -, h⟩ := bind_ok h
      cases h
      trivial
    all_goals cases h

theorem zremrangebyrank : OverNetwork env db ("ZREMRANGEBYRANK", fun ps =>
    (CommandParser.parseZremrangebyrank ps).map fun c => .sortedSet (.ranged c)) :=
  of_map_departs fun args c h => by
    rcases args with _ | ⟨a, _ | ⟨k, _ | ⟨s, _ | ⟨t, _ | ⟨x, args⟩⟩⟩⟩⟩
    case cons.cons.cons.cons.nil =>
      obtain ⟨m, -, h⟩ := bind_ok h
      obtain ⟨n, -, h⟩ := bind_ok h
      cases h
      trivial
    all_goals cases h

theorem zremrangebyscore : OverNetwork env db ("ZREMRANGEBYSCORE", fun ps =>
    (CommandParser.parseZremrangebyscore ps).map fun c => .sortedSet (.ranged c)) :=
  of_map_departs fun args c h => by
    rcases args with _ | ⟨a, _ | ⟨k, _ | ⟨s, _ | ⟨t, _ | ⟨x, args⟩⟩⟩⟩⟩
    case cons.cons.cons.cons.nil =>
      obtain ⟨m, -, h⟩ := bind_ok h
      obtain ⟨n, -, h⟩ := bind_ok h
      cases h
      trivial
    all_goals cases h

theorem zremrangebylex : OverNetwork env db ("ZREMRANGEBYLEX", fun ps =>
    (CommandParser.parseZremrangebylex ps).map .sortedSet) :=
  of_map_departs fun args c h => by
    rcases args with _ | ⟨a, _ | ⟨k, _ | ⟨s, _ | ⟨t, _ | ⟨x, args⟩⟩⟩⟩⟩
    case cons.cons.cons.cons.nil =>
      obtain ⟨m, -, h⟩ := bind_ok h
      obtain ⟨n, -, h⟩ := bind_ok h
      cases h
      trivial
    all_goals cases h

/-- The commands without arguments that are departures. -/
theorem constant {cmd : Unified.Command} (h : ∀ args, Departs db args cmd) :
    OverNetwork env db (name, fun _ => .ok cmd) :=
  of_departs fun args cmd' hparse => by
    cases hparse
    exact h args

end OverNetwork

open OverNetwork in
/-- Every entry of the table, one by one. -/
theorem overNetwork_table : ∀ entry ∈ CommandParser.table, OverNetwork env db entry := by
  simp only [CommandParser.table, List.forall_mem_cons, List.not_mem_nil, false_implies, implies_true, and_true]
  exact ⟨known .set Agree.set, known .get Agree.get, known .mget Agree.mget, known .mset Agree.mset,
    known .incr Agree.incr, known .incrby Agree.incrby, known .decr Agree.decr, known .decrby Agree.decrby,
    OverNetwork.setnx, known .setex Agree.setex, known .psetex Agree.psetex, known .append Agree.append,
    known .strlen Agree.strlen, known .getset Agree.getset, known .getrange Agree.getrange,
    known .setrange Agree.setrange, known .del Agree.del, known .lpush Agree.lpush, known .rpush Agree.rpush,
    known .lpop Agree.lpop, known .rpop Agree.rpop, known .llen Agree.llen, known .lindex Agree.lindex,
    known .lset Agree.lset, known .lrange Agree.lrange, known .ltrim Agree.ltrim, known .lrem Agree.lrem,
    known .sadd Agree.sadd, known .srem Agree.srem, known .smembers Agree.smembers, known .scard Agree.scard,
    known .sismember Agree.sismember, known .sunion Agree.sunion, known .sinter Agree.sinter,
    known .sdiff Agree.sdiff, known .srandmember Agree.srandmember, known .spop Agree.spop, known .hset Agree.hset,
    known .hget Agree.hget, known .hmset Agree.hmset, known .hmget Agree.hmget, known .hgetall Agree.hgetall,
    known .hdel Agree.hdel, known .hlen Agree.hlen, known .hexists Agree.hexists, known .hkeys Agree.hkeys,
    known .hvals Agree.hvals, known .hincrby Agree.hincrby, known .zadd Agree.zadd, known .zrem Agree.zrem,
    known .zscore Agree.zscore, known .zcard Agree.zcard, known .zrank Agree.zrank, known .zrevrank Agree.zrevrank,
    known .zrange Agree.zrange, known .zrevrange Agree.zrevrange, known .zrangebyscore Agree.zrangebyscore,
    known .zcount Agree.zcount, known .zincrby Agree.zincrby, known .zrevrangebyscore Agree.zrevrangebyscore,
    OverNetwork.zpopmin, OverNetwork.zpopmax, OverNetwork.zremrangebyrank, OverNetwork.zremrangebyscore,
    OverNetwork.zremrangebylex,
    known .exists? Agree.exists?, known .expire Agree.expire, known .pexpire Agree.pexpire, OverNetwork.ttl,
    known .pttl Agree.pttl, known .persist Agree.persist, OverNetwork.type, known .rename Agree.rename,
    OverNetwork.renamenx, known .randomkey Agree.randomkey, known .ping Agree.ping, known .echo Agree.echo,
    constant fun _ => trivial, OverNetwork.info, known .xadd Agree.xadd, known .xlen Agree.xlen,
    known .xrange Agree.xrange,
    known .xrevrange Agree.xrevrange, known .xread Agree.xread, known .xtrim Agree.xtrim, known .xdel Agree.xdel,
    known .scan Agree.scan, known .hscan Agree.hscan, known .sscan Agree.sscan, known .zscan Agree.zscan,
    known .flushdb Agree.flushdb, known .flushall Agree.flushall, known .dbsize Agree.dbsize,
    known .keys Agree.keys, known .xgroup Agree.xgroup, known .xreadgroup Agree.xreadgroup, known .xack Agree.xack,
    known .xpending Agree.xpending, known .xclaim Agree.xclaim, known .xinfo Agree.xinfo, constant fun _ => trivial,
    constant fun _ => trivial, constant fun _ => trivial, constant fun _ => trivial, of_map_departs fun _ _ _ => trivial,
    of_map_departs fun _ _ _ => trivial, of_map_departs fun _ _ _ => trivial,
    of_map_departs fun _ _ _ => trivial⟩

/-! ## The two paths -/

/-- A push leaves the store as its handler does; the notification touches nothing of it. -/
theorem pushAndNotify_store {parts : Parts} (handler : Nat → Parts → StoreProg RespFrame) (s : Server) :
    (pushAndNotify env handler db parts s).1 = ((handler db parts).run (World.step env.ω) s.world).1 ∧
      (pushAndNotify env handler db parts s).2.world = ((handler db parts).run (World.step env.ω) s.world).2 := by
  unfold pushAndNotify Action.storing onStore
  rcases (handler db parts).run (World.step env.ω) s.world with ⟨f | e | _, w⟩
  · dsimp only
    split
    · refine ⟨rfl, ?_⟩
      split
      · exact notify_world _ _ _
      · rfl
    · exact ⟨rfl, rfl⟩
  · exact ⟨rfl, rfl⟩
  · exact ⟨rfl, rfl⟩

/-- A command of which the server makes a program on the store leaves the store as the program
does, and ends as it ends. -/
theorem processNormalCommand_store (id : ConnId) {parts : Parts} {c : Command} {p : StoreProg RespFrame}
    (hraw : rawCommand parts = some c) (hc : c ≠ .evalsha) (hp : s.storeProgram env db parts c = some p) :
    (processNormalCommand env parts db id s).1 = (p.run (World.step env.ω) s.world).1 ∧
      (processNormalCommand env parts db id s).2.world = (p.run (World.step env.ω) s.world).2 := by
  obtain ⟨bytes, hbytes⟩ : ∃ bytes, (parts.head?).bind RespFrame.bulk? = some bytes := by
    unfold rawCommand at hraw
    cases hb : (parts.head?).bind RespFrame.bulk? with
    | none =>
        rw [hb] at hraw
        cases hraw
    | some bytes => exact ⟨bytes, rfl⟩
  have hname : Command.parse (Command.rawName bytes) = some c := (rawCommand_of_bulk hbytes).symm.trans hraw
  unfold processNormalCommand
  rw [hbytes]
  dsimp only
  rw [propagate_world]
  generalize ((Command.parse (Command.rawName bytes)).map Command.isWrite).getD false = write
  obtain ⟨aof, haof⟩ : ∃ aof, logCommand env write parts s = { s with aof := aof } := by
    unfold logCommand
    split
    · exact ⟨_, rfl⟩
    · exact ⟨_, rfl⟩
  rw [haof]
  unfold storeProgram at hp
  split at hp
  · cases hp
    rw [dispatch_lpush hname]
    exact pushAndNotify_store handleLpush _
  · cases hp
    rw [dispatch_rpush hname]
    exact pushAndNotify_store handleRpush _
  · exact absurd rfl hc
  · have hstore : Command.storeHandler env (({ s with aof := aof } : Server).proc env) db parts c = some p := hp
    rw [dispatch_of_storeHandler hname hstore]
    exact ⟨rfl, rfl⟩

/-- Of text arguments that the script path parses, and that are no departure, the server makes a
program that goes in lockstep with the executor's. -/
theorem lockstep_of_parse (env : Env) (db : Nat) (s : Server) {args : List String} {cmd : Unified.Command}
    (hcmd : CommandParser.parse (texts args) = .ok cmd) (hdeparts : ¬ Departs db args cmd) :
    ∃ c p, rawCommand (texts args) = some c ∧ c ≠ .evalsha ∧ s.storeProgram env db (texts args) c = some p ∧
      Prog.Lockstep Alike (Executor.executeCommand env.overflowChecks none (some db) cmd) p := by
  rcases args with _ | ⟨name, args⟩
  · cases hcmd
  · simp only [texts, List.map_cons, CommandParser.parse, CommandParser.extractWord_text, bind, Except.bind] at hcmd
    split at hcmd
    · next parser hlookup =>
        obtain ⟨l₁, l₂, hl, -⟩ := List.lookup_eq_some_iff.mp hlookup
        have hmem : (toUppercase name, parser) ∈ CommandParser.table :=
          hl ▸ List.mem_append_right _ List.mem_cons_self
        obtain ⟨c, p, hname, hne, hp, hlock⟩ := overNetwork_table _ hmem s (name :: args) cmd hcmd hdeparts
        refine ⟨c, p, ?_, hne, hp, hlock⟩
        rw [@rawCommand_of_bulk _ name.toBytes rfl, Command.rawName, fromUtf8Lossy_toBytes]
        exact hname
    · cases hcmd

theorem executeLuaCommand_of_parse {checks : Bool} {args : List String} {cmd : Unified.Command}
    (hcmd : CommandParser.parse (texts args) = .ok cmd) :
    Executor.executeLuaCommand checks args db = Executor.executeCommand checks none (some db) cmd := by
  unfold Executor.executeLuaCommand
  rw [show args.map RespFrame.fromString = texts args from rfl, hcmd]
  rfl

/-- A command of text arguments that the script path parses, and that is no departure: the
executor and the server leave the store the same, and reply alike. -/
theorem redis_call_agrees (env : Env) (db : Nat) (s : Server) (id : ConnId) {args : List String} {cmd : Unified.Command}
    (hcmd : CommandParser.parse (texts args) = .ok cmd) (hdeparts : ¬ Departs db args cmd) :
    ((Executor.executeLuaCommand env.overflowChecks args db).run (World.step env.ω) s.world).2 =
        (processNormalCommand env (texts args) db id s).2.world ∧
      Alike ((Executor.executeLuaCommand env.overflowChecks args db).run (World.step env.ω) s.world).1
        (processNormalCommand env (texts args) db id s).1 := by
  obtain ⟨c, p, hraw, hne, hp, hlock⟩ := lockstep_of_parse env db s hcmd hdeparts
  obtain ⟨hreply, hworld⟩ := processNormalCommand_store id hraw hne hp
  rw [executeLuaCommand_of_parse hcmd, hreply, hworld]
  exact Prog.Lockstep.run (R := Alike) rfl hlock s.world

/-- LPUSH in database 3. -/
theorem redis_call_agrees_lpush :
    ((Executor.executeLuaCommand false ["lpush", "l", "a", "b"] 3).run (World.step .at)
        (initial Engine.new "0" 16).world).2 =
        (processNormalCommand (.quiet none) (texts ["lpush", "l", "a", "b"]) 3 1
          (initial Engine.new "0" 16)).2.world ∧
      Alike ((Executor.executeLuaCommand false ["lpush", "l", "a", "b"] 3).run (World.step .at)
          (initial Engine.new "0" 16).world).1
        (processNormalCommand (.quiet none) (texts ["lpush", "l", "a", "b"]) 3 1 (initial Engine.new "0" 16)).1 := by
  have hcmd : CommandParser.parse (texts ["lpush", "l", "a", "b"]) =
      .ok (.list (.lPush "l".toBytes ["a".toBytes, "b".toBytes])) := rfl
  exact redis_call_agrees (.quiet none) 3 (initial Engine.new "0" 16) 1 hcmd id

end Server

end Ferrous
