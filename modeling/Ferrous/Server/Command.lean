/-
# `Server.Command` — command names

The commands the server knows, by name.  The last twelve are taken out of the
frame before ordinary dispatch; the others are the table of
`process_normal_command`.
-/
import Ferrous.Lib.Text

namespace Ferrous

open Lib

/-- A command. -/
inductive Command
  | ping | echo | set | get | incr | decr | incrby | decrby | del | exists? | expire | ttl | select
  | flushdb | flushall | dbsize | setnx | setex | psetex | sleep | config | mget | mset | getset
  | append | strlen | getrange | setrange | type | rename | renamenx | randomkey | blpop | brpop
  | keys | pexpire | pttl | persist | lpush | rpush | lpop | rpop | llen | lrange | lindex | lset
  | ltrim | lrem | sadd | srem | smembers | sismember | scard | sunion | sinter | sdiff
  | srandmember | spop | hset | hget | hmset | hmget | hgetall | hdel | hlen | hexists | hkeys
  | hvals | hincrby | zadd | zrem | zscore | zcard | zrank | zrevrank | zrange | zrevrange
  | zrangebyscore | zrevrangebyscore | zcount | zincrby | zpopmin | zpopmax | xadd | xrange
  | xrevrange | xlen | xread | xtrim | xdel | xgroup | xreadgroup | xack | xclaim | xpending
  | xinfo | save | bgsave | lastsave | scan | hscan | sscan | zscan | bgrewriteaof | info | slowlog
  | memory | client | auth | replicaof | slaveof | sync | psync | quit | eval | evalsha | command
  | shutdown | script | monitor | multi | exec | discard | watch | unwatch | publish | subscribe
  | unsubscribe | psubscribe | punsubscribe | replconf
  deriving DecidableEq, Repr

namespace Command

/-- The command of a name in upper case. -/
def table : List (String × Command) :=
  [("PING", ping), ("ECHO", echo), ("SET", set), ("GET", get), ("INCR", incr), ("DECR", decr),
   ("INCRBY", incrby), ("DECRBY", decrby), ("DEL", del), ("EXISTS", exists?), ("EXPIRE", expire),
   ("TTL", ttl), ("SELECT", select), ("FLUSHDB", flushdb), ("FLUSHALL", flushall),
   ("DBSIZE", dbsize), ("SETNX", setnx), ("SETEX", setex), ("PSETEX", psetex), ("SLEEP", sleep),
   ("CONFIG", config), ("MGET", mget), ("MSET", mset), ("GETSET", getset), ("APPEND", append),
   ("STRLEN", strlen), ("GETRANGE", getrange), ("SETRANGE", setrange), ("TYPE", type),
   ("RENAME", rename), ("RENAMENX", renamenx), ("RANDOMKEY", randomkey), ("BLPOP", blpop),
   ("BRPOP", brpop), ("KEYS", keys), ("PEXPIRE", pexpire), ("PTTL", pttl), ("PERSIST", persist),
   ("LPUSH", lpush), ("RPUSH", rpush), ("LPOP", lpop), ("RPOP", rpop), ("LLEN", llen),
   ("LRANGE", lrange), ("LINDEX", lindex), ("LSET", lset), ("LTRIM", ltrim), ("LREM", lrem),
   ("SADD", sadd), ("SREM", srem), ("SMEMBERS", smembers), ("SISMEMBER", sismember),
   ("SCARD", scard), ("SUNION", sunion), ("SINTER", sinter), ("SDIFF", sdiff),
   ("SRANDMEMBER", srandmember), ("SPOP", spop), ("HSET", hset), ("HGET", hget), ("HMSET", hmset),
   ("HMGET", hmget), ("HGETALL", hgetall), ("HDEL", hdel), ("HLEN", hlen), ("HEXISTS", hexists),
   ("HKEYS", hkeys), ("HVALS", hvals), ("HINCRBY", hincrby), ("ZADD", zadd), ("ZREM", zrem),
   ("ZSCORE", zscore), ("ZCARD", zcard), ("ZRANK", zrank), ("ZREVRANK", zrevrank),
   ("ZRANGE", zrange), ("ZREVRANGE", zrevrange), ("ZRANGEBYSCORE", zrangebyscore),
   ("ZREVRANGEBYSCORE", zrevrangebyscore), ("ZCOUNT", zcount), ("ZINCRBY", zincrby),
   ("ZPOPMIN", zpopmin), ("ZPOPMAX", zpopmax), ("XADD", xadd), ("XRANGE", xrange),
   ("XREVRANGE", xrevrange), ("XLEN", xlen), ("XREAD", xread), ("XTRIM", xtrim), ("XDEL", xdel),
   ("XGROUP", xgroup), ("XREADGROUP", xreadgroup), ("XACK", xack), ("XCLAIM", xclaim),
   ("XPENDING", xpending), ("XINFO", xinfo), ("SAVE", save), ("BGSAVE", bgsave),
   ("LASTSAVE", lastsave), ("SCAN", scan), ("HSCAN", hscan), ("SSCAN", sscan), ("ZSCAN", zscan),
   ("BGREWRITEAOF", bgrewriteaof), ("INFO", info), ("SLOWLOG", slowlog), ("MEMORY", memory),
   ("CLIENT", client), ("AUTH", auth), ("REPLICAOF", replicaof), ("SLAVEOF", slaveof),
   ("SYNC", sync), ("PSYNC", psync), ("QUIT", quit), ("EVAL", eval), ("EVALSHA", evalsha),
   ("COMMAND", command), ("SHUTDOWN", shutdown), ("SCRIPT", script), ("MONITOR", monitor),
   ("MULTI", multi), ("EXEC", exec), ("DISCARD", discard), ("WATCH", watch), ("UNWATCH", unwatch),
   ("PUBLISH", publish), ("SUBSCRIBE", subscribe), ("UNSUBSCRIBE", unsubscribe),
   ("PSUBSCRIBE", psubscribe), ("PUNSUBSCRIBE", punsubscribe), ("REPLCONF", replconf)]

@[inherit_doc table]
def parse (name : String) : Option Command := table.lookup name

/-- `is_write_command`: what is logged, counted and propagated. -/
def isWrite : Command → Bool
  | set | del | expire | incr | decr | incrby | decrby | setnx | setex | psetex | flushdb
  | flushall | lpush | rpush | lpop | rpop | lset | lrem | ltrim | sadd | srem | spop | hset | hdel
  | hincrby | zadd | zrem | zincrby | zpopmin | zpopmax | xadd | xtrim | xdel | xgroup | xack
  | xclaim | mset | append | setrange | rename | renamenx | persist | eval | evalsha => true
  | _ => false

/-- The name as `process_normal_command` reads it. -/
def rawName (bytes : Bytes) : String := toUppercase (fromUtf8Lossy bytes)

/-- The name as `process_frame` reads it: blanks around it do not count. -/
def cleanName (bytes : Bytes) : String := toUppercase (trim (fromUtf8Lossy bytes))

/-- No name in the table holds a blank. -/
theorem parse_no_whitespace {name : String} {c : Command} (h : parse name = some c) :
    ∀ ch ∈ name.toList, isWhitespace ch = false := by
  have htable : ∀ p ∈ table, p.1.toList.all fun ch => !isWhitespace ch := by decide +kernel
  obtain ⟨l₁, l₂, hl, -⟩ := List.lookup_eq_some_iff.mp h
  have hall := htable (name, c) (hl ▸ List.mem_append_right _ List.mem_cons_self)
  intro ch hch
  simpa using List.all_eq_true.mp hall ch hch

/-- A name that is in the table as it stands has no blanks around it. -/
theorem cleanName_of_parse {bytes : Bytes} {c : Command} (h : parse (rawName bytes) = some c) :
    cleanName bytes = rawName bytes := by
  have hno := parse_no_whitespace h
  rw [cleanName, rawName, trim_of_no_whitespace]
  intro ch hch
  cases hw : isWhitespace ch with
  | false => rfl
  | true =>
      have hmem : ch ∈ (rawName bytes).toList := by
        rw [rawName, toUppercase, String.toList_ofList]
        refine List.mem_flatMap.mpr ⟨ch, hch, ?_⟩
        rw [charToUppercase_of_whitespace hw]
        exact List.mem_singleton_self ch
      rw [hno ch hmem] at hw
      cases hw
end Command

end Ferrous
