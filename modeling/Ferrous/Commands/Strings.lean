/-
# `Commands.Strings` — string, counter and key space commands

The handlers of SET and its relatives, the counters, the commands on keys of
any type, and those on a whole database.  Errors of GET, SET, RENAME and the
key commands are passed on; those of the counters and of APPEND, STRLEN,
GETRANGE and SETRANGE become replies.
-/
import Ferrous.Commands.Handler

namespace Ferrous

open Lib Args

/-! ## SET and GET -/

/-- The options of SET. -/
structure SetOptions where
  expiration : Option Duration := none
  nx : Bool := false
  xx : Bool := false
  deriving DecidableEq

/-- The time behind EX or PX: strict UTF-8, then a `u64`. -/
def expireTime (p : RespFrame) : Option Nat := (p.bulk?.bind fromUtf8).bind parseU64

/-- The option loop of SET. -/
def setOptions : Parts → SetOptions → Args SetOptions
  | [], o => .ok o
  | p :: ps, o =>
      match word? p with
      | none => reject "ERR syntax error"
      | some w =>
          if w = "EX" then
            match ps with
            | [] => reject "ERR syntax error"
            | t :: ps =>
                match expireTime t with
                | some n => setOptions ps { o with expiration := some (fromSecs n) }
                | none => reject "ERR invalid expire time"
          else if w = "PX" then
            match ps with
            | [] => reject "ERR syntax error"
            | t :: ps =>
                match expireTime t with
                | some n => setOptions ps { o with expiration := some (fromMillis n) }
                | none => reject "ERR invalid expire time"
          else if w = "NX" then setOptions ps { o with nx := true }
          else if w = "XX" then setOptions ps { o with xx := true }
          else reject "ERR syntax error"

/-- The operation SET ends with when it is not NX. -/
def setString (value : Bytes) (expiration : Option Duration) : KeyCmd Unit :=
  .setValue (.string value) expiration

/-- `handle_set`. -/
def handleSet (db : Nat) (parts : Parts) : StoreProg RespFrame :=
  reading (do
    arity "set" (3 ≤ parts.length)
    let key ← nonEmptyKey parts 1
    let value ← bulk parts 2 "value"
    let o ← setOptions (parts.drop 3) {}
    return (key, value, o))
    fun (key, value, o) =>
      if o.nx then
        let stored (b : Bool) : RespFrame := if b then .ok else .nullBulk
        match o.expiration with
        | some d => onKey .raise db key (.setStringNxEx value d) stored
        | none => onKey .raise db key (.setStringNx value) stored
      else if o.xx then do
        let there ← need (.key db key .exists?)
        if there then onKey .raise db key (setString value o.expiration) fun _ => .ok
        else return .nullBulk
      else onKey .raise db key (setString value o.expiration) fun _ => .ok

/-- `handle_get`. -/
def handleGet (db : Nat) (parts : Parts) : StoreProg RespFrame :=
  reading (do
    arity "get" (parts.length == 2)
    nonEmptyKey parts 1)
    fun key => onKey .raise db key .getString .optBytes

/-- The loop of MGET: keys are checked and read one by one. -/
def mgetLoop (db : Nat) : Parts → List RespFrame → StoreProg RespFrame
  | [], values => return .list values
  | p :: ps, values =>
      reading (bulk [p] 0 "key") fun key => do
        let value ← need (.key db key .getString)
        mgetLoop db ps (values ++ [.optBytes value])

/-- `handle_mget`. -/
def handleMget (db : Nat) (parts : Parts) : StoreProg RespFrame :=
  reading (arity "mget" (2 ≤ parts.length)) fun _ => mgetLoop db (parts.drop 1) []

/-- The loop of MSET: each pair is stored before the next is looked at. -/
def msetLoop (db : Nat) : Parts → StoreProg RespFrame
  | k :: v :: ps =>
      reading (do
        let key ← bulk [k] 0 "key"
        let value ← bulk [v] 0 "value"
        return (key, value))
        fun (key, value) => do
          need (.key db key (setString value none))
          msetLoop db ps
  | _ => return .ok

/-- `handle_mset`. -/
def handleMset (db : Nat) (parts : Parts) : StoreProg RespFrame :=
  reading (arity "mset" (3 ≤ parts.length && parts.length % 2 != 0)) fun _ =>
    msetLoop db (parts.drop 1)

/-- `handle_getset`. -/
def handleGetset (db : Nat) (parts : Parts) : StoreProg RespFrame :=
  reading (do
    arity "getset" (parts.length == 3)
    let key ← bulk parts 1 "key"
    let value ← bulk parts 2 "value"
    return (key, value))
    fun (key, value) => do
      let old ← need (.key db key .getString)
      onKey .raise db key (setString value none) fun _ => .optBytes old

/-- `handle_setnx`: a test and a SET, each on its own. -/
def handleSetnx (db : Nat) (parts : Parts) : StoreProg RespFrame :=
  reading (do
    arity "setnx" (parts.length == 3)
    let key ← bulk parts 1 "key"
    let value ← bulk parts 2 "value"
    return (key, value))
    fun (key, value) => do
      let there ← need (.key db key .exists?)
      if there then return .integer 0
      else onKey .raise db key (setString value none) fun _ => .integer 1

/-- SETEX and PSETEX, with the unit of their time. -/
def setWithExpiry (cmd : String) (unit : Nat → Duration) (db : Nat) (parts : Parts) :
    StoreProg RespFrame :=
  reading (do
    arity cmd (parts.length == 4)
    let key ← bulk parts 1 "key"
    let n ← nat parts 2 "expiration"
    let value ← bulk parts 3 "value"
    return (key, n, value))
    fun (key, n, value) => onKey .raise db key (setString value (some (unit n))) fun _ => .ok

/-- `handle_setex`. -/
def handleSetex := setWithExpiry "setex" fromSecs

/-- `handle_psetex`. -/
def handlePsetex := setWithExpiry "psetex" fromMillis

/-- `handle_append`. -/
def handleAppend (db : Nat) (parts : Parts) : StoreProg RespFrame :=
  reading (do
    arity "append" (parts.length == 3)
    let key ← bulk parts 1 "key"
    let value ← bulk parts 2 "value"
    return (key, value))
    fun (key, value) => onKey .reply db key (.append value) count

/-- `handle_strlen`. -/
def handleStrlen := keyed "strlen" .reply .strlen count

/-- `handle_getrange`. -/
def handleGetrange (db : Nat) (parts : Parts) : StoreProg RespFrame :=
  reading (do
    arity "getrange" (parts.length == 4)
    let key ← bulk parts 1 "key"
    let start ← int parts 2 "start"
    let stop ← int parts 3 "end"
    return (key, start, stop))
    fun (key, start, stop) => onKey .reply db key (.getrange start stop) .fromBytes

/-- `handle_setrange`. -/
def handleSetrange (db : Nat) (parts : Parts) : StoreProg RespFrame :=
  reading (do
    arity "setrange" (parts.length == 4)
    let key ← bulk parts 1 "key"
    let offset ← nat parts 2 "offset"
    let value ← bulk parts 3 "value"
    return (key, offset, value))
    fun (key, offset, value) => onKey .reply db key (.setrange offset value) count

/-! ## Counters -/

/-- INCR and DECR; only INCR refuses an empty key. -/
def stepBy (cmd : String) (keyArg : Parts → Nat → Args Bytes) (n : Int) (db : Nat) (parts : Parts) :
    StoreProg RespFrame :=
  reading (do
    arity cmd (parts.length == 2)
    keyArg parts 1)
    fun key => onKey .replyText db key (.incrBy n) .integer

/-- `handle_incr`. -/
def handleIncr := stepBy "incr" nonEmptyKey 1

/-- `handle_decr`. -/
def handleDecr := stepBy "decr" (bulk · · "key") (-1)

/-- `handle_incrby`. -/
def handleIncrby (db : Nat) (parts : Parts) : StoreProg RespFrame :=
  reading (do
    arity "incrby" (parts.length == 3)
    let key ← nonEmptyKey parts 1
    let n ← int parts 2 "increment"
    return (key, n))
    fun (key, n) => onKey .replyText db key (.incrBy n) .integer

/-- `handle_decrby`: the negation of the least integer traps or wraps. -/
def handleDecrby (overflowChecks : Bool) (db : Nat) (parts : Parts) : StoreProg RespFrame :=
  reading (do
    arity "decrby" (parts.length == 3)
    let key ← bulk parts 1 "key"
    let n ← int parts 2 "decrement"
    return (key, n))
    fun (key, n) =>
      if overflowChecks && decide (n = -2 ^ 63) then .panic
      else onKey .replyText db key (.incrBy (wrapI64 (-n))) .integer

/-! ## Keys of any type -/

/-- DEL and EXISTS: count the keys for which the operation says yes; what is
not a bulk string is skipped. -/
def countKeys (c : KeyCmd Bool) (db : Nat) : Parts → Nat → StoreProg RespFrame
  | [], n => return count n
  | p :: ps, n =>
      match p.bulk? with
      | none => countKeys c db ps n
      | some key => do
          let yes ← need (.key db key c)
          countKeys c db ps (if yes then n + 1 else n)

/-- `handle_del`. -/
def handleDel (db : Nat) (parts : Parts) : StoreProg RespFrame :=
  reading (arity "del" (2 ≤ parts.length)) fun _ => countKeys .delete db (parts.drop 1) 0

/-- `handle_exists`. -/
def handleExists (db : Nat) (parts : Parts) : StoreProg RespFrame :=
  reading (arity "exists" (2 ≤ parts.length)) fun _ => countKeys .exists? db (parts.drop 1) 0

/-- `handle_expire`: a time that is not positive deletes the key. -/
def handleExpire (db : Nat) (parts : Parts) : StoreProg RespFrame :=
  reading (do
    arity "expire" (parts.length == 3)
    let key ← bulk parts 1 "key"
    let seconds ← int parts 2 "seconds"
    return (key, seconds))
    fun (key, seconds) =>
      if seconds ≤ 0 then onKey .raise db key .delete .flag
      else onKey .raise db key (.expire (fromSecs seconds.toNat)) .flag

/-- `handle_pexpire`. -/
def handlePexpire (db : Nat) (parts : Parts) : StoreProg RespFrame :=
  reading (do
    arity "pexpire" (parts.length == 3)
    let key ← bulk parts 1 "key"
    let millis ← nat parts 2 "milliseconds"
    return (key, millis))
    fun (key, millis) => onKey .raise db key (.expire (fromMillis millis)) .flag

/-- Seconds left, rounded up; less than a millisecond counts as expired. -/
def ttlSeconds (d : Duration) : Int :=
  let secs : Nat := d / 10 ^ 9
  let nanos : Nat := d % 10 ^ 9
  if secs = 0 ∧ nanos / 10 ^ 6 = 0 then -2
  else if secs = 0 ∧ 0 < nanos / 10 ^ 6 then 1
  else if 0 < nanos then secs + 1 else secs

/-- `handle_ttl`. -/
def handleTtl (db : Nat) (parts : Parts) : StoreProg RespFrame :=
  reading (do
    arity "ttl" (parts.length == 2)
    bulk parts 1 "key")
    fun key => do
      let left ← need (.key db key .ttl)
      match left with
      | some d => return .integer (ttlSeconds d)
      | none => onKey .raise db key .exists? fun there => .integer (if there then -1 else -2)

/-- `handle_pttl`. -/
def handlePttl := keyed "pttl" .raise .pttl .integer

/-- `handle_persist`. -/
def handlePersist := keyed "persist" .replyErr .persist .flag

/-- `handle_type`. -/
def handleType := keyed "type" .raise .keyType fun name => .simpleString name.toBytes

/-- `handle_rename`. -/
def handleRename (db : Nat) (parts : Parts) : StoreProg RespFrame :=
  reading (do
    arity "rename" (parts.length == 3)
    let old ← bulk parts 1 "key"
    let new ← bulk parts 2 "key"
    return (old, new))
    fun (old, new) => calling .raise (.store (.rename db old new)) fun _ => .ok

/-- `handle_renamenx`: two tests and a RENAME, each on its own. -/
def handleRenamenx (db : Nat) (parts : Parts) : StoreProg RespFrame :=
  reading (do
    arity "renamenx" (parts.length == 3)
    let old ← bulk parts 1 "old key"
    let new ← bulk parts 2 "new key"
    return (old, new))
    fun (old, new) => do
      let there ← need (.key db old .exists?)
      if !there then return .err "ERR no such key"
      else
        let taken ← need (.key db new .exists?)
        if taken then return .integer 0
        else calling .replyText (.store (.rename db old new)) fun _ => .integer 1

/-! ## Databases -/

/-- `handle_keys`. -/
def handleKeys (db : Nat) (parts : Parts) : StoreProg RespFrame :=
  reading (do
    arity "keys" (parts.length == 2)
    bulk parts 1 "pattern")
    fun pattern => calling .raise (.store (.keys db pattern)) items

/-- `handle_dbsize`. -/
def handleDbsize (db : Nat) (parts : Parts) : StoreProg RespFrame :=
  reading (arity "dbsize" (parts.length == 1)) fun _ =>
    calling .raise (.store (.getAllKeys db)) fun ks => count ks.length

/-- `handle_randomkey`. -/
def handleRandomkey (db : Nat) (parts : Parts) : StoreProg RespFrame :=
  reading (arity "randomkey" (parts.length == 1)) fun _ => do
    let ks ← need (.store (.getAllKeys db))
    if ks.isEmpty then return .nullBulk
    else
      let i ← need (.store (.draw ks.length))
      return .optBytes ks[i]?

/-- `handle_flushdb`. -/
def handleFlushdb (db : Nat) (parts : Parts) : StoreProg RespFrame :=
  reading (arity "flushdb" (parts.length == 1)) fun _ =>
    calling .replyErr (.store (.flushDb db)) fun _ => .ok

/-- The loop of FLUSHALL over the databases from `db` on; an error ends it. -/
def flushFrom (db : Nat) : Nat → StoreProg RespFrame
  | 0 => return .ok
  | n + 1 => .call (.store (.flushDb db)) fun
      | .ok _ => flushFrom (db + 1) n
      | .error e => .ret (.err ("ERR " ++ e.display))

/-- `handle_flushall`. -/
def handleFlushall (parts : Parts) : StoreProg RespFrame :=
  reading (arity "flushall" (parts.length == 1)) fun _ => do
    let n ← need (.store .databaseCount)
    flushFrom 0 n

/-! ## Commands that touch nothing -/

/-- `handle_ping`: the first argument, whatever it is, comes back. -/
def handlePing (parts : Parts) : RespFrame :=
  (parts[1]?).getD (.simpleString "PONG".toBytes)

/-- `handle_echo`. -/
def handleEcho (parts : Parts) : RespFrame :=
  match parts with
  | [_, p] => p
  | _ => .err "ERR wrong number of arguments for 'echo' command"

end Ferrous
