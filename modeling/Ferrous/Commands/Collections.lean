/-
# `Commands.Collections` — list, set and hash commands

All of these turn engine errors into replies.  The removing commands SREM and
HDEL skip arguments that are not bulk strings; the others refuse them.
-/
import Ferrous.Commands.Handler

namespace Ferrous

open Lib Args

/-! ## Argument shapes -/

/-- A key and one or more values, every one of them a bulk string. -/
def keyAndAll (cmd what : String) (parts : Parts) : Args (Key × List Bytes) := do
  arity cmd (3 ≤ parts.length)
  let key ← bulk parts 1 "key"
  let values ← bulks what (parts.drop 2)
  return (key, values)

theorem length_bulks {what : String} {values : List Bytes} : ∀ {ps : Parts}, bulks what ps = .ok values →
    values.length = ps.length
  | [], h => by
      cases h
      rfl
  | p :: ps, h => by
      unfold bulks at h
      split at h
      · cases hrest : bulks what ps with
        | error f =>
            rw [hrest] at h
            cases h
        | ok rest =>
            rw [hrest] at h
            cases h
            exact congrArg Nat.succ (length_bulks hrest)
      · cases h

/-- There is a value for every part behind the key, and at least one. -/
theorem keyAndAll_ok {cmd what : String} {parts : Parts} {key : Key} {values : List Bytes}
    (h : keyAndAll cmd what parts = .ok (key, values)) :
    3 ≤ parts.length ∧ (parts[1]?).bind RespFrame.bulk? = some key ∧ values.length = parts.length - 2 := by
  obtain ⟨_, harity, h⟩ := bind_ok h
  obtain ⟨key', hkey, h⟩ := bind_ok h
  obtain ⟨values', hvalues, h⟩ := bind_ok h
  cases h
  exact ⟨of_decide_eq_true (arity_ok harity), bulk_ok hkey, (length_bulks hvalues).trans List.length_drop⟩

/-- A key and one or more values; those that are not bulk strings are skipped. -/
def keyAndSome (cmd : String) (parts : Parts) : Args (Key × List Bytes) := do
  arity cmd (3 ≤ parts.length)
  let key ← bulk parts 1 "key"
  return (key, (parts.drop 2).filterMap RespFrame.bulk?)

/-- A key and one further bulk string. -/
def keyAndOne (cmd what : String) (parts : Parts) : Args (Key × Bytes) := do
  arity cmd (parts.length == 3)
  let key ← bulk parts 1 "key"
  let value ← bulk parts 2 what
  return (key, value)

/-- A key and the two ends of a range. -/
def keyAndRange (cmd : String) (parts : Parts) : Args (Key × Int × Int) := do
  arity cmd (parts.length == 4)
  let key ← bulk parts 1 "key"
  let start ← int parts 2 "start"
  let stop ← int parts 3 "stop"
  return (key, start, stop)

/-! ## Lists -/

/-- LPUSH and RPUSH. -/
def pushing (cmd : String) (c : List Bytes → KeyCmd Nat) (db : Nat) (parts : Parts) :
    StoreProg RespFrame :=
  reading (keyAndAll cmd "element" parts) fun (key, elements) =>
    onKey .reply db key (c elements) count

/-- `handle_lpush`. -/
def handleLpush := pushing "lpush" .lpush

/-- `handle_rpush`. -/
def handleRpush := pushing "rpush" .rpush

/-- `handle_lpop`. -/
def handleLpop := keyed "lpop" .reply .lpop .optBytes

/-- `handle_rpop`. -/
def handleRpop := keyed "rpop" .reply .rpop .optBytes

/-- `handle_llen`. -/
def handleLlen := keyed "llen" .reply .llen count

/-- `handle_lrange`. -/
def handleLrange (db : Nat) (parts : Parts) : StoreProg RespFrame :=
  reading (keyAndRange "lrange" parts) fun (key, start, stop) =>
    onKey .reply db key (.lrange start stop) items

/-- `handle_lindex`. -/
def handleLindex (db : Nat) (parts : Parts) : StoreProg RespFrame :=
  reading (do
    arity "lindex" (parts.length == 3)
    let key ← bulk parts 1 "key"
    let index ← int parts 2 "index"
    return (key, index))
    fun (key, index) => onKey .reply db key (.lindex index) .optBytes

/-- `handle_lset`. -/
def handleLset (db : Nat) (parts : Parts) : StoreProg RespFrame :=
  reading (do
    arity "lset" (parts.length == 4)
    let key ← bulk parts 1 "key"
    let index ← int parts 2 "index"
    let value ← bulk parts 3 "value"
    return (key, index, value))
    fun (key, index, value) => onKey .reply db key (.lset index value) fun _ => .ok

/-- `handle_ltrim`. -/
def handleLtrim (db : Nat) (parts : Parts) : StoreProg RespFrame :=
  reading (keyAndRange "ltrim" parts) fun (key, start, stop) =>
    onKey .reply db key (.ltrim start stop) fun _ => .ok

/-- `handle_lrem`. -/
def handleLrem (db : Nat) (parts : Parts) : StoreProg RespFrame :=
  reading (do
    arity "lrem" (parts.length == 4)
    let key ← bulk parts 1 "key"
    let n ← int parts 2 "count"
    let element ← bulk parts 3 "element"
    return (key, n, element))
    fun (key, n, element) => onKey .reply db key (.lrem n element) count

/-! ## Sets -/

/-- `handle_sadd`. -/
def handleSadd (db : Nat) (parts : Parts) : StoreProg RespFrame :=
  reading (keyAndAll "sadd" "member" parts) fun (key, members) =>
    onKey .reply db key (.sadd members) count

/-- `handle_srem`. -/
def handleSrem (db : Nat) (parts : Parts) : StoreProg RespFrame :=
  reading (keyAndSome "srem" parts) fun (key, members) =>
    onKey .reply db key (.srem members) count

/-- `handle_smembers`. -/
def handleSmembers := keyed "smembers" .reply .smembers items

/-- `handle_sismember`. -/
def handleSismember (db : Nat) (parts : Parts) : StoreProg RespFrame :=
  reading (keyAndOne "sismember" "member" parts) fun (key, member) =>
    onKey .reply db key (.sismember member) .flag

/-- `handle_scard`. -/
def handleScard := keyed "scard" .reply .scard count

/-- SUNION, SINTER and SDIFF. -/
def combining (cmd : String) (c : Nat → List Key → StoreCmd (List Bytes)) (db : Nat)
    (parts : Parts) : StoreProg RespFrame :=
  reading (do
    arity cmd (2 ≤ parts.length)
    bulks "key" (parts.drop 1))
    fun keys => calling .reply (.store (c db keys)) items

/-- `handle_sunion`. -/
def handleSunion := combining "sunion" .sunion

/-- `handle_sinter`. -/
def handleSinter := combining "sinter" .sinter

/-- `handle_sdiff`. -/
def handleSdiff := combining "sdiff" .sdiff

/-- `handle_srandmember`: without a count the last of a draw of one. -/
def handleSrandmember (db : Nat) (parts : Parts) : StoreProg RespFrame :=
  reading (do
    arity "srandmember" (2 ≤ parts.length && parts.length ≤ 3)
    let key ← bulk parts 1 "key"
    let n ← if parts.length == 3 then (int parts 2 "count").map some else pure none
    return (key, n))
    fun (key, n) =>
      match n with
      | none => onKey .reply db key (.srandmember 1) fun members => .optBytes members.getLast?
      | some n => onKey .reply db key (.srandmember n) items

/-- `handle_spop`. -/
def handleSpop (db : Nat) (parts : Parts) : StoreProg RespFrame :=
  reading (do
    arity "spop" (2 ≤ parts.length && parts.length ≤ 3)
    let key ← bulk parts 1 "key"
    let n ← if parts.length == 3 then nat parts 2 "count" else pure 1
    return (key, n))
    fun (key, n) => onKey .reply db key (.spop n) fun members =>
      if parts.length == 2 && n == 1 then .optBytes members.head? else items members

/-! ## Hashes -/

/-- The field and value arguments of HSET and HMSET. -/
def fieldValues : Parts → Args (List (Bytes × Bytes))
  | f :: v :: ps => do
      let field ← bulk [f] 0 "field"
      let value ← bulk [v] 0 "value"
      let rest ← fieldValues ps
      return (field, value) :: rest
  | _ => .ok []

/-- A field with its value, where there are two parts. -/
theorem fieldValues_ne_nil {fvs : List (Bytes × Bytes)} : ∀ {ps : Parts}, fieldValues ps = .ok fvs →
    2 ≤ ps.length → fvs ≠ []
  | [], _, hlen => absurd hlen (Nat.not_succ_le_zero 1)
  | [_], _, hlen => absurd (Nat.le_of_succ_le_succ hlen) (Nat.not_succ_le_zero 0)
  | f :: v :: ps, h, _ => by
      obtain ⟨field, -, h⟩ := bind_ok h
      obtain ⟨value, -, h⟩ := bind_ok h
      obtain ⟨rest, -, h⟩ := bind_ok h
      cases h
      exact List.cons_ne_nil _ _

/-- HSET and HMSET, which differ in the reply. -/
def settingFields (cmd : String) (render : Nat → RespFrame) (db : Nat) (parts : Parts) :
    StoreProg RespFrame :=
  reading (do
    arity cmd (4 ≤ parts.length && (parts.length - 2) % 2 == 0)
    let key ← bulk parts 1 "key"
    let fvs ← fieldValues (parts.drop 2)
    return (key, fvs))
    fun (key, fvs) => onKey .reply db key (.hset fvs) render

/-- `handle_hset`. -/
def handleHset := settingFields "hset" count

/-- `handle_hmset`. -/
def handleHmset := settingFields "hmset" fun _ => .ok

/-- `handle_hget`. -/
def handleHget (db : Nat) (parts : Parts) : StoreProg RespFrame :=
  reading (keyAndOne "hget" "field" parts) fun (key, field) =>
    onKey .reply db key (.hget field) .optBytes

/-- `handle_hmget`. -/
def handleHmget (db : Nat) (parts : Parts) : StoreProg RespFrame :=
  reading (keyAndAll "hmget" "field" parts) fun (key, fields) =>
    onKey .reply db key (.hmget fields) fun values => .list (values.map .optBytes)

/-- `handle_hgetall`. -/
def handleHgetall := keyed "hgetall" .reply .hgetall fun fvs =>
  items (fvs.flatMap fun fv => [fv.1, fv.2])

/-- `handle_hdel`. -/
def handleHdel (db : Nat) (parts : Parts) : StoreProg RespFrame :=
  reading (keyAndSome "hdel" parts) fun (key, fields) =>
    onKey .reply db key (.hdel fields) count

/-- `handle_hlen`. -/
def handleHlen := keyed "hlen" .reply .hlen count

/-- `handle_hexists`. -/
def handleHexists (db : Nat) (parts : Parts) : StoreProg RespFrame :=
  reading (keyAndOne "hexists" "field" parts) fun (key, field) =>
    onKey .reply db key (.hexists field) .flag

/-- `handle_hkeys`. -/
def handleHkeys := keyed "hkeys" .reply .hkeys items

/-- `handle_hvals`. -/
def handleHvals := keyed "hvals" .reply .hvals items

/-- `handle_hincrby`. -/
def handleHincrby (db : Nat) (parts : Parts) : StoreProg RespFrame :=
  reading (do
    arity "hincrby" (parts.length == 4)
    let key ← bulk parts 1 "key"
    let field ← bulk parts 2 "field"
    let n ← int parts 3 "increment"
    return (key, field, n))
    fun (key, field, n) => onKey .reply db key (.hincrby field n) .integer

end Ferrous
