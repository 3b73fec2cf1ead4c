/-
# `Commands.SortedSets` — sorted set commands and the SCAN family

Errors of these commands are passed on.  ZADD and ZREM work through their
arguments one by one, so an argument that is refused comes after the earlier
ones have taken effect.
-/
import Ferrous.Commands.Handler

namespace Ferrous

open Lib Args

/-! ## Sorted sets -/

/-- A score in a reply (`f64::to_string`). -/
def scoreFrame (score : Float64) : RespFrame := .fromString score.toText

/-- Members with their scores in turn, or the members alone. -/
def memberFrames (withScores : Bool) (members : List (Bytes × Float64)) : RespFrame :=
  .list (members.flatMap fun m =>
    if withScores then [.fromBytes m.1, scoreFrame m.2] else [.fromBytes m.1])

def notFloat : String := "ERR value is not a valid float"

/-- The loop of ZADD: each pair is added before the next is looked at. -/
def zaddLoop (db : Nat) (key : Key) : Parts → Nat → StoreProg RespFrame
  | s :: m :: ps, added =>
      reading (do
        let score ← float notFloat [s] 0 "score"
        let member ← bulk [m] 0 "member"
        return (score, member))
        fun (score, member) => do
          let new ← need (.key db key (.zadd member score))
          zaddLoop db key ps (if new then added + 1 else added)
  | _, added => return count added

/-- `handle_zadd`. -/
def handleZadd (db : Nat) (parts : Parts) : StoreProg RespFrame :=
  reading (do
    arity "zadd" (4 ≤ parts.length && parts.length % 2 == 0)
    bulk parts 1 "key")
    fun key => zaddLoop db key (parts.drop 2) 0

/-- The loop of ZREM; what is not a bulk string is skipped. -/
def zremLoop (db : Nat) (key : Key) : Parts → Nat → StoreProg RespFrame
  | [], removed => return count removed
  | p :: ps, removed =>
      match p.bulk? with
      | none => zremLoop db key ps removed
      | some member => do
          let gone ← need (.key db key (.zrem member))
          zremLoop db key ps (if gone then removed + 1 else removed)

/-- `handle_zrem`. -/
def handleZrem (db : Nat) (parts : Parts) : StoreProg RespFrame :=
  reading (do
    arity "zrem" (3 ≤ parts.length)
    bulk parts 1 "key")
    fun key => zremLoop db key (parts.drop 2) 0

/-- A key and a member. -/
def keyAndMember (cmd : String) (parts : Parts) : Args (Key × Bytes) := do
  arity cmd (parts.length == 3)
  let key ← bulk parts 1 "key"
  let member ← bulk parts 2 "member"
  return (key, member)

/-- `handle_zscore`. -/
def handleZscore (db : Nat) (parts : Parts) : StoreProg RespFrame :=
  reading (keyAndMember "zscore" parts) fun (key, member) =>
    onKey .raise db key (.zscore member) fun score => (score.map scoreFrame).getD .nullBulk

/-- `handle_zcard`. -/
def handleZcard := keyed "zcard" .raise .zcard count

/-- ZRANK and ZREVRANK. -/
def ranking (cmd : String) (reverse : Bool) (db : Nat) (parts : Parts) : StoreProg RespFrame :=
  reading (keyAndMember cmd parts) fun (key, member) =>
    onKey .raise db key (.zrank member reverse) fun rank => (rank.map count).getD .nullBulk

/-- `handle_zrank`. -/
def handleZrank := ranking "zrank" false

/-- `handle_zrevrank`. -/
def handleZrevrank := ranking "zrevrank" true

/-- Whether a fifth part asks for the scores. -/
def withScores (parts : Parts) : Bool :=
  parts.length == 5 && (parts[4]?).bind word? == some "WITHSCORES"

/-- ZRANGE and ZREVRANGE. -/
def rangeByIndex (cmd : String) (reverse : Bool) (db : Nat) (parts : Parts) : StoreProg RespFrame :=
  reading (do
    arity cmd (4 ≤ parts.length && parts.length ≤ 5)
    let key ← bulk parts 1 "key"
    let start ← int parts 2 "start"
    let stop ← int parts 3 "stop"
    return (key, start, stop))
    fun (key, start, stop) =>
      onKey .raise db key (.zrange start stop reverse) (memberFrames (withScores parts))

/-- `handle_zrange`. -/
def handleZrange := rangeByIndex "zrange" false

/-- `handle_zrevrange`. -/
def handleZrevrange := rangeByIndex "zrevrange" true

def boundNotFloat : String := "ERR min or max is not a float"

/-- `handle_zrangebyscore`. -/
def handleZrangebyscore (db : Nat) (parts : Parts) : StoreProg RespFrame :=
  reading (do
    arity "zrangebyscore" (4 ≤ parts.length && parts.length ≤ 5)
    let key ← bulk parts 1 "key"
    let lo ← float boundNotFloat parts 2 "min score"
    let hi ← float boundNotFloat parts 3 "max score"
    return (key, lo, hi))
    fun (key, lo, hi) =>
      onKey .raise db key (.zrangebyscore lo hi false) (memberFrames (withScores parts))

/-- `handle_zrevrangebyscore`: the upper bound comes first. -/
def handleZrevrangebyscore (db : Nat) (parts : Parts) : StoreProg RespFrame :=
  reading (do
    arity "zrevrangebyscore" (4 ≤ parts.length && parts.length ≤ 5)
    let key ← bulk parts 1 "key"
    let hi ← float boundNotFloat parts 2 "max score"
    let lo ← float boundNotFloat parts 3 "min score"
    return (key, lo, hi))
    fun (key, lo, hi) =>
      onKey .raise db key (.zrangebyscore lo hi true) (memberFrames (withScores parts))

/-- `handle_zcount`. -/
def handleZcount (db : Nat) (parts : Parts) : StoreProg RespFrame :=
  reading (do
    arity "zcount" (parts.length == 4)
    let key ← bulk parts 1 "key"
    let lo ← float boundNotFloat parts 2 "min score"
    let hi ← float boundNotFloat parts 3 "max score"
    return (key, lo, hi))
    fun (key, lo, hi) => onKey .raise db key (.zcount lo hi) count

/-- `handle_zincrby`. -/
def handleZincrby (db : Nat) (parts : Parts) : StoreProg RespFrame :=
  reading (do
    arity "zincrby" (parts.length == 4)
    let key ← bulk parts 1 "key"
    let n ← float notFloat parts 2 "increment"
    let member ← bulk parts 3 "member"
    return (key, n, member))
    fun (key, n, member) => onKey .raise db key (.zincrby member n) scoreFrame

/-- What the pops answer. -/
def popped (results : List RespFrame) : RespFrame :=
  if results.isEmpty then .nullArray else .list results

/-- The loop of ZPOPMIN and ZPOPMAX: look at one end, remove what is there. -/
def popLoop (db : Nat) (key : Key) (position : Int) : Nat → List RespFrame → StoreProg RespFrame
  | 0, results => return popped results
  | n + 1, results => do
      let members ← need (.key db key (.zrange position position false))
      match members.head? with
      | none => return popped results
      | some (member, score) =>
          let gone ← need (.key db key (.zrem member))
          popLoop db key position n
            (if gone then results ++ [.fromBytes member, scoreFrame score] else results)

/-- ZPOPMIN and ZPOPMAX. -/
def popping (cmd : String) (position : Int) (db : Nat) (parts : Parts) : StoreProg RespFrame :=
  reading (do
    arity cmd (2 ≤ parts.length && parts.length ≤ 3)
    let key ← bulk parts 1 "key"
    let n ← if parts.length == 3 then nat parts 2 "count" else pure 1
    return (key, n))
    fun (key, n) => popLoop db key position n []

/-- `handle_zpopmin`. -/
def handleZpopmin := popping "zpopmin" 0

/-- `handle_zpopmax`. -/
def handleZpopmax := popping "zpopmax" (-1)

/-! ## SCAN -/

/-- The options of the SCAN family. -/
structure ScanOptions where
  pattern : Option Bytes := none
  typeFilter : Option String := none
  count : Nat := 10
  noValues : Bool := false

/-- The option loop; TYPE and NOVALUES are known to one command each. -/
def scanOptions (knowsType knowsNoValues : Bool) : Parts → ScanOptions → Args ScanOptions
  | [], o => .ok o
  | p :: ps, o =>
      match word? p with
      | none => reject "ERR syntax error"
      | some w =>
          if w = "MATCH" then
            match ps with
            | [] => reject "ERR syntax error"
            | a :: ps =>
                match a.bulk? with
                | some bytes => scanOptions knowsType knowsNoValues ps { o with pattern := some bytes }
                | none => reject "ERR syntax error"
          else if w = "COUNT" then
            match ps with
            | [] => reject "ERR syntax error"
            | a :: ps =>
                match a.bulk? with
                | none => reject "ERR syntax error"
                | some bytes =>
                    match parseU64 (fromUtf8Lossy bytes) with
                    | some n => scanOptions knowsType knowsNoValues ps { o with count := n }
                    | none => reject notInteger
          else if w = "TYPE" ∧ knowsType then
            match ps with
            | [] => reject "ERR syntax error"
            | a :: ps =>
                match a.bulk? with
                | some bytes =>
                    scanOptions knowsType knowsNoValues ps
                      { o with typeFilter := some (fromUtf8Lossy bytes) }
                | none => reject "ERR syntax error"
          else if w = "NOVALUES" ∧ knowsNoValues then
            scanOptions knowsType knowsNoValues ps { o with noValues := true }
          else reject "ERR syntax error"

/-- The next cursor and the page. -/
def pageFrame (next : Nat) (page : RespFrame) : RespFrame :=
  .list [.fromString (toString next), page]

/-- A scan cursor. -/
def cursor (parts : Parts) (i : Nat) : Args Nat :=
  numeral parseU64 "ERR invalid cursor" parts i "cursor"

/-- `handle_scan`. -/
def handleScan (db : Nat) (parts : Parts) : StoreProg RespFrame :=
  reading (do
    arity "scan" (2 ≤ parts.length)
    let c ← cursor parts 1
    let o ← scanOptions true false (parts.drop 2) {}
    return (c, o))
    fun (c, o) => calling .raise (.store (.scan db c o.pattern o.typeFilter o.count)) fun r =>
      pageFrame r.1 (items r.2)

/-- HSCAN, SSCAN and ZSCAN. -/
def scanningKey {α : Type} (cmd : String) (knowsNoValues : Bool)
    (c : Nat → ScanOptions → KeyCmd (Nat × α)) (render : α → RespFrame) (db : Nat) (parts : Parts) :
    StoreProg RespFrame :=
  reading (do
    arity cmd (3 ≤ parts.length)
    let key ← bulk parts 1 "key"
    let cur ← cursor parts 2
    let o ← scanOptions false knowsNoValues (parts.drop 3) {}
    return (key, cur, o))
    fun (key, cur, o) => onKey .raise db key (c cur o) fun r => pageFrame r.1 (render r.2)

/-- `handle_hscan`. -/
def handleHscan :=
  scanningKey "hscan" true (fun cur o => .hscan cur o.pattern o.count o.noValues) items

/-- `handle_sscan`. -/
def handleSscan := scanningKey "sscan" false (fun cur o => .sscan cur o.pattern o.count) items

/-- `handle_zscan`. -/
def handleZscan :=
  scanningKey "zscan" false (fun cur o => .zscan cur o.pattern o.count) (memberFrames true)

end Ferrous
