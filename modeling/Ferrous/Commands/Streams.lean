/-
# `Commands.Streams` — stream commands

XADD, the range and read commands, XTRIM and XDEL.  All of them pass engine
errors on, except that XADD with an explicit ID answers them.
-/
import Ferrous.Commands.Handler

namespace Ferrous

open Lib Args

/-! ## IDs and entries -/

def invalidStreamId : String := "ERR Invalid stream ID specified as stream command argument"

/-- A stream ID argument; `special` are the texts that stand for an ID. -/
def idArg (special : List (String × StreamId)) (complaint : String) (parts : Parts) (i : Nat)
    (what : String) : Args StreamId :=
  numeral (fun s => (special.lookup s).or (StreamId.fromString s)) complaint parts i what

/-- The remaining arguments, each an ID. -/
def idArgs (complaint : String) : Parts → Args (List StreamId)
  | [] => .ok []
  | p :: ps => do
      let id ← idArg [] complaint [p] 0 "ID"
      let ids ← idArgs complaint ps
      return id :: ids

/-- The frames of an entry: its ID, then fields and values in turn. -/
def entryFrame (e : StreamEntry) : RespFrame :=
  .list [.fromString e.id.toText, items (e.fields.toPairs.flatMap fun p => [p.1, p.2])]

def entriesFrame (es : List StreamEntry) : RespFrame := .list (es.map entryFrame)

/-- A stream's key and entries, as XREAD and XREADGROUP answer them. -/
def streamFrame (key : Key) (es : List StreamEntry) : RespFrame :=
  .list [.fromBytes key, entriesFrame es]

/-! ## XADD -/

/-- The fields of an entry; a later one replaces an earlier one of the same name. -/
def fieldArgs : Parts → Map Bytes Bytes → Args (Map Bytes Bytes)
  | f :: v :: ps, fields => do
      let field ← bulk [f] 0 "field"
      let value ← bulk [v] 0 "value"
      fieldArgs ps (fields.set field value)
  | _, fields => .ok fields

/-- Whether a text occurs in another. -/
def containsText (s sub : String) : Bool := s.toList.tails.any (sub.toList.isPrefixOf ·)

/-- The reply to a refused explicit ID. -/
def xaddError (e : FerrousError) : RespFrame :=
  if containsText e.display "equal or smaller" || containsText e.display "already exists" then
    .err "ERR The ID specified in XADD is equal or smaller than the target stream top item"
  else .err ("ERR " ++ e.display)

/-- `handle_xadd`.  The ID parser works on bytes and refuses all but digits, so
decoding before it makes no difference. -/
def handleXadd (db : Nat) (parts : Parts) : StoreProg RespFrame :=
  reading (do
    arity "xadd" (4 ≤ parts.length && (parts.length - 3) % 2 == 0)
    let key ← bulk parts 1 "key"
    let id ← bulk parts 2 "ID"
    let fields ← fieldArgs (parts.drop 3) ∅
    return (key, id, fields))
    fun (key, id, fields) =>
      let added (i : StreamId) : RespFrame := .fromString i.toText
      if id = "*".toBytes then onKey .raise db key (.xadd fields) added
      else
        match StreamId.fromString (fromUtf8Lossy id) with
        | none => .ret (.err invalidStreamId)
        | some i =>
            if i.millis = 0 ∧ i.seq = 0 then
              .ret (.err "ERR The ID specified in XADD must be greater than 0-0")
            else
              .call (.key db key (.xaddWithId i fields)) fun
                | .ok i' => .ret (added i')
                | .error e => .ret (xaddError e)

/-! ## Ranges -/

/-- `COUNT n` at the end of a range command; anything else is ignored. -/
def rangeCount (parts : Parts) : Args (Option Nat) :=
  if 6 ≤ parts.length ∧ (parts[4]?).bind word? = some "COUNT" then
    (nat parts 5 "count").map some
  else .ok none

/-- The lower end of a range. -/
def startArg (parts : Parts) (i : Nat) : Args StreamId :=
  idArg [("-", StreamId.min)] invalidStreamId parts i "start ID"

/-- The upper end of a range. -/
def endArg (parts : Parts) (i : Nat) : Args StreamId :=
  idArg [("+", StreamId.max)] invalidStreamId parts i "end ID"

/-- `handle_xrange`. -/
def handleXrange (db : Nat) (parts : Parts) : StoreProg RespFrame :=
  reading (do
    arity "xrange" (4 ≤ parts.length)
    let key ← bulk parts 1 "key"
    let start ← startArg parts 2
    let stop ← endArg parts 3
    let n ← rangeCount parts
    return (key, start, stop, n))
    fun (key, start, stop, n) => onKey .raise db key (.xrange start stop n false) entriesFrame

/-- `handle_xrevrange`: the upper end comes first, and a single further
argument is a count if it reads as one. -/
def handleXrevrange (db : Nat) (parts : Parts) : StoreProg RespFrame :=
  reading (do
    arity "xrevrange" (4 ≤ parts.length)
    let key ← bulk parts 1 "key"
    let stop ← endArg parts 2
    let start ← startArg parts 3
    let n ← if parts.length = 5 then
        .ok (((parts[4]?).bind RespFrame.bulk?).bind fun bytes => parseU64 (fromUtf8Lossy bytes))
      else rangeCount parts
    return (key, start, stop, n))
    fun (key, start, stop, n) => onKey .raise db key (.xrange start stop n true) entriesFrame

/-- `handle_xlen`. -/
def handleXlen := keyed "xlen" .raise .xlen count

/-! ## XREAD -/

/-- The options of XREAD up to STREAMS: the count, and what comes after.  A
BLOCK time is checked and then ignored. -/
def xreadOptions : Parts → Option Nat → Args (Option Nat × Parts)
  | [], _ => reject "ERR syntax error"
  | p :: ps, n =>
      match word? p with
      | none => reject "ERR syntax error"
      | some w =>
          if w = "COUNT" then
            match ps with
            | [] => reject "ERR syntax error"
            | v :: ps =>
                match v.bulk? with
                | none => reject "ERR invalid count value"
                | some bytes =>
                    match parseU64 (fromUtf8Lossy bytes) with
                    | some n => xreadOptions ps (some n)
                    | none => reject notInteger
          else if w = "BLOCK" then
            match ps with
            | [] => reject "ERR syntax error"
            | v :: ps =>
                match v.bulk? with
                | none => reject "ERR invalid timeout value"
                | some bytes =>
                    match parseU64 (fromUtf8Lossy bytes) with
                    | some _ => xreadOptions ps n
                    | none => reject "ERR timeout is not a float or out of range"
          else if w = "STREAMS" then .ok (n, ps)
          else reject "ERR syntax error"

/-- Keys in the first half, IDs in the second. -/
def keysAndIds (unbalanced : String) (rest : Parts) : Args (List (RespFrame × RespFrame)) :=
  if rest.isEmpty then reject "ERR syntax error"
  else if rest.length % 2 ≠ 0 then reject unbalanced
  else .ok ((rest.take (rest.length / 2)).zip (rest.drop (rest.length / 2)))

/-- The loop that reads keys and IDs; `$` asks for the stream's last ID. -/
def xreadLoop (db : Nat) (n : Option Nat) :
    List (RespFrame × RespFrame) → List (Key × StreamId) → StoreProg RespFrame
  | [], acc =>
      calling .raise (.store (.xread db acc n none)) fun results =>
        .list ((results.filter fun r => !r.2.isEmpty).map fun r => streamFrame r.1 r.2)
  | (k, i) :: rest, acc =>
      reading (do
        let key ← bulk [k] 0 "key"
        let id ← bulk [i] 0 "ID"
        return (key, fromUtf8Lossy id))
        fun (key, id) =>
          if id = "$" then do
            let all ← need (.key db key (.xrange StreamId.min StreamId.max none false))
            let last := (all.getLast?.map (·.id)).getD (StreamId.new 0 0)
            xreadLoop db n rest (acc ++ [(key, last)])
          else if id = "0" ∨ id = "0-0" then xreadLoop db n rest (acc ++ [(key, StreamId.new 0 0)])
          else
            match StreamId.fromString id with
            | some after => xreadLoop db n rest (acc ++ [(key, after)])
            | none => .ret (.err invalidStreamId)

/-- `handle_xread`. -/
def handleXread (db : Nat) (parts : Parts) : StoreProg RespFrame :=
  reading (do
    arity "xread" (4 ≤ parts.length)
    let (n, rest) ← xreadOptions (parts.drop 1) none
    let pairs ← keysAndIds ("ERR Unbalanced XREAD list of streams: for each stream key an ID " ++
      "or '$' must be specified.") rest
    return (n, pairs))
    fun (n, pairs) => xreadLoop db n pairs []

/-! ## XTRIM and XDEL -/

/-- The length behind MAXLEN, with or without `~` or `=` before it. -/
def maxLenArg (parts : Parts) : Args Nat :=
  let number (i : Nat) : Args Nat :=
    match ((parts[i]?).bind RespFrame.bulk?).bind fun bytes => parseU64 (fromUtf8Lossy bytes) with
    | some n => .ok n
    | none => reject notInteger
  let text := ((parts[3]?).bind RespFrame.bulk?).map fromUtf8Lossy
  let modifier := text == some "~" || text == some "="
  if parts.length = 5 then
    if modifier then number 4
    else
      match text.bind parseU64 with
      | some n => .ok n
      | none => reject "ERR syntax error"
  else if parts.length = 4 then
    if modifier then reject "ERR syntax error" else number 3
  else reject "ERR wrong number of arguments for 'xtrim' command"

/-- `handle_xtrim`. -/
def handleXtrim (db : Nat) (parts : Parts) : StoreProg RespFrame :=
  reading (do
    arity "xtrim" (4 ≤ parts.length)
    let key ← bulk parts 1 "key"
    let strategy ← bulk parts 2 "strategy"
    if toUppercase (fromUtf8Lossy strategy) ≠ "MAXLEN" then reject "ERR syntax error"
    let n ← maxLenArg parts
    return (key, n))
    fun (key, n) => onKey .raise db key (.xtrim n) count

/-- `handle_xdel`. -/
def handleXdel (db : Nat) (parts : Parts) : StoreProg RespFrame :=
  reading (do
    arity "xdel" (3 ≤ parts.length)
    let key ← bulk parts 1 "key"
    let ids ← idArgs invalidStreamId (parts.drop 2)
    return (key, ids))
    fun (key, ids) => onKey .raise db key (.xdel ids) count

end Ferrous
