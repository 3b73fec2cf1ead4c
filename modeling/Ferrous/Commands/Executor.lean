/-
# `Commands.Executor` — the typed commands of scripts

`redis.call` does not use the handlers: `CommandParser` makes a typed command of
the frames, and `UnifiedCommandExecutor` carries it out.  Both pass every error on.
Of the commands the counters are here, and of the sorted sets the ranges, the pops and
the removals.
-/
import Ferrous.Commands.SortedSets

namespace Ferrous

open Lib

/-! ## Commands -/

/-- `StringCommand`, the counters. -/
inductive StringCommand
  | incr (key : Key)
  | incrBy (key : Key) (increment : Int)
  | decr (key : Key)
  | decrBy (key : Key) (decrement : Int)
  deriving DecidableEq, Repr

/-- `HashCommand`, the counter. -/
inductive HashCommand
  | hIncrBy (key : Key) (field : Bytes) (increment : Int)
  deriving DecidableEq, Repr

/-- `SortedSetCommand`, the ranges, the pops and the removals. -/
inductive SortedSetCommand
  | zRange (key : Key) (start stop : Int) (withScores : Bool)
  | zRangeByScore (key : Key) (minScore maxScore : Float64) (withScores : Bool)
  | zPopMin (key : Key) (count : Option Nat)
  | zPopMax (key : Key) (count : Option Nat)
  | zRemRangeByRank (key : Key) (start stop : Int)
  | zRemRangeByScore (key : Key) (minScore maxScore : Float64)
  deriving DecidableEq, Repr

/-! ## Parser -/

namespace CommandParser

/-- `extract_string`. -/
def extractString (frame : RespFrame) : Except FerrousError String :=
  match frame.bulk? with
  | some bytes =>
      match fromUtf8 bytes with
      | some s => .ok s
      | none => .error (.command .invalidUtf8)
  | none => .error (.command .invalidArgumentType)

/-- `extract_bytes`. -/
def extractBytes (frame : RespFrame) : Except FerrousError Bytes :=
  match frame.bulk? with
  | some bytes => .ok bytes
  | none => .error (.command .invalidArgumentType)

/-- `extract_string(..)?.parse::<i64>()`. -/
def extractI64 (frame : RespFrame) : Except FerrousError Int := do
  let text ← extractString frame
  match parseI64 text with
  | some n => .ok n
  | none => .error (.command .invalidIntegerValue)

/-- `parse_incr`. -/
def parseIncr : Parts → Except FerrousError StringCommand
  | [_, key] => return .incr (← extractBytes key)
  | _ => .error (.command (.wrongNumberOfArguments "INCR"))

/-- `parse_incrby`: the number is read before the key. -/
def parseIncrby : Parts → Except FerrousError StringCommand
  | [_, key, increment] => do
      let n ← extractI64 increment
      return .incrBy (← extractBytes key) n
  | _ => .error (.command (.wrongNumberOfArguments "INCRBY"))

/-- `parse_decr`. -/
def parseDecr : Parts → Except FerrousError StringCommand
  | [_, key] => return .decr (← extractBytes key)
  | _ => .error (.command (.wrongNumberOfArguments "DECR"))

/-- `parse_decrby`. -/
def parseDecrby : Parts → Except FerrousError StringCommand
  | [_, key, decrement] => do
      let n ← extractI64 decrement
      return .decrBy (← extractBytes key) n
  | _ => .error (.command (.wrongNumberOfArguments "DECRBY"))

/-- `parse_hincrby`. -/
def parseHincrby : Parts → Except FerrousError HashCommand
  | [_, key, field, increment] => do
      let n ← extractI64 increment
      return .hIncrBy (← extractBytes key) (← extractBytes field) n
  | _ => .error (.command (.wrongNumberOfArguments "HINCRBY"))

/-- `extract_string(..)?.parse::<usize>()`. -/
def extractUsize (frame : RespFrame) : Except FerrousError Nat := do
  let text ← extractString frame
  match parseU64 text with
  | some n => .ok n
  | none => .error (.command .invalidIntegerValue)

/-- `extract_string(..)?.parse::<f64>()`. -/
def extractF64 (frame : RespFrame) : Except FerrousError Float64 := do
  let text ← extractString frame
  match Float64.parse text with
  | some x => .ok x
  | none => .error (.command .invalidFloatValue)

/-- Whether a fifth frame asks for the scores. -/
def extractWithScores : Parts → Except FerrousError Bool
  | [] => .ok false
  | option :: _ => return toUppercase (← extractString option) == "WITHSCORES"

/-- `parse_zrange`. -/
def parseZrange : Parts → Except FerrousError SortedSetCommand
  | _ :: key :: start :: stop :: options =>
      if 1 < options.length then .error (.command (.wrongNumberOfArguments "ZRANGE"))
      else do
        let first ← extractI64 start
        let last ← extractI64 stop
        let withScores ← extractWithScores options
        return .zRange (← extractBytes key) first last withScores
  | _ => .error (.command (.wrongNumberOfArguments "ZRANGE"))

/-- `parse_zrangebyscore`. -/
def parseZrangebyscore : Parts → Except FerrousError SortedSetCommand
  | _ :: key :: lo :: hi :: options =>
      if 1 < options.length then .error (.command (.wrongNumberOfArguments "ZRANGEBYSCORE"))
      else do
        let minScore ← extractF64 lo
        let maxScore ← extractF64 hi
        let withScores ← extractWithScores options
        return .zRangeByScore (← extractBytes key) minScore maxScore withScores
  | _ => .error (.command (.wrongNumberOfArguments "ZRANGEBYSCORE"))

/-- `parse_zpopmin`. -/
def parseZpopmin : Parts → Except FerrousError SortedSetCommand
  | [_, key] => return .zPopMin (← extractBytes key) none
  | [_, key, count] => do
      let n ← extractUsize count
      return .zPopMin (← extractBytes key) (some n)
  | _ => .error (.command (.wrongNumberOfArguments "ZPOPMIN"))

/-- `parse_zpopmax`. -/
def parseZpopmax : Parts → Except FerrousError SortedSetCommand
  | [_, key] => return .zPopMax (← extractBytes key) none
  | [_, key, count] => do
      let n ← extractUsize count
      return .zPopMax (← extractBytes key) (some n)
  | _ => .error (.command (.wrongNumberOfArguments "ZPOPMAX"))

/-- `parse_zremrangebyrank`. -/
def parseZremrangebyrank : Parts → Except FerrousError SortedSetCommand
  | [_, key, start, stop] => do
      let first ← extractI64 start
      let last ← extractI64 stop
      return .zRemRangeByRank (← extractBytes key) first last
  | _ => .error (.command (.wrongNumberOfArguments "ZREMRANGEBYRANK"))

/-- `parse_zremrangebyscore`. -/
def parseZremrangebyscore : Parts → Except FerrousError SortedSetCommand
  | [_, key, lo, hi] => do
      let minScore ← extractF64 lo
      let maxScore ← extractF64 hi
      return .zRemRangeByScore (← extractBytes key) minScore maxScore
  | _ => .error (.command (.wrongNumberOfArguments "ZREMRANGEBYSCORE"))

/-! ## Numerals among the frames -/

section Numerals

variable {text : Bytes}

theorem extractString_of_text {s : String} (h : fromUtf8 text = some s) :
    extractString (.fromBytes text) = .ok s := by
  simp only [extractString, RespFrame.fromBytes, RespFrame.bulk?, h]

theorem extractI64_of_text {n : Int} (h : (fromUtf8 text).bind parseI64 = some n) :
    extractI64 (.fromBytes text) = .ok n := by
  obtain ⟨s, hs, hn⟩ := Option.bind_eq_some_iff.mp h
  unfold extractI64
  rw [extractString_of_text hs]
  simp only [bind, Except.bind, hn]

theorem extractUsize_of_text {n : Nat} (h : (fromUtf8 text).bind parseU64 = some n) :
    extractUsize (.fromBytes text) = .ok n := by
  obtain ⟨s, hs, hn⟩ := Option.bind_eq_some_iff.mp h
  unfold extractUsize
  rw [extractString_of_text hs]
  simp only [bind, Except.bind, hn]

theorem extractF64_of_text {x : Float64} (h : (fromUtf8 text).bind Float64.parse = some x) :
    extractF64 (.fromBytes text) = .ok x := by
  obtain ⟨s, hs, hx⟩ := Option.bind_eq_some_iff.mp h
  unfold extractF64
  rw [extractString_of_text hs]
  simp only [bind, Except.bind, hx]

end Numerals

end CommandParser

/-! ## Execution -/

namespace Executor

/-- `execute_string`: the negation of the least integer traps or wraps. -/
def executeString (overflowChecks : Bool) (db : Nat) : StringCommand → StoreProg RespFrame
  | .incr key => onKey .raise db key (.incrBy 1) .integer
  | .incrBy key increment => onKey .raise db key (.incrBy increment) .integer
  | .decr key => onKey .raise db key (.incrBy (-1)) .integer
  | .decrBy key decrement =>
      if overflowChecks && decide (decrement = -2 ^ 63) then .panic
      else onKey .raise db key (.incrBy (wrapI64 (-decrement))) .integer

/-- `execute_hash`. -/
def executeHash (db : Nat) : HashCommand → StoreProg RespFrame
  | .hIncrBy key field increment => onKey .raise db key (.hincrby field increment) .integer

/-- The loop of ZPOPMIN and ZPOPMAX: it ends where nothing is left, and where the member
just seen is gone. -/
def popLoop (db : Nat) (key : Key) (position : Int) : Nat → List RespFrame → StoreProg RespFrame
  | 0, popped => return .list popped
  | n + 1, popped => do
      let members ← need (.key db key (.zrange position position false))
      match members.head? with
      | none => return .list popped
      | some (member, score) =>
          let gone ← need (.key db key (.zrem member))
          if gone then popLoop db key position n (popped ++ [.fromBytes member, scoreFrame score])
          else return .list popped

/-- The loop of ZREMRANGEBYRANK and ZREMRANGEBYSCORE over the members found. -/
def removeLoop (db : Nat) (key : Key) : List (Bytes × Float64) → Nat → StoreProg RespFrame
  | [], removed => return count removed
  | (member, _) :: members, removed => do
      let gone ← need (.key db key (.zrem member))
      removeLoop db key members (if gone then removed + 1 else removed)

/-- `execute_sorted_set`. -/
def executeSortedSet (db : Nat) : SortedSetCommand → StoreProg RespFrame
  | .zRange key start stop withScores =>
      onKey .raise db key (.zrange start stop false) (memberFrames withScores)
  | .zRangeByScore key minScore maxScore withScores =>
      onKey .raise db key (.zrangebyscore minScore maxScore false) (memberFrames withScores)
  | .zPopMin key count => popLoop db key 0 (count.getD 1) []
  | .zPopMax key count => popLoop db key (-1) (count.getD 1) []
  | .zRemRangeByRank key start stop => do
      let members ← need (.key db key (.zrange start stop false))
      removeLoop db key members 0
  | .zRemRangeByScore key minScore maxScore => do
      let members ← need (.key db key (.zrangebyscore minScore maxScore false))
      removeLoop db key members 0

/-- Carry out what was parsed, or pass the parser's error on. -/
def execute {γ : Type} (parsed : Except FerrousError γ) (run : γ → StoreProg RespFrame) : StoreProg RespFrame :=
  match parsed with
  | .ok command => run command
  | .error e => .fail e

end Executor

end Ferrous
