/-
# `Storage.Error` — the server's error values and their texts

`FerrousError` and the error kinds it wraps, with the `Display` text of each.
The text is what a handler puts behind `ERR` when it turns an error into a
reply, so it is part of what clients see.
-/
import Ferrous.Lib.Text
import Ferrous.Lib.Prog

namespace Ferrous

/-- Command errors. -/
inductive CommandError
  | unknownCommand (cmd : String)
  | wrongNumberOfArgs (cmd : String)
  | syntaxError (msg : String)
  | wrongType
  | integerOverflow
  | notInteger
  | indexOutOfRange
  | noSuchKey
  | invalidState (msg : String)
  | invalidArgument (msg : String)
  | invalidStreamId
  | streamIdTooSmall
  | streamEmpty
  | consumerGroupExists
  | noSuchConsumerGroup
  | noSuchConsumer
  | streamIdExists
  | generic (msg : String)
  | emptyCommand
  | wrongNumberOfArguments (cmd : String)
  | invalidCommandFormat
  | invalidArgumentType
  | invalidUtf8
  | invalidIntegerValue
  | invalidFloatValue
  | notImplemented
  deriving DecidableEq, Repr

/-- Storage errors. -/
inductive StorageError
  | outOfMemory
  | keyNotFound
  | wrongType
  | invalidDatabase
  | wouldBlock
  deriving DecidableEq, Repr

/-- Script errors. -/
inductive ScriptError
  | notFound
  | executionError (msg : String)
  | compilationError (msg : String)
  | timeout
  | killed
  deriving DecidableEq, Repr

/-- The error type of every fallible function of the server. -/
inductive FerrousError
  | protocol (msg : String)
  | command (e : CommandError)
  | storage (e : StorageError)
  | io (msg : String)
  | config (msg : String)
  | connection (msg : String)
  | script (e : ScriptError)
  | luaError (msg : String)
  | internal (msg : String)
  deriving DecidableEq, Repr

def CommandError.display : CommandError → String
  | .unknownCommand cmd => "ERR unknown command '" ++ cmd ++ "'"
  | .wrongNumberOfArgs cmd => "ERR wrong number of arguments for '" ++ cmd ++ "' command"
  | .syntaxError msg => "ERR syntax error: " ++ msg
  | .wrongType => "WRONGTYPE Operation against a key holding the wrong kind of value"
  | .integerOverflow => "ERR increment or decrement would overflow"
  | .notInteger => "ERR value is not an integer or out of range"
  | .indexOutOfRange => "ERR index out of range"
  | .noSuchKey => "ERR no such key"
  | .invalidState msg => "ERR " ++ msg
  | .invalidArgument msg => "ERR invalid argument: " ++ msg
  | .invalidStreamId => "ERR Invalid stream ID specified as stream command argument"
  | .streamIdTooSmall =>
      "ERR The ID specified in XADD is equal or smaller than the target stream top item"
  | .streamEmpty => "ERR stream is empty"
  | .consumerGroupExists => "BUSYGROUP Consumer Group name already exists"
  | .noSuchConsumerGroup => "NOGROUP No such key or consumer group"
  | .noSuchConsumer => "ERR no such consumer"
  | .streamIdExists => "ERR stream ID already exists"
  | .generic msg => "ERR " ++ msg
  | .emptyCommand => "ERR empty command"
  | .wrongNumberOfArguments cmd => "ERR wrong number of arguments for '" ++ cmd ++ "' command"
  | .invalidCommandFormat => "ERR invalid command format"
  | .invalidArgumentType => "ERR invalid argument type"
  | .invalidUtf8 => "ERR invalid UTF-8 in argument"
  | .invalidIntegerValue => "ERR invalid integer value"
  | .invalidFloatValue => "ERR invalid floating point value"
  | .notImplemented => "ERR command not implemented"

def StorageError.display : StorageError → String
  | .outOfMemory => "OOM command not allowed when used memory > 'maxmemory'"
  | .keyNotFound => "Key not found"
  | .wrongType => "Wrong data type"
  | .invalidDatabase => "ERR invalid DB index"
  | .wouldBlock => "Would block"

def ScriptError.display : ScriptError → String
  | .notFound => "NOSCRIPT No matching script. Please use EVAL."
  | .executionError msg => "ERR " ++ msg
  | .compilationError msg => "ERR Error compiling script: " ++ msg
  | .timeout => "ERR Script execution time limit exceeded"
  | .killed => "ERR Script killed by user"

def FerrousError.display : FerrousError → String
  | .protocol msg => "Protocol error: " ++ msg
  | .command e => e.display
  | .storage e => e.display
  | .io msg => "I/O error: " ++ msg
  | .config msg => "Configuration error: " ++ msg
  | .connection msg => "Connection error: " ++ msg
  | .script e => e.display
  | .luaError msg => if "ERR ".toList.isPrefixOf msg.toList then msg else "ERR " ++ msg
  | .internal msg => "Internal error: " ++ msg

/-- How a fallible function of the server ends: a value, an `Err`, or a panic
of the thread that runs it. -/
abbrev Outcome (α : Type) := Lib.Outcome FerrousError α

end Ferrous
