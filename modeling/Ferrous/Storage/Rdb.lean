/-
# `Storage.Rdb` — the RDB file

The writer as the bytes it produces, piece by piece, and the reader as a
program that takes bytes off the front of the file and calls the engine.  A
stream is written as a list behind a marker; a deadline is an absolute number
of milliseconds.  The checksum is a wrapping sum that the reader skips.
-/
import Ferrous.Lib.Codec
import Ferrous.Storage.World

namespace Ferrous

open Lib

/-- `RdbOpcode`. -/
inductive RdbOpcode
  | eof | selectDb | expireTimeS | expireTimeMs | resizeDb | aux
  | string | list | set | zset | hash | zset2
  deriving DecidableEq, Repr

/-- The byte of an opcode. -/
def RdbOpcode.code : RdbOpcode → UInt8
  | eof => 0xFF
  | selectDb => 0xFE
  | expireTimeS => 0xFD
  | expireTimeMs => 0xFC
  | resizeDb => 0xFB
  | aux => 0xFA
  | string => 0x00
  | list => 0x01
  | set => 0x02
  | zset => 0x03
  | hash => 0x04
  | zset2 => 0x05

namespace Rdb

/-- `RDB_MAGIC`, and the four digits of `RDB_VERSION`. -/
def magic : Bytes := "REDIS".toBytes

@[inherit_doc magic]
def version : Bytes := "0009".toBytes

/-- `CARGO_PKG_VERSION`. -/
def packageVersion : String := "0.1.0"

/-- The first element of a stream written as a list. -/
def streamMarker : Bytes := "__FERROUS_STREAM_MARKER__".toBytes

/-! ## Writer -/

/-- `write_length`: one byte, two bytes, or a marker and 32 bits. -/
def writeLength (len : Nat) : Bytes :=
  if len ≤ 63 then [UInt8.ofNat len]
  else if len ≤ 16383 then [UInt8.ofNat ((len >>> 8) &&& 0x3F) ||| 0x40, UInt8.ofNat (len &&& 0xFF)]
  else 0x80 :: toBeBytes 4 len

/-- `write_string`. -/
def writeString (s : Bytes) : Bytes := writeLength s.length ++ s

/-- `write_u64_le`. -/
def writeU64Le (n : Nat) : Bytes := toLeBytes 8 n

/-- `write_f64`. -/
def writeF64 (x : Float64) : Bytes := toLeBytes 8 x.bits.toNat

/-- `write_aux`. -/
def writeAux (key value : String) : Bytes :=
  RdbOpcode.aux.code :: (writeString key.toBytes ++ writeString value.toBytes)

/-- `write_header`. -/
def writeHeader : Bytes := magic ++ version

/-- `write_metadata`, given the seconds since the epoch. -/
def writeMetadata (secs : Nat) : Bytes :=
  writeAux "redis-ver" packageVersion ++ writeAux "ctime" (toString secs)

/-- `write_db_selector`. -/
def writeDbSelector (db : Nat) : Bytes := RdbOpcode.selectDb.code :: writeLength db

/-- `write_resize_db`. -/
def writeResizeDb (dbSize expiresSize : Nat) : Bytes :=
  RdbOpcode.resizeDb.code :: (writeLength dbSize ++ writeLength expiresSize)

/-- A field of a hash, or of a stream entry. -/
def writePair (p : Bytes × Bytes) : Bytes := writeString p.1 ++ writeString p.2

/-- A member of a sorted set with its score. -/
def writeScored (p : Bytes × Float64) : Bytes := writeString p.1 ++ writeF64 p.2

/-- A stream entry: its ID, the number of its fields, the fields. -/
def writeEntry (e : StreamEntry) : Bytes :=
  writeString e.id.toText.toBytes ++ writeString (toString e.fields.size).toBytes ++
    e.fields.toPairs.flatMap writePair

/-- `skiplist.len() - 1`; `none` is the trapped underflow of an empty set. -/
def lastRank (overflowChecks : Bool) (z : SkipList) : Option Nat :=
  if z.len = 0 then (if overflowChecks then none else some (2 ^ 64 - 1)) else some (z.len - 1)

/-- The opcode of a value. -/
def typeCode : Value → UInt8
  | .string _ => RdbOpcode.string.code
  | .sortedSet _ => RdbOpcode.zset.code
  | .stream _ => RdbOpcode.list.code
  | .list _ => RdbOpcode.list.code
  | .set _ => RdbOpcode.set.code
  | .hash _ => RdbOpcode.hash.code

/-- What `write_key_value` puts behind opcode and key. -/
def writeValue (overflowChecks : Bool) : Value → Option Bytes
  | .string bytes => some (writeString bytes)
  | .sortedSet z => (lastRank overflowChecks z).map fun last =>
      writeLength z.len ++ (z.rangeByRank 0 last).flatMap writeScored
  | .stream s =>
      let entries := s.range StreamId.min StreamId.max none false
      let totalItems := entries.foldl (fun n e => n + 2 + e.fields.size * 2) 1
      some (writeLength totalItems ++ writeString streamMarker ++ entries.flatMap writeEntry)
  | .list items => some (writeLength items.length ++ items.flatMap writeString)
  | .set members => some (writeLength members.size ++ members.keyList.flatMap writeString)
  | .hash fields => some (writeLength fields.size ++ fields.toPairs.flatMap writePair)

/-- `write_key_value` behind the deadline. -/
def writeTyped (overflowChecks : Bool) (key : Key) (value : Value) : Option Bytes :=
  (writeValue overflowChecks value).map fun body => typeCode value :: (writeString key ++ body)

/-- The deadline: the wall clock plus the time left, in milliseconds. -/
def expiryMs (overflowChecks : Bool) (sysNow : Nat) (ttl : Duration) : Option Nat :=
  let sum := sysNow / 10 ^ 6 % 2 ^ 64 + ttl / 10 ^ 6 % 2 ^ 64
  if overflowChecks && decide (2 ^ 64 ≤ sum) then none else some (sum % 2 ^ 64)

/-- `none` is a panic. -/
def orPanic {α : Type} : Option α → StoreProg α
  | some a => .ret a
  | none => .panic

/-- `write_key_value`. -/
def writeKeyValue (overflowChecks : Bool) (key : Key) (value : Value) (ttl : Option Duration) :
    StoreProg Bytes := do
  match ttl with
  | none => orPanic (writeTyped overflowChecks key value)
  | some ttl =>
      let now ← Prog.perform (.store .systemTime)
      let ms ← orPanic (expiryMs overflowChecks now ttl)
      let typed ← orPanic (writeTyped overflowChecks key value)
      pure (RdbOpcode.expireTimeMs.code :: (writeU64Le ms ++ typed))

/-- The loop over the keys of a database: one that is gone is skipped. -/
def writeKeys (overflowChecks : Bool) (db : Nat) : List Key → StoreProg Bytes
  | [] => pure []
  | key :: keys => do
      let found ← Prog.perform (.key db key .get)
      let here ← match found with
        | .found value => do
            let ttl ← Prog.perform (.key db key .ttl)
            writeKeyValue overflowChecks key value ttl
        | _ => pure []
      let rest ← writeKeys overflowChecks db keys
      pure (here ++ rest)

/-- One database; an empty one is left out. -/
def writeDatabase (overflowChecks : Bool) (db : Nat) : StoreProg Bytes := do
  let keys ← Prog.perform (.store (.getAllKeys db))
  if keys = [] then pure []
  else do
    let body ← writeKeys overflowChecks db keys
    pure (writeDbSelector db ++ writeResizeDb keys.length keys.length ++ body)

/-- The databases from `db` on. -/
def writeDatabases (overflowChecks : Bool) (db : Nat) : Nat → StoreProg Bytes
  | 0 => pure []
  | n + 1 => do
      let here ← writeDatabase overflowChecks db
      let rest ← writeDatabases overflowChecks (db + 1) n
      pure (here ++ rest)

/-- The `crc` the writer keeps: a wrapping sum of the bytes. -/
def checksum (bs : Bytes) : UInt64 := bs.foldl (fun crc b => crc + b.toUInt64) 0

/-- `write_eof` and `write_checksum` behind what was written before. -/
def finishFile (bs : Bytes) : Bytes :=
  bs ++ RdbOpcode.eof.code :: writeU64Le (checksum (bs ++ [RdbOpcode.eof.code])).toNat

/-- `write_snapshot`: the bytes of the file. -/
def writeSnapshot (overflowChecks : Bool) (databaseCount : Nat) : StoreProg Bytes := do
  let now ← Prog.perform (.store .systemTime)
  let body ← writeDatabases overflowChecks 0 databaseCount
  -- `as_secs` is a `u64`
  pure (finishFile (writeHeader ++ writeMetadata (now / 10 ^ 9 % 2 ^ 64) ++ body))

/-! ## Reader -/

/-- A program that reads a file. -/
abbrev Reader := StateT Bytes (Prog Op FerrousError)

/-- Fail with an I/O error. -/
def fails {α : Type} (msg : String) : Reader α := fun _ => .fail (.io msg)

/-- Panic. -/
def panics {α : Type} : Reader α := fun _ => .panic

/-- Call the engine and pass its error on. -/
def call {α : Type} (o : Op α) : Reader α := StateT.lift (Prog.perform o)

/-- `read_exact`. -/
def readExact (n : Nat) : Reader Bytes := fun bs =>
  if bs.length < n then .fail (.io "failed to fill whole buffer")
  else .ret (bs.take n, bs.drop n)

/-- `read_byte`. -/
def readByte : Reader UInt8 := do
  let buf ← readExact 1
  pure (buf.headD 0)

/-- `read_u32_le`, `read_u32_be`, `read_u64_le`, `read_f64`. -/
def readU32Le : Reader Nat := do
  let buf ← readExact 4
  pure (ofLeBytes buf)

@[inherit_doc readU32Le]
def readU32Be : Reader Nat := do
  let buf ← readExact 4
  pure (ofBeBytes buf)

@[inherit_doc readU32Le]
def readU64Le : Reader Nat := do
  let buf ← readExact 8
  pure (ofLeBytes buf)

@[inherit_doc readU32Le]
def readF64 : Reader Float64 := do
  let buf ← readExact 8
  pure ⟨UInt64.ofNat (ofLeBytes buf)⟩

/-- `read_length`. -/
def readLength : Reader Nat := do
  let first ← readByte
  if first >>> 6 = 0 then pure first.toNat
  else if first >>> 6 = 1 then do
    let second ← readByte
    pure (((first &&& 0x3F).toNat <<< 8) ||| second.toNat)
  else if first >>> 6 = 2 then readU32Be
  else fails "Invalid length encoding"

/-- `read_string`. -/
def readString : Reader Bytes := do
  let len ← readLength
  readExact len

/-- A field and its value. -/
def readPair : Reader (Bytes × Bytes) := do
  let field ← readString
  let value ← readString
  pure (field, value)

/-- `str::parse::<u16>` succeeds. -/
def isU16 (s : String) : Bool := ((parseU64 s).filter (· < 2 ^ 16)).isSome

/-- `read_header`. -/
def readHeader : Reader Unit := do
  let m ← readExact 5
  if m ≠ magic then fails "Invalid RDB file format"
  else do
    let v ← readExact 4
    if isU16 (fromUtf8Lossy v) then pure () else fails "Invalid RDB version"

/-- The members of a sorted set go to the engine as they are read. -/
def readScored (db : Nat) (key : Key) : Nat → Reader Unit
  | 0 => pure ()
  | n + 1 => do
      let member ← readString
      let score ← readF64
      let _ ← call (.key db key (.zadd member score))
      readScored db key n

/-- So do the elements of a list. -/
def readElements (db : Nat) (key : Key) : Nat → Reader Unit
  | 0 => pure ()
  | n + 1 => do
      let element ← readString
      let _ ← call (.key db key (.rpush [element]))
      readElements db key n

/-- The loop over the entries of a stream; `idx` items of `remaining` are read.
An entry that does not fit ends it, whatever was read of it; an entry the
stream refuses is dropped.  The number of rounds is bounded by the items. -/
def readEntries (overflowChecks : Bool) (db : Nat) (key : Key) (remaining : Nat) :
    Nat → Nat → Reader Unit
  | 0, _ => pure ()
  | fuel + 1, idx =>
      if idx + 2 ≥ remaining then pure ()
      else do
        let idStr ← readString
        let countStr ← readString
        let fieldCount := ((fromUtf8 countStr).bind parseU64).getD 0
        if overflowChecks && decide (2 ^ 64 ≤ idx + 2 + fieldCount * 2) then panics
        else if (idx + 2 + fieldCount * 2) % 2 ^ 64 > remaining then pure ()
        else do
          let fields ← times readPair fieldCount
          match StreamId.fromString ((fromUtf8 idStr).getD "") with
          | some id =>
              let _ ← StateT.lift (Prog.attempt (.key db key (.xaddWithId id (Map.setAll ∅ fields))))
              readEntries overflowChecks db key remaining fuel (idx + 2 + fieldCount * 2)
          | none => readEntries overflowChecks db key remaining fuel (idx + 2 + fieldCount * 2)

/-- The deadline of a value that was not stored with one. -/
def expireBy (db : Nat) (key : Key) : Option Duration → Reader Unit
  | some ttl => do
      let _ ← call (.key db key (.expire ttl))
  | none => pure ()

/-- `read_key_value_with_type`. -/
def readKeyValueWithType (overflowChecks : Bool) (db : Nat) (valueType : UInt8)
    (ttl : Option Duration) : Reader Unit :=
  if valueType = RdbOpcode.string.code then do
    let key ← readString
    let value ← readString
    call (.key db key (.setValue (.string value) ttl))
  else if valueType = RdbOpcode.zset.code ∨ valueType = RdbOpcode.zset2.code then do
    let key ← readString
    let count ← readLength
    readScored db key count
    expireBy db key ttl
  else if valueType = RdbOpcode.list.code then do
    let key ← readString
    let count ← readLength
    if 1 ≤ count then do
      let first ← readString
      if first = streamMarker then readEntries overflowChecks db key (count - 1) (count - 1) 0
      else do
        let _ ← call (.key db key (.rpush [first]))
        readElements db key (count - 1)
    expireBy db key ttl
  else if valueType = RdbOpcode.set.code then do
    let key ← readString
    let count ← readLength
    let members ← times readString count
    let _ ← call (.key db key (.sadd members))
    expireBy db key ttl
  else if valueType = RdbOpcode.hash.code then do
    let key ← readString
    let count ← readLength
    let fieldValues ← times readPair count
    let _ ← call (.key db key (.hset fieldValues))
    expireBy db key ttl
  else fails ("Unknown value type: " ++ toString valueType.toNat)

/-- `read_key_value_with_expiry`: a deadline that has passed is dropped. -/
def readKeyValueWithExpiry (overflowChecks : Bool) (db expiryMs : Nat) : Reader Unit := do
  let valueType ← readByte
  let now ← call (.store .systemTime)
  let nowMs := now / 10 ^ 6 % 2 ^ 64
  let ttl := if nowMs < expiryMs then some (fromMillis (expiryMs - nowMs)) else none
  readKeyValueWithType overflowChecks db valueType ttl

/-- The loop of `load_into`.  Each round reads a byte at least, so the number of
rounds is bounded by the bytes; with none left the next read fails. -/
def loadLoop (overflowChecks : Bool) : Nat → Nat → Reader Unit
  | 0, _ => fails "failed to fill whole buffer"
  | fuel + 1, db => do
      let opcode ← readByte
      if opcode = RdbOpcode.eof.code then do
        let _ ← readU64Le
      else if opcode = RdbOpcode.selectDb.code then do
        let db' ← readLength
        loadLoop overflowChecks fuel db'
      else if opcode = RdbOpcode.resizeDb.code then do
        let _ ← readLength
        let _ ← readLength
        loadLoop overflowChecks fuel db
      else if opcode = RdbOpcode.aux.code then do
        let _ ← readString
        let _ ← readString
        loadLoop overflowChecks fuel db
      else if opcode = RdbOpcode.expireTimeMs.code then do
        let ms ← readU64Le
        readKeyValueWithExpiry overflowChecks db ms
        loadLoop overflowChecks fuel db
      else if opcode = RdbOpcode.expireTimeS.code then do
        let s ← readU32Le
        readKeyValueWithExpiry overflowChecks db (s * 1000)
        loadLoop overflowChecks fuel db
      else do
        readKeyValueWithType overflowChecks db opcode none
        loadLoop overflowChecks fuel db

/-- `load_into`: the answer is the unread rest of the file. -/
def loadInto (overflowChecks : Bool) (file : Bytes) : StoreProg Bytes := do
  let ((), rest) ← (do
    readHeader
    loadLoop overflowChecks (file.length + 1) 0 : Reader Unit).run file
  pure rest

end Rdb

end Ferrous
