/-
# `Commands.Reads` — handlers that change nothing

A program that calls only operations that look keeps every entry, lazy expiry
apart.  Of every handler of this file the operations are such, whatever the
arguments and whatever the operations answer: they are the handlers of the
commands that only read.
-/
import Ferrous.Commands.Failures
import Ferrous.Commands.Admin

namespace Ferrous

open Lib Args

/-- The program only looks at the store. -/
def ReadOnly {α : Type} (p : StoreProg α) : Prop := p.Uses fun _ o => o.reads

namespace ReadOnly

variable {α β : Type} {db : Nat}

/-- Then it keeps the store. -/
theorem kept {p : StoreProg α} (h : ReadOnly p) (ω : Nat → Ctx) (w : World) :
    Kept ω w (p.run (World.step ω) w).2 :=
  Prog.Uses.run_rel (R := Kept ω) (fun w => .refl ω w) (fun _ _ _ h g => h.trans g)
    (fun _ _ w ho => World.step_kept ho w) h w

/-! ## Rules -/

theorem ret (a : α) : ReadOnly (.ret a) := trivial

theorem fail (e : FerrousError) : ReadOnly (.fail e : StoreProg α) := trivial

theorem panic : ReadOnly (.panic : StoreProg α) := trivial

theorem call {o : Op β} {k : Except FerrousError β → StoreProg α} (ho : o.reads)
    (h : ∀ r, ReadOnly (k r)) : ReadOnly (.call o k) := ⟨ho, h⟩

/-- One program after another. -/
theorem bind {p : StoreProg α} {f : α → StoreProg β} (hp : ReadOnly p) (hf : ∀ a, ReadOnly (f a)) :
    ReadOnly (p >>= f) :=
  Prog.Uses.bind hp hf

/-- An operation whose error is passed on, and then the rest. -/
theorem need {o : Op β} {body : β → StoreProg α} (ho : o.reads) (h : ∀ b, ReadOnly (body b)) :
    ReadOnly (Ferrous.need o >>= body) :=
  uses_need ho h

/-- An operation whose error is looked at, and then the rest. -/
theorem attempt {o : Op β} {body : Except FerrousError β → StoreProg α} (ho : o.reads)
    (h : ∀ r, ReadOnly (body r)) : ReadOnly (Prog.attempt o >>= body) :=
  bind (Prog.Uses.attempt ho) h

/-- Arguments that are refused end the handler. -/
theorem reading {args : Args α} {body : α → StoreProg RespFrame} (h : ∀ a, ReadOnly (body a)) :
    ReadOnly (Ferrous.reading args body) :=
  uses_reading h

theorem answering (onError : OnError) (render : α → RespFrame) (r : Except FerrousError α) :
    ReadOnly (Ferrous.answering onError render r) :=
  uses_answering onError render r

/-- The handlers of one operation. -/
theorem calling {o : Op α} {onError : OnError} {render : α → RespFrame} (ho : o.reads) :
    ReadOnly (Ferrous.calling onError o render) :=
  uses_calling ho

theorem onKey {onError : OnError} {key : Key} {c : KeyCmd α} {render : α → RespFrame}
    (hc : c.reads) : ReadOnly (Ferrous.onKey onError db key c render) :=
  calling hc

theorem keyed {cmd : String} {onError : OnError} {c : KeyCmd α} {render : α → RespFrame}
    (hc : c.reads) (parts : Parts) : ReadOnly (Ferrous.keyed cmd onError c render db parts) :=
  uses_keyed (fun _ => hc) parts

/-! ## Strings and keys -/

theorem handleGet (parts : Parts) : ReadOnly (Ferrous.handleGet db parts) :=
  reading fun _ => onKey rfl

theorem mgetLoop : ∀ (ps : Parts) (values : List RespFrame), ReadOnly (Ferrous.mgetLoop db ps values)
  | [], _ => ret _
  | _ :: ps, _ => reading fun _ => need rfl fun _ => mgetLoop ps _

theorem handleMget (parts : Parts) : ReadOnly (Ferrous.handleMget db parts) :=
  reading fun _ => mgetLoop _ _

theorem handleStrlen (parts : Parts) : ReadOnly (Ferrous.handleStrlen db parts) := keyed rfl parts

theorem handleGetrange (parts : Parts) : ReadOnly (Ferrous.handleGetrange db parts) :=
  reading fun _ => onKey rfl

theorem countKeys {c : KeyCmd Bool} (hc : c.reads) :
    ∀ (ps : Parts) (n : Nat), ReadOnly (Ferrous.countKeys c db ps n)
  | [], _ => ret _
  | p :: ps, n => by
      simp only [Ferrous.countKeys]
      split
      · exact countKeys hc ps n
      · exact need hc fun _ => countKeys hc ps _

theorem handleExists (parts : Parts) : ReadOnly (Ferrous.handleExists db parts) :=
  reading fun _ => countKeys rfl _ _

theorem handleTtl (parts : Parts) : ReadOnly (Ferrous.handleTtl db parts) := by
  refine reading fun key => need rfl fun left => ?_
  cases left with
  | some d => exact ret _
  | none => exact onKey rfl

theorem handlePttl (parts : Parts) : ReadOnly (Ferrous.handlePttl db parts) := keyed rfl parts

theorem handleType (parts : Parts) : ReadOnly (Ferrous.handleType db parts) := keyed rfl parts

theorem handleKeys (parts : Parts) : ReadOnly (Ferrous.handleKeys db parts) :=
  reading fun _ => calling rfl

theorem handleDbsize (parts : Parts) : ReadOnly (Ferrous.handleDbsize db parts) :=
  reading fun _ => calling rfl

theorem handleRandomkey (parts : Parts) : ReadOnly (Ferrous.handleRandomkey db parts) := by
  refine reading fun _ => need rfl fun ks => ?_
  split
  · exact ret _
  · exact need rfl fun _ => ret _

/-! ## Lists, sets and hashes -/

theorem handleLlen (parts : Parts) : ReadOnly (Ferrous.handleLlen db parts) := keyed rfl parts

theorem handleLrange (parts : Parts) : ReadOnly (Ferrous.handleLrange db parts) :=
  reading fun _ => onKey rfl

theorem handleLindex (parts : Parts) : ReadOnly (Ferrous.handleLindex db parts) :=
  reading fun _ => onKey rfl

theorem handleSmembers (parts : Parts) : ReadOnly (Ferrous.handleSmembers db parts) := keyed rfl parts

theorem handleSismember (parts : Parts) : ReadOnly (Ferrous.handleSismember db parts) :=
  reading fun _ => onKey rfl

theorem handleScard (parts : Parts) : ReadOnly (Ferrous.handleScard db parts) := keyed rfl parts

/-- SUNION, SINTER and SDIFF. -/
theorem combining {cmd : String} {c : Nat → List Key → StoreCmd (List Bytes)}
    (hc : ∀ keys, (c db keys).reads) (parts : Parts) : ReadOnly (Ferrous.combining cmd c db parts) :=
  reading fun keys => calling (hc keys)

theorem handleSrandmember (parts : Parts) : ReadOnly (Ferrous.handleSrandmember db parts) := by
  refine reading fun ⟨key, n⟩ => ?_
  cases n with
  | none => exact onKey rfl
  | some n => exact onKey rfl

theorem handleHget (parts : Parts) : ReadOnly (Ferrous.handleHget db parts) :=
  reading fun _ => onKey rfl

theorem handleHmget (parts : Parts) : ReadOnly (Ferrous.handleHmget db parts) :=
  reading fun _ => onKey rfl

theorem handleHgetall (parts : Parts) : ReadOnly (Ferrous.handleHgetall db parts) := keyed rfl parts

theorem handleHlen (parts : Parts) : ReadOnly (Ferrous.handleHlen db parts) := keyed rfl parts

theorem handleHexists (parts : Parts) : ReadOnly (Ferrous.handleHexists db parts) :=
  reading fun _ => onKey rfl

theorem handleHkeys (parts : Parts) : ReadOnly (Ferrous.handleHkeys db parts) := keyed rfl parts

theorem handleHvals (parts : Parts) : ReadOnly (Ferrous.handleHvals db parts) := keyed rfl parts

/-! ## Sorted sets and scans -/

theorem handleZscore (parts : Parts) : ReadOnly (Ferrous.handleZscore db parts) :=
  reading fun _ => onKey rfl

theorem handleZcard (parts : Parts) : ReadOnly (Ferrous.handleZcard db parts) := keyed rfl parts

/-- ZRANK and ZREVRANK. -/
theorem ranking (cmd : String) (reverse : Bool) (parts : Parts) :
    ReadOnly (Ferrous.ranking cmd reverse db parts) :=
  reading fun _ => onKey rfl

/-- ZRANGE and ZREVRANGE. -/
theorem rangeByIndex (cmd : String) (reverse : Bool) (parts : Parts) :
    ReadOnly (Ferrous.rangeByIndex cmd reverse db parts) :=
  reading fun _ => onKey rfl

theorem handleZrangebyscore (parts : Parts) : ReadOnly (Ferrous.handleZrangebyscore db parts) :=
  reading fun _ => onKey rfl

theorem handleZrevrangebyscore (parts : Parts) : ReadOnly (Ferrous.handleZrevrangebyscore db parts) :=
  reading fun _ => onKey rfl

theorem handleZcount (parts : Parts) : ReadOnly (Ferrous.handleZcount db parts) :=
  reading fun _ => onKey rfl

theorem handleScan (parts : Parts) : ReadOnly (Ferrous.handleScan db parts) :=
  reading fun _ => calling rfl

/-- HSCAN, SSCAN and ZSCAN. -/
theorem scanningKey {cmd : String} {knows : Bool} {c : Nat → ScanOptions → KeyCmd (Nat × α)}
    {render : α → RespFrame} (hc : ∀ cur o, (c cur o).reads) (parts : Parts) :
    ReadOnly (Ferrous.scanningKey cmd knows c render db parts) :=
  reading fun _ => onKey (hc _ _)

/-! ## Streams and groups -/

theorem handleXrange (parts : Parts) : ReadOnly (Ferrous.handleXrange db parts) :=
  reading fun _ => onKey rfl

theorem handleXrevrange (parts : Parts) : ReadOnly (Ferrous.handleXrevrange db parts) :=
  reading fun _ => onKey rfl

theorem handleXlen (parts : Parts) : ReadOnly (Ferrous.handleXlen db parts) := keyed rfl parts

theorem xreadLoop (n : Option Nat) : ∀ (ps : List (RespFrame × RespFrame)) (acc : List (Key × StreamId)),
    ReadOnly (Ferrous.xreadLoop db n ps acc)
  | [], _ => calling rfl
  | (_, _) :: rest, acc => by
      refine reading fun ⟨key, id⟩ => ?_
      dsimp only
      split
      · exact need rfl fun _ => xreadLoop n rest _
      · split
        · exact xreadLoop n rest _
        · split
          · exact xreadLoop n rest _
          · exact ret _

theorem handleXread (parts : Parts) : ReadOnly (Ferrous.handleXread db parts) :=
  reading fun _ => xreadLoop _ _ _

theorem onStream {missing : RespFrame} {found : α → StoreProg RespFrame}
    (h : ∀ a, ReadOnly (found a)) (r : StreamAccess α) : ReadOnly (Ferrous.onStream missing found r) := by
  cases r with
  | found a => exact h a
  | wrongType => exact ret _
  | missing => exact ret _

theorem fetching {key : Key} {missing : RespFrame} {found : Stream → StoreProg RespFrame}
    (h : ∀ s, ReadOnly (found s)) : ReadOnly (Ferrous.fetching db key missing found) :=
  need rfl fun _ => onStream h _

theorem consumersLoop : ∀ (cs : List (String × Consumer)) (acc : List RespFrame),
    ReadOnly (Ferrous.consumersLoop cs acc)
  | [], _ => ret _
  | (_, _) :: rest, _ => need rfl fun _ => consumersLoop rest _

theorem handleXinfoConsumers (parts : Parts) : ReadOnly (Ferrous.handleXinfoConsumers db parts) := by
  refine reading fun ⟨key, group⟩ => fetching fun s => ?_
  split
  · exact ret _
  · exact consumersLoop _ _

/-- A command all of whose subcommands only look. -/
theorem subcommands {cmd : String} {run : String → Option (StoreProg RespFrame)}
    (h : ∀ sub p, run sub = some p → ReadOnly p) (parts : Parts) :
    ReadOnly (Ferrous.subcommands cmd run parts) := by
  refine reading fun sub => ?_
  cases hr : run (toUppercase sub) with
  | none => exact ret _
  | some p => exact h _ _ hr

theorem handleXinfo (parts : Parts) : ReadOnly (Ferrous.handleXinfo db parts) := by
  refine subcommands (fun sub p hp => ?_) parts
  split at hp
  · cases hp
    exact reading fun _ => fetching fun _ => ret _
  · cases hp
    exact reading fun _ => fetching fun _ => ret _
  · cases hp
    exact handleXinfoConsumers parts
  · cases hp
    exact ret _
  · cases hp

theorem handleXpending (parts : Parts) : ReadOnly (Ferrous.handleXpending db parts) := by
  refine reading fun ⟨key, group⟩ => fetching fun s => ?_
  split
  · exact ret _
  · split
    · exact ret _
    · refine reading fun ⟨start, stop, n, consumer⟩ => need rfl fun now => ?_
      split
      · exact panic
      · exact ret _

/-! ## The server's own figures -/

theorem handleSleep (parts : Parts) : ReadOnly (Ferrous.handleSleep parts) := reading fun _ => ret _

theorem handleConfig (parts : Parts) : ReadOnly (Ferrous.handleConfig parts) := reading fun _ => ret _

theorem handleSlowlog (proc : Process) (parts : Parts) : ReadOnly (Ferrous.handleSlowlog proc parts) :=
  reading fun _ => ret _

theorem countExpiring : ∀ (keys : List Key) (n : Nat), ReadOnly (Ferrous.countExpiring db keys n)
  | [], _ => ret _
  | _ :: keys, _ => attempt rfl fun _ => countExpiring keys _

theorem keyspaceLoop : ∀ (db n : Nat) (acc : List (Nat × Nat × Nat)),
    ReadOnly (Ferrous.keyspaceLoop db n acc)
  | _, 0, _ => ret _
  | db, n + 1, acc => by
      refine attempt rfl fun keys => ?_
      split
      · exact keyspaceLoop _ n _
      · exact bind (countExpiring _ _) fun _ => keyspaceLoop _ n _
      · exact keyspaceLoop _ n _

theorem handleInfo (proc : Process) (parts : Parts) : ReadOnly (Ferrous.handleInfo proc parts) := by
  unfold Ferrous.handleInfo
  dsimp only
  split
  · refine need rfl fun used => ?_
    split
    · exact need rfl fun n => bind (keyspaceLoop 0 n []) fun _ => ret _
    · exact ret _
  · show ReadOnly (ite _ _ _)
    split
    · exact need rfl fun n => bind (keyspaceLoop 0 n []) fun _ => ret _
    · exact ret _

section Memory

variable (lay : Layout)

theorem sampleList (key : Key) : ∀ (ps : List Nat) (acc : Nat × Nat),
    ReadOnly (Ferrous.sampleList lay db key ps acc)
  | [], _ => ret _
  | _ :: rest, (_, _) => attempt rfl fun _ => sampleList key rest _

theorem memoryByType (key : Key) (type : String) : ReadOnly (Ferrous.memoryByType lay db key type) := by
  unfold Ferrous.memoryByType
  split
  · exact attempt rfl fun _ => ret _
  · refine attempt rfl fun n => ?_
    split
    · exact bind (sampleList lay key _ _) fun _ => ret _
    · exact ret _
  · refine attempt rfl fun n => ?_
    split
    · exact attempt rfl fun _ => ret _
    · exact ret _
  · refine attempt rfl fun n => ?_
    split
    · exact attempt rfl fun _ => ret _
    · exact ret _
  · exact attempt rfl fun _ => ret _
  · exact ret _

theorem keyMemoryUsage (key : Key) : ReadOnly (Ferrous.keyMemoryUsage lay db key) := by
  refine attempt rfl fun type => ?_
  split
  · exact ret _
  · exact bind (memoryByType lay key _) fun _ => ret _

theorem sizesLoop : ∀ (keys : List Key) (acc : List (Key × Nat)),
    ReadOnly (Ferrous.sizesLoop lay db keys acc)
  | [], _ => ret _
  | key :: keys, _ => bind (keyMemoryUsage lay key) fun _ => sizesLoop keys _

theorem statsLoop : ∀ (db n : Nat) (acc : List (String × String)),
    ReadOnly (Ferrous.statsLoop lay db n acc)
  | _, 0, _ => ret _
  | db, n + 1, acc => by
      refine attempt rfl fun keys => ?_
      split
      · exact statsLoop _ n _
      · exact bind (sizesLoop lay _ _) fun _ => statsLoop _ n _

theorem doctorLoop : ∀ (db n : Nat) (acc : List (Nat × Key × Nat)),
    ReadOnly (Ferrous.doctorLoop lay db n acc)
  | _, 0, _ => ret _
  | db, n + 1, acc => by
      refine attempt rfl fun keys => ?_
      split
      · exact doctorLoop _ n _
      · exact bind (sizesLoop lay _ _) fun _ => doctorLoop _ n _

theorem doctorLines : ∀ (ks : List (Nat × Key × Nat)) (out : String),
    ReadOnly (Ferrous.doctorLines ks out)
  | [], _ => ret _
  | (_, _, _) :: rest, _ => attempt rfl fun _ => doctorLines rest _

theorem memoryUsage (parts : Parts) : ReadOnly (Ferrous.memoryUsage lay db parts) := by
  refine reading fun key => need rfl fun there => ?_
  split
  · exact ret _
  · refine bind (keyMemoryUsage lay key) fun size => ?_
    cases size with
    | ok n => exact ret _
    | error e => exact fail e

theorem handleMemory (parts : Parts) : ReadOnly (Ferrous.handleMemory lay db parts) := by
  refine reading fun sub => ?_
  split
  · exact memoryUsage lay parts
  · exact need rfl fun _ => need rfl fun _ => bind (statsLoop lay _ _ _) fun _ => ret _
  · refine need rfl fun _ => need rfl fun _ => bind (doctorLoop lay _ _ _) fun keys => ?_
    dsimp only
    split
    · exact ret _
    · exact bind (doctorLines _ _) fun _ => ret _
  · exact ret _
  · exact ret _

end Memory

/-! ## Snapshots -/

theorem orPanic (r : Option α) : ReadOnly (Rdb.orPanic r) := by
  cases r with
  | some a => exact ret a
  | none => exact panic

theorem writeKeyValue (checks : Bool) (key : Key) (value : Value) (ttl : Option Duration) :
    ReadOnly (Rdb.writeKeyValue checks key value ttl) := by
  cases ttl with
  | none => exact orPanic _
  | some ttl => exact need rfl fun _ => bind (orPanic _) fun _ => bind (orPanic _) fun _ => ret _

theorem writeKeys (checks : Bool) : ∀ keys : List Key, ReadOnly (Rdb.writeKeys checks db keys)
  | [] => ret _
  | key :: keys => by
      have hrest (here : Bytes) :
          ReadOnly (Rdb.writeKeys checks db keys >>= fun rest => pure (here ++ rest)) :=
        bind (writeKeys checks keys) fun _ => ret _
      refine need rfl fun found => ?_
      dsimp only
      split
      · exact need rfl fun _ => bind (writeKeyValue checks key _ _) hrest
      · exact hrest []

theorem writeDatabase (checks : Bool) (db : Nat) : ReadOnly (Rdb.writeDatabase checks db) := by
  refine need rfl fun keys => ?_
  split
  · exact ret _
  · exact bind (writeKeys checks keys) fun _ => ret _

theorem writeDatabases (checks : Bool) : ∀ db n : Nat, ReadOnly (Rdb.writeDatabases checks db n)
  | _, 0 => ret _
  | db, n + 1 =>
      bind (writeDatabase checks db) fun _ => bind (writeDatabases checks (db + 1) n) fun _ => ret _

/-- Writing a snapshot changes nothing. -/
theorem writeSnapshot (checks : Bool) (n : Nat) : ReadOnly (Rdb.writeSnapshot checks n) :=
  need rfl fun _ => bind (writeDatabases checks 0 n) fun _ => ret _

end ReadOnly

end Ferrous
