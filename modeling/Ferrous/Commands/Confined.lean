/-
# `Commands.Confined` — the handlers work on the database they are given

Every handler of the dispatch table names the database of its connection in each operation it
calls, but for FLUSHALL, which goes through all of them, and INFO and MEMORY, which read them.
-/
import Ferrous.Commands.Reads
import Ferrous.Storage.Confinement

namespace Ferrous

open Lib Args

/-- Every operation of the program names this database. -/
def InDatabase {α : Type} (db : Nat) (p : StoreProg α) : Prop := p.Uses fun _ o => o.Names (· = db)

namespace InDatabase

variable {α β : Type} {db : Nat}

/-! ## Rules -/

theorem ret (a : α) : InDatabase db (.ret a) := trivial

theorem need {o : Op β} {body : β → StoreProg α} (ho : o.Names (· = db)) (h : ∀ b, InDatabase db (body b)) :
    InDatabase db (Ferrous.need o >>= body) :=
  uses_need ho h

theorem reading {args : Args α} {body : α → StoreProg RespFrame} (h : ∀ a, InDatabase db (body a)) :
    InDatabase db (Ferrous.reading args body) :=
  uses_reading h

theorem calling {o : Op α} {onError : OnError} {render : α → RespFrame} (ho : o.Names (· = db)) :
    InDatabase db (Ferrous.calling onError o render) :=
  uses_calling ho

/-- A command on one key, whatever it does there. -/
theorem onKey {onError : OnError} {key : Key} {c : KeyCmd α} {render : α → RespFrame} :
    InDatabase db (Ferrous.onKey onError db key c render) :=
  calling rfl

theorem keyed {cmd : String} {onError : OnError} {c : KeyCmd α} {render : α → RespFrame} (parts : Parts) :
    InDatabase db (Ferrous.keyed cmd onError c render db parts) :=
  uses_keyed (fun _ => rfl) parts

/-! ## Strings and keys -/

theorem handleSet (parts : Parts) : InDatabase db (Ferrous.handleSet db parts) := by
  refine reading fun ⟨key, value, o⟩ => ?_
  dsimp only
  split
  · split
    · exact onKey
    · exact onKey
  · split
    · refine need rfl fun there => ?_
      cases there with
      | true => exact onKey
      | false => exact ret _
    · exact onKey

theorem mgetLoop : ∀ (ps : Parts) (values : List RespFrame), InDatabase db (Ferrous.mgetLoop db ps values)
  | [], _ => ret _
  | _ :: ps, _ => reading fun _ => need rfl fun _ => mgetLoop ps _

theorem handleMget (parts : Parts) : InDatabase db (Ferrous.handleMget db parts) := reading fun _ => mgetLoop _ _

theorem msetLoop : ∀ ps : Parts, InDatabase db (Ferrous.msetLoop db ps)
  | [] => ret _
  | [_] => ret _
  | _ :: _ :: ps => reading fun _ => need rfl fun _ => msetLoop ps

theorem handleMset (parts : Parts) : InDatabase db (Ferrous.handleMset db parts) := reading fun _ => msetLoop _

theorem handleGetset (parts : Parts) : InDatabase db (Ferrous.handleGetset db parts) :=
  reading fun _ => need rfl fun _ => onKey

theorem handleSetnx (parts : Parts) : InDatabase db (Ferrous.handleSetnx db parts) := by
  refine reading fun ⟨key, value⟩ => need rfl fun there => ?_
  cases there with
  | true => exact ret _
  | false => exact onKey

theorem setWithExpiry (cmd : String) (unit : Nat → Duration) (parts : Parts) :
    InDatabase db (Ferrous.setWithExpiry cmd unit db parts) :=
  reading fun _ => onKey

theorem stepBy (cmd : String) (keyArg : Parts → Nat → Args Bytes) (n : Int) (parts : Parts) :
    InDatabase db (Ferrous.stepBy cmd keyArg n db parts) :=
  reading fun _ => onKey

theorem handleDecrby (checks : Bool) (parts : Parts) : InDatabase db (Ferrous.handleDecrby checks db parts) := by
  refine reading fun ⟨key, n⟩ => ?_
  dsimp only
  split
  · exact trivial
  · exact onKey

theorem countKeys {c : KeyCmd Bool} : ∀ (ps : Parts) (n : Nat), InDatabase db (Ferrous.countKeys c db ps n)
  | [], _ => ret _
  | p :: ps, n => by
      unfold Ferrous.countKeys
      split
      · exact countKeys ps n
      · exact need rfl fun _ => countKeys ps _

theorem handleExpire (parts : Parts) : InDatabase db (Ferrous.handleExpire db parts) := by
  refine reading fun ⟨key, seconds⟩ => ?_
  dsimp only
  split
  · exact onKey
  · exact onKey

theorem handleTtl (parts : Parts) : InDatabase db (Ferrous.handleTtl db parts) := by
  refine reading fun key => need rfl fun left => ?_
  cases left with
  | some d => exact ret _
  | none => exact onKey

theorem handleRename (parts : Parts) : InDatabase db (Ferrous.handleRename db parts) := reading fun _ => calling rfl

theorem handleRenamenx (parts : Parts) : InDatabase db (Ferrous.handleRenamenx db parts) := by
  refine reading fun ⟨old, new⟩ => need rfl fun there => ?_
  split
  · exact ret _
  · refine need rfl fun taken => ?_
    split
    · exact ret _
    · exact calling rfl

theorem handleKeys (parts : Parts) : InDatabase db (Ferrous.handleKeys db parts) := reading fun _ => calling rfl

theorem handleRandomkey (parts : Parts) : InDatabase db (Ferrous.handleRandomkey db parts) := by
  refine reading fun _ => need rfl fun ks => ?_
  split
  · exact ret _
  · exact need trivial fun _ => ret _

/-! ## Sets and sorted sets -/

theorem handleSrandmember (parts : Parts) : InDatabase db (Ferrous.handleSrandmember db parts) := by
  refine reading fun ⟨key, n⟩ => ?_
  cases n with
  | none => exact onKey
  | some n => exact onKey

theorem handleSpop (parts : Parts) : InDatabase db (Ferrous.handleSpop db parts) := reading fun _ => onKey

theorem zaddLoop (key : Key) : ∀ (ps : Parts) (added : Nat), InDatabase db (Ferrous.zaddLoop db key ps added)
  | [], _ => ret _
  | [_], _ => ret _
  | _ :: _ :: ps, _ => reading fun _ => need rfl fun _ => zaddLoop key ps _

theorem handleZadd (parts : Parts) : InDatabase db (Ferrous.handleZadd db parts) := reading fun key => zaddLoop key _ _

theorem zremLoop (key : Key) : ∀ (ps : Parts) (removed : Nat), InDatabase db (Ferrous.zremLoop db key ps removed)
  | [], _ => ret _
  | p :: ps, removed => by
      unfold Ferrous.zremLoop
      split
      · exact zremLoop key ps removed
      · exact need rfl fun _ => zremLoop key ps _

theorem handleZrem (parts : Parts) : InDatabase db (Ferrous.handleZrem db parts) := reading fun key => zremLoop key _ _

theorem popLoop (key : Key) (position : Int) :
    ∀ (n : Nat) (results : List RespFrame), InDatabase db (Ferrous.popLoop db key position n results)
  | 0, _ => ret _
  | n + 1, results => by
      refine need rfl fun members => ?_
      split
      · exact ret _
      · exact need rfl fun _ => popLoop key position n _

/-- ZPOPMIN and ZPOPMAX. -/
theorem popping (cmd : String) (position : Int) (parts : Parts) :
    InDatabase db (Ferrous.popping cmd position db parts) :=
  reading fun ⟨key, n⟩ => popLoop key position n []

/-! ## Streams -/

theorem handleXadd (parts : Parts) : InDatabase db (Ferrous.handleXadd db parts) := by
  refine reading fun ⟨key, id, fields⟩ => ?_
  dsimp only
  split
  · exact onKey
  · split
    · exact ret _
    · split
      · exact ret _
      · refine ⟨rfl, fun r => ?_⟩
        cases r with
        | ok _ => exact ret _
        | error _ => exact ret _

theorem xreadLoop (n : Option Nat) : ∀ (ps : List (RespFrame × RespFrame)) (acc : List (Key × StreamId)),
    InDatabase db (Ferrous.xreadLoop db n ps acc)
  | [], _ => calling rfl
  | (_, _) :: rest, acc => by
      refine reading fun ⟨key, id⟩ => ?_
      dsimp only
      split
      · exact need rfl fun _ => xreadLoop n rest _
      · split
        · exact xreadLoop n rest _
        · split
          · exact xreadLoop n rest _
          · exact ret _

theorem handleXread (parts : Parts) : InDatabase db (Ferrous.handleXread db parts) := reading fun _ => xreadLoop _ _ _

theorem handleXlen (parts : Parts) : InDatabase db (Ferrous.handleXlen db parts) := keyed parts

theorem handleXrange (parts : Parts) : InDatabase db (Ferrous.handleXrange db parts) := reading fun _ => onKey

theorem handleXrevrange (parts : Parts) : InDatabase db (Ferrous.handleXrevrange db parts) := reading fun _ => onKey

theorem handleXtrim (parts : Parts) : InDatabase db (Ferrous.handleXtrim db parts) := reading fun _ => onKey

theorem handleXdel (parts : Parts) : InDatabase db (Ferrous.handleXdel db parts) := reading fun _ => onKey

/-! ## Scans -/

theorem handleScan (parts : Parts) : InDatabase db (Ferrous.handleScan db parts) := reading fun _ => calling rfl

theorem handleHscan (parts : Parts) : InDatabase db (Ferrous.handleHscan db parts) := reading fun _ => onKey

theorem handleSscan (parts : Parts) : InDatabase db (Ferrous.handleSscan db parts) := reading fun _ => onKey

theorem handleZscan (parts : Parts) : InDatabase db (Ferrous.handleZscan db parts) := reading fun _ => onKey

/-! ## Groups -/

theorem grouping {key : Key} {c : KeyCmd (StreamAccess α)} {missing : RespFrame} {render : α → RespFrame} :
    InDatabase db (Ferrous.grouping db key c missing render) := by
  refine need rfl fun r => ?_
  cases r with
  | found a => exact ret _
  | wrongType => exact ret _
  | missing => exact ret _

theorem onStream {missing : RespFrame} {found : α → StoreProg RespFrame} (h : ∀ a, InDatabase db (found a))
    (r : StreamAccess α) : InDatabase db (Ferrous.onStream missing found r) := by
  cases r with
  | found a => exact h a
  | wrongType => exact ret _
  | missing => exact ret _

theorem fetching {key : Key} {missing : RespFrame} {found : Stream → StoreProg RespFrame}
    (h : ∀ s, InDatabase db (found s)) : InDatabase db (Ferrous.fetching db key missing found) :=
  need rfl fun _ => onStream h _

theorem handleXack (parts : Parts) : InDatabase db (Ferrous.handleXack db parts) := reading fun _ => grouping

theorem handleXclaim (parts : Parts) : InDatabase db (Ferrous.handleXclaim db parts) := reading fun _ => grouping

theorem handleXgroupCreate (parts : Parts) : InDatabase db (Ferrous.handleXgroupCreate db parts) := by
  refine reading fun ⟨key, group, id⟩ => ?_
  have habsent (mkstream : Bool) (reply : RespFrame) (andThen : StoreProg RespFrame) (h : InDatabase db andThen) :
      InDatabase db (if mkstream then do
        Ferrous.need (.key db key (.setValue (.stream Stream.new) none))
        andThen
      else .ret reply) := by
    cases mkstream with
    | true => exact need rfl fun _ => h
    | false => exact ret _
  dsimp only
  split
  · refine need rfl fun r => ?_
    cases r with
    | found a => exact ret _
    | wrongType => exact ret _
    | missing => exact habsent _ _ _ grouping
  · refine need rfl fun r => ?_
    split
    · exact ret _
    · exact ret _
    · exact habsent _ _ (.ret _) (ret _)

/-- XGROUP, subcommand by subcommand. -/
theorem handleXgroup (parts : Parts) : InDatabase db (Ferrous.handleXgroup db parts) := by
  refine reading fun sub => ?_
  dsimp only
  split
  · exact handleXgroupCreate parts
  · exact reading fun _ => grouping
  · exact reading fun _ => grouping
  · exact reading fun _ => grouping
  · refine reading fun ⟨key, group, id⟩ => ?_
    dsimp only
    split
    · exact grouping
    · exact fetching fun _ => ret _
  · exact ret _
  · exact ret _

theorem readGroupLoop (group consumer : String) (o : ReadGroupOptions) :
    ∀ (ps : List (RespFrame × RespFrame)) (acc : List RespFrame),
      InDatabase db (Ferrous.readGroupLoop db group consumer o ps acc)
  | [], _ => ret _
  | (_, _) :: rest, acc => by
      refine reading fun ⟨key, id⟩ => ?_
      dsimp only
      split
      · refine need rfl fun r => ?_
        split
        · exact ret _
        · exact readGroupLoop group consumer o rest acc
        · exact ret _
        · exact readGroupLoop group consumer o rest _
      · refine need rfl fun r => ?_
        split
        · exact ret _
        · exact readGroupLoop group consumer o rest acc
        · exact ret _

theorem handleXreadgroup (parts : Parts) : InDatabase db (Ferrous.handleXreadgroup db parts) :=
  reading fun ⟨group, consumer, o, pairs⟩ => readGroupLoop group consumer o pairs []

theorem consumersLoop : ∀ (cs : List (String × Consumer)) (acc : List RespFrame),
    InDatabase db (Ferrous.consumersLoop cs acc)
  | [], _ => ret _
  | (_, _) :: rest, _ => need trivial fun _ => consumersLoop rest _

/-- XINFO, subcommand by subcommand. -/
theorem handleXinfo (parts : Parts) : InDatabase db (Ferrous.handleXinfo db parts) := by
  refine reading fun sub => ?_
  dsimp only
  split
  · exact reading fun _ => fetching fun _ => ret _
  · exact reading fun _ => fetching fun _ => ret _
  · refine reading fun ⟨key, group⟩ => fetching fun s => ?_
    split
    · exact ret _
    · exact consumersLoop _ _
  · exact ret _
  · exact ret _

theorem handleXpending (parts : Parts) : InDatabase db (Ferrous.handleXpending db parts) := by
  refine reading fun ⟨key, group⟩ => fetching fun s => ?_
  split
  · exact ret _
  · split
    · exact ret _
    · refine reading fun ⟨start, stop, n, consumer⟩ => need trivial fun now => ?_
      split
      · exact trivial
      · exact ret _

end InDatabase

end Ferrous
