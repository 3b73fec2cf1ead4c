/-
# `Server.PubSub` — channels, patterns and their subscribers

`PubSubManager` keeps the subscriptions twice, by channel or pattern and by
connection.  The two directions are changed together, except that a
confirmation is produced for every name given, new or not.
-/
import Ferrous.Protocol.Resp
import Ferrous.Server.Blocking

namespace Ferrous

open Lib

/-! ## The matcher -/

/-- The loop of `pubsub::pattern_matches`: bytes, `?`, `*` and `\`, no classes.
`star` holds the pattern after the last star and the text it was met at. -/
def channelLoop : Nat → Bytes → Bytes → Option (Bytes × Bytes) → Bool
  | 0, _, _, _ => false
  | _ + 1, ps, [], _ => ps.all (· == 42)
  | fuel + 1, ps, t :: ts, star =>
      let back : Bool := match star with
        | some (ps', _ :: ts') => channelLoop fuel ps' ts' (some (ps', ts'))
        | _ => false
      match ps with
      | [] => back
      | p :: ps' =>
          if p = 63 then channelLoop fuel ps' ts star
          else if p = 42 then channelLoop fuel ps' (t :: ts) (some (ps', t :: ts))
          else if p = 92 ∧ ps' ≠ [] then
            match ps' with
            | c :: ps'' => if c = t then channelLoop fuel ps'' ts star else back
            | [] => back
          else if p = t then channelLoop fuel ps' ts star
          else back

/-- `pattern_matches`; the fuel covers every return to a star. -/
def channelMatches (pattern channel : Bytes) : Bool :=
  channelLoop ((channel.length + 1) * (pattern.length + 2)) pattern channel none

/-- Going back to the last star, one byte further on. -/
def channelBack (go : Bytes → Bytes → Option (Bytes × Bytes) → Bool) :
    Option (Bytes × Bytes) → Bool
  | some (ps', _ :: ts') => go ps' ts' (some (ps', ts'))
  | _ => false

/-- One round of the loop on a text that is left, with the loop for the rest. -/
def channelRound (go : Bytes → Bytes → Option (Bytes × Bytes) → Bool) (ps : Bytes) (t : UInt8)
    (ts : Bytes) (star : Option (Bytes × Bytes)) : Bool :=
  match ps with
  | [] => channelBack go star
  | p :: ps' =>
      if p = 63 then go ps' ts star
      else if p = 42 then go ps' (t :: ts) (some (ps', t :: ts))
      else if p = 92 ∧ ps' ≠ [] then
        match ps' with
        | c :: ps'' => if c = t then go ps'' ts star else channelBack go star
        | [] => channelBack go star
      else if p = t then go ps' ts star
      else channelBack go star

theorem channelLoop_cons (fuel : Nat) (ps : Bytes) (t : UInt8) (ts : Bytes)
    (star : Option (Bytes × Bytes)) :
    channelLoop (fuel + 1) ps (t :: ts) star = channelRound (channelLoop fuel) ps t ts star := by
  unfold channelLoop channelRound
  rfl

/-! ## Subscriptions -/

/-- `SubscriberInfo`. -/
structure SubscriberInfo where
  channels : FSet Bytes
  patterns : FSet Bytes

namespace SubscriberInfo

def new : SubscriberInfo := ⟨∅, ∅⟩

/-- The number a confirmation reports. -/
def total (i : SubscriberInfo) : Nat := i.channels.size + i.patterns.size

end SubscriberInfo

/-- `PubSubManager`. -/
structure PubSubManager where
  channels : Map Bytes (FSet ConnId)
  patterns : Map Bytes (FSet ConnId)
  connections : Map ConnId SubscriberInfo

namespace PubSubManager

def new : PubSubManager := ⟨∅, ∅, ∅⟩

/-- Add a connection to the row of a name. -/
def addRow (rows : Map Bytes (FSet ConnId)) (name : Bytes) (id : ConnId) : Map Bytes (FSet ConnId) :=
  rows.set name (((rows.get? name).getD ∅).add id)

/-- Take a connection out of the row of a name; an emptied row is dropped. -/
def dropRow (rows : Map Bytes (FSet ConnId)) (name : Bytes) (id : ConnId) :
    Map Bytes (FSet ConnId) :=
  match rows.get? name with
  | none => rows
  | some ids => if (ids.del id).size = 0 then rows.del name else rows.set name (ids.del id)

/-- Which of the two kinds of subscription is meant. -/
inductive Kind
  | channel
  | pattern
  deriving DecidableEq

/-- The names of one kind a connection holds. -/
def Kind.names : Kind → SubscriberInfo → FSet Bytes
  | channel, i => i.channels
  | pattern, i => i.patterns

/-- Replace the names of one kind. -/
def Kind.setNames : Kind → SubscriberInfo → FSet Bytes → SubscriberInfo
  | channel, i, names => { i with channels := names }
  | pattern, i, names => { i with patterns := names }

/-- The rows of one kind. -/
def Kind.rows : Kind → PubSubManager → Map Bytes (FSet ConnId)
  | channel, m => m.channels
  | pattern, m => m.patterns

/-- Replace the rows of one kind. -/
def Kind.setRows : Kind → PubSubManager → Map Bytes (FSet ConnId) → PubSubManager
  | channel, m, rows => { m with channels := rows }
  | pattern, m, rows => { m with patterns := rows }

/-- The loop of `subscribe` and `psubscribe`: each name with the total after it. -/
def subscribeLoop (kind : Kind) (id : ConnId) :
    List Bytes → SubscriberInfo → PubSubManager → List (Bytes × Nat) × PubSubManager
  | [], info, m => ([], { m with connections := m.connections.set id info })
  | name :: names, info, m =>
      let fresh := !(kind.names info).contains name
      let info := if fresh then kind.setNames info ((kind.names info).add name) else info
      let m := if fresh then kind.setRows m (addRow (kind.rows m) name id) else m
      let (out, m) := subscribeLoop kind id names info m
      ((name, info.total) :: out, m)

/-- `subscribe`, `psubscribe`. -/
def subscribe (kind : Kind) (m : PubSubManager) (id : ConnId) (names : List Bytes) :
    List (Bytes × Nat) × PubSubManager :=
  subscribeLoop kind id names ((m.connections.get? id).getD SubscriberInfo.new) m

/-- The loop of `unsubscribe` and `punsubscribe`. -/
def unsubscribeLoop (kind : Kind) (id : ConnId) :
    List Bytes → SubscriberInfo → PubSubManager → List (Bytes × Nat) × PubSubManager
  | [], info, m =>
      ([], { m with connections :=
               if info.channels.size = 0 ∧ info.patterns.size = 0 then m.connections.del id
               else m.connections.set id info })
  | name :: names, info, m =>
      let held := (kind.names info).contains name
      let info := kind.setNames info ((kind.names info).del name)
      let m := if held then kind.setRows m (dropRow (kind.rows m) name id) else m
      let (out, m) := unsubscribeLoop kind id names info m
      ((name, info.total) :: out, m)

/-- `unsubscribe`, `punsubscribe`: without names from all of the kind. -/
def unsubscribe (kind : Kind) (m : PubSubManager) (id : ConnId) (names : Option (List Bytes)) :
    List (Bytes × Nat) × PubSubManager :=
  match m.connections.get? id with
  | none => ([], m)
  | some info => unsubscribeLoop kind id (names.getD (kind.names info).keyList) info m

/-- Keep the receivers that were not seen before. -/
def addReceivers (pattern : Option Bytes) (ids : List ConnId)
    (receivers : List (ConnId × Option Bytes)) : List (ConnId × Option Bytes) :=
  receivers ++ (ids.filter fun id => !receivers.any (·.1 == id)).map (·, pattern)

/-- `publish`: each connection once, with the pattern it was found by. -/
def publish (m : PubSubManager) (channel : Bytes) : List (ConnId × Option Bytes) :=
  let direct := addReceivers none (((m.channels.get? channel).getD ∅).keyList) []
  m.patterns.toPairs.foldl (fun receivers p =>
    if channelMatches p.1 channel then addReceivers (some p.1) p.2.keyList receivers
    else receivers) direct

/-- Take a connection out of every row. -/
def clearRows (rows : Map Bytes (FSet ConnId)) (id : ConnId) : Map Bytes (FSet ConnId) :=
  rows.filterMapValues fun ids => if (ids.del id).size = 0 then none else some (ids.del id)

/-- `unsubscribe_all`. -/
def unsubscribeAll (m : PubSubManager) (id : ConnId) : PubSubManager where
  channels := clearRows m.channels id
  patterns := clearRows m.patterns id
  connections := m.connections.del id

/-- `is_subscribed`. -/
def isSubscribed (m : PubSubManager) (id : ConnId) : Bool := m.connections.contains id

end PubSubManager

/-! ## Frames -/

/-- `format_message`, `format_pmessage`. -/
def messageFrame (pattern : Option Bytes) (channel message : Bytes) : RespFrame :=
  match pattern with
  | none => .list [.fromString "message", .fromBytes channel, .fromBytes message]
  | some p => .list [.fromString "pmessage", .fromBytes p, .fromBytes channel, .fromBytes message]

/-- `format_subscribe_response` and its three relatives. -/
def confirmationFrame (word : String) (r : Bytes × Nat) : RespFrame :=
  .list [.fromString word, .fromBytes r.1, .integer r.2]

end Ferrous
