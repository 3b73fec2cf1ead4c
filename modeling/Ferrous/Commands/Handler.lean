/-
# `Commands.Handler` — what the command handlers are made of

A handler reads its arguments in order and answers at once where one is
malformed; then it calls the engine.  What becomes of an engine error is the
handler's own choice: some turn it into an error reply, others pass it on with
`?`, which ends the connection.  `OnError` lists the choices, and `calling` is
the one-operation handler for each of them.
-/
import Ferrous.Protocol.Resp
import Ferrous.Storage.World

namespace Ferrous

open Lib

/-- The parts of a command, its name first. -/
abbrev Parts := List RespFrame

/-! ## Arguments -/

/-- Arguments read so far, or the reply that ends the handler. -/
abbrev Args (α : Type) := Except RespFrame α

namespace Args

variable {α : Type}

/-- Answer with an error text. -/
def reject (msg : String) : Args α := .error (.err msg)

/-- The check of the number of parts. -/
def arity (cmd : String) (ok : Bool) : Args Unit :=
  if ok then .ok () else reject ("ERR wrong number of arguments for '" ++ cmd ++ "' command")

/-- A bulk string argument; `what` names it in the complaint. -/
def bulk (parts : Parts) (i : Nat) (what : String) : Args Bytes :=
  match (parts[i]?).bind RespFrame.bulk? with
  | some bytes => .ok bytes
  | none => reject ("ERR invalid " ++ what ++ " format")

/-- A key that must not be empty. -/
def nonEmptyKey (parts : Parts) (i : Nat) : Args Bytes := do
  let key ← bulk parts i "key"
  if key.isEmpty then reject "ERR invalid key: empty string keys are not allowed" else .ok key

/-- All the remaining arguments, each a bulk string. -/
def bulks (what : String) : Parts → Args (List Bytes)
  | [] => .ok []
  | p :: ps =>
      match p.bulk? with
      | some bytes => (bulks what ps).map (bytes :: ·)
      | none => reject ("ERR invalid " ++ what ++ " format")

/-- A numeral; `complaint` answers a text that is none. -/
def numeral (read : String → Option α) (complaint : String) (parts : Parts) (i : Nat)
    (what : String) : Args α := do
  let bytes ← bulk parts i what
  match read (fromUtf8Lossy bytes) with
  | some n => .ok n
  | none => reject complaint

/-- What is read is read step by step. -/
theorem bind_ok {ε β γ : Type} {x : Except ε β} {f : β → Except ε γ} {c : γ} (h : x >>= f = .ok c) :
    ∃ b, x = .ok b ∧ f b = .ok c := by
  cases x with
  | error e => cases h
  | ok b => exact ⟨b, rfl, h⟩

theorem arity_ok {cmd : String} {ok : Bool} {u : Unit} (h : arity cmd ok = .ok u) : ok = true := by
  cases ok with
  | true => rfl
  | false => cases h

theorem bulk_ok {parts : Parts} {i : Nat} {what : String} {bytes : Bytes} (h : bulk parts i what = .ok bytes) :
    (parts[i]?).bind RespFrame.bulk? = some bytes := by
  unfold bulk at h
  split at h
  · next hbulk =>
      cases h
      exact hbulk
  · cases h

/-- A numeral that is there and is one. -/
theorem numeral_of_text {read : String → Option α} {parts : Parts} {i : Nat} {text : Bytes} {a : α}
    (complaint what : String) (hpart : parts[i]? = some (.fromBytes text))
    (h : read (fromUtf8Lossy text) = some a) : numeral read complaint parts i what = .ok a := by
  have hbulk : bulk parts i what = .ok text := by
    rw [bulk, hpart]
    rfl
  unfold numeral
  rw [hbulk]
  simp only [bind, Except.bind, h]

/-- One that is there and is none. -/
theorem numeral_of_none {read : String → Option α} {parts : Parts} {i : Nat} {text : Bytes}
    (complaint what : String) (hpart : parts[i]? = some (.fromBytes text))
    (h : read (fromUtf8Lossy text) = none) : numeral read complaint parts i what = reject complaint := by
  have hbulk : bulk parts i what = .ok text := by
    rw [bulk, hpart]
    rfl
  unfold numeral
  rw [hbulk]
  simp only [bind, Except.bind, h]

def notInteger : String := "ERR value is not an integer or out of range"

/-- A signed integer (`i64`, `isize`). -/
def int (parts : Parts) (i : Nat) (what : String) : Args Int :=
  numeral parseI64 notInteger parts i what

/-- An unsigned integer (`u64`, `usize`). -/
def nat (parts : Parts) (i : Nat) (what : String) : Args Nat :=
  numeral parseU64 notInteger parts i what

/-- A float. -/
def float (complaint : String) (parts : Parts) (i : Nat) (what : String) : Args Float64 :=
  numeral Float64.parse complaint parts i what

/-- A keyword argument, in upper case; anything but a bulk string has none. -/
def word? (p : RespFrame) : Option String := p.bulk?.map fun bytes => toUppercase (fromUtf8Lossy bytes)

end Args

/-- Go on with the arguments, or answer at once. -/
def reading {α : Type} (args : Args α) (body : α → StoreProg RespFrame) : StoreProg RespFrame :=
  match args with
  | .ok a => body a
  | .error reply => .ret reply

/-! ## Engine errors -/

/-- What a handler makes of an engine error. -/
inductive OnError
  /-- `WRONGTYPE ...` for a wrong type, `ERR {e}` otherwise. -/
  | reply
  /-- `ERR {e}`. -/
  | replyErr
  /-- `{e}`. -/
  | replyText
  /-- `?`. -/
  | raise
  deriving DecidableEq, Repr

/-- The reply to a wrong type. -/
def wrongTypeText : String := "WRONGTYPE Operation against a key holding the wrong kind of value"

namespace OnError

/-- The reply an error becomes; none when it is passed on. -/
def frame : OnError → FerrousError → Option RespFrame
  | reply, .storage .wrongType => some (.err wrongTypeText)
  | reply, e => some (.err ("ERR " ++ e.display))
  | replyErr, e => some (.err ("ERR " ++ e.display))
  | replyText, e => some (.err e.display)
  | raise, _ => none

end OnError

/-- End a handler with the outcome of its operation. -/
def answering {α : Type} (onError : OnError) (render : α → RespFrame) :
    Except FerrousError α → StoreProg RespFrame
  | .ok a => .ret (render a)
  | .error e =>
      match onError.frame e with
      | some reply => .ret reply
      | none => .fail e

/-- Call one operation and answer with its outcome. -/
def calling {α : Type} (onError : OnError) (op : Op α) (render : α → RespFrame) :
    StoreProg RespFrame :=
  .call op (answering onError render)

/-- An operation on one key of a database. -/
def onKey {α : Type} (onError : OnError) (db : Nat) (key : Key) (c : KeyCmd α)
    (render : α → RespFrame) : StoreProg RespFrame :=
  calling onError (.key db key c) render

/-- A command whose only argument is the key. -/
def keyed {α : Type} (cmd : String) (onError : OnError) (c : KeyCmd α) (render : α → RespFrame)
    (db : Nat) (parts : Parts) : StoreProg RespFrame :=
  reading (do
    Args.arity cmd (parts.length == 2)
    Args.bulk parts 1 "key")
    fun key => onKey onError db key c render

/-- Call an operation and pass its error on. -/
def need {α : Type} (op : Op α) : StoreProg α := Prog.perform op

/-- `usize as i64` in an integer reply. -/
def count (n : Nat) : RespFrame := .integer n

/-- An array of byte strings. -/
def items (xs : List Bytes) : RespFrame := .list (xs.map .fromBytes)

/-! ## The operations of a handler -/

section Uses

variable {P : ∀ β : Type, Op β → Prop} {α β : Type}

/-- Arguments that are refused end the handler before any operation. -/
theorem uses_reading_ok {args : Args α} {body : α → StoreProg RespFrame}
    (h : ∀ a, args = .ok a → (body a).Uses P) : (reading args body).Uses P := by
  cases args with
  | error f => trivial
  | ok a => exact h a rfl

theorem uses_reading {args : Args α} {body : α → StoreProg RespFrame} (h : ∀ a, (body a).Uses P) :
    (reading args body).Uses P :=
  uses_reading_ok fun a _ => h a

theorem uses_answering (onError : OnError) (render : α → RespFrame) (r : Except FerrousError α) :
    (answering onError render r).Uses P := by
  cases r with
  | ok a => trivial
  | error e =>
      simp only [answering]
      split <;> trivial

/-- The handlers of one operation. -/
theorem uses_calling {o : Op α} {onError : OnError} {render : α → RespFrame} (ho : P α o) :
    (calling onError o render).Uses P :=
  ⟨ho, uses_answering onError render⟩

/-- A command whose only argument is the key. -/
theorem uses_keyed {cmd : String} {onError : OnError} {c : KeyCmd α} {render : α → RespFrame} {db : Nat}
    (hc : ∀ key, P α (.key db key c)) (parts : Parts) : (keyed cmd onError c render db parts).Uses P :=
  uses_reading fun key => uses_calling (hc key)

/-- An operation whose error is passed on, and then the rest. -/
theorem uses_need {o : Op β} {body : β → StoreProg α} (ho : P β o) (h : ∀ b, (body b).Uses P) :
    (need o >>= body).Uses P :=
  Prog.Uses.bind (Prog.Uses.perform ho) h

end Uses

end Ferrous
