/-
# `Protocol.Resp` — RESP frames and their serialisation

The frames of the protocol, the constructors the handlers answer with, and the
bytes a frame is written as.  `noResponse` is an internal marker: serialising
it fails, and whatever was written before it stays written.
-/
import Ferrous.Lib.Float64

namespace Ferrous

open Lib

/-- `RespFrame`. -/
inductive RespFrame
  | simpleString (bytes : Bytes)
  | error (bytes : Bytes)
  | integer (n : Int)
  | bulkString (bytes : Option Bytes)
  | array (frames : Option (List RespFrame))
  | noResponse
  | null
  | boolean (b : Bool)
  | double (x : Float64)
  | map (pairs : List (RespFrame × RespFrame))
  | set (elements : List RespFrame)

namespace RespFrame

/-- `RespFrame::ok`. -/
def ok : RespFrame := simpleString "OK".toBytes

/-- `RespFrame::error`, of a text. -/
def err (msg : String) : RespFrame := error msg.toBytes

/-- `RespFrame::null_bulk`. -/
def nullBulk : RespFrame := bulkString none

/-- `RespFrame::null_array`. -/
def nullArray : RespFrame := array none

/-- `RespFrame::from_bytes`. -/
def fromBytes (bytes : Bytes) : RespFrame := bulkString (some bytes)

/-- `RespFrame::from_string`. -/
def fromString (s : String) : RespFrame := bulkString (some s.toBytes)

/-- `RespFrame::Array(Some(..))`. -/
def list (frames : List RespFrame) : RespFrame := array (some frames)

/-- An optional byte string, null when there is none. -/
def optBytes : Option Bytes → RespFrame
  | some bytes => fromBytes bytes
  | none => nullBulk

/-- A truth value as `0` or `1`. -/
def flag (b : Bool) : RespFrame := integer (if b then 1 else 0)

/-- `is_error`. -/
def isError : RespFrame → Bool
  | error _ => true
  | _ => false

/-- The bytes of a bulk string. -/
def bulk? : RespFrame → Option Bytes
  | bulkString (some bytes) => some bytes
  | _ => none

/-! ## Serialisation -/

/-- `\r\n`. -/
def crlf : Bytes := [13, 10]

/-- A type byte, a text and a line end. -/
def line (tag : Char) (body : Bytes) : Bytes := (String.singleton tag).toBytes ++ body ++ crlf

/-- The length line of a bulk string or an aggregate. -/
def lengthLine (tag : Char) (n : Nat) : Bytes := line tag (toString n).toBytes

/-- Write one thing after another, unless the first failed. -/
def andThen (r : Bytes × Bool) (s : Unit → Bytes × Bool) : Bytes × Bool :=
  if r.2 then (r.1 ++ (s ()).1, (s ()).2) else r

mutual

/-- `serialize_resp_frame`: the bytes written, and whether it got to the end. -/
def serialize : RespFrame → Bytes × Bool
  | simpleString bytes => (line '+' bytes, true)
  | error bytes => (line '-' bytes, true)
  | integer n => (line ':' (intBytes n), true)
  | bulkString none => (line '$' "-1".toBytes, true)
  | bulkString (some bytes) => (lengthLine '$' bytes.length ++ bytes ++ crlf, true)
  | array none => (line '*' "-1".toBytes, true)
  | array (some frames) => andThen (lengthLine '*' frames.length, true) fun _ => serializeAll frames
  | noResponse => ([], false)
  | null => (line '_' [], true)
  | boolean b => (line '#' (if b then "t" else "f").toBytes, true)
  | double x => (line ',' x.toText.toBytes, true)
  | map pairs => andThen (lengthLine '%' pairs.length, true) fun _ => serializePairs pairs
  | set elements => andThen (lengthLine '~' elements.length, true) fun _ => serializeAll elements

@[inherit_doc serialize]
def serializeAll : List RespFrame → Bytes × Bool
  | [] => ([], true)
  | f :: fs => andThen (serialize f) fun _ => serializeAll fs

@[inherit_doc serialize]
def serializePairs : List (RespFrame × RespFrame) → Bytes × Bool
  | [] => ([], true)
  | (k, v) :: ps => andThen (serialize k) fun _ => andThen (serialize v) fun _ => serializePairs ps

end

/-! ## Frames inside a frame -/

mutual

/-- The property holds of the frame and of every frame inside it. -/
def Everywhere (Q : RespFrame → Prop) : RespFrame → Prop
  | array (some frames) => Q (array (some frames)) ∧ EverywhereAll Q frames
  | map pairs => Q (map pairs) ∧ EverywherePairs Q pairs
  | set elements => Q (set elements) ∧ EverywhereAll Q elements
  | f => Q f

@[inherit_doc Everywhere]
def EverywhereAll (Q : RespFrame → Prop) : List RespFrame → Prop
  | [] => True
  | f :: fs => Everywhere Q f ∧ EverywhereAll Q fs

@[inherit_doc Everywhere]
def EverywherePairs (Q : RespFrame → Prop) : List (RespFrame × RespFrame) → Prop
  | [] => True
  | (k, v) :: ps => Everywhere Q k ∧ Everywhere Q v ∧ EverywherePairs Q ps

end

section Everywhere

variable {Q : RespFrame → Prop}

theorem everywhereAll_iff {fs : List RespFrame} : EverywhereAll Q fs ↔ ∀ f ∈ fs, Everywhere Q f := by
  induction fs with
  | nil => simp [EverywhereAll]
  | cons f fs ih => simp [EverywhereAll, ih]

theorem everywhere_list {fs : List RespFrame} :
    Everywhere Q (list fs) ↔ Q (list fs) ∧ ∀ f ∈ fs, Everywhere Q f := by
  rw [list, Everywhere, everywhereAll_iff]

mutual

theorem Everywhere.imp {Q' : RespFrame → Prop} (h : ∀ f, Q f → Q' f) :
    ∀ {f : RespFrame}, f.Everywhere Q → f.Everywhere Q'
  | simpleString _, hf => h _ hf
  | error _, hf => h _ hf
  | integer _, hf => h _ hf
  | bulkString _, hf => h _ hf
  | array none, hf => h _ hf
  | array (some _), hf => ⟨h _ hf.1, EverywhereAll.imp h hf.2⟩
  | noResponse, hf => h _ hf
  | null, hf => h _ hf
  | boolean _, hf => h _ hf
  | double _, hf => h _ hf
  | map _, hf => ⟨h _ hf.1, EverywherePairs.imp h hf.2⟩
  | set _, hf => ⟨h _ hf.1, EverywhereAll.imp h hf.2⟩

theorem EverywhereAll.imp {Q' : RespFrame → Prop} (h : ∀ f, Q f → Q' f) :
    ∀ {fs : List RespFrame}, EverywhereAll Q fs → EverywhereAll Q' fs
  | [], _ => trivial
  | _ :: _, hfs => ⟨Everywhere.imp h hfs.1, EverywhereAll.imp h hfs.2⟩

theorem EverywherePairs.imp {Q' : RespFrame → Prop} (h : ∀ f, Q f → Q' f) :
    ∀ {ps : List (RespFrame × RespFrame)}, EverywherePairs Q ps → EverywherePairs Q' ps
  | [], _ => trivial
  | (_, _) :: _, hps => ⟨Everywhere.imp h hps.1, Everywhere.imp h hps.2.1, EverywherePairs.imp h hps.2.2⟩

end

/-- A property of the whole frame. -/
theorem Everywhere.here {f : RespFrame} (h : f.Everywhere Q) : Q f := by
  cases f with
  | array frames =>
      cases frames with
      | none => exact h
      | some frames => exact h.1
  | map pairs => exact h.1
  | set elements => exact h.1
  | _ => exact h

end Everywhere

end RespFrame

end Ferrous
