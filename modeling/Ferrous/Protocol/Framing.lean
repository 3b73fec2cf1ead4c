/-
# `Protocol.Framing` — frames that keep their place on the wire

A frame is well framed when its bytes, followed by anything, parse as exactly
that frame.  Of the frames a process can hold, these are the ones without a
marker in them and without a line end in a line: the parser ends a line at the
first line end, wherever the frame around it meant to go on.
-/
import Ferrous.Protocol.Encoding

namespace Ferrous

open Lib

namespace RespFrame

/-- The bytes are written to the end and parse, followed by anything, as exactly
the frame. -/
def WellFramed (f : RespFrame) : Prop :=
  f.serialize.2 = true ∧ ∀ r, parseFrame (f.serialize.1 ++ r) = .done f f.serialize.1.length

/-- What a process can hold: machine-sized numbers, and vectors that fit into
memory.  Floating-point numbers are left out; no reply has one. -/
def Held : RespFrame → Prop
  | integer n => -2 ^ 63 ≤ n ∧ n < 2 ^ 63
  | bulkString (some bytes) => allocatable 1 bytes.length
  | array (some frames) => allocatable frameSize frames.length
  | double _ => False
  | map pairs => allocatable (2 * frameSize) pairs.length
  | set elements => allocatable frameSize elements.length
  | _ => True

theorem legible_of_unbroken {f : RespFrame} (hf : f.Unbroken) (hheld : f.Held) : f.Legible := by
  cases f with
  | simpleString bytes => exact hf
  | error bytes => exact hf
  | noResponse => exact hf
  | bulkString bytes =>
      cases bytes with
      | none => trivial
      | some bytes => exact hheld
  | array frames =>
      cases frames with
      | none => trivial
      | some frames => exact hheld
  | _ => exact hheld

mutual

theorem Everywhere.and {P Q : RespFrame → Prop} :
    ∀ {f : RespFrame}, f.Everywhere P → f.Everywhere Q → f.Everywhere fun g => P g ∧ Q g
  | simpleString _, hp, hq => ⟨hp, hq⟩
  | error _, hp, hq => ⟨hp, hq⟩
  | integer _, hp, hq => ⟨hp, hq⟩
  | bulkString _, hp, hq => ⟨hp, hq⟩
  | array none, hp, hq => ⟨hp, hq⟩
  | array (some _), hp, hq => ⟨⟨hp.1, hq.1⟩, EverywhereAll.and hp.2 hq.2⟩
  | noResponse, hp, hq => ⟨hp, hq⟩
  | null, hp, hq => ⟨hp, hq⟩
  | boolean _, hp, hq => ⟨hp, hq⟩
  | double _, hp, hq => ⟨hp, hq⟩
  | map _, hp, hq => ⟨⟨hp.1, hq.1⟩, EverywherePairs.and hp.2 hq.2⟩
  | set _, hp, hq => ⟨⟨hp.1, hq.1⟩, EverywhereAll.and hp.2 hq.2⟩

theorem EverywhereAll.and {P Q : RespFrame → Prop} :
    ∀ {fs : List RespFrame}, EverywhereAll P fs → EverywhereAll Q fs → EverywhereAll (fun g => P g ∧ Q g) fs
  | [], _, _ => trivial
  | _ :: _, hp, hq => ⟨Everywhere.and hp.1 hq.1, EverywhereAll.and hp.2 hq.2⟩

theorem EverywherePairs.and {P Q : RespFrame → Prop} :
    ∀ {ps : List (RespFrame × RespFrame)}, EverywherePairs P ps → EverywherePairs Q ps →
      EverywherePairs (fun g => P g ∧ Q g) ps
  | [], _, _ => trivial
  | (_, _) :: _, hp, hq => ⟨Everywhere.and hp.1 hq.1, Everywhere.and hp.2.1 hq.2.1, EverywherePairs.and hp.2.2 hq.2.2⟩

end

/-- Of the frames a process can hold, the unbroken ones are well framed. -/
theorem wellFramed_iff {f : RespFrame} (h : f.Everywhere Held) : f.WellFramed ↔ f.Everywhere Unbroken := by
  constructor
  · intro hf
    have hread := hf.2 []
    exact parseDepth_unbroken _ _ f _ hread
  · intro hf
    have hback := readsBack_serialize f ((hf.and h).imp fun _ hg => legible_of_unbroken hg.1 hg.2)
    refine ⟨hback.1, fun r => hback.2 _ r ?_⟩
    rw [List.length_append]
    exact Nat.le_add_right _ _

end RespFrame

end Ferrous
