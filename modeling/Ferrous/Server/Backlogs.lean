/-
# `Server.Backlogs` — the backlog as a window on what was appended

Bytes are pushed one by one, also those of one command, and a full buffer loses its oldest
byte before it takes the next.  So after any commands, however long, it holds the last bytes
of all that were appended, and the offsets it is asked for count from the first of them.
That ends where the machine words do: a vector of 2^63 bytes cannot be made, and behind
2^64 bytes the end of the window is a smaller number than its start.
-/
import Ferrous.Server.Offsets
import Mathlib.Data.List.DropRight

namespace Ferrous

open Lib

namespace Backlog

/-! ## Reading and appending -/

/-- `size`. -/
def size (b : Backlog) : Nat := b.currentSize

/-- `get_data_from_offset`, with its error. -/
def dataFromOffset (b : Backlog) (offset : Nat) : Except FerrousError Bytes :=
  match b.getDataFromOffset offset with
  | some data => .ok data
  | none => .error (.command (.generic "offset out of range"))

/-- The bytes that `append_command` adds; a frame that cannot be written adds none. -/
def appended (cmd : RespFrame) : Bytes := if cmd.serialize.2 then cmd.serialize.1 else []

/-- The backlog after some commands; an error leaves it as it was. -/
def appendAll (b : Backlog) (cmds : List RespFrame) : Backlog :=
  cmds.foldl (fun b cmd => (b.appendCommand cmd).getD b) b

/-! ## The window -/

/-- The backlog holds the last of the bytes, as many as it has room for. -/
structure Window (b : Backlog) (bytes : Bytes) : Prop where
  retains : b.Retains bytes
  full : b.currentSize = min bytes.length b.maxSize

theorem window_empty (maxSize : Nat) : (empty maxSize).Window [] :=
  ⟨retains_empty maxSize, (Nat.zero_min _).symm⟩

section

variable {b : Backlog} {bytes : Bytes}

/-- The window moves on by one byte, or grows by one as long as there is room. -/
theorem Window.push (h : b.Window bytes) (hpos : 0 < b.maxSize) (hfits : bytes.length < 2 ^ 64)
    (x : UInt8) : (b.push x).Window (bytes ++ [x]) := by
  refine ⟨h.retains.push hpos hfits x, ?_⟩
  have hfull := h.full
  rw [push_maxSize, List.length_append, List.length_singleton]
  unfold Backlog.push
  split
  · next hroom =>
      show b.currentSize = min (bytes.length + 1) b.maxSize
      omega
  · next hroom =>
      show b.currentSize + 1 = min (bytes.length + 1) b.maxSize
      omega

theorem Window.pushes (h : b.Window bytes) (hpos : 0 < b.maxSize) (xs : Bytes)
    (hfits : (bytes ++ xs).length < 2 ^ 64) : (xs.foldl Backlog.push b).Window (bytes ++ xs) := by
  induction xs generalizing b bytes with
  | nil => rwa [List.append_nil]
  | cons x xs ih =>
      have hshort : bytes.length < 2 ^ 64 :=
        Nat.lt_of_le_of_lt (List.sublist_append_left bytes (x :: xs)).length_le hfits
      rw [List.append_cons] at hfits ⊢
      exact ih (h.push hpos hshort x) (by rwa [push_maxSize]) hfits

theorem appendCommand_maxSize (b : Backlog) (cmd : RespFrame) :
    ((b.appendCommand cmd).getD b).maxSize = b.maxSize := by
  unfold appendCommand
  split
  · exact foldl_push_maxSize _ b
  · rfl

/-- A command is appended to its last byte, or not at all. -/
theorem Window.append (h : b.Window bytes) (hpos : 0 < b.maxSize) (cmd : RespFrame)
    (hfits : (bytes ++ appended cmd).length < 2 ^ 64) :
    ((b.appendCommand cmd).getD b).Window (bytes ++ appended cmd) := by
  unfold appended at hfits ⊢
  unfold appendCommand
  split
  · next hwritten =>
      rw [if_pos hwritten] at hfits
      exact h.pushes hpos _ hfits
  · rwa [List.append_nil]

theorem Window.appendAll (h : b.Window bytes) (hpos : 0 < b.maxSize) (cmds : List RespFrame)
    (hfits : (bytes ++ cmds.flatMap appended).length < 2 ^ 64) :
    (b.appendAll cmds).Window (bytes ++ cmds.flatMap appended) := by
  induction cmds generalizing b bytes with
  | nil => rwa [List.flatMap_nil, List.append_nil]
  | cons cmd cmds ih =>
      rw [List.flatMap_cons, ← List.append_assoc] at hfits ⊢
      have hshort : (bytes ++ appended cmd).length < 2 ^ 64 :=
        Nat.lt_of_le_of_lt (List.sublist_append_left _ _).length_le hfits
      exact ih (h.append hpos cmd hshort) (by rwa [appendCommand_maxSize]) hfits

theorem appendAll_maxSize (b : Backlog) (cmds : List RespFrame) : (b.appendAll cmds).maxSize = b.maxSize := by
  induction cmds generalizing b with
  | nil => rfl
  | cons cmd cmds ih => exact (ih _).trans (appendCommand_maxSize b cmd)

/-- What the window shows. -/
theorem Window.buffer_eq (h : b.Window bytes) : b.buffer = bytes.rtake (min bytes.length b.maxSize) := by
  have hend := h.retains.end_eq
  have hstart : bytes.length - min bytes.length b.maxSize = b.startOffset := by
    rw [← h.full]
    omega
  rw [List.rtake, hstart, h.retains.buffer]

/-- Data is given out from every offset in the window, and from no other. -/
theorem Window.dataFromOffset_eq (h : b.Window bytes) (hfits : bytes.length < 2 ^ 64) (offset : Nat) :
    b.dataFromOffset offset =
      if b.startOffset ≤ offset ∧ offset < bytes.length then .ok (bytes.drop offset)
      else .error (.command (.generic "offset out of range")) := by
  have hcovers : b.covers offset = true ↔ b.startOffset ≤ offset ∧ offset < bytes.length := by
    rw [covers, Bool.and_eq_true, decide_eq_true_eq, decide_eq_true_eq, h.retains.end_eq,
      Nat.mod_eq_of_lt hfits]
  unfold dataFromOffset
  cases hdata : b.getDataFromOffset offset with
  | none =>
      have hnot : ¬ (b.startOffset ≤ offset ∧ offset < bytes.length) := by
        rw [← hcovers]
        intro hc
        rw [getDataFromOffset, if_pos hc] at hdata
        cases hdata
      rw [if_neg hnot]
  | some data =>
      have hin : b.startOffset ≤ offset ∧ offset < bytes.length := by
        rw [← hcovers]
        by_contra hc
        rw [getDataFromOffset, if_neg hc] at hdata
        cases hdata
      rw [if_pos hin, h.retains.getDataFromOffset hdata]

end

/-! ## The machine words -/

/-- The start offset is a word of 64 bits, and no more bytes are held than there is room for. -/
structure Counted (b : Backlog) : Prop where
  start_lt : b.startOffset < 2 ^ 64
  size_le : b.currentSize ≤ b.maxSize

theorem counted_empty (maxSize : Nat) : (empty maxSize).Counted := ⟨Nat.two_pow_pos 64, Nat.zero_le _⟩

section

variable {b : Backlog}

theorem Counted.push (h : b.Counted) (x : UInt8) : (b.push x).Counted := by
  have hstart := h.start_lt
  have hsize := h.size_le
  unfold Backlog.push
  split
  · refine ⟨?_, hsize⟩
    show (if b.buffer.isEmpty then b.startOffset else (b.startOffset + 1) % 2 ^ 64) < 2 ^ 64
    split
    · exact hstart
    · exact Nat.mod_lt _ (Nat.two_pow_pos 64)
  · next hroom => exact ⟨hstart, Nat.lt_of_not_le hroom⟩

theorem Counted.append (h : b.Counted) (cmd : RespFrame) : ((b.appendCommand cmd).getD b).Counted := by
  unfold appendCommand
  split
  · exact List.foldlRecOn _ _ h fun _ hb x _ => hb.push x
  · exact h

theorem Counted.appendAll (h : b.Counted) (cmds : List RespFrame) : (b.appendAll cmds).Counted :=
  List.foldlRecOn cmds _ h fun _ hb cmd _ => hb.append cmd

end

/-! ## The suffix window -/

/-- The backlog shows the last bytes, says how many they are and where they begin, and
gives data out from the offsets in the window alone. -/
structure Shows (b : Backlog) (maxSize : Nat) (bytes : Bytes) : Prop where
  buffer : b.buffer = bytes.rtake (min bytes.length maxSize)
  size : b.size = b.buffer.length
  ends : b.startOffset + b.size = bytes.length
  data : ∀ offset < 2 ^ 64, b.dataFromOffset offset =
    if b.startOffset ≤ offset ∧ offset < bytes.length then .ok (bytes.drop offset)
    else .error (.command (.generic "offset out of range"))

/-- A backlog can be made, and after the commands it shows what they appended. -/
def IsSuffixWindow (maxSize : Nat) (cmds : List RespFrame) : Prop :=
  ∃ b, new maxSize = .ok b ∧ (b.appendAll cmds).Shows maxSize (cmds.flatMap appended)

/-- Behind 2^64 bytes the window ends below its start, and gives out nothing. -/
theorem Shows.length_lt {b : Backlog} {maxSize : Nat} {bytes : Bytes} (h : b.Shows maxSize bytes)
    (hcounted : b.Counted) (hmax : b.maxSize < 2 ^ 63) : bytes.length < 2 ^ 64 := by
  by_contra hlong
  have hstart := hcounted.start_lt
  have hsize := hcounted.size_le
  have hends : b.startOffset + b.currentSize = bytes.length := h.ends
  have hin : b.startOffset ≤ b.startOffset ∧ b.startOffset < bytes.length := ⟨le_rfl, by omega⟩
  have hdata := h.data b.startOffset hstart
  have hover : (b.startOffset + b.currentSize) % 2 ^ 64 ≤ b.startOffset := by omega
  have hcovers : b.covers b.startOffset = false := by
    rw [covers, Bool.and_eq_false_iff]
    exact .inr (decide_eq_false (Nat.not_lt_of_le hover))
  rw [if_pos hin, dataFromOffset, getDataFromOffset, hcovers] at hdata
  cases hdata

/-- After any commands the backlog is the window on the last bytes of all that were
appended, exactly if a vector of its size can be made and 64 bits count the bytes. -/
theorem backlog_is_suffix_window_iff {maxSize : Nat} (hpos : 0 < maxSize) (cmds : List RespFrame) :
    IsSuffixWindow maxSize cmds ↔ maxSize < 2 ^ 63 ∧ (cmds.flatMap appended).length < 2 ^ 64 := by
  have hmax : ((empty maxSize).appendAll cmds).maxSize = maxSize := appendAll_maxSize _ cmds
  constructor
  · rintro ⟨b, hnew, hshows⟩
    unfold new at hnew
    split at hnew
    · cases hnew
    · next hsmall =>
        obtain rfl := Outcome.ok.inj hnew
        have hroom := Nat.lt_of_not_le hsmall
        exact ⟨hroom, hshows.length_lt ((counted_empty maxSize).appendAll cmds) (hmax.symm ▸ hroom)⟩
  · rintro ⟨hroom, hfits⟩
    have hwindow : ((empty maxSize).appendAll cmds).Window (cmds.flatMap appended) :=
      (window_empty maxSize).appendAll hpos cmds hfits
    refine ⟨empty maxSize, if_neg (Nat.not_le_of_lt hroom), ?_, hwindow.retains.size,
      hwindow.retains.end_eq, fun offset _ => hwindow.dataFromOffset_eq hfits offset⟩
    rw [hwindow.buffer_eq, hmax]

/-- Of `:7` and its line end a backlog of three bytes has lost the colon. -/
theorem small_backlog :
    (((empty 3).appendAll [.integer 7]).buffer = [55, 13, 10] ∧
      ((empty 3).appendAll [.integer 7]).dataFromOffset 2 = .ok [13, 10]) ∧
    IsSuffixWindow 3 [.integer 7] :=
  ⟨⟨by decide, rfl⟩, (backlog_is_suffix_window_iff (by decide) [.integer 7]).mpr ⟨by decide, by decide⟩⟩

/-- A backlog of 2^63 bytes is never made. -/
theorem huge_backlog_panics : new (2 ^ 63) = .panic ∧ ¬ IsSuffixWindow (2 ^ 63) [] := by
  have hpanic : new (2 ^ 63) = .panic := if_pos le_rfl
  refine ⟨hpanic, fun ⟨b, hnew, _⟩ => ?_⟩
  rw [hpanic] at hnew
  cases hnew

end Backlog

end Ferrous
