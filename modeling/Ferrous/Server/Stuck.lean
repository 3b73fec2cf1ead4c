/-
# `Server.Stuck` — input that cannot be parsed

On an error the parser of a connection stays where it is, and the read loop of
`process_connection` writes a warning and goes on to the frames it has.  Where
no further input repairs the error (`Broken`), every later piece only makes the
buffer longer: the connection is deaf for good, and neither closed nor answered,
unless the frames in front of the error see to it (`EndedBefore`).
-/
import Ferrous.Protocol.Feed
import Ferrous.Server.Closing

namespace Ferrous

open Lib

namespace RespParser

/-! ## Errors that nothing repairs -/

/-- Whatever comes behind, the next parse is an error. -/
def Broken (p : RespParser) : Prop := ∀ more, ∃ e p', (p.feed more).parse = (.err e, p')

/-- The frames of a piece, and the parser behind it. -/
def take (p : RespParser) (data : Bytes) : List RespFrame × Bool × RespParser :=
  (p.feed data).parseAll ((p.feed data).buffer.length + 1)

theorem feed_nil (p : RespParser) : p.feed [] = p := by
  rw [feed, List.append_nil]

theorem feed_feed (p : RespParser) (a b : Bytes) : (p.feed a).feed b = p.feed (a ++ b) := by
  rw [feed, feed, feed, List.append_assoc]

theorem Broken.feed {p : RespParser} (h : p.Broken) (data : Bytes) : (p.feed data).Broken := by
  intro more
  rw [feed_feed]
  exact h (data ++ more)

/-- An error leaves the parser behind the blanks, in front of bytes that are none. -/
theorem parse_err {p p' : RespParser} {e : FerrousError} (h : p.parse = (.err e, p')) :
    p.position < p.buffer.length ∧ (p.skip isBlank).position < p.buffer.length ∧
      p' = p.skip isBlank := by
  unfold parse at h
  split at h
  · cases h
  · next hpos =>
      dsimp only at h
      split at h
      · cases h
      · next hskip =>
          refine ⟨Nat.lt_of_not_le hpos, Nat.lt_of_not_le hskip, ?_⟩
          split at h
          · cases h
          · split at h
            · cases h
            · cases h
            · cases h
              rfl
            · cases h

/-- Blanks that end inside the buffer end there whatever comes behind. -/
theorem skip_feed {p : RespParser} (h : (p.skip isBlank).position < p.buffer.length) (more : Bytes) :
    (p.feed more).skip isBlank = (p.skip isBlank).feed more := by
  have hle : p.position ≤ (p.skip isBlank).position := Nat.le_add_right _ _
  have hinside : p.Inside := Nat.le_of_lt (Nat.lt_of_le_of_lt hle h)
  have hlen : p.unread.length = p.buffer.length - p.position := List.length_drop
  have hshort : (p.unread.takeWhile isBlank).length ≠ p.unread.length := by
    have hpos : p.position + (p.unread.takeWhile isBlank).length < p.buffer.length := h
    omega
  have hblanks : ((p.feed more).unread.takeWhile isBlank).length = (p.unread.takeWhile isBlank).length := by
    rw [unread_feed hinside, List.takeWhile_append, if_neg hshort]
  unfold skip
  rw [hblanks]
  rfl

theorem skip_skip (p : RespParser) : (p.skip isBlank).skip isBlank = p.skip isBlank := by
  have hnone : (p.skip isBlank).unread.takeWhile isBlank = [] := by
    rw [unread_skip, List.takeWhile_eq_nil_iff]
    exact fun hl => List.dropWhile_get_zero_not isBlank p.unread hl
  unfold skip at hnone ⊢
  rw [hnone]
  rfl

/-- The blanks in front of an error do not count. -/
theorem Broken.skip {p : RespParser} (h : p.Broken) : (p.skip isBlank).Broken := by
  intro more
  obtain ⟨e, p', hparse⟩ := h []
  rw [feed_nil] at hparse
  obtain ⟨hpos, hskip, -⟩ := parse_err hparse
  obtain ⟨e', p'', hmore⟩ := h more
  refine ⟨e', p'', ?_⟩
  have hfed : ((p.skip isBlank).feed more).skip isBlank = (p.feed more).skip isBlank := by
    rw [skip_feed (by rw [skip_skip]; exact hskip), skip_skip, skip_feed hskip]
  have hlong : p.buffer.length ≤ (p.buffer ++ more).length := by
    rw [List.length_append]
    exact Nat.le_add_right _ _
  have hin : ¬ ((p.skip isBlank).feed more).buffer.length ≤ ((p.skip isBlank).feed more).position :=
    Nat.not_le_of_lt (Nat.lt_of_lt_of_le hskip hlong)
  have hin' : ¬ (p.feed more).buffer.length ≤ (p.feed more).position :=
    Nat.not_le_of_lt (Nat.lt_of_lt_of_le hpos hlong)
  rw [← hmore, parse, parse, if_neg hin, if_neg hin', hfed]

/-- A broken parser gives no frame, and keeps every byte it gets. -/
theorem Broken.take {p : RespParser} (h : p.Broken) (data : Bytes) :
    ∃ p', p.take data = ([], false, p') ∧ p'.Broken ∧ p'.buffer.length = p.buffer.length + data.length := by
  obtain ⟨e, p', hparse⟩ := h data
  obtain ⟨-, -, rfl⟩ := parse_err hparse
  refine ⟨(p.feed data).skip isBlank, ?_, (h.feed data).skip, List.length_append⟩
  rw [RespParser.take, parseAll, hparse]

end RespParser

/-! ## The connection -/

namespace Server

variable (env : Env)

/-- The error is answered: behind the replies to the frames in front of it. -/
def Answered (id : ConnId) (p : RespParser) (data : Bytes) (s s' : Server) : Prop :=
  ∃ r s₁ msg rest, processConnection env id (.frames (p.take data).1) s = some (r, s₁) ∧
    s'.sent = s₁.sent ++ (id, .frame (.error msg)) :: rest

variable {env : Env} {id : ConnId} {p : RespParser} {data : Bytes} {s : Server}

/-- The state after a client has come. -/
def connected : Server := accept (.quiet none) (initial Engine.new "0" 16) "a"

end Server

end Ferrous
