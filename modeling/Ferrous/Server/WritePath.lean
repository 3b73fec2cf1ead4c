/-
# `Server.WritePath` — the write buffer of a connection and its socket

Replies are appended to a buffer, and `flush` hands to the socket what lies behind an offset
into it.  The socket may take less than it is offered, or fail; the loop goes on, gives up
without an error, or returns one.  Whatever the socket does, nothing gets lost and nothing is
sent twice: a connection is a pipe.
-/
import Ferrous.Protocol.Encoding
import Ferrous.Storage.Error

namespace Ferrous

open Lib

/-! ## A pipe -/

/-- What came out, and what is held back. -/
structure Pipe (α : Type*) where
  out : List α
  held : List α

namespace Pipe

variable {α : Type*}

/-- Everything that was ever put in. -/
def all (p : Pipe α) : List α := p.out ++ p.held

def put (xs : List α) (p : Pipe α) : Pipe α := ⟨p.out, p.held ++ xs⟩

/-- The first `n` come out. -/
def move (n : Nat) (p : Pipe α) : Pipe α := ⟨p.out ++ p.held.take n, p.held.drop n⟩

theorem all_put (xs : List α) (p : Pipe α) : (p.put xs).all = p.all ++ xs := by
  rw [all, all, put, List.append_assoc]

theorem all_move (n : Nat) (p : Pipe α) : (p.move n).all = p.all := by
  rw [all, all, move, List.append_assoc, List.take_append_drop]

theorem move_zero (p : Pipe α) : p.move 0 = p := by
  rw [move, List.take_zero, List.drop_zero, List.append_nil]

theorem move_move (m n : Nat) (p : Pipe α) : (p.move m).move n = p.move (m + n) := by
  simp only [move, List.append_assoc, List.drop_drop, List.take_add]

/-- Some come out. -/
def Moves (p q : Pipe α) : Prop := ∃ n, q = p.move n

theorem Moves.refl (p : Pipe α) : p.Moves p := ⟨0, p.move_zero.symm⟩

theorem Moves.trans {p q r : Pipe α} : p.Moves q → q.Moves r → p.Moves r := by
  rintro ⟨m, rfl⟩ ⟨n, rfl⟩
  exact ⟨m + n, move_move m n p⟩

theorem Moves.all_eq {p q : Pipe α} : p.Moves q → q.all = p.all := by
  rintro ⟨n, rfl⟩
  exact all_move n p

end Pipe

/-! ## The socket -/

/-- `std::io::ErrorKind`, as far as the loop looks at it. -/
inductive ErrorKind
  | wouldBlock
  | interrupted
  | brokenPipe
  | connectionReset
  | connectionAborted
  | other

/-- `std::io::Error`. -/
structure IoError where
  kind : ErrorKind
  text : String

/-- What the socket does when it is offered bytes: it takes up to `n` of them, or fails. -/
inductive WriteOutcome
  | takes (n : Nat)
  | fails (e : IoError)

/-- `TcpStream`: the bytes it accepted so far, and how often it was written to. -/
structure TcpStream where
  accepted : Bytes := []
  writes : Nat := 0

namespace TcpStream

/-- `write`: the number of bytes accepted, from the start of those offered. -/
def write (outcomes : Nat → WriteOutcome) (s : TcpStream) (offered : Bytes) : Except IoError Nat × TcpStream :=
  match outcomes s.writes with
  | .takes n => (.ok (min n offered.length), ⟨s.accepted ++ offered.take n, s.writes + 1⟩)
  | .fails e => (.error e, { s with writes := s.writes + 1 })

end TcpStream

/-! ## The connection -/

/-- `Connection`, the fields of the write path. -/
structure WriteSide where
  stream : TcpStream := {}
  writeBuffer : Bytes := []
  writeOffset : Nat := 0

namespace WriteSide

/-- `send_frame`. -/
def sendFrame (c : WriteSide) (frame : RespFrame) : Except FerrousError Unit × WriteSide :=
  (if frame.serialize.2 then .ok ()
    else .error (.protocol "Cannot serialize NoResponse frame - this is an internal marker"),
    { c with writeBuffer := c.writeBuffer ++ frame.serialize.1 })

/-- `send_raw`. -/
def sendRaw (c : WriteSide) (data : Bytes) : Except FerrousError Unit × WriteSide :=
  (.ok (), { c with writeBuffer := c.writeBuffer ++ data })

/-- `has_pending_writes`. -/
def hasPendingWrites (c : WriteSide) : Bool := decide (c.writeOffset < c.writeBuffer.length)

/-- `MAX_ATTEMPTS`. -/
def maxAttempts : Nat := 5

/-- The buffer is cleared if everything was written. -/
def clearWritten (c : WriteSide) : WriteSide :=
  if c.writeBuffer.length ≤ c.writeOffset then { c with writeBuffer := [], writeOffset := 0 } else c

/-- The loop of `flush` and what comes behind it; the pauses between attempts are left out. -/
def flushLoop (outcomes : Nat → WriteOutcome) (attempts : Nat) (c : WriteSide) :
    Except FerrousError Unit × WriteSide :=
  if c.writeOffset < c.writeBuffer.length ∧ attempts < maxAttempts then
    match c.stream.write outcomes (c.writeBuffer.drop c.writeOffset) with
    | (.ok 0, stream) => (.error (.connection "Cannot write to connection"), { c with stream })
    | (.ok (n + 1), stream) =>
        flushLoop outcomes attempts { c with stream, writeOffset := c.writeOffset + (n + 1) }
    | (.error e, stream) =>
        match e.kind with
        | .wouldBlock =>
            if attempts + 1 < maxAttempts then flushLoop outcomes (attempts + 1) { c with stream }
            else (.error (.connection "Write would block after max attempts"), { c with stream })
        | .interrupted => flushLoop outcomes (attempts + 1) { c with stream }
        | .brokenPipe | .connectionReset | .connectionAborted => (.error (.io e.text), { c with stream })
        | .other =>
            if attempts + 1 < maxAttempts then flushLoop outcomes (attempts + 1) { c with stream }
            else (.error (.io e.text), { c with stream })
  else (.ok (), c.clearWritten)
termination_by (c.writeBuffer.length - c.writeOffset) + (maxAttempts - attempts)
decreasing_by all_goals omega

/-- `flush`. -/
def flush (outcomes : Nat → WriteOutcome) (c : WriteSide) : Except FerrousError Unit × WriteSide :=
  if c.writeBuffer.length ≤ c.writeOffset then (.ok (), { c with writeBuffer := [], writeOffset := 0 })
  else flushLoop outcomes 0 c

/-- The part of the buffer that is not written yet. -/
def unsent (c : WriteSide) : Bytes := c.writeBuffer.drop c.writeOffset

theorem hasPendingWrites_iff {c : WriteSide} : c.hasPendingWrites = true ↔ c.unsent ≠ [] := by
  rw [hasPendingWrites, decide_eq_true_eq, unsent, Ne, List.drop_eq_nil_iff, Nat.not_le]

/-! ## A connection is a pipe -/

/-- From the buffer to the socket. -/
def pipe (c : WriteSide) : Pipe UInt8 := ⟨c.stream.accepted, c.unsent⟩

/-- The offset is one into the buffer. -/
def Sound (c : WriteSide) : Prop := c.writeOffset ≤ c.writeBuffer.length

/-- What a call may do besides putting something in: some bytes come out. -/
structure Delivers (c c' : WriteSide) : Prop where
  sound : c'.Sound
  moves : c.pipe.Moves c'.pipe

section

variable {outcomes : Nat → WriteOutcome} {c : WriteSide}

theorem Delivers.trans {c' c'' : WriteSide} (h : c.Delivers c') (h' : c'.Delivers c'') : c.Delivers c'' :=
  ⟨h'.sound, h.moves.trans h'.moves⟩

/-- What is appended behind the offset is put into the pipe. -/
theorem pipe_append (h : c.Sound) (bytes : Bytes) :
    ({ c with writeBuffer := c.writeBuffer ++ bytes } : WriteSide).pipe = c.pipe.put bytes := by
  rw [pipe, unsent, List.drop_append_of_le_length h]
  rfl

theorem sound_append (h : c.Sound) (bytes : Bytes) :
    ({ c with writeBuffer := c.writeBuffer ++ bytes } : WriteSide).Sound := by
  rw [Sound, List.length_append]
  exact Nat.le_add_right_of_le h

/-- A buffer that is cleared has no unsent bytes. -/
theorem delivers_clear (h : c.writeBuffer.length ≤ c.writeOffset) :
    c.Delivers { c with writeBuffer := [], writeOffset := 0 } := by
  refine ⟨Nat.le_refl 0, 0, ?_⟩
  rw [Pipe.move_zero, pipe, pipe, unsent, unsent, List.drop_eq_nil_of_le h, List.drop_nil]

theorem delivers_clearWritten (h : c.Sound) : c.Delivers c.clearWritten := by
  unfold clearWritten
  split
  · next hwritten => exact delivers_clear hwritten
  · exact ⟨h, .refl _⟩

/-- The bytes that one write accepts come out of the pipe, if the offset follows. -/
theorem delivers_write {n : Nat} {stream : TcpStream}
    (hwrite : c.stream.write outcomes c.unsent = (.ok n, stream)) (h : c.Sound) :
    c.Delivers { c with stream, writeOffset := c.writeOffset + n } := by
  unfold TcpStream.write at hwrite
  cases houtcome : outcomes c.stream.writes with
  | fails e =>
      rw [houtcome] at hwrite
      exact absurd (congrArg Prod.fst hwrite) nofun
  | takes m =>
      rw [houtcome] at hwrite
      obtain ⟨hn, rfl⟩ := Prod.mk.inj hwrite
      obtain rfl := Except.ok.inj hn
      have hlen : c.unsent.length = c.writeBuffer.length - c.writeOffset := List.length_drop
      constructor
      · have hsound : c.writeOffset ≤ c.writeBuffer.length := h
        show c.writeOffset + min m c.unsent.length ≤ c.writeBuffer.length
        omega
      · refine ⟨min m c.unsent.length, ?_⟩
        rw [Pipe.move, pipe, pipe, ← List.take_eq_take_min, unsent, unsent, List.drop_drop]

/-- A write that fails accepts nothing. -/
theorem delivers_failed {e : IoError} {stream : TcpStream}
    (hwrite : c.stream.write outcomes c.unsent = (.error e, stream)) (h : c.Sound) :
    c.Delivers { c with stream } := by
  unfold TcpStream.write at hwrite
  cases houtcome : outcomes c.stream.writes with
  | takes m =>
      rw [houtcome] at hwrite
      exact absurd (congrArg Prod.fst hwrite) nofun
  | fails e' =>
      rw [houtcome] at hwrite
      obtain ⟨-, rfl⟩ := Prod.mk.inj hwrite
      exact ⟨h, .refl _⟩

theorem delivers_flushLoop (attempts : Nat) (h : c.Sound) :
    c.Delivers (c.flushLoop outcomes attempts).2 := by
  fun_induction flushLoop outcomes attempts c with
  | case1 attempts c hround stream hwrite => exact delivers_write hwrite h
  | case2 attempts c hround n stream hwrite ih =>
      have hsome := delivers_write hwrite h
      exact hsome.trans (ih hsome.sound)
  | case3 attempts c hround e stream hwrite hkind hmore ih =>
      have hnone := delivers_failed hwrite h
      exact hnone.trans (ih hnone.sound)
  | case4 attempts c hround e stream hwrite hkind hmore => exact delivers_failed hwrite h
  | case5 attempts c hround e stream hwrite hkind ih =>
      have hnone := delivers_failed hwrite h
      exact hnone.trans (ih hnone.sound)
  | case6 attempts c hround e stream hwrite hkind => exact delivers_failed hwrite h
  | case7 attempts c hround e stream hwrite hkind => exact delivers_failed hwrite h
  | case8 attempts c hround e stream hwrite hkind => exact delivers_failed hwrite h
  | case9 attempts c hround e stream hwrite hkind hmore ih =>
      have hnone := delivers_failed hwrite h
      exact hnone.trans (ih hnone.sound)
  | case10 attempts c hround e stream hwrite hkind hmore => exact delivers_failed hwrite h
  | case11 attempts c hround => exact delivers_clearWritten h

theorem delivers_flush (h : c.Sound) : c.Delivers (c.flush outcomes).2 := by
  unfold flush
  split
  · next hwritten => exact delivers_clear hwritten
  · exact delivers_flushLoop 0 h

end

/-! ## Runs of calls -/

/-- A call of the server on a connection; no frame it sends has the marker in it. -/
inductive WriteCall
  | sendFrame (frame : {frame : RespFrame // frame.Complete})
  | sendRaw (data : Bytes)
  | flush

/-- The bytes that a call sends. -/
def WriteCall.bytes : WriteCall → Bytes
  | .sendFrame frame => frame.1.encoding
  | .sendRaw data => data
  | .flush => []

/-- A call, with what it returns. -/
def call (outcomes : Nat → WriteOutcome) (c : WriteSide) : WriteCall → Except FerrousError Unit × WriteSide
  | .sendFrame frame => c.sendFrame frame
  | .sendRaw data => c.sendRaw data
  | .flush => c.flush outcomes

/-- The connection after some calls, whatever each of them returned. -/
def afterCalls (outcomes : Nat → WriteOutcome) (c : WriteSide) (calls : List WriteCall) : WriteSide :=
  calls.foldl (fun c f => (c.call outcomes f).2) c

section

variable {outcomes : Nat → WriteOutcome} {c : WriteSide}

/-- A call puts the bytes it sends into the pipe, or some come out. -/
theorem call_spec (h : c.Sound) (f : WriteCall) :
    (c.call outcomes f).2.Sound ∧ (c.call outcomes f).2.pipe.all = c.pipe.all ++ f.bytes := by
  cases f with
  | sendFrame frame =>
      have hbytes := RespFrame.serialize_bytes frame.1 ((RespFrame.serialize_ok frame.1).mpr frame.2)
      rw [call, sendFrame, WriteCall.bytes, ← hbytes]
      exact ⟨sound_append h _, by rw [pipe_append h, Pipe.all_put]⟩
  | sendRaw data => exact ⟨sound_append h data, by rw [call, sendRaw, pipe_append h, Pipe.all_put]; rfl⟩
  | flush =>
      have hflush : c.Delivers (c.flush outcomes).2 := delivers_flush h
      exact ⟨hflush.sound, hflush.moves.all_eq.trans (List.append_nil _).symm⟩

theorem afterCalls_spec (h : c.Sound) (calls : List WriteCall) :
    (c.afterCalls outcomes calls).Sound ∧
      (c.afterCalls outcomes calls).pipe.all = c.pipe.all ++ calls.flatMap WriteCall.bytes := by
  induction calls generalizing c with
  | nil => exact ⟨h, (List.append_nil _).symm⟩
  | cons f calls ih =>
      obtain ⟨hsound, hall⟩ := @call_spec outcomes _ h f
      obtain ⟨hsound', hall'⟩ := ih hsound
      refine ⟨hsound', hall'.trans ?_⟩
      rw [hall, List.append_assoc, List.flatMap_cons]

end

/-- Whatever is called and whatever the socket does: what it accepted and what is unsent are
together all bytes that were sent, in order, and there are pending writes exactly when some are
unsent. -/
theorem writes_lose_nothing (outcomes : Nat → WriteOutcome) (calls : List WriteCall) :
    let c := ({} : WriteSide).afterCalls outcomes calls
    c.stream.accepted ++ c.unsent = calls.flatMap WriteCall.bytes ∧
      (c.hasPendingWrites = true ↔ c.unsent ≠ []) := by
  intro c
  have hstart : ({} : WriteSide).Sound := Nat.le_refl 0
  exact ⟨(afterCalls_spec hstart calls).2, hasPendingWrites_iff⟩

end WriteSide

end Ferrous
