/-
# `Storage.Aof` — the append-only file

Commands are appended as RESP arrays, and the file is loaded line by line: each
line without its line end is fed to a parser, with a bare `\n` behind it.  The
header of the first array is then never complete, or no number, so nothing that
was appended is handed on (`load_replays_nothing`).
-/
import Ferrous.Protocol.Feed

namespace Ferrous

open Lib

/-- The commands handed to `replay_command`, which does nothing with them. -/
abbrev Replayed := List (List RespFrame)

/-- `AofEngine`: whether the writer is open, and the file if there is one. -/
structure AofEngine where
  enabled : Bool
  writer : Bool
  file : Option Bytes

namespace AofEngine

/-- `AofEngine::new`, over the file that is there. -/
def new (enabled : Bool) (file : Option Bytes) : AofEngine := ⟨enabled, false, file⟩

/-- `init`: the file is opened for appending. -/
def init (a : AofEngine) : AofEngine :=
  if a.enabled then { a with writer := true, file := some (a.file.getD []) } else a

/-- `append_command`: what was written before a failure stays written. -/
def appendCommand (a : AofEngine) (command : List RespFrame) : Outcome Unit × AofEngine :=
  if a.enabled && a.writer then
    let written := (RespFrame.list command).serialize
    (if written.2 then .ok ()
      else .err (.protocol "Cannot serialize NoResponse frame - this is an internal marker"),
      { a with file := some (a.file.getD [] ++ written.1) })
  else (.ok (), a)

/-- The file after several commands. -/
def appendAll (a : AofEngine) (commands : List (List RespFrame)) : AofEngine :=
  commands.foldl (fun a command => (a.appendCommand command).2) a

/-! ## Loading -/

/-- A line ends with `\n`, or with `\r\n`. -/
def stripReturn (line : Bytes) : Bytes := if line.getLast? = some 13 then line.dropLast else line

/-- `BufRead::lines`, behind what was read of the current line; what stands
behind the last `\n` keeps its `\r`. -/
def linesFrom (line : Bytes) : Bytes → List Bytes
  | [] => if line.isEmpty then [] else [line]
  | b :: bs => if b = 10 then stripReturn line :: linesFrom [] bs else linesFrom (line ++ [b]) bs

/-- Parse until there is no frame.  A frame takes a byte at least, so the number
of rounds is bounded. -/
def replayAll : Nat → RespParser → Outcome RespParser × Replayed
  | 0, p => (.ok p, [])
  | n + 1, p =>
      match p.parse with
      | (.ok (some (.array (some (first :: rest)))), p') =>
          ((replayAll n p').1, (first :: rest) :: (replayAll n p').2)
      | (.ok (some _), p') => replayAll n p'
      | (.ok none, p') => (.ok p', [])
      | (.err e, _) => (.err e, [])
      | (.panic, _) => (.panic, [])

/-- The loop over the lines. -/
def loadLines : List Bytes → RespParser → Outcome Unit × Replayed
  | [], _ => (.ok (), [])
  | line :: lines, p =>
      if (fromUtf8 line).isNone then (.err (.io "stream did not contain valid UTF-8"), [])
      else
        let p := (p.feed line).feed [10]
        match replayAll (p.buffer.length + 1) p with
        | (.ok p', replayed) =>
            ((loadLines lines p').1, replayed ++ (loadLines lines p').2)
        | (.err e, replayed) => (.err e, replayed)
        | (.panic, replayed) => (.panic, replayed)

/-- `load`: how it ends, and what it hands on. -/
def load (a : AofEngine) : Outcome Unit × Replayed :=
  match a.file with
  | none => (.ok (), [])
  | some bytes => loadLines (linesFrom [] bytes) .new

/-! ## A header without its line end -/

/-- The buffer starts with the header of an array whose line end lost its `\r`. -/
def Headed (n : Nat) (p : RespParser) : Prop :=
  ∃ rest, p = ⟨42 :: (intBytes n ++ 10 :: rest), 0⟩

theorem Headed.feed {n : Nat} {p : RespParser} (h : Headed n p) (data : Bytes) :
    Headed n (p.feed data) := by
  obtain ⟨rest, rfl⟩ := h
  exact ⟨rest ++ data, by simp [RespParser.feed]⟩

end AofEngine

namespace RespFrame

/-- A line end is found behind every byte that is none. -/
theorem findCrlf_append_lf {body : Bytes} (h : 13 ∉ body) {rest : Bytes} {i : Nat}
    (hi : findCrlf (body ++ 10 :: rest) = some i) : body.length < i := by
  induction body generalizing i with
  | nil =>
      rw [List.nil_append, findCrlf, if_neg (by simp)] at hi
      obtain ⟨j, -, rfl⟩ := Option.map_eq_some_iff.mp hi
      exact Nat.succ_pos j
  | cons b body ih =>
      have hb : b ≠ 13 := fun e => h (e ▸ List.mem_cons_self)
      rw [List.cons_append, findCrlf, if_neg fun hc => hb hc.1] at hi
      obtain ⟨j, hj, rfl⟩ := Option.map_eq_some_iff.mp hi
      exact Nat.succ_lt_succ (ih (fun hm => h (List.mem_cons_of_mem b hm)) hj)

/-- A numeral with a line end inside is none. -/
theorem parseI64_intBytes_lf {n : Nat} {rest : Bytes} {s : String}
    (h : fromUtf8 (intBytes n ++ 10 :: rest) = some s) : parseI64 s = none := by
  have hascii : ∀ c ∈ Nat.toDigits 10 n ++ ['\n'], c.toNat < 128 := by
    intro c hc
    rcases List.mem_append.mp hc with hc | hc
    · have hdigit := (Char.isDigit_iff_toNat.mp (isDigit_toDigits hc)).2
      exact Nat.lt_of_le_of_lt hdigit (by decide)
    · rw [List.mem_singleton.mp hc]
      decide
  have hbytes : intBytes n ++ 10 :: rest =
      ((Nat.toDigits 10 n ++ ['\n']).map fun c => UInt8.ofNat c.toNat) ++ rest := by
    have htext : intBytes n = (Nat.toDigits 10 n).map fun c => UInt8.ofNat c.toNat := by
      rw [← toBytes_ofList_ascii fun c hc => hascii c (List.mem_append_left _ hc),
        ← Nat.toString_eq_ofList_toDigits]
      rfl
    rw [htext, List.map_append, List.append_assoc]
    rfl
  rw [hbytes] at h
  obtain ⟨ds, hs⟩ := fromUtf8_ascii_append hascii h
  rw [List.append_assoc] at hs
  exact parseI64_interrupted (by decide) hs

/-- A numeral with a bare `\n` behind it is never read as a header. -/
theorem parseArray_lf (item : Bytes → Parsed RespFrame) (n : Nat) (rest : Bytes) :
    parseArray item (42 :: (intBytes n ++ 10 :: rest)) = .more ∨
      ∃ e, parseArray item (42 :: (intBytes n ++ 10 :: rest)) = .error e := by
  simp only [parseArray, parseAs, parseLine, List.drop_one, List.tail_cons]
  cases hcrlf : findCrlf (intBytes n ++ 10 :: rest) with
  | none => exact .inl rfl
  | some i =>
      have hlt := findCrlf_append_lf (not_mem_intBytes n) hcrlf
      obtain ⟨k, rfl⟩ : ∃ k, i = (intBytes n).length + (k + 1) := ⟨i - (intBytes n).length - 1, by omega⟩
      have hline : (intBytes n ++ 10 :: rest).take ((intBytes n).length + (k + 1)) =
          intBytes n ++ 10 :: rest.take k := by
        rw [List.take_length_add_append, List.take_succ_cons]
      refine .inr ?_
      simp only [Parsed.bind_done, hline]
      cases htext : fromUtf8 (intBytes n ++ 10 :: rest.take k) with
      | none => exact ⟨_, rfl⟩
      | some s =>
          have hnone : parseI64 s = none := parseI64_intBytes_lf htext
          simp only [hnone]
          exact ⟨_, rfl⟩

end RespFrame

namespace AofEngine

/-- A parser in front of such a header finds no frame. -/
theorem Headed.parse {n : Nat} {p : RespParser} (h : Headed n p) :
    p.parse = (.ok none, p) ∨ ∃ e, p.parse = (.err e, p) := by
  obtain ⟨rest, rfl⟩ := h
  have hskip : (⟨42 :: (intBytes n ++ 10 :: rest), 0⟩ : RespParser).skip RespParser.isBlank =
      ⟨42 :: (intBytes n ++ 10 :: rest), 0⟩ := rfl
  have hlen : ¬ (42 :: (intBytes n ++ 10 :: rest)).length ≤ 0 := by simp
  have hping : (42 :: (intBytes n ++ 10 :: rest)).take 4 ≠ "PING".toBytes := by
    intro hp
    have hhead : some (42 : UInt8) = "PING".toBytes.head? := congrArg List.head? hp
    exact absurd hhead (by decide)
  have hframe : RespFrame.parseFrame (42 :: (intBytes n ++ 10 :: rest)) =
      RespFrame.parseArray (RespFrame.parseDepth (intBytes n ++ 10 :: rest).length)
        (42 :: (intBytes n ++ 10 :: rest)) := rfl
  have hdrop : (42 :: (intBytes n ++ 10 :: rest)).drop 0 = 42 :: (intBytes n ++ 10 :: rest) := rfl
  simp only [RespParser.parse, hskip, if_neg hlen, RespParser.unread, hdrop, if_neg hping, hframe]
  rcases RespFrame.parseArray_lf (RespFrame.parseDepth (intBytes n ++ 10 :: rest).length) n rest with
    hmore | ⟨e, herr⟩
  · rw [hmore]
    exact .inl rfl
  · rw [herr]
    exact .inr ⟨e, rfl⟩

/-- Whatever lines follow, nothing is handed on. -/
theorem Headed.loadLines {n : Nat} (lines : List Bytes) {p : RespParser} (h : Headed n p) :
    (loadLines lines p).2 = [] := by
  induction lines generalizing p with
  | nil => rfl
  | cons line lines ih =>
      rw [AofEngine.loadLines]
      split
      · rfl
      · have hfed := (h.feed line).feed [10]
        rcases hfed.parse with hnone | ⟨e, herr⟩
        · simp only [replayAll, hnone, List.nil_append]
          exact ih hfed
        · simp only [replayAll, herr]

/-! ## What is appended -/

/-- The command of a list of byte strings. -/
def command (args : List Bytes) : List RespFrame := args.map .fromBytes

/-- The file a fresh engine opens. -/
def opened : AofEngine := (AofEngine.new true none).init

/-- The file after several commands: their frames, one behind the other. -/
theorem appendAll_file (commands : List (List Bytes)) {file : Bytes} :
    (AofEngine.mk true true (some file)).appendAll (commands.map command) =
      ⟨true, true, some (file ++ commands.flatMap fun args => (RespFrame.list (command args)).serialize.1)⟩ := by
  induction commands generalizing file with
  | nil => simp [appendAll]
  | cons args commands ih =>
      have hstep : ((AofEngine.mk true true (some file)).appendCommand (command args)).2 =
          ⟨true, true, some (file ++ (RespFrame.list (command args)).serialize.1)⟩ := rfl
      rw [List.map_cons, appendAll, List.foldl_cons, hstep, List.flatMap_cons, ← List.append_assoc]
      exact ih

/-- The bytes up to a `\n` are a line. -/
theorem linesFrom_line {body : Bytes} (h : 10 ∉ body) (line rest : Bytes) :
    linesFrom line (body ++ 10 :: rest) = stripReturn (line ++ body) :: linesFrom [] rest := by
  induction body generalizing line with
  | nil => rw [List.nil_append, linesFrom, if_pos rfl, List.append_nil]
  | cons b body ih =>
      have hb : b ≠ 10 := fun e => h (e ▸ List.mem_cons_self)
      rw [List.cons_append, linesFrom, if_neg hb, ih fun hm => h (List.mem_cons_of_mem b hm),
        List.append_assoc]
      rfl

/-- The first line of a file that starts with a command. -/
theorem linesFrom_list (frames : List RespFrame) (rest : Bytes) :
    ∃ lines, linesFrom [] ((RespFrame.list frames).serialize.1 ++ rest) =
      (42 :: intBytes frames.length) :: lines := by
  obtain ⟨body, hbody⟩ : ∃ body, (RespFrame.list frames).serialize.1 ++ rest =
      (42 :: intBytes frames.length ++ [13]) ++ 10 :: body := by
    refine ⟨(RespFrame.serializeAll frames).1 ++ rest, ?_⟩
    rw [RespFrame.list, RespFrame.serialize, RespFrame.andThen, if_pos rfl, RespFrame.lengthLine,
      RespFrame.line_eq (b := 42) (by decide), toBytes_toString_nat]
    simp [RespFrame.crlf]
  have hno : (10 : UInt8) ∉ 42 :: intBytes frames.length ++ [13] := by
    simpa using not_mem_intBytes_of_le (by decide) (frames.length : Int)
  have hstrip : stripReturn (42 :: intBytes frames.length ++ [13]) = 42 :: intBytes frames.length := by
    rw [stripReturn, if_pos (List.getLast?_concat ..), List.dropLast_concat]
  exact ⟨linesFrom [] body, by rw [hbody, linesFrom_line hno, List.nil_append, hstrip]⟩

/-- Loading what was appended hands nothing on. -/
theorem load_replays_nothing (commands : List (List Bytes)) :
    (opened.appendAll (commands.map command)).load.2 = [] := by
  have hfile : opened = ⟨true, true, some []⟩ := rfl
  rw [hfile, appendAll_file, List.nil_append]
  simp only [load]
  cases commands with
  | nil => rfl
  | cons args commands =>
      obtain ⟨lines, hlines⟩ := linesFrom_list (command args)
        (commands.flatMap fun args => (RespFrame.list (command args)).serialize.1)
      rw [List.flatMap_cons, hlines, loadLines]
      split
      · rfl
      · have hhead : Headed (command args).length
            ((RespParser.new.feed (42 :: intBytes (command args).length)).feed [10]) :=
          ⟨[], rfl⟩
        rcases hhead.parse with hnone | ⟨e, herr⟩
        · simp only [replayAll, hnone, List.nil_append]
          exact hhead.loadLines lines
        · simp only [replayAll, herr]

/-- Loading gives back what was appended exactly if nothing was. -/
theorem load_appended_iff (commands : List (List Bytes)) :
    (opened.appendAll (commands.map command)).load = (.ok (), commands.map command) ↔
      commands = [] := by
  constructor
  · intro h
    have hnone := load_replays_nothing commands
    rw [h] at hnone
    exact List.map_eq_nil_iff.mp hnone
  · rintro rfl
    rfl

/-- `SET k v` is appended, and the load succeeds without it. -/
theorem load_set_loses :
    (opened.appendAll [command ["SET".toBytes, "k".toBytes, "v".toBytes]]).load.2.length = 0 ∧
    ¬ ∀ commands : List (List Bytes), (∀ args ∈ commands, args ≠ []) →
      (opened.appendAll (commands.map command)).load = (.ok (), commands.map command) := by
  have hnone : (opened.appendAll [command ["SET".toBytes, "k".toBytes, "v".toBytes]]).load.2.length = 0 := by
    decide +kernel
  refine ⟨hnone, fun h => ?_⟩
  have hset := h [["SET".toBytes, "k".toBytes, "v".toBytes]] (by simp)
  rw [List.map_singleton] at hset
  rw [hset] at hnone
  cases hnone

end AofEngine

end Ferrous
