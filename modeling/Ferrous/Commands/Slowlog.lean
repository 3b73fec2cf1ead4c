/-
# `Commands.Slowlog` — the slow log and what is left of it

Commands that took too long are put in front of a log that is cut to its greatest length.  Over
every run the log is a window on all the entries that were ever made: it holds the newest of them,
as many as the length and the resets since then have let it keep.
-/
import Ferrous.Commands.Admin

namespace Ferrous

open Lib Args

/-- `SlowlogEntry`. -/
structure SlowlogEntry where
  id : Nat
  timestamp : Nat
  durationMicros : Nat
  command : List Bytes
  clientAddr : String
  clientName : Option String

/-- `Slowlog`, the newest entry first. -/
structure Slowlog where
  entries : List SlowlogEntry
  maxLen : Nat
  thresholdMicros : Int
  nextId : Nat

namespace Slowlog

/-- `new`. -/
def new : Slowlog := ⟨[], 128, 10000, 1⟩

/-- An argument as `add_entry` keeps it. -/
def keptArg (bytes : Bytes) : Bytes :=
  if 64 < bytes.length then bytes.take 64 ++ "... (truncated)".toBytes else bytes

/-- The loop of `add_entry` over the parts; what is no bulk string is skipped. -/
def keptCommand : Parts → List Bytes → List Bytes
  | [], command => command
  | part :: parts, command =>
      let command := command ++ (part.bulk?.map keptArg).toList
      if 10 ≤ command.length then command ++ ["... (more arguments)".toBytes]
      else keptCommand parts command

/-- The loop that pops entries off the back. -/
def trim (n : Nat) (entries : List SlowlogEntry) : List SlowlogEntry :=
  if n < entries.length then trim n entries.dropLast else entries
termination_by entries.length
decreasing_by
  rw [List.length_dropLast]
  omega

/-- The entry that `add_entry` makes. -/
def newEntry (log : Slowlog) (durationMicros : Nat) (parts : Parts) (clientAddr : String)
    (clientName : Option String) (timestamp : Nat) : SlowlogEntry :=
  ⟨log.nextId, timestamp, durationMicros, keptCommand parts [], clientAddr, clientName⟩

/-- `add_entry`. -/
def addEntry (log : Slowlog) (durationMicros : Nat) (parts : Parts) (clientAddr : String)
    (clientName : Option String) (timestamp : Nat) : Slowlog :=
  { log with
    entries := trim log.maxLen
      (log.newEntry durationMicros parts clientAddr clientName timestamp :: log.entries)
    nextId := (log.nextId + 1) % 2 ^ 64 }

/-- `duration.as_micros() as u64`. -/
def micros (duration : Duration) : Nat := duration / 1000 % 2 ^ 64

/-- A command is slow enough; a negative threshold turns the log off. -/
def isSlow (log : Slowlog) (duration : Duration) : Bool :=
  decide (0 ≤ log.thresholdMicros) && decide (log.thresholdMicros ≤ micros duration)

/-- `add_if_slow`. -/
def addIfSlow (log : Slowlog) (duration : Duration) (parts : Parts) (clientAddr : String)
    (clientName : Option String) (timestamp : Nat) : Slowlog :=
  if log.isSlow duration then log.addEntry (micros duration) parts clientAddr clientName timestamp else log

/-- `reset`. -/
def reset (log : Slowlog) : Slowlog := { log with entries := [] }

/-- `set_max_len`. -/
def setMaxLen (log : Slowlog) (maxLen : Nat) : Slowlog :=
  { log with maxLen := maxLen, entries := trim maxLen log.entries }

/-- `set_threshold_micros`. -/
def setThresholdMicros (log : Slowlog) (threshold : Int) : Slowlog := { log with thresholdMicros := threshold }

/-- `get_entries`. -/
def getEntries (log : Slowlog) (limit : Option Nat) : List SlowlogEntry :=
  log.entries.take (limit.getD log.entries.length)

/-- An entry as `handle_slowlog_get` writes it. -/
def frame (e : SlowlogEntry) : RespFrame :=
  .list [.integer (wrapI64 e.id), .integer (wrapI64 e.timestamp), .integer (wrapI64 e.durationMicros),
    .list (e.command.map .fromBytes), .fromString e.clientAddr, .fromString (e.clientName.getD "")]

/-- The process whose SLOWLOG shows this log. -/
def shownBy (log : Slowlog) (proc : Process) : Process := { proc with slowlog := log.entries.map frame }

end Slowlog

/-! ## What happens to the log -/

/-- What happens to the log: a command was run, or the log is emptied or configured. -/
inductive SlowlogEvent
  | command (duration : Duration) (parts : Parts) (clientAddr : String) (clientName : Option String)
      (timestamp : Nat)
  | reset
  | setMaxLen (n : Nat)
  | setThresholdMicros (threshold : Int)

namespace Slowlog

def step (log : Slowlog) : SlowlogEvent → Slowlog
  | .command duration parts clientAddr clientName timestamp =>
      log.addIfSlow duration parts clientAddr clientName timestamp
  | .reset => log.reset
  | .setMaxLen n => log.setMaxLen n
  | .setThresholdMicros threshold => log.setThresholdMicros threshold

/-- The entry an event makes. -/
def made (log : Slowlog) : SlowlogEvent → Option SlowlogEntry
  | .command duration parts clientAddr clientName timestamp =>
      if log.isSlow duration then some (log.newEntry (micros duration) parts clientAddr clientName timestamp)
      else none
  | _ => none

/-- How many entries an event lets the log keep. -/
def keeps (log : Slowlog) (kept : Nat) : SlowlogEvent → Nat
  | .command duration _ _ _ _ => if log.isSlow duration then min log.maxLen (kept + 1) else kept
  | .reset => 0
  | .setMaxLen n => min n kept
  | .setThresholdMicros _ => kept

end Slowlog

/-- The log, all the entries that were ever made, the newest first, and how many of them it keeps. -/
structure SlowlogHistory where
  log : Slowlog
  all : List SlowlogEntry
  kept : Nat

namespace SlowlogHistory

def start : SlowlogHistory := ⟨.new, [], 0⟩

def step (h : SlowlogHistory) (ev : SlowlogEvent) : SlowlogHistory :=
  ⟨h.log.step ev, (h.log.made ev).toList ++ h.all, h.log.keeps h.kept ev⟩

def run (evs : List SlowlogEvent) : SlowlogHistory := evs.foldl step start

end SlowlogHistory

namespace Slowlog

theorem trim_eq_take (n : Nat) (entries : List SlowlogEntry) : trim n entries = entries.take n := by
  fun_induction trim n entries with
  | case1 entries hlt ih =>
      rw [ih, List.dropLast_eq_take, List.take_take, Nat.min_eq_left (by omega)]
  | case2 entries hlt => exact (List.take_of_length_le (Nat.not_lt.mp hlt)).symm

/-! ## How much an entry holds -/

theorem length_keptArg (bytes : Bytes) : (keptArg bytes).length ≤ 79 := by
  unfold keptArg
  split
  · have hmark : "... (truncated)".toBytes.length = 15 := by decide
    rw [List.length_append, List.length_take, hmark]
    omega
  · omega

/-- An entry keeps at most ten arguments and the mark for more, each of at most 79 bytes. -/
def Small (command : List Bytes) : Prop := command.length ≤ 11 ∧ ∀ arg ∈ command, arg.length ≤ 79

theorem small_keptCommand : ∀ (parts : Parts) (command : List Bytes), command.length < 10 →
    (∀ arg ∈ command, arg.length ≤ 79) → Small (keptCommand parts command)
  | [], command, hlen, hargs => ⟨by rw [keptCommand]; omega, hargs⟩
  | part :: parts, command, hlen, hargs => by
      have hone : (part.bulk?.map keptArg).toList.length ≤ 1 := by
        cases part.bulk? with
        | none => exact Nat.zero_le _
        | some bytes => exact Nat.le_refl _
      have hnew : ∀ arg ∈ command ++ (part.bulk?.map keptArg).toList, arg.length ≤ 79 := by
        intro arg harg
        rcases List.mem_append.mp harg with harg | harg
        · exact hargs arg harg
        · obtain ⟨bytes, -, rfl⟩ := Option.map_eq_some_iff.mp (Option.mem_toList.mp harg)
          exact length_keptArg bytes
      have hlength : (command ++ (part.bulk?.map keptArg).toList).length ≤ 10 := by
        rw [List.length_append]
        omega
      rw [keptCommand]
      split
      · refine ⟨?_, fun arg harg => ?_⟩
        · rw [List.length_append]
          exact Nat.add_le_add_right hlength 1
        · rcases List.mem_append.mp harg with harg | harg
          · exact hnew arg harg
          · rw [List.mem_singleton.mp harg]
            decide
      · next hten => exact small_keptCommand parts _ (Nat.not_le.mp hten) hnew

end Slowlog

namespace SlowlogHistory

open Slowlog

/-- The log is the window, which fits its greatest length; the entries are numbered as they were
made, from one on, and each is small. -/
structure Sound (h : SlowlogHistory) : Prop where
  window : h.log.entries = h.all.take h.kept
  kept_le : h.kept ≤ h.all.length
  fits : h.kept ≤ h.log.maxLen
  next : h.log.nextId = (h.all.length + 1) % 2 ^ 64
  numbered : ∀ (i : Nat) (e : SlowlogEntry), h.all.reverse[i]? = some e → e.id = (i + 1) % 2 ^ 64
  small : ∀ e ∈ h.all, Small e.command

theorem sound_start : start.Sound where
  window := rfl
  kept_le := Nat.le_refl _
  fits := Nat.zero_le _
  next := rfl
  numbered := by
    intro i e he
    cases he
  small := List.forall_mem_nil _

theorem Sound.step {h : SlowlogHistory} (hs : h.Sound) (ev : SlowlogEvent) : (h.step ev).Sound := by
  cases ev with
  | command duration parts addr name now =>
      cases hslow : h.log.isSlow duration with
      | false =>
          have hsame : h.step (.command duration parts addr name now) = h := by
            simp only [SlowlogHistory.step, Slowlog.step, addIfSlow, made, Slowlog.keeps, hslow, Bool.false_eq_true,
              if_false, Option.toList_none, List.nil_append]
          rw [hsame]
          exact hs
      | true =>
          have hnew : h.step (.command duration parts addr name now) =
              ⟨h.log.addEntry (micros duration) parts addr name now,
                h.log.newEntry (micros duration) parts addr name now :: h.all,
                min h.log.maxLen (h.kept + 1)⟩ := by
            simp only [SlowlogHistory.step, Slowlog.step, addIfSlow, made, Slowlog.keeps, hslow, if_true,
              Option.toList_some, List.singleton_append]
          rw [hnew]
          constructor
          case window =>
            show trim h.log.maxLen (_ :: h.log.entries) = (_ :: h.all).take (min h.log.maxLen (h.kept + 1))
            rw [trim_eq_take, hs.window, ← List.take_take, List.take_succ_cons]
          case kept_le =>
            have hle := hs.kept_le
            show min h.log.maxLen (h.kept + 1) ≤ h.all.length + 1
            omega
          case fits => exact Nat.min_le_left _ _
          case next =>
            show (h.log.nextId + 1) % 2 ^ 64 = (h.all.length + 1 + 1) % 2 ^ 64
            rw [hs.next, Nat.mod_add_mod]
          case numbered =>
            intro i e he
            rw [List.reverse_cons] at he
            by_cases hi : i < h.all.reverse.length
            · rw [List.getElem?_append_left hi] at he
              exact hs.numbered i e he
            · rw [List.getElem?_append_right (Nat.not_lt.mp hi)] at he
              obtain ⟨hlt, rfl⟩ := List.getElem?_eq_some_iff.mp he
              rw [List.length_singleton] at hlt
              rw [List.length_reverse] at hi hlt
              have hlast : i = h.all.length := by omega
              rw [List.getElem_singleton, hlast]
              exact hs.next
          case small =>
            intro e he
            rcases List.mem_cons.mp he with rfl | he
            · exact small_keptCommand parts [] (by decide) (List.forall_mem_nil _)
            · exact hs.small e he
  | reset => exact { hs with window := rfl, kept_le := Nat.zero_le _, fits := Nat.zero_le _ }
  | setMaxLen n =>
      refine { hs with window := ?_, kept_le := ?_, fits := Nat.min_le_left _ _ }
      · show trim n h.log.entries = h.all.take (min n h.kept)
        rw [trim_eq_take, hs.window, List.take_take]
      · exact Nat.le_trans (Nat.min_le_right _ _) hs.kept_le
  | setThresholdMicros t => exact { hs with }

theorem sound_run (evs : List SlowlogEvent) : (run evs).Sound := by
  have hrun : ∀ (evs : List SlowlogEvent) (h : SlowlogHistory), h.Sound → (evs.foldl step h).Sound := by
    intro evs
    induction evs with
    | nil => exact fun h hs => hs
    | cons ev evs ih => exact fun h hs => ih _ (hs.step ev)
  exact hrun evs start sound_start

end SlowlogHistory

open Slowlog SlowlogHistory

/-- In every run the log is the newest entries that were ever made, as many as it keeps, of which
SLOWLOG LEN tells the number; SLOWLOG GET answers the newest of them, as many as it asks for.  The
entries of the run are numbered one after another, also past a reset, and none holds more than
eleven arguments of 79 bytes. -/
theorem slowlog_is_window (evs : List SlowlogEvent) (proc : Process) :
    (run evs).log.entries = (run evs).all.take (run evs).kept ∧
      (run evs).kept ≤ (run evs).log.maxLen ∧
      (∀ (i : Nat) (e : SlowlogEntry), (run evs).all.reverse[i]? = some e → e.id = (i + 1) % 2 ^ 64) ∧
      (∀ e ∈ (run evs).all, Small e.command) ∧
      (∀ n, (run evs).log.getEntries (some n) = (run evs).all.take (min n (run evs).kept)) ∧
      handleSlowlog ((run evs).log.shownBy proc) [.fromString "SLOWLOG", .fromString "LEN"] =
        .ret (count (run evs).kept) ∧
      handleSlowlog ((run evs).log.shownBy proc) [.fromString "SLOWLOG", .fromString "GET"] =
        .ret (.list (((run evs).log.getEntries none).map frame)) ∧
      ∀ (s : String) (n : Nat), parseU64 s = some n →
        handleSlowlog ((run evs).log.shownBy proc) [.fromString "SLOWLOG", .fromString "GET", .fromString s] =
          .ret (.list (((run evs).log.getEntries (some n)).map frame)) := by
  have hs := sound_run evs
  refine ⟨hs.window, hs.fits, hs.numbered, hs.small, fun n => ?_, ?_, ?_, fun s n hn => ?_⟩
  · show (run evs).log.entries.take n = _
    rw [hs.window, List.take_take]
  · have hlen : (run evs).log.entries.length = (run evs).kept := by
      rw [hs.window, List.length_take, Nat.min_eq_left hs.kept_le]
    show Prog.ret (count ((run evs).log.entries.map frame).length) = _
    rw [List.length_map, hlen]
  · show Prog.ret (RespFrame.list ((run evs).log.entries.map frame)) =
      Prog.ret (RespFrame.list (((run evs).log.entries.take (run evs).log.entries.length).map frame))
    rw [List.take_length]
  · have hcount : nat [.fromString "SLOWLOG", .fromString "GET", .fromString s] 2 "count" = .ok n :=
      numeral_of_text _ "count" rfl
        ((congrArg parseU64 (fromUtf8Lossy_of_fromUtf8 (fromUtf8_toBytes s))).trans hn)
    show reading (nat [.fromString "SLOWLOG", .fromString "GET", .fromString s] 2 "count" >>= fun m =>
      .ok (.list (((run evs).log.entries.map frame).take m))) .ret = _
    rw [hcount]
    show Prog.ret (RespFrame.list (((run evs).log.entries.map frame).take n)) =
      Prog.ret (RespFrame.list (((run evs).log.entries.take n).map frame))
    rw [List.map_take]

/-- One command that was slow enough. -/
def oneSlow : List SlowlogEvent := [.setThresholdMicros 0, .command 5000 [.fromString "PING"] "a:1" none 7]

/-- A process that has nothing to tell. -/
def idleProcess : Process where
  infoText := fun _ _ => ""
  slowlog := []
  lastSave := none
  saveError := none
  bgsaveError := none
  bgrewriteError := none
  age := fun _ => 0
  idle := fun _ => 0
  resolve := fun _ => .ok none
  replId := ""

theorem slowlog_is_window_oneSlow :
    (run oneSlow).log.entries = (run oneSlow).all.take (run oneSlow).kept ∧
      handleSlowlog ((run oneSlow).log.shownBy idleProcess)
          [.fromString "SLOWLOG", .fromString "GET", .fromString "1"] =
        .ret (.list (((run oneSlow).log.getEntries (some 1)).map frame)) :=
  have h := slowlog_is_window oneSlow idleProcess
  ⟨h.1, h.2.2.2.2.2.2.2 "1" 1 (by decide)⟩

end Ferrous
