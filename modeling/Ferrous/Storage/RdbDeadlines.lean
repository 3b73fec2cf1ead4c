/-
# `Storage.RdbDeadlines` — deadlines over a save and a load

A deadline is saved as an absolute number of milliseconds and becomes a time to
live again when it is loaded.  A save and a load each happen at one moment, at
which a process has one reading of the wall clock and one of its own monotonic
clock; the two clocks then advance together.  A deadline that has passed when
it is loaded is dropped, and the key with it has none; a stream without entries
is recorded as a list of the marker alone, and nothing is there when that is
loaded.  `RecordServes` is the condition on one key, and `Legible` leaves out the
values whose record is not read as what was written.
-/
import Ferrous.Storage.Absence
import Ferrous.Storage.RdbFile
import Ferrous.Storage.RdbStreams

namespace Ferrous

open Lib

/-! ## Moments -/

/-- A moment in a process: its monotonic clock, and the wall clock in nanoseconds
since the epoch. -/
structure Moment where
  mono : Nat
  wall : Nat

/-- What the wall clock shows when the monotonic clock of the process shows `u`. -/
def Moment.wallAt (m : Moment) (u : Nat) : Int := m.wall + (u - m.mono : Int)

/-- The key can be read at a reading of the monotonic clock. -/
def Engine.visible (e : Engine) (db : Nat) (key : Key) (now : Instant) : Bool :=
  (e.liveAt now db key).isSome

/-! ## Values that can be recorded -/

/-- A value whose record is read back: one that is portable, but for NaNs in a
sorted set, or a restorable list, or a restorable stream each entry of which has
a field. -/
def Value.Recordable : Value → Prop
  | .sortedSet z => 0 < z.len ∧ z.len < 2 ^ 32 ∧ ∀ p ∈ z.items, p.1.length < 2 ^ 32
  | .list items => (Value.list items).Restorable
  | .stream s => (Value.stream s).Restorable ∧ ∀ e ∈ s.entries, 0 < e.fields.size
  | v => v.Portable

instance : DecidablePred Value.Recordable
  | .sortedSet z => inferInstanceAs
      (Decidable (0 < z.len ∧ z.len < 2 ^ 32 ∧ ∀ p ∈ z.items, p.1.length < 2 ^ 32))
  | .list items => inferInstanceAs (Decidable (Value.list items).Restorable)
  | .stream s => inferInstanceAs
      (Decidable ((Value.stream s).Restorable ∧ ∀ e ∈ s.entries, 0 < e.fields.size))
  | .string bytes => inferInstanceAs (Decidable (Value.string bytes).Portable)
  | .set members => inferInstanceAs (Decidable (Value.set members).Portable)
  | .hash fields => inferInstanceAs (Decidable (Value.hash fields).Portable)

/-- A stream none of whose entries is left. -/
def Value.Emptied : Value → Prop
  | .stream s => s.entries = []
  | _ => False

/-- A value whose record the reader gets past. -/
def Value.Legible (v : Value) : Prop := v.Recordable ∨ v.Emptied

/-- Every key that has not expired at a moment can be recorded and read again. -/
def Engine.Legible (e : Engine) (s : Moment) : Prop :=
  ∀ db key sv, e.entryAt db key = some sv → sv.isExpired s.mono = false →
    key.length < 2 ^ 32 ∧ sv.value.Legible

namespace Rdb

variable {ω : Nat → Ctx} {db : Nat} {key : Key}

/-- The deadline a load at a moment gives a key recorded with `ms` milliseconds. -/
def reloadedDeadline (t : Moment) (ms : Nat) : Option Nat :=
  if t.wall / 10 ^ 6 % 2 ^ 64 < ms then some (t.mono + fromMillis (ms - t.wall / 10 ^ 6 % 2 ^ 64))
  else none

end Rdb

open Rdb

/-! ## Deadlines kept -/

/-- The millisecond a deadline is recorded as, if it fits. -/
def recordedMs (s : Moment) (d : Nat) : Nat := s.wall / 10 ^ 6 + (d - s.mono) / 10 ^ 6

/-- After a load at `t` the key can be read until its deadline `d` of the process
that saved it at `s`, two milliseconds early or one late at most, and not at all
if that had passed. -/
structure DeadlineKept (s t : Moment) (d : Nat) (e : Engine) (db : Nat) (key : Key) : Prop where
  before : ∀ u : Nat, t.mono ≤ u → t.wallAt u + 2 * 10 ^ 6 ≤ s.wallAt d → e.visible db key u = true
  after : ∀ u : Nat, t.mono ≤ u → s.wallAt d + 10 ^ 6 ≤ t.wallAt u → e.visible db key u = false
  gone : s.wallAt d ≤ t.wall → ∀ u : Nat, t.mono ≤ u → e.visible db key u = false

/-- The record of a key brings back what is asked of it.  A value is there again,
and its deadline is recorded as it is and lies in a later millisecond than the
load; an emptied stream is not, so that its deadline must be near or over. -/
def RecordServes (s t : Moment) (sv : StoredValue) : Prop :=
  match sv.expiresAt with
  | none => sv.value.Recordable
  | some d =>
      (sv.value.Recordable ∧ recordedMs s d < 2 ^ 64 ∧ t.wall / 10 ^ 6 < recordedMs s d) ∨
        (sv.value.Emptied ∧ s.wallAt d < t.wall + 2 * 10 ^ 6)

/-- So does the record of every key that has not expired at the save. -/
def RecordsServe (s t : Moment) (e : Engine) : Prop :=
  ∀ db key sv, e.entryAt db key = some sv → sv.isExpired s.mono = false →
    key.length < 2 ^ 32 ∧ RecordServes s t sv

/-- A key can be read up to its deadline. -/
theorem visible_some {e : Engine} {db : Nat} {key : Key} {v : Value} {dl : Option Nat}
    (h : e.entryAt db key = some ⟨v, dl⟩) (u : Nat) :
    e.visible db key u = true ↔ ∀ d, dl = some d → u ≤ d := by
  rw [Engine.visible, Engine.liveAt, h]
  cases dl with
  | none => simp [liveOf, StoredValue.isExpired]
  | some d => simp [liveOf, StoredValue.isExpired]

theorem isExpired_iff {sv : StoredValue} {d : Nat} (h : sv.expiresAt = some d) (now : Nat) :
    sv.isExpired now = true ↔ d < now := by
  rw [StoredValue.isExpired, h]
  exact decide_eq_true_iff

theorem le_of_live {sv : StoredValue} {d now : Nat} (h : sv.expiresAt = some d)
    (hlive : sv.isExpired now = false) : now ≤ d := by
  rw [← Bool.not_eq_true, isExpired_iff h] at hlive
  exact Nat.le_of_not_lt hlive

theorem remaining_eq (d now : Nat) : KeyOps.remaining d now = d - now := by
  unfold KeyOps.remaining
  split <;> omega

/-- A deadline that fits is recorded as it is. -/
theorem expiryMs_of_lt (checks : Bool) {s : Moment} {d : Nat} (h : recordedMs s d < 2 ^ 64) :
    expiryMs checks s.wall (KeyOps.remaining d s.mono) = some (recordedMs s d) := by
  unfold recordedMs at h ⊢
  rw [remaining_eq, expiryMs, Nat.mod_eq_of_lt (by omega), Nat.mod_eq_of_lt (by omega)]
  rw [if_neg (by simp only [Bool.and_eq_true, decide_eq_true_eq]; omega), Nat.mod_eq_of_lt h]

/-- One that does not fit wraps around. -/
theorem expiryMs_of_ge {checks : Bool} {s : Moment} {d : Nat} {ms : Nat}
    (hms : expiryMs checks s.wall (KeyOps.remaining d s.mono) = some ms)
    (h : 2 ^ 64 ≤ recordedMs s d) : ms + 2 ^ 64 ≤ recordedMs s d := by
  unfold recordedMs at h ⊢
  rw [remaining_eq] at hms
  unfold expiryMs at hms
  dsimp only at hms
  split at hms
  · cases hms
  · cases hms
    omega

section OneKey

variable {s t : Moment} {d : Nat} {e : Engine} {db : Nat} {key : Key} {v : Value}

/-- A deadline that is kept was recorded as it is, and lies ahead. -/
theorem DeadlineKept.ahead (hclock : t.wall / 10 ^ 6 < 2 ^ 64) (hlive : s.mono ≤ d) {checks : Bool}
    {ms : Nat} (hms : expiryMs checks s.wall (KeyOps.remaining d s.mono) = some ms)
    (hent : e.entryAt db key = some ⟨v, reloadedDeadline t ms⟩) (h : DeadlineKept s t d e db key) :
    recordedMs s d < 2 ^ 64 ∧ t.wall / 10 ^ 6 < recordedMs s d := by
  -- without a deadline the key could be read for ever
  have hlater : t.wall / 10 ^ 6 < ms := by
    by_contra hge
    have hnone : reloadedDeadline t ms = none := by
      rw [reloadedDeadline, Nat.mod_eq_of_lt hclock, if_neg hge]
    rw [hnone] at hent
    have hgone := h.after (t.mono + (s.wall + d + 10 ^ 6)) (Nat.le_add_right _ _) (by
      unfold Moment.wallAt
      omega)
    rw [(visible_some hent _).mpr nofun] at hgone
    cases hgone
  have hdl : reloadedDeadline t ms = some (t.mono + (ms - t.wall / 10 ^ 6) * 10 ^ 6) := by
    rw [reloadedDeadline, Nat.mod_eq_of_lt hclock, if_pos hlater]
    rfl
  rw [hdl] at hent
  -- a deadline that wrapped around would be too early
  have hfits : recordedMs s d < 2 ^ 64 := by
    by_contra hge
    have hwrap := expiryMs_of_ge hms (Nat.le_of_not_lt hge)
    have hvisible := h.before (t.mono + (ms - t.wall / 10 ^ 6) * 10 ^ 6 + 1) (by omega) (by
      unfold recordedMs at hwrap
      unfold Moment.wallAt
      omega)
    have hle := (visible_some hent _).mp hvisible _ rfl
    omega
  rw [expiryMs_of_lt checks hfits] at hms
  exact ⟨hfits, Option.some.inj hms ▸ hlater⟩

end OneKey

section

variable {checks : Bool} {s t : Moment} {sv : StoredValue} {e : Engine}

theorem RecordServes.legible (h : RecordServes s t sv) : sv.value.Legible := by
  unfold RecordServes at h
  split at h
  · exact .inl h
  · rcases h with ⟨h, -⟩ | ⟨h, -⟩
    · exact .inl h
    · exact .inr h

/-- A deadline whose record serves is recorded as it is. -/
theorem RecordServes.fits (hclock : t.wall / 10 ^ 6 + 2 < 2 ^ 64) (h : RecordServes s t sv)
    (hlive : sv.isExpired s.mono = false) {d : Nat} (hd : sv.expiresAt = some d) :
    recordedMs s d < 2 ^ 64 := by
  have hle := le_of_live hd hlive
  rw [RecordServes, hd] at h
  rcases h with ⟨-, hfits, -⟩ | ⟨-, hnear⟩
  · exact hfits
  · unfold Moment.wallAt at hnear
    unfold recordedMs
    omega

theorem RecordsServe.legible (h : RecordsServe s t e) : e.Legible s := fun db key sv hent hlive =>
  have ⟨hk, hserves⟩ := h db key sv hent hlive
  ⟨hk, hserves.legible⟩

end

end Ferrous
