/-
# `Storage.RdbTruncation` — how much of a snapshot is enough

A load that succeeds has read its file up to some byte.  That far the file is needed: cut off
anywhere before, it is refused as too short; and nothing behind it is looked at.
-/
import Ferrous.Lib.Truncation
import Ferrous.Storage.Rdb

namespace Ferrous

open Lib

namespace Rdb

/-- The error of a read beyond the end of the file. -/
def endOfFile : FerrousError := .io "failed to fill whole buffer"

/-! ## Readers of the format -/

theorem truncates_exact (n : Nat) : Truncates endOfFile (readExact n) where
  leaves bs := by
    show (if bs.length < n then Prog.fail _ else .ret (bs.take n, bs.drop n)).Ends _
    split
    · trivial
    · show (bs.drop n).length ≤ bs.length
      rw [List.length_drop]
      exact Nat.sub_le _ _
  cut bs tail := by
    show Prog.Cut _ _ (if bs.length < n then Prog.fail endOfFile else .ret (bs.take n, bs.drop n))
      (if (bs ++ tail).length < n then Prog.fail endOfFile
        else .ret ((bs ++ tail).take n, (bs ++ tail).drop n))
    by_cases hlen : bs.length < n
    · rw [if_pos hlen]
      refine .short ?_
      split
      · trivial
      · next hmore =>
          show ((bs ++ tail).drop n).length < tail.length
          rw [List.length_append] at hmore
          rw [List.length_drop, List.length_append]
          omega
    · have hmore : ¬ (bs ++ tail).length < n := by
        rw [List.length_append]
        omega
      rw [if_neg hlen, if_neg hmore, List.take_append_of_le_length (Nat.not_lt.mp hlen),
        List.drop_append_of_le_length (Nat.not_lt.mp hlen)]
      exact .ret _ _

theorem truncates_byte : Truncates endOfFile readByte :=
  (truncates_exact 1).bind fun _ => .pure _

theorem truncates_u32Le : Truncates endOfFile readU32Le :=
  (truncates_exact 4).bind fun _ => .pure _

theorem truncates_u32Be : Truncates endOfFile readU32Be :=
  (truncates_exact 4).bind fun _ => .pure _

theorem truncates_u64Le : Truncates endOfFile readU64Le :=
  (truncates_exact 8).bind fun _ => .pure _

theorem truncates_f64 : Truncates endOfFile readF64 :=
  (truncates_exact 8).bind fun _ => .pure _

theorem truncates_length : Truncates endOfFile readLength :=
  truncates_byte.bind fun first => by
    split
    · exact .pure _
    · split
      · exact truncates_byte.bind fun _ => .pure _
      · split
        · exact truncates_u32Be
        · exact .fails _

theorem truncates_string : Truncates endOfFile readString :=
  truncates_length.bind truncates_exact

theorem truncates_pair : Truncates endOfFile readPair :=
  truncates_string.bind fun _ => truncates_string.bind fun _ => .pure _

theorem truncates_header : Truncates endOfFile readHeader :=
  (truncates_exact 5).bind fun m => by
    split
    · exact .fails _
    · refine (truncates_exact 4).bind fun v => ?_
      split
      · exact .pure _
      · exact .fails _

theorem truncates_call {α : Type} (o : Op α) : Truncates endOfFile (call o) :=
  .lift _

/-! ## Records -/

section Records

variable (checks : Bool) (db : Nat) (key : Key)

theorem truncates_scored : ∀ n, Truncates endOfFile (readScored db key n)
  | 0 => .pure ()
  | n + 1 => truncates_string.bind fun _ => truncates_f64.bind fun _ => (truncates_call _).bind fun _ =>
      truncates_scored n

theorem truncates_elements : ∀ n, Truncates endOfFile (readElements db key n)
  | 0 => .pure ()
  | n + 1 => truncates_string.bind fun _ => (truncates_call _).bind fun _ => truncates_elements n

theorem truncates_entries (remaining : Nat) :
    ∀ fuel idx, Truncates endOfFile (readEntries checks db key remaining fuel idx)
  | 0, _ => .pure ()
  | fuel + 1, idx => by
      rw [readEntries]
      split
      · exact .pure ()
      · refine truncates_string.bind fun idStr => truncates_string.bind fun countStr => ?_
        dsimp only
        split
        · exact .panics
        · split
          · exact .pure ()
          · refine (truncates_pair.times _).bind fun fields => ?_
            split
            · exact (Truncates.lift _).bind fun _ => truncates_entries remaining fuel _
            · exact truncates_entries remaining fuel _

theorem truncates_expireBy : ∀ ttl, Truncates endOfFile (expireBy db key ttl)
  | some _ => (truncates_call _).bind fun _ => .pure ()
  | none => .pure ()

theorem truncates_typed (valueType : UInt8) (ttl : Option Duration) :
    Truncates endOfFile (readKeyValueWithType checks db valueType ttl) := by
  unfold readKeyValueWithType
  split
  · exact truncates_string.bind fun _ => truncates_string.bind fun _ => truncates_call _
  · split
    · exact truncates_string.bind fun key => truncates_length.bind fun _ =>
        (truncates_scored db key _).bind fun _ => truncates_expireBy db key ttl
    · split
      · refine truncates_string.bind fun key => truncates_length.bind fun count => ?_
        split
        · refine truncates_string.bind fun first => ?_
          split
          · exact (truncates_entries checks db key _ _ _).bind fun _ => truncates_expireBy db key ttl
          · exact (truncates_call _).bind fun _ => (truncates_elements db key _).bind fun _ =>
              truncates_expireBy db key ttl
        · exact truncates_expireBy db key ttl
      · split
        · exact truncates_string.bind fun key => truncates_length.bind fun _ =>
            (truncates_string.times _).bind fun _ => (truncates_call _).bind fun _ =>
              truncates_expireBy db key ttl
        · split
          · exact truncates_string.bind fun key => truncates_length.bind fun _ =>
              (truncates_pair.times _).bind fun _ => (truncates_call _).bind fun _ =>
                truncates_expireBy db key ttl
          · exact .fails _

theorem truncates_withExpiry (expiryMs : Nat) :
    Truncates endOfFile (readKeyValueWithExpiry checks db expiryMs) :=
  truncates_byte.bind fun _ => (truncates_call _).bind fun _ => truncates_typed checks db _ _

end Records

/-! ## The loop -/

/-- One byte at least is taken. -/
theorem ends_byte (bs : Bytes) : (readByte bs).Ends fun x => x.2.length < bs.length := by
  have hexact : (readExact 1 bs).Ends fun x => x.2.length < bs.length := by
    show (if bs.length < 1 then Prog.fail endOfFile else .ret (bs.take 1, bs.drop 1)).Ends _
    split
    · trivial
    · next hlen =>
        show (bs.drop 1).length < bs.length
        rw [List.length_drop]
        omega
  exact hexact.bind fun _ hx => hx

/-- What a round of the loop does after its first byte, and `next` after it. -/
def loadRound (checks : Bool) (db : Nat) (opcode : UInt8) (next : Nat → Reader Unit) : Reader Unit :=
  if opcode = RdbOpcode.eof.code then readU64Le >>= fun _ => pure ()
  else if opcode = RdbOpcode.selectDb.code then readLength >>= next
  else if opcode = RdbOpcode.resizeDb.code then readLength >>= fun _ => readLength >>= fun _ => next db
  else if opcode = RdbOpcode.aux.code then readString >>= fun _ => readString >>= fun _ => next db
  else if opcode = RdbOpcode.expireTimeMs.code then
    readU64Le >>= fun ms => readKeyValueWithExpiry checks db ms >>= fun _ => next db
  else if opcode = RdbOpcode.expireTimeS.code then
    readU32Le >>= fun s => readKeyValueWithExpiry checks db (s * 1000) >>= fun _ => next db
  else readKeyValueWithType checks db opcode none >>= fun _ => next db

theorem loadLoop_succ (checks : Bool) (fuel db : Nat) :
    loadLoop checks (fuel + 1) db =
      readByte >>= fun opcode => loadRound checks db opcode (loadLoop checks fuel) := rfl

/-- A round ends the load, or reads on and hands over to the next. -/
theorem loadRound_cases {P : ((Nat → Reader Unit) → Reader Unit) → Prop} (checks : Bool) (db : Nat)
    (hstop : P fun _ => readU64Le >>= fun _ => pure ())
    (hnext : ∀ d : Reader Nat, Truncates endOfFile d → P fun next => d >>= next) (opcode : UInt8) :
    P (loadRound checks db opcode) := by
  have one {α : Type} {d : Reader α} (hd : Truncates endOfFile d) : P fun next => d >>= fun _ => next db := by
    have hone := hnext (d >>= fun _ => pure db) (hd.bind fun _ => .pure db)
    simp only [bind_assoc, pure_bind] at hone
    exact hone
  have two {α β : Type} {d : Reader α} {e : α → Reader β} (hd : Truncates endOfFile d)
      (he : ∀ a, Truncates endOfFile (e a)) : P fun next => d >>= fun a => e a >>= fun _ => next db := by
    have htwo := one (hd.bind he)
    simp only [bind_assoc] at htwo
    exact htwo
  unfold loadRound
  split
  · exact hstop
  · split
    · exact hnext _ truncates_length
    · split
      · exact two truncates_length fun _ => truncates_length
      · split
        · exact two truncates_string fun _ => truncates_string
        · split
          · exact two truncates_u64Le fun ms => truncates_withExpiry checks db ms
          · split
            · exact two truncates_u32Le fun s => truncates_withExpiry checks db (s * 1000)
            · exact one (truncates_typed checks db opcode none)

theorem ends_loadLoop (checks : Bool) : ∀ (fuel db : Nat) (bs : Bytes),
    (loadLoop checks fuel db bs).Ends fun x => x.2.length ≤ bs.length
  | 0, _, _ => trivial
  | fuel + 1, db, bs => by
      refine (truncates_byte.leaves bs).bind fun x hx => ?_
      refine loadRound_cases
        (P := fun r => (r (loadLoop checks fuel) x.2).Ends fun y => y.2.length ≤ bs.length) checks db ?_ ?_ x.1
      · exact ((truncates_u64Le.bind fun _ => .pure ()).leaves x.2).mono fun _ hy => Nat.le_trans hy hx
      · intro d hd
        exact (hd.leaves x.2).bind fun y hy => (ends_loadLoop checks fuel y.1 y.2).mono fun z hz =>
          Nat.le_trans hz (Nat.le_trans hy hx)

theorem ends_loadRound (checks : Bool) (fuel db : Nat) (opcode : UInt8) (bs : Bytes) :
    (loadRound checks db opcode (loadLoop checks fuel) bs).Ends fun x => x.2.length ≤ bs.length := by
  refine loadRound_cases (P := fun r => (r (loadLoop checks fuel) bs).Ends fun y => y.2.length ≤ bs.length)
    checks db ?_ ?_ opcode
  · exact (truncates_u64Le.bind fun _ => .pure ()).leaves bs
  · intro d hd
    exact (hd.leaves bs).bind fun y hy => (ends_loadLoop checks fuel y.1 y.2).mono fun _ hz => Nat.le_trans hz hy

/-- The loop, with rounds enough for the bytes it has: a round takes one of them at least. -/
theorem cut_loadLoop (checks : Bool) : ∀ (fuel fuel' db : Nat) (bs tail : Bytes), bs.length < fuel →
    (bs ++ tail).length < fuel' →
      Prog.Cut endOfFile tail (loadLoop checks fuel db bs) (loadLoop checks fuel' db (bs ++ tail))
  | 0, _, _, _, _, hlt, _ => absurd hlt (Nat.not_lt_zero _)
  | fuel + 1, 0, _, _, _, _, hlt => absurd hlt (Nat.not_lt_zero _)
  | fuel + 1, fuel' + 1, db, bs, tail, hlt, hlt' => by
      rw [List.length_append] at hlt'
      show Prog.Cut endOfFile tail
        ((readByte bs).bind fun x => loadRound checks db x.1 (loadLoop checks fuel) x.2)
        ((readByte (bs ++ tail)).bind fun x => loadRound checks db x.1 (loadLoop checks fuel') x.2)
      refine (truncates_byte.cut bs tail).bind (ends_byte bs) (fun opcode rest hrest => ?_)
        fun x => ends_loadRound checks fuel' db x.1 x.2
      refine loadRound_cases (P := fun r => Prog.Cut endOfFile tail (r (loadLoop checks fuel) rest)
        (r (loadLoop checks fuel') (rest ++ tail))) checks db ?_ ?_ opcode
      · exact (truncates_u64Le.bind fun _ => .pure ()).cut rest tail
      · intro d hd
        refine (hd.cut rest tail).bind (hd.leaves rest) (fun db' rest' hrest' => ?_)
          fun x => ends_loadLoop checks fuel' x.1 x.2
        dsimp only at hrest hrest'
        refine cut_loadLoop checks fuel fuel' db' rest' tail (by omega) ?_
        rw [List.length_append]
        omega

/-! ## Whole files -/

/-- What `load_into` reads the file with. -/
def fileReader (checks : Bool) (rounds : Nat) : Reader Unit := do
  readHeader
  loadLoop checks rounds 0

theorem loadInto_eq (checks : Bool) (file : Bytes) :
    loadInto checks file = (fileReader checks (file.length + 1) file).bind fun x => .ret x.2 := rfl

theorem cut_fileReader (checks : Bool) (bs tail : Bytes) :
    Prog.Cut endOfFile tail (fileReader checks (bs.length + 1) bs)
      (fileReader checks ((bs ++ tail).length + 1) (bs ++ tail)) := by
  refine (truncates_header.cut bs tail).bind (truncates_header.leaves bs) (fun _ rest hrest => ?_)
    fun x => ends_loadLoop checks _ 0 x.2
  dsimp only at hrest
  refine cut_loadLoop checks _ _ 0 rest tail (by omega) ?_
  rw [List.length_append, List.length_append]
  omega

section Runs

variable {checks : Bool} {ω : Nat → Ctx} {file rest : Bytes} {w w' : World}

theorem run_loadInto_iff : (loadInto checks file).run (World.step ω) w = (.ok rest, w') ↔
    (fileReader checks (file.length + 1) file).run (World.step ω) w = (.ok ((), rest), w') := by
  rw [loadInto_eq, Prog.run_bind]
  rcases (fileReader checks (file.length + 1) file).run (World.step ω) w with ⟨⟨u, left⟩ | e | _, t⟩
  · constructor
    · rintro ⟨⟩
      rfl
    · rintro ⟨⟩
      rfl
  · constructor <;> rintro ⟨⟩
  · constructor <;> rintro ⟨⟩

theorem run_loadInto_of_err {e : FerrousError}
    (h : (fileReader checks (file.length + 1) file).run (World.step ω) w = (.err e, w')) :
    (loadInto checks file).run (World.step ω) w = (.err e, w') := by
  rw [loadInto_eq, Prog.run_bind, h]
  rfl

end Runs

end Rdb

open Rdb

/-- A load that succeeds has read its file up to the bytes it leaves: with anything appended to
the file it does the same to the store, cut off within those bytes it does so too, and cut off
anywhere before it is refused as too short. -/
theorem truncated_load_refused (checks : Bool) (ω : Nat → Ctx) (w : World) (file : Bytes) {rest : Bytes}
    {w' : World} (h : (loadInto checks file).run (World.step ω) w = (.ok rest, w')) :
    (∀ tail, (loadInto checks (file ++ tail)).run (World.step ω) w = (.ok (rest ++ tail), w')) ∧
      ∀ k, (file.length - rest.length ≤ k →
          (loadInto checks (file.take k)).run (World.step ω) w =
            (.ok (rest.take (k - (file.length - rest.length))), w')) ∧
        (k < file.length - rest.length →
          ∃ w'', (loadInto checks (file.take k)).run (World.step ω) w = (.err endOfFile, w'')) := by
  have hfile := run_loadInto_iff.mp h
  constructor
  · intro tail
    exact run_loadInto_iff.mpr ((cut_fileReader checks file tail).run_append hfile)
  · intro k
    have hcut := cut_fileReader checks (file.take k) (file.drop k)
    rw [List.take_append_drop] at hcut
    have hle : rest.length ≤ file.length := (((truncates_header.leaves file).bind fun x hx =>
      (ends_loadLoop checks _ 0 x.2).mono fun _ hy => Nat.le_trans hy hx).of_run hfile :)
    constructor
    · intro hk
      obtain ⟨rest', hrest, hrun⟩ := hcut.run_enough hfile (by rw [List.length_drop]; omega)
      have hrest' : rest.take (k - (file.length - rest.length)) = rest' := by
        by_cases hkf : k ≤ file.length
        · have hlen : rest.length = rest'.length + (file.length - k) := by
            rw [hrest, List.length_append, List.length_drop]
          have htake : k - (file.length - rest.length) = rest'.length := by omega
          rw [htake, hrest, List.take_left]
        · rw [List.drop_eq_nil_of_le (by omega), List.append_nil] at hrest
          rw [← hrest]
          exact List.take_of_length_le (by omega)
      rw [hrest']
      exact run_loadInto_iff.mpr hrun
    · intro hk
      obtain ⟨w'', hrun⟩ := hcut.run_short hfile (by rw [List.length_drop]; omega)
      exact ⟨w'', run_loadInto_of_err hrun⟩

/-- A snapshot with one string in it. -/
def oneString : Bytes :=
  writeHeader ++ RdbOpcode.selectDb.code :: writeLength 0 ++ RdbOpcode.string.code :: writeString "k".toBytes ++
    writeString "v".toBytes ++ RdbOpcode.eof.code :: writeU64Le 0

/-- Its last byte is needed, though the checksum it belongs to is not compared. -/
theorem truncated_load_refused_oneString :
    ∃ w, (loadInto false (oneString.take (oneString.length - 1))).run (World.step .at)
      ⟨Engine.withConfig 1 .unlimited, 0⟩ = (.err endOfFile, w) := by
  obtain ⟨w', hload⟩ : ∃ w', (loadInto false oneString).run (World.step .at)
      ⟨Engine.withConfig 1 .unlimited, 0⟩ = (.ok [], w') := ⟨_, rfl⟩
  exact ((truncated_load_refused false .at ⟨Engine.withConfig 1 .unlimited, 0⟩ oneString hload).2 _).2 (by decide)

end Ferrous
