/-
# `Commands.Scores` — sorted sets under ZADD, ZINCRBY and ZREM

These three commands put every sorted set of the store together.  As long as
none of them names a member whose score is a NaN, the chain and the member index
of every set stay in step (`scores_in_step`).  A NaN comes from the argument of
ZADD or ZINCRBY or from adding opposite infinities.
-/
import Ferrous.Commands.SortedSets
import Ferrous.Storage.Absence
import Ferrous.Storage.SkipAgreement

namespace Ferrous

open Lib

/-! ## The commands -/

/-- The commands that give and take scores. -/
inductive ScoreCommand
  | zadd | zincrby | zrem
  deriving DecidableEq, Repr

def ScoreCommand.handler : ScoreCommand → Nat → Parts → StoreProg RespFrame
  | zadd => handleZadd
  | zincrby => handleZincrby
  | zrem => handleZrem

/-- A command with the database it is for and its parts. -/
structure ScoreCall where
  command : ScoreCommand
  db : Nat
  parts : Parts

def ScoreCall.program (c : ScoreCall) : StoreProg RespFrame := c.command.handler c.db c.parts

namespace World

/-- The store after a command. -/
def score (ω : Nat → Ctx) (w : World) (c : ScoreCall) : World := (c.program.run (step ω) w).2

/-- The store after some commands. -/
def scoreAll (ω : Nat → Ctx) (w : World) (cs : List ScoreCall) : World := cs.foldl (score ω) w

end World

/-! ## Sets in step -/

/-- The sorted set under a key. -/
def Engine.zsetAt (e : Engine) (db : Nat) (key : Key) : Option SkipList :=
  (e.entryAt db key).bind fun sv => sv.value.asZset

/-- In every sorted set of the store chain and index are in step. -/
def Engine.InStep (e : Engine) : Prop := ∀ db key z, e.zsetAt db key = some z → z.1.Agrees

/-- The member whose score an operation gives or takes. -/
def KeyCmd.scored {α : Type} : KeyCmd α → Option Bytes
  | zadd member _ => some member
  | zincrby member _ => some member
  | zrem member => some member
  | _ => none

/-- The operation gives or takes a score. -/
def Op.scores {α : Type} : Op α → Prop
  | .key _ _ c => c.scored.isSome
  | .store _ => False

/-- The score of the member it names, if there is one, is a number. -/
def Op.Refinds {α : Type} (e : Engine) : Op α → Prop
  | .key db k c => ∀ member z, c.scored = some member → e.zsetAt db k = some z → z.1.Refinds member
  | .store _ => True

instance {α : Type} (e : Engine) : (o : Op α) → Decidable (o.Refinds e)
  | .key db k c => decidable_of_iff
      (∀ member ∈ c.scored, ∀ z ∈ e.zsetAt db k, ∀ old ∈ z.1.keyIndex.get? member, old.isNaN = false)
      ⟨fun h member z hm hz old ho => h member hm z hz old ho,
        fun h member hm z hz old ho => h member z hm hz old ho⟩
  | .store _ => .isTrue trivial

/-- No command names, at any of its operations, a member whose score is a NaN. -/
def Refound (ω : Nat → Ctx) : World → List ScoreCall → Prop
  | _, [] => True
  | w, c :: cs =>
      c.program.Along (World.step ω) (fun _ o w => o.Refinds w.engine) w ∧ Refound ω (w.score ω c) cs

instance Refound.decidable (ω : Nat → Ctx) : (w : World) → (cs : List ScoreCall) → Decidable (Refound ω w cs)
  | _, [] => .isTrue trivial
  | w, c :: cs =>
      have := Refound.decidable ω (w.score ω c) cs
      inferInstanceAs (Decidable (_ ∧ _))

/-! ## One operation -/

/-- The sorted set a step leaves, if it leaves one, is in step. -/
def KeyStep.LeavesInStep {α : Type} (entry : Option StoredValue) (st : KeyStep α) : Prop :=
  ∀ z, (st.entry.leaves entry).bind (fun sv => sv.value.asZset) = some z → z.1.Agrees

theorem agrees_insert {z : SkipList} {member : Bytes} (h : z.1.Agrees) (hf : z.1.Refinds member)
    (score : Float64) (level : Nat) : (z.insert member score level).2.1.Agrees :=
  (h.insert_iff z.2 member score level).mpr hf

theorem agrees_singleton (member : Bytes) (score : Float64) (level : Nat) :
    (SkipList.new.insert member score level).2.1.Agrees :=
  agrees_insert .new (fun old h => by simp [SkipList.new, SkipChain.new] at h) score level

/-- The operations that give and take scores leave sets in step. -/
theorem KeyCmd.leavesInStep {α : Type} {c : KeyCmd α} {member : Bytes} (hc : c.scored = some member)
    {key : Key} {ctx : Ctx} {entry : Option StoredValue}
    (hold : ∀ z, entry.bind (fun sv => sv.value.asZset) = some z → z.1.Agrees ∧ z.1.Refinds member) :
    (c.step key ctx entry).LeavesInStep entry := by
  intro z hz
  cases c with
  | zadd m score =>
      cases hc
      rcases entry with _ | ⟨v, d⟩
      · cases hz
        exact agrees_singleton _ _ _
      · cases v with
        | sortedSet z₀ =>
            cases hz
            obtain ⟨ha, hf⟩ := hold z₀ rfl
            exact agrees_insert ha hf _ _
        | _ => cases hz
  | zincrby m n =>
      cases hc
      rcases entry with _ | ⟨v, d⟩
      · cases hz
        exact agrees_singleton _ _ _
      · cases v with
        | sortedSet z₀ =>
            cases hz
            obtain ⟨ha, hf⟩ := hold z₀ rfl
            exact agrees_insert ha hf _ _
        | _ => cases hz
  | zrem m =>
      cases hc
      rcases entry with _ | ⟨v, d⟩
      · cases hz
      · cases v with
        | sortedSet z₀ =>
            obtain ⟨ha, hf⟩ := hold z₀ rfl
            have hrest : (z₀.remove member).2.1.Agrees := (ha.remove_iff z₀.2 member).mpr hf
            simp only [KeyCmd.step, KeyOps.zrem, KeyOps.onZset] at hz
            rcases hr : z₀.remove member with ⟨_ | score, z'⟩
            all_goals rw [hr] at hz hrest
            · cases hz
              exact ha
            · simp only [KeyStep.shrink] at hz
              split at hz
              · cases hz
              · cases hz
                exact hrest
        | _ => cases hz
  | _ => cases hc

/-- An operation that gives or takes a score keeps every set in step. -/
theorem Engine.InStep.run {e : Engine} (h : e.InStep) {α : Type} (o : Op α) (ho : o.scores)
    (hok : o.Refinds e) (ctx : Ctx) : (o.run ctx e).2.InStep := by
  cases o with
  | store c => cases ho
  | key db k c =>
      obtain ⟨member, hc⟩ := Option.isSome_iff_exists.mp ho
      intro db' key z hz
      by_cases hdb : db < e.databases.length
      · have hentry := Engine.withEntry_entryAt hdb k ctx (c.step k) db' key
        rw [Engine.zsetAt, show (Op.key db k c).run ctx e = e.withEntry db k ctx (c.step k) from rfl,
          hentry] at hz
        split at hz
        · refine KeyCmd.leavesInStep hc (fun z₀ hz₀ => ⟨h db k z₀ hz₀, ?_⟩) z hz
          exact hok member z₀ hc hz₀
        · exact h db' key z hz
      · rw [show (Op.key db k c).run ctx e = e.withEntry db k ctx (c.step k) from rfl,
          Engine.withEntry_missing hdb] at hz
        exact h db' key z hz

/-! ## The commands and their runs -/

theorem uses_zaddLoop (db : Nat) (key : Key) :
    ∀ (ps : Parts) (added : Nat), (zaddLoop db key ps added).Uses fun _ o => o.scores
  | [], _ => trivial
  | [_], _ => trivial
  | _ :: _ :: ps, _ => uses_reading fun _ => .bind (.perform rfl) fun _ => uses_zaddLoop db key ps _

theorem uses_zremLoop (db : Nat) (key : Key) :
    ∀ (ps : Parts) (removed : Nat), (zremLoop db key ps removed).Uses fun _ o => o.scores
  | [], _ => trivial
  | p :: ps, removed => by
      simp only [zremLoop]
      split
      · exact uses_zremLoop db key ps removed
      · exact .bind (.perform rfl) fun _ => uses_zremLoop db key ps _

/-- The three commands do nothing else to the store. -/
theorem ScoreCall.uses_scores (c : ScoreCall) : c.program.Uses fun _ o => o.scores := by
  obtain ⟨command, db, parts⟩ := c
  cases command with
  | zadd => exact uses_reading fun key => uses_zaddLoop db key _ _
  | zincrby => exact uses_reading fun _ => uses_calling rfl
  | zrem => exact uses_reading fun key => uses_zremLoop db key _ _

/-- A command along which every named member is found again keeps every set in
step. -/
theorem World.score_inStep {ω : Nat → Ctx} {w : World} {c : ScoreCall} (h : w.engine.InStep)
    (hok : c.program.Along (World.step ω) (fun _ o w => o.Refinds w.engine) w) :
    (w.score ω c).engine.InStep :=
  c.uses_scores.along_inv (I := fun w : World => w.engine.InStep)
    (fun _ o _ ho hs ho' => hs.run o ho ho' _) hok h

theorem World.scoreAll_inStep {ω : Nat → Ctx} {w : World} {cs : List ScoreCall}
    (h : w.engine.InStep) (hok : Refound ω w cs) : (w.scoreAll ω cs).engine.InStep := by
  induction cs generalizing w with
  | nil => exact h
  | cons c cs ih => exact ih (World.score_inStep h hok.1) hok.2

theorem inStep_withConfig (n : Nat) (m : MemoryManager) : (Engine.withConfig n m).InStep := by
  intro db key z hz
  rw [Engine.zsetAt, Engine.entryAt_withConfig] at hz
  cases hz

/-- However many ZADD, ZINCRBY and ZREM commands with whatever arguments are
given to a fresh store: if none of them names a member whose score is a NaN, then
in each sorted set every member of the index has one node in the chain, with its
score, no other node is there, and the cardinality counts the members. -/
theorem scores_in_step (ω : Nat → Ctx) (n : Nat) (m : MemoryManager) (calls : List ScoreCall)
    (h : Refound ω ⟨Engine.withConfig n m, 0⟩ calls) :
    (World.scoreAll ω ⟨Engine.withConfig n m, 0⟩ calls).engine.InStep :=
  World.scoreAll_inStep (inStep_withConfig n m) h

/-- ZADD and ZINCRBY with infinities: `a` ends with a NaN and is not named again. -/
def oppositeInfinities : List ScoreCall :=
  [⟨.zadd, 0, ["ZADD", "k", "inf", "a", "2", "b"].map .fromString⟩,
    ⟨.zincrby, 0, ["ZINCRBY", "k", "-inf", "a"].map .fromString⟩,
    ⟨.zrem, 0, ["ZREM", "k", "b"].map .fromString⟩]

theorem refound_oppositeInfinities :
    Refound (fun _ => .at 0) ⟨Engine.withConfig 1 .unlimited, 0⟩ oppositeInfinities := by
  decide

/-- The set of the last member is in step although its score is a NaN. -/
theorem oppositeInfinities_in_step :
    ∃ z, (World.scoreAll (fun _ => .at 0) ⟨Engine.withConfig 1 .unlimited, 0⟩
        oppositeInfinities).engine.zsetAt 0 "k".toBytes = some z ∧
      (z.getScore "a".toBytes).map (·.isNaN) = some true ∧ z.1.Agrees := by
  have hz : ((World.scoreAll (fun _ => .at 0) ⟨Engine.withConfig 1 .unlimited, 0⟩
      oppositeInfinities).engine.zsetAt 0 "k".toBytes).map
        (fun z => (z.getScore "a".toBytes).map (·.isNaN)) = some (some true) := by
    rfl
  obtain ⟨z, hz, hnan⟩ := Option.map_eq_some_iff.mp hz
  exact ⟨z, hz, hnan, scores_in_step _ _ _ _ refound_oppositeInfinities 0 "k".toBytes z hz⟩

/-- After a ZADD of `nan` another ZADD of the member leaves two nodes of it, and
ZCARD counts both. -/
theorem nan_added_twice :
    ∃ z, (World.scoreAll (fun _ => .at 0) ⟨Engine.withConfig 1 .unlimited, 0⟩
        [⟨.zadd, 0, ["ZADD", "k", "nan", "a"].map .fromString⟩,
          ⟨.zadd, 0, ["ZADD", "k", "1", "a"].map .fromString⟩]).engine.zsetAt 0 "k".toBytes = some z ∧
      z.1.chain.map (·.key) = ["a".toBytes, "a".toBytes] ∧ z.len = 2 ∧ z.1.keyIndex.size = 1 ∧
      ¬ z.1.Agrees := by
  have hz : ((World.scoreAll (fun _ => .at 0) ⟨Engine.withConfig 1 .unlimited, 0⟩
      [⟨.zadd, 0, ["ZADD", "k", "nan", "a"].map .fromString⟩,
        ⟨.zadd, 0, ["ZADD", "k", "1", "a"].map .fromString⟩]).engine.zsetAt 0 "k".toBytes).map
        (fun z => (z.1.chain.map (·.key), z.len, z.1.keyIndex.size)) =
      some (["a".toBytes, "a".toBytes], 2, 1) := by
    rfl
  obtain ⟨z, hz, heq⟩ := Option.map_eq_some_iff.mp hz
  obtain ⟨hkeys, hrest⟩ := Prod.mk.inj heq
  obtain ⟨hlen, hsize⟩ := Prod.mk.inj hrest
  refine ⟨z, hz, hkeys, hlen, hsize, fun h => ?_⟩
  have hcount : z.len = z.1.keyIndex.size := h.counted
  rw [hlen, hsize] at hcount
  cases hcount

end Ferrous
