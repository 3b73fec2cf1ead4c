/-
# `Commands.Pops` — what pops and range removals take from a sorted set

ZPOPMIN and ZPOPMAX look at one end and remove what is there, over and over;
ZREMRANGEBYRANK and ZREMRANGEBYSCORE list a range and remove its members one by one.  Each
removal shortens the set, and the last one takes the key with it.  `Leaves` is what one
removal does and what a chain of them does.
-/
import Ferrous.Commands.Executor
import Ferrous.Storage.AbsenceKeys
import Ferrous.Storage.IndexRanges
import Ferrous.Storage.RdbRecords

namespace Ferrous

open Lib

/-! ## One removal from the set -/

namespace SkipList

/-- A listed member goes, and the others stay in their order. -/
theorem remove_listed {z : SkipList} (h : z.NaNFree) {member : Bytes} {score : Float64}
    (hm : (member, score) ∈ z.items) :
    (z.remove member).1 = some score ∧
      (z.remove member).2.items = z.items.filter fun p => decide (p.1 ≠ member) := by
  have hindex : z.1.keyIndex.get? member = some score := (getScore_eq_some h).mpr hm
  obtain ⟨t, post, hdrop, htkey, htscore⟩ := z.2.dropWhile_isBefore h.chain hindex
  obtain ⟨pre, hpre⟩ : ∃ pre, pre = z.1.chain.takeWhile (SkipChain.isBefore score member) := ⟨_, rfl⟩
  have hchain : z.1.chain = pre ++ t :: post := by
    rw [hpre, ← hdrop, List.takeWhile_append_dropWhile]
  have htnum : t.value.isNaN = false :=
    h.chain t (by rw [hchain]; exact List.mem_append_right _ List.mem_cons_self)
  have hfound : t.key = member ∧ t.value.numEq score = true := by
    refine ⟨htkey, ?_⟩
    rw [← htscore, Float64.numEq, htnum]
    simp
  have hremove : z.1.remove member = (some score, { z.1 with
      chain := pre ++ post
      length := z.1.length - 1
      memoryUsage := z.1.memoryUsage - SkipChain.calculateNodeSize t.levels
      keyIndex := z.1.keyIndex.del member }) := by
    unfold SkipChain.remove
    rw [hindex]
    dsimp only
    rw [SkipChain.removeNodeByScore_index, SkipChain.removeNodeByScore, hdrop]
    dsimp only
    rw [if_pos hfound, ← hpre]
  refine ⟨congrArg Prod.fst hremove, ?_⟩
  -- the members are distinct, so only the node that was found has this one
  have hnodup : (z.1.chain.map (·.key)).Nodup := z.2.nodup h.chain
  rw [hchain, List.map_append, List.map_cons, List.nodup_middle, List.nodup_cons, ← List.map_append,
    htkey] at hnodup
  have hkeep {ns : List SkipNode} (hns : ∀ n ∈ ns, n ∈ pre ++ post) :
      (ns.map fun n => (n.key, n.value)).filter (fun p => decide (p.1 ≠ member)) =
        ns.map fun n => (n.key, n.value) := by
    refine List.filter_eq_self.mpr fun p hp => decide_eq_true ?_
    obtain ⟨n, hn, rfl⟩ := List.mem_map.mp hp
    exact fun heq => hnodup.1 (heq ▸ List.mem_map_of_mem (hns n hn))
  change (z.1.remove member).2.items = z.1.items.filter _
  rw [hremove, SkipChain.items, SkipChain.items, hchain]
  rw [List.map_append, List.map_append, List.map_cons, List.filter_append,
    List.filter_cons_of_neg (by simpa using htkey), hkeep fun n hn => List.mem_append_left _ hn,
    hkeep fun n hn => List.mem_append_right _ hn]

end SkipList

/-! ## What an entry holds, and what a removal leaves -/

/-- The entry holds these elements; nothing is stored for none. -/
def HoldsSet (entry : Option StoredValue) (items : List (Bytes × Float64)) : Prop :=
  match entry with
  | none => items = []
  | some sv => ∃ z, sv.value = .sortedSet z ∧ z.NaNFree ∧ z.items = items

theorem HoldsSet.sorted {entry : Option StoredValue} {items : List (Bytes × Float64)}
    (h : HoldsSet entry items) : items.Pairwise SkipList.PairLt := by
  cases entry with
  | none =>
      rw [show items = [] from h]
      exact List.Pairwise.nil
  | some sv =>
      obtain ⟨z, -, hz, rfl⟩ := h
      exact SkipList.items_sorted hz

theorem HoldsSet.nodup {entry : Option StoredValue} {items : List (Bytes × Float64)}
    (h : HoldsSet entry items) : (items.map Prod.fst).Nodup := by
  cases entry with
  | none =>
      rw [show items = [] from h]
      exact List.nodup_nil
  | some sv =>
      obtain ⟨z, -, hz, rfl⟩ := h
      exact SkipList.nodup_members hz

/-- Of the elements under the key some are left, in their order; no other key changes, and
the key is gone where the last element went. -/
structure Leaves (db : Nat) (key : Key) (w w' : World) (items left : List (Bytes × Float64)) : Prop where
  only : OnlyChanges db key w.engine w'.engine
  sub : left.Sublist items
  holds : HoldsSet (w'.engine.entryAt db key) left
  gone : w'.engine.entryAt db key = none ↔ w.engine.entryAt db key = none ∨ items ≠ [] ∧ left = []

section Removals

variable {ω : Nat → Ctx} {w : World} {db : Nat} {key : Key} {items : List (Bytes × Float64)}

theorem Leaves.same {w' : World} (hch : OnlyChanges db key w.engine w'.engine)
    (h : HoldsSet (w.engine.entryAt db key) items)
    (hsame : w'.engine.entryAt db key = w.engine.entryAt db key) : Leaves db key w w' items items where
  only := hch
  sub := List.Sublist.refl _
  holds := hsame ▸ h
  gone := by
    rw [hsame]
    exact ⟨.inl, fun hor => hor.resolve_right fun hand => hand.1 hand.2⟩

theorem Leaves.trans {w₁ w₂ : World} {mid left : List (Bytes × Float64)} (h₁ : Leaves db key w w₁ items mid)
    (h₂ : Leaves db key w₁ w₂ mid left) : Leaves db key w w₂ items left where
  only := h₁.only.trans h₂.only
  sub := h₂.sub.trans h₁.sub
  holds := h₂.holds
  gone := by
    rw [h₂.gone, h₁.gone]
    constructor
    · rintro ((hnone | ⟨hne, rfl⟩) | ⟨hne, rfl⟩)
      · exact .inl hnone
      · exact .inr ⟨hne, List.sublist_nil.mp h₂.sub⟩
      · refine .inr ⟨?_, rfl⟩
        rintro rfl
        exact hne (List.sublist_nil.mp h₁.sub)
    · rintro (hnone | ⟨hne, rfl⟩)
      · exact .inl (.inl hnone)
      · cases mid with
        | nil => exact .inl (.inr ⟨hne, rfl⟩)
        | cons p mid => exact .inr ⟨nofun, rfl⟩

/-- A listing of the elements changes nothing. -/
theorem reach_list {α : Type} (hdb : db < w.engine.databases.length) (h : HoldsSet (w.engine.entryAt db key) items)
    {c : KeyCmd α} {a : α} (hc : ∀ ctx, c.step key ctx (w.engine.entryAt db key) = .answer a) :
    ∃ w', World.step ω α (.key db key c) w = (.ok a, w') ∧ Leaves db key w w' items items := by
  have hstep := World.step_of_admitted (ω := ω) key c hdb
    (Engine.refuses_of_charge (by rw [hc]; rfl))
  rw [hc] at hstep
  obtain ⟨e', hrun, hch, hentry⟩ := hstep
  exact ⟨⟨e', w.calls + 1⟩, hrun, .same hch h hentry⟩

/-- The elements `zrange` lists between two ends. -/
def rankedBetween (items : List (Bytes × Float64)) (start stop : Int) : List (Bytes × Float64) :=
  (items.take (KeyOps.clampIndex items.length stop + 1)).drop (KeyOps.clampIndex items.length start)

/-- The elements `zrangebyscore` lists between two scores. -/
def scoredBetween (items : List (Bytes × Float64)) (minScore maxScore : Float64) : List (Bytes × Float64) :=
  (items.dropWhile fun p => p.2.lt minScore).takeWhile fun p => p.2.le maxScore

theorem reach_zrange (hdb : db < w.engine.databases.length) (h : HoldsSet (w.engine.entryAt db key) items)
    (start stop : Int) :
    ∃ w', World.step ω _ (.key db key (.zrange start stop false)) w =
      (.ok (rankedBetween items start stop), w') ∧ Leaves db key w w' items items := by
  refine reach_list hdb h fun ctx => ?_
  cases hent : w.engine.entryAt db key with
  | none =>
      rw [hent] at h
      rw [show items = [] from h]
      simp [KeyCmd.step, KeyOps.zrange, KeyOps.onZset, rankedBetween]
  | some sv =>
      rw [hent] at h
      obtain ⟨z, hv, -, rfl⟩ := h
      rw [rankedBetween, ← zrangeItems_forward]
      simp only [KeyCmd.step, KeyOps.zrange, KeyOps.onZset, hv]

theorem reach_zrangebyscore (hdb : db < w.engine.databases.length) (h : HoldsSet (w.engine.entryAt db key) items)
    (minScore maxScore : Float64) :
    ∃ w', World.step ω _ (.key db key (.zrangebyscore minScore maxScore false)) w =
      (.ok (scoredBetween items minScore maxScore), w') ∧ Leaves db key w w' items items := by
  refine reach_list hdb h fun ctx => ?_
  cases hent : w.engine.entryAt db key with
  | none =>
      rw [hent] at h
      rw [show items = [] from h]
      simp [KeyCmd.step, KeyOps.zrangebyscore, KeyOps.onZset, scoredBetween]
  | some sv =>
      rw [hent] at h
      obtain ⟨z, hv, -, rfl⟩ := h
      simp only [KeyCmd.step, KeyOps.zrangebyscore, KeyOps.onZset, hv, Bool.false_eq_true, if_false]
      rfl

/-- A listed member is removed, and the key with the last one. -/
theorem reach_zrem (hdb : db < w.engine.databases.length) (h : HoldsSet (w.engine.entryAt db key) items)
    {p : Bytes × Float64} (hp : p ∈ items) :
    ∃ w', World.step ω _ (.key db key (.zrem p.1)) w = (.ok true, w') ∧
      Leaves db key w w' items (items.filter fun q => decide (q.1 ≠ p.1)) := by
  cases hent : w.engine.entryAt db key with
  | none =>
      rw [hent] at h
      rw [show items = [] from h] at hp
      cases hp
  | some sv =>
      rw [hent] at h
      obtain ⟨z, hv, hz, rfl⟩ := h
      obtain ⟨hscore, hitems⟩ := @SkipList.remove_listed z hz p.1 p.2 hp
      have hc (ctx : Ctx) : (KeyCmd.zrem p.1).step key ctx (some sv) =
          { KeyStep.shrink sv (.sortedSet (z.remove p.1).2) (z.remove p.1).2.isEmpty true true with
            release := calculateMemberSize p.1 } := by
        simp only [KeyCmd.step, KeyOps.zrem, KeyOps.onZset, hv]
        generalize z.remove p.1 = r at hscore
        obtain ⟨old, z'⟩ := r
        obtain rfl : old = some p.2 := hscore
        rfl
      have hstep := World.step_of_admitted (ω := ω) key (.zrem p.1) hdb
        (Engine.refuses_of_charge (by rw [hent, hc]; rfl))
      rw [hent, hc] at hstep
      obtain ⟨e', hrun, hch, hentry⟩ := hstep
      have hempty : (z.remove p.1).2.isEmpty = true ↔ (z.items.filter fun q => decide (q.1 ≠ p.1)) = [] := by
        rw [← hitems, ← List.length_eq_zero_iff, SkipList.length_items]
        exact beq_iff_eq
      refine ⟨⟨e', w.calls + 1⟩, hrun, hch, List.filter_sublist, ?_, ?_⟩
      · rw [hentry]
        dsimp only [KeyStep.shrink]
        split
        · next hlast => exact hempty.mp hlast
        · refine ⟨(z.remove p.1).2, rfl, fun q hq => ?_, hitems⟩
          rw [hitems] at hq
          exact hz q (List.mem_of_mem_filter hq)
      · rw [hentry, hent]
        dsimp only [KeyStep.shrink]
        rw [← hempty]
        split
        · next hlast => exact iff_of_true rfl (.inr ⟨List.ne_nil_of_mem hp, hlast⟩)
        · next hmore => exact iff_of_false (Option.some_ne_none _) (by simp [hmore])

end Removals

/-! ## The loops -/

/-- The elements from the end a pop works at, the greatest first or the least. -/
def queue (top : Bool) (items : List (Bytes × Float64)) : List (Bytes × Float64) :=
  if top then items.reverse else items

theorem queue_queue (top : Bool) (items : List (Bytes × Float64)) : queue top (queue top items) = items := by
  cases top with
  | false => rfl
  | true => exact List.reverse_reverse items

/-- The index of the end. -/
def endPosition (top : Bool) : Int := if top then -1 else 0

theorem head?_rankedBetween (top : Bool) (items : List (Bytes × Float64)) :
    (rankedBetween items (endPosition top) (endPosition top)).head? = (queue top items).head? := by
  unfold rankedBetween
  cases top with
  | false =>
      have hzero : KeyOps.clampIndex items.length (endPosition false) = 0 := rfl
      rw [hzero, List.drop_zero, List.head?_take, if_neg (by decide)]
      rfl
  | true =>
      have hlast : KeyOps.clampIndex items.length (endPosition true) = items.length - 1 := by
        simp only [KeyOps.clampIndex, endPosition, if_true]
        rw [if_pos (by decide)]
        omega
      rw [hlast, List.take_of_length_le (by omega), List.head?_drop, queue, if_pos rfl, List.head?_reverse,
        List.getLast?_eq_getElem?]

/-- Without the element at the end the others are left. -/
theorem filter_queue {top : Bool} {items q : List (Bytes × Float64)} {p : Bytes × Float64}
    (hn : (items.map Prod.fst).Nodup) (hq : queue top items = p :: q) :
    (items.filter fun r => decide (r.1 ≠ p.1)) = queue top q := by
  have hn' : ((p :: q).map Prod.fst).Nodup := by
    rw [← hq]
    cases top with
    | false => exact hn
    | true =>
        rw [queue, if_pos rfl, List.map_reverse]
        exact List.nodup_reverse.mpr hn
  have hrest : ((p :: q).filter fun r => decide (r.1 ≠ p.1)) = q := by
    rw [List.filter_cons_of_neg (by simp)]
    refine List.filter_eq_self.mpr fun r hr => decide_eq_true fun heq => ?_
    rw [List.map_cons, List.nodup_cons] at hn'
    exact hn'.1 (heq ▸ List.mem_map_of_mem hr)
  have hitems : items = queue top (p :: q) := by rw [← hq, queue_queue]
  rw [hitems]
  cases top with
  | false => exact hrest
  | true =>
      rw [queue, if_pos rfl, List.filter_reverse, hrest]
      rfl

/-- The frames of a popped element. -/
def poppedFrames (p : Bytes × Float64) : List RespFrame := [.fromBytes p.1, scoreFrame p.2]

section Loops

variable {ω : Nat → Ctx} {w : World} {db : Nat} {key : Key} {items : List (Bytes × Float64)}

/-- The look at the end. -/
theorem look_end (top : Bool) (hdb : db < w.engine.databases.length)
    (h : HoldsSet (w.engine.entryAt db key) items) :
    ∃ members w', (need (.key db key (.zrange (endPosition top) (endPosition top) false)) :
        StoreProg _).run (World.step ω) w = (.ok members, w') ∧
      members.head? = (queue top items).head? ∧ Leaves db key w w' items items := by
  obtain ⟨w', hrun, hleaves⟩ := reach_zrange (ω := ω) hdb h (endPosition top) (endPosition top)
  exact ⟨_, w', Prog.run_perform_of_ok _ hrun, head?_rankedBetween top items, hleaves⟩

/-- The removal of what is there. -/
theorem take_end {top : Bool} (hdb : db < w.engine.databases.length)
    (h : HoldsSet (w.engine.entryAt db key) items) {p : Bytes × Float64} {q : List (Bytes × Float64)}
    (hq : queue top items = p :: q) :
    ∃ w', (need (.key db key (.zrem p.1)) : StoreProg _).run (World.step ω) w = (.ok true, w') ∧
      Leaves db key w w' items (queue top q) := by
  have hp : p ∈ items := by
    have hin : p ∈ queue top items := hq ▸ List.mem_cons_self
    cases top with
    | false => exact hin
    | true => exact List.mem_reverse.mp hin
  obtain ⟨w', hrun, hleaves⟩ := reach_zrem (ω := ω) hdb h hp
  rw [filter_queue h.nodup hq] at hleaves
  exact ⟨w', Prog.run_perform_of_ok _ hrun, hleaves⟩

/-- A loop of such rounds takes the first `n` from the end. -/
theorem run_rounds {top : Bool} {loop : Nat → List RespFrame → StoreProg RespFrame}
    {finish : List RespFrame → RespFrame} (missed : Nat → List RespFrame → StoreProg RespFrame)
    (hstop : ∀ r, loop 0 r = .ret (finish r))
    (hround : ∀ n r, loop (n + 1) r =
      (need (.key db key (.zrange (endPosition top) (endPosition top) false))).bind fun members =>
        match members.head? with
        | none => .ret (finish r)
        | some p => (need (.key db key (.zrem p.1))).bind fun gone =>
            if gone then loop n (r ++ poppedFrames p) else missed n r)
    (n : Nat) (hdb : db < w.engine.databases.length) (h : HoldsSet (w.engine.entryAt db key) items)
    (results : List RespFrame) :
    ∃ w', (loop n results).run (World.step ω) w =
        (.ok (finish (results ++ ((queue top items).take n).flatMap poppedFrames)), w') ∧
      Leaves db key w w' items (queue top ((queue top items).drop n)) := by
  induction n generalizing w items results with
  | zero =>
      refine ⟨w, ?_, ?_⟩
      · rw [hstop, List.take_zero, List.flatMap_nil, List.append_nil]
        rfl
      · rw [List.drop_zero, queue_queue]
        exact .same (.refl _ _ _) h rfl
  | succ n ih =>
      obtain ⟨members, w₁, hlook, hhead, hleaves₁⟩ := look_end (ω := ω) top hdb h
      have hdb₁ : db < w₁.engine.databases.length := hleaves₁.only.length.symm ▸ hdb
      rw [hround, Prog.run_bind_of_ok _ hlook, hhead]
      cases hq : queue top items with
      | nil =>
          refine ⟨w₁, ?_, ?_⟩
          · rw [List.take_nil, List.flatMap_nil, List.append_nil]
            rfl
          · rw [List.drop_nil, ← hq, queue_queue]
            exact hleaves₁
      | cons p q =>
          obtain ⟨w₂, htake, hleaves₂⟩ := take_end (ω := ω) hdb₁ hleaves₁.holds hq
          have hdb₂ : db < w₂.engine.databases.length := hleaves₂.only.length.symm ▸ hdb₁
          obtain ⟨w', hrest, hleaves⟩ := ih hdb₂ hleaves₂.holds (results ++ poppedFrames p)
          rw [queue_queue] at hrest hleaves
          refine ⟨w', ?_, (hleaves₁.trans hleaves₂).trans hleaves⟩
          dsimp only [List.head?_cons]
          rw [Prog.run_bind_of_ok _ htake, if_pos rfl, List.take_succ_cons, List.flatMap_cons, ← List.append_assoc]
          exact hrest

/-- The loop of the server. -/
theorem run_popLoop (top : Bool) (n : Nat) (hdb : db < w.engine.databases.length)
    (h : HoldsSet (w.engine.entryAt db key) items) :
    ∃ w', (popLoop db key (endPosition top) n []).run (World.step ω) w =
        (.ok (popped (((queue top items).take n).flatMap poppedFrames)), w') ∧
      Leaves db key w w' items (queue top ((queue top items).drop n)) := by
  refine run_rounds (popLoop db key (endPosition top)) (fun _ => rfl) (fun n r => ?_) n hdb h []
  refine congrArg (Prog.bind _) (funext fun members => ?_)
  cases members.head? with
  | none => rfl
  | some p =>
      refine congrArg (Prog.bind _) (funext fun gone => ?_)
      cases gone <;> rfl

/-- The loop of a script. -/
theorem run_executor_popLoop (top : Bool) (n : Nat) (hdb : db < w.engine.databases.length)
    (h : HoldsSet (w.engine.entryAt db key) items) :
    ∃ w', (Executor.popLoop db key (endPosition top) n []).run (World.step ω) w =
        (.ok (.list (((queue top items).take n).flatMap poppedFrames)), w') ∧
      Leaves db key w w' items (queue top ((queue top items).drop n)) := by
  refine run_rounds (fun _ r => .ret (.list r)) (fun _ => rfl) (fun n r => ?_) n hdb h []
  refine congrArg (Prog.bind _) (funext fun members => ?_)
  cases members.head? <;> rfl

/-- The loop over listed members removes all of them. -/
theorem run_removeLoop {members : List (Bytes × Float64)} (hsub : members.Sublist items)
    (hdb : db < w.engine.databases.length) (h : HoldsSet (w.engine.entryAt db key) items) (removed : Nat) :
    ∃ w', (Executor.removeLoop db key members removed).run (World.step ω) w =
        (.ok (count (removed + members.length)), w') ∧
      Leaves db key w w' items (items.filter fun p => decide (p ∉ members)) := by
  induction members generalizing w items removed with
  | nil =>
      refine ⟨w, rfl, ?_⟩
      rw [List.filter_eq_self.mpr fun p _ => decide_eq_true List.not_mem_nil]
      exact .same (.refl _ _ _) h rfl
  | cons p members ih =>
      have hp : p ∈ items := hsub.subset List.mem_cons_self
      obtain ⟨w₁, hrun, hleaves₁⟩ := reach_zrem (ω := ω) hdb h hp
      have hdb₁ : db < w₁.engine.databases.length := hleaves₁.only.length.symm ▸ hdb
      have hkeys : ∀ q ∈ members, q.1 ≠ p.1 := by
        have hn := h.nodup.sublist (hsub.map Prod.fst)
        rw [List.map_cons, List.nodup_cons] at hn
        exact fun q hq heq => hn.1 (heq ▸ List.mem_map_of_mem hq)
      have hsub₁ : members.Sublist (items.filter fun q => decide (q.1 ≠ p.1)) := by
        have hfilter := hsub.filter fun q => decide (q.1 ≠ p.1)
        rw [List.filter_cons_of_neg (by simp),
          List.filter_eq_self.mpr fun q hq => decide_eq_true (hkeys q hq)] at hfilter
        exact hfilter
      obtain ⟨w', hrest, hleaves⟩ := ih hsub₁ hdb₁ hleaves₁.holds (removed + 1)
      refine ⟨w', ?_, ?_⟩
      · unfold Executor.removeLoop
        rw [Prog.bind_eq, need, Prog.run_bind_of_ok _ (Prog.run_perform_of_ok _ hrun), if_pos rfl, hrest,
          List.length_cons, Nat.add_assoc, Nat.add_comm 1]
      · have hboth : ((items.filter fun q => decide (q.1 ≠ p.1)).filter fun q => decide (q ∉ members)) =
            items.filter fun q => decide (q ∉ p :: members) := by
          rw [List.filter_filter]
          refine List.filter_congr fun q hq => ?_
          -- a member has one element
          have hone : q.1 = p.1 ↔ q = p :=
            ⟨fun heq => List.inj_on_of_nodup_map h.nodup hq hp heq, fun heq => heq ▸ rfl⟩
          simp only [ne_eq, hone, List.mem_cons, not_or, Bool.decide_and, Bool.and_comm]
        rw [hboth] at hleaves
        exact hleaves₁.trans hleaves

end Loops

/-! ## The commands -/

/-- The handler of the server, or the command of a script. -/
inductive SetPath
  | server
  | executor
  deriving DecidableEq

/-- What the two commands that pop are called. -/
def popName (top : Bool) : String := if top then "ZPOPMAX" else "ZPOPMIN"

/-- The frames of a pop, with a count or without. -/
def popFrames (top : Bool) (key : Key) (text : Option Bytes) : Parts :=
  .fromString (popName top) :: .fromBytes key :: (text.map RespFrame.fromBytes).toList

/-- The program of ZPOPMIN and ZPOPMAX. -/
def SetPath.pop (path : SetPath) (top : Bool) (db : Nat) (parts : Parts) : StoreProg RespFrame :=
  match path, top with
  | server, false => handleZpopmin db parts
  | server, true => handleZpopmax db parts
  | executor, false => Executor.execute (CommandParser.parseZpopmin parts) (Executor.executeSortedSet db)
  | executor, true => Executor.execute (CommandParser.parseZpopmax parts) (Executor.executeSortedSet db)

/-- A count is read as this number; without one it is 1. -/
def Counts (n : Nat) : Option Bytes → Prop
  | none => n = 1
  | some text => (fromUtf8 text).bind parseU64 = some n

/-- Ranges of a sorted set. -/
inductive SetRange
  | rank
  | score
  deriving DecidableEq

namespace SetRange

/-- The two bounds are numbers of the kind the range takes. -/
def Bounds (lo hi : Bytes) : SetRange → Prop
  | rank => (∃ a, (fromUtf8 lo).bind parseI64 = some a) ∧ ∃ b, (fromUtf8 hi).bind parseI64 = some b
  | score => (∃ a, (fromUtf8 lo).bind Float64.parse = some a) ∧ ∃ b, (fromUtf8 hi).bind Float64.parse = some b

/-- ZRANGE or ZRANGEBYSCORE with these bounds, asked for the scores. -/
def report (path : SetPath) (db : Nat) (key : Key) (lo hi : Bytes) (range : SetRange) : StoreProg RespFrame :=
  match path, range with
  | .server, rank => handleZrange db
      [.fromString "ZRANGE", .fromBytes key, .fromBytes lo, .fromBytes hi, .fromString "WITHSCORES"]
  | .server, score => handleZrangebyscore db
      [.fromString "ZRANGEBYSCORE", .fromBytes key, .fromBytes lo, .fromBytes hi, .fromString "WITHSCORES"]
  | .executor, rank => Executor.execute (CommandParser.parseZrange
      [.fromString "ZRANGE", .fromBytes key, .fromBytes lo, .fromBytes hi, .fromString "WITHSCORES"])
      (Executor.executeSortedSet db)
  | .executor, score => Executor.execute (CommandParser.parseZrangebyscore
      [.fromString "ZRANGEBYSCORE", .fromBytes key, .fromBytes lo, .fromBytes hi, .fromString "WITHSCORES"])
      (Executor.executeSortedSet db)

/-- ZREMRANGEBYRANK or ZREMRANGEBYSCORE with these bounds. -/
def removal (db : Nat) (key : Key) (lo hi : Bytes) : SetRange → StoreProg RespFrame
  | rank => Executor.execute (CommandParser.parseZremrangebyrank
      [.fromString "ZREMRANGEBYRANK", .fromBytes key, .fromBytes lo, .fromBytes hi])
      (Executor.executeSortedSet db)
  | score => Executor.execute (CommandParser.parseZremrangebyscore
      [.fromString "ZREMRANGEBYSCORE", .fromBytes key, .fromBytes lo, .fromBytes hi])
      (Executor.executeSortedSet db)

end SetRange

section Commands

variable {ω : Nat → Ctx} {w : World} {db : Nat} {key : Key} {items : List (Bytes × Float64)}

theorem popping_eq (cmd name : String) (position : Int) {text : Option Bytes} {n : Nat} (hn : Counts n text) :
    popping cmd position db (.fromString name :: .fromBytes key :: (text.map RespFrame.fromBytes).toList) =
      popLoop db key position n [] := by
  cases text with
  | none =>
      obtain rfl : n = 1 := hn
      rfl
  | some text =>
      obtain ⟨s, hs, hparse⟩ := Option.bind_eq_some_iff.mp hn
      have hnat : Args.nat [.fromString name, .fromBytes key, .fromBytes text] 2 "count" = .ok n :=
        Args.numeral_of_text _ _ rfl (by rw [fromUtf8Lossy_of_fromUtf8 hs]; exact hparse)
      change reading ((Args.nat [.fromString name, .fromBytes key, .fromBytes text] 2 "count").bind _) _ = _
      rw [hnat]
      rfl

theorem executor_pop_eq (top : Bool) {text : Option Bytes} {n : Nat} (hn : Counts n text) :
    SetPath.executor.pop top db (popFrames top key text) =
      Executor.popLoop db key (endPosition top) n [] := by
  cases text with
  | none =>
      obtain rfl : n = 1 := hn
      cases top <;> rfl
  | some text =>
      have hnat := CommandParser.extractUsize_of_text hn
      cases top with
      | false =>
          change Executor.execute ((CommandParser.extractUsize (.fromBytes text)).bind _) _ = _
          rw [hnat]
          rfl
      | true =>
          change Executor.execute ((CommandParser.extractUsize (.fromBytes text)).bind _) _ = _
          rw [hnat]
          rfl

/-- A pop answers the first `n` from its end, or no array at all where there is none. -/
theorem run_pop (path : SetPath) (top : Bool) {text : Option Bytes} {n : Nat} (hn : Counts n text)
    (hdb : db < w.engine.databases.length) (h : HoldsSet (w.engine.entryAt db key) items) :
    ∃ reply w', (path.pop top db (popFrames top key text)).run (World.step ω) w = (.ok reply, w') ∧
      (reply = memberFrames true ((queue top items).take n) ∨
        (queue top items).take n = [] ∧ reply = .nullArray) ∧
      Leaves db key w w' items (queue top ((queue top items).drop n)) := by
  cases path with
  | server =>
      have heq : SetPath.server.pop top db (popFrames top key text) = popLoop db key (endPosition top) n [] := by
        cases top with
        | false => exact popping_eq "zpopmin" _ 0 hn
        | true => exact popping_eq "zpopmax" _ (-1) hn
      obtain ⟨w', hrun, hleaves⟩ := run_popLoop (ω := ω) top n hdb h
      rw [← heq] at hrun
      refine ⟨_, w', hrun, ?_, hleaves⟩
      cases htaken : (queue top items).take n with
      | nil => exact .inr ⟨rfl, rfl⟩
      | cons p q => exact .inl rfl
  | executor =>
      obtain ⟨w', hrun, hleaves⟩ := run_executor_popLoop (ω := ω) top n hdb h
      rw [← executor_pop_eq top hn] at hrun
      exact ⟨_, w', hrun, .inl rfl, hleaves⟩

/-! ## Ranges and their removal -/

/-- The word that asks for the scores. -/
theorem word?_withScores : Args.word? (.fromString "WITHSCORES") = some "WITHSCORES" :=
  rfl

theorem withScores_asked (a b c d : RespFrame) : withScores [a, b, c, d, .fromString "WITHSCORES"] = true := by
  change (true && Args.word? (.fromString "WITHSCORES") == some "WITHSCORES") = true
  rw [word?_withScores]
  rfl

theorem extractWithScores_asked :
    CommandParser.extractWithScores [.fromString "WITHSCORES"] = .ok true := by
  have hword : (fromUtf8 "WITHSCORES".toBytes) = some "WITHSCORES" := fromUtf8_toBytes _
  have hupper : (toUppercase "WITHSCORES" == "WITHSCORES") = true := rfl
  unfold CommandParser.extractWithScores
  have hframe : CommandParser.extractString (.fromString "WITHSCORES") = .ok "WITHSCORES" :=
    CommandParser.extractString_of_text hword
  dsimp only
  rw [hframe]
  simp only [bind, Except.bind, hupper]
  rfl

section Reports

variable {lo hi : Bytes}

theorem handleZrange_eq {a b : Int} (ha : (fromUtf8 lo).bind parseI64 = some a)
    (hb : (fromUtf8 hi).bind parseI64 = some b) :
    SetRange.rank.report .server db key lo hi = onKey .raise db key (.zrange a b false) (memberFrames true) := by
  obtain ⟨s, hs, ha⟩ := Option.bind_eq_some_iff.mp ha
  obtain ⟨t, ht, hb⟩ := Option.bind_eq_some_iff.mp hb
  generalize hparts : [RespFrame.fromString "ZRANGE", .fromBytes key, .fromBytes lo, .fromBytes hi,
    .fromString "WITHSCORES"] = parts
  have hlo : Args.int parts 2 "start" = .ok a :=
    Args.numeral_of_text _ _ (by rw [← hparts]; rfl) (by rw [fromUtf8Lossy_of_fromUtf8 hs]; exact ha)
  have hhi : Args.int parts 3 "stop" = .ok b :=
    Args.numeral_of_text _ _ (by rw [← hparts]; rfl) (by rw [fromUtf8Lossy_of_fromUtf8 ht]; exact hb)
  have hargs : (do
      Args.arity "zrange" (decide (4 ≤ parts.length) && decide (parts.length ≤ 5))
      let key ← Args.bulk parts 1 "key"
      let start ← Args.int parts 2 "start"
      let stop ← Args.int parts 3 "stop"
      return (key, start, stop)) = (.ok (key, a, b) : Args (Key × Int × Int)) := by
    rw [hlo, hhi, ← hparts]
    rfl
  have hscores : withScores parts = true := by rw [← hparts, withScores_asked]
  change rangeByIndex "zrange" false db _ = _
  rw [hparts, rangeByIndex, hargs]
  dsimp only [reading]
  rw [hscores]

theorem parseZrange_eq {a b : Int} (ha : (fromUtf8 lo).bind parseI64 = some a)
    (hb : (fromUtf8 hi).bind parseI64 = some b) :
    SetRange.rank.report .executor db key lo hi = onKey .raise db key (.zrange a b false) (memberFrames true) := by
  change Executor.execute ((CommandParser.extractI64 (.fromBytes lo)).bind fun first =>
    (CommandParser.extractI64 (.fromBytes hi)).bind fun last =>
      (CommandParser.extractWithScores [.fromString "WITHSCORES"]).bind _) _ = _
  rw [CommandParser.extractI64_of_text ha, CommandParser.extractI64_of_text hb, extractWithScores_asked]
  rfl

theorem handleZrangebyscore_eq {a b : Float64} (ha : (fromUtf8 lo).bind Float64.parse = some a)
    (hb : (fromUtf8 hi).bind Float64.parse = some b) :
    SetRange.score.report .server db key lo hi =
      onKey .raise db key (.zrangebyscore a b false) (memberFrames true) := by
  obtain ⟨s, hs, ha⟩ := Option.bind_eq_some_iff.mp ha
  obtain ⟨t, ht, hb⟩ := Option.bind_eq_some_iff.mp hb
  generalize hparts : [RespFrame.fromString "ZRANGEBYSCORE", .fromBytes key, .fromBytes lo, .fromBytes hi,
    .fromString "WITHSCORES"] = parts
  have hlo : Args.float boundNotFloat parts 2 "min score" = .ok a :=
    Args.numeral_of_text _ _ (by rw [← hparts]; rfl) (by rw [fromUtf8Lossy_of_fromUtf8 hs]; exact ha)
  have hhi : Args.float boundNotFloat parts 3 "max score" = .ok b :=
    Args.numeral_of_text _ _ (by rw [← hparts]; rfl) (by rw [fromUtf8Lossy_of_fromUtf8 ht]; exact hb)
  have hargs : (do
      Args.arity "zrangebyscore" (decide (4 ≤ parts.length) && decide (parts.length ≤ 5))
      let key ← Args.bulk parts 1 "key"
      let lo ← Args.float boundNotFloat parts 2 "min score"
      let hi ← Args.float boundNotFloat parts 3 "max score"
      return (key, lo, hi)) = (.ok (key, a, b) : Args (Key × Float64 × Float64)) := by
    rw [hlo, hhi, ← hparts]
    rfl
  have hscores : withScores parts = true := by rw [← hparts, withScores_asked]
  change handleZrangebyscore db _ = _
  rw [hparts, handleZrangebyscore, hargs]
  dsimp only [reading]
  rw [hscores]

theorem parseZrangebyscore_eq {a b : Float64} (ha : (fromUtf8 lo).bind Float64.parse = some a)
    (hb : (fromUtf8 hi).bind Float64.parse = some b) :
    SetRange.score.report .executor db key lo hi =
      onKey .raise db key (.zrangebyscore a b false) (memberFrames true) := by
  change Executor.execute ((CommandParser.extractF64 (.fromBytes lo)).bind fun first =>
    (CommandParser.extractF64 (.fromBytes hi)).bind fun last =>
      (CommandParser.extractWithScores [.fromString "WITHSCORES"]).bind _) _ = _
  rw [CommandParser.extractF64_of_text ha, CommandParser.extractF64_of_text hb, extractWithScores_asked]
  rfl

end Reports

/-- The operation that lists a range, for bounds of its kind: the reports call it and the
removal goes through what it answers. -/
theorem SetRange.lists (range : SetRange) {lo hi : Bytes} (hb : range.Bounds lo hi)
    (hdb : db < w.engine.databases.length) (h : HoldsSet (w.engine.entryAt db key) items) :
    ∃ (c : KeyCmd (List (Bytes × Float64))) (reported : List (Bytes × Float64)) (w' : World),
      World.step ω _ (.key db key c) w = (.ok reported, w') ∧ reported.Sublist items ∧
      Leaves db key w w' items items ∧
      (∀ path, range.report path db key lo hi = onKey .raise db key c (memberFrames true)) ∧
      range.removal db key lo hi =
        (need (.key db key c)).bind fun members => Executor.removeLoop db key members 0 := by
  cases range with
  | rank =>
      obtain ⟨⟨a, ha⟩, b, hb⟩ := hb
      obtain ⟨w', hrun, hleaves⟩ := reach_zrange (ω := ω) hdb h a b
      refine ⟨.zrange a b false, _, w', hrun, (List.drop_sublist _ _).trans (List.take_sublist _ _), hleaves,
        fun path => ?_, ?_⟩
      · cases path with
        | server => exact handleZrange_eq ha hb
        | executor => exact parseZrange_eq ha hb
      · change Executor.execute ((CommandParser.extractI64 (.fromBytes lo)).bind fun first =>
          (CommandParser.extractI64 (.fromBytes hi)).bind _) _ = _
        rw [CommandParser.extractI64_of_text ha, CommandParser.extractI64_of_text hb]
        rfl
  | score =>
      obtain ⟨⟨a, ha⟩, b, hb⟩ := hb
      obtain ⟨w', hrun, hleaves⟩ := reach_zrangebyscore (ω := ω) hdb h a b
      refine ⟨.zrangebyscore a b false, _, w', hrun,
        (List.takeWhile_sublist _).trans (List.dropWhile_sublist _), hleaves, fun path => ?_, ?_⟩
      · cases path with
        | server => exact handleZrangebyscore_eq ha hb
        | executor => exact parseZrangebyscore_eq ha hb
      · change Executor.execute ((CommandParser.extractF64 (.fromBytes lo)).bind fun first =>
          (CommandParser.extractF64 (.fromBytes hi)).bind _) _ = _
        rw [CommandParser.extractF64_of_text ha, CommandParser.extractF64_of_text hb]
        rfl

/-- A removal takes what the reports list and answers how many that are. -/
theorem run_removal (range : SetRange) {lo hi : Bytes} (hb : range.Bounds lo hi)
    (hdb : db < w.engine.databases.length) (h : HoldsSet (w.engine.entryAt db key) items) :
    ∃ reported : List (Bytes × Float64), reported.Sublist items ∧
      (∀ path, ∃ w', (range.report path db key lo hi).run (World.step ω) w =
        (.ok (memberFrames true reported), w') ∧ Leaves db key w w' items items) ∧
      ∃ w', (range.removal db key lo hi).run (World.step ω) w = (.ok (count reported.length), w') ∧
        Leaves db key w w' items (items.filter fun p => decide (p ∉ reported)) := by
  obtain ⟨c, reported, w₁, hrun, hsub, hleaves, hreport, hremoval⟩ := range.lists (ω := ω) hb hdb h
  refine ⟨reported, hsub, fun path => ⟨w₁, ?_, hleaves⟩, ?_⟩
  · rw [hreport, onKey, calling, Prog.run_call, hrun]
    rfl
  · have hdb₁ : db < w₁.engine.databases.length := hleaves.only.length.symm ▸ hdb
    obtain ⟨w', hloop, hleft⟩ := run_removeLoop (ω := ω) hsub hdb₁ hleaves.holds 0
    refine ⟨w', ?_, hleaves.trans hleft⟩
    rw [hremoval, need, Prog.run_bind_of_ok _ (Prog.run_perform_of_ok _ hrun), hloop, Nat.zero_add]

end Commands

/-- On a sorted set without NaNs, whose elements are listed in ascending order of score and
member: a pop takes and answers the first from its end, and a removal by rank or score
takes what ZRANGE or ZRANGEBYSCORE reports for the same bounds; the others are left, and
the key is gone exactly where the last element went. -/
theorem set_removals_exact (ω : Nat → Ctx) {w : World} {db : Nat} {key : Key} {items : List (Bytes × Float64)}
    (hdb : db < w.engine.databases.length) (h : HoldsSet (w.engine.entryAt db key) items) :
    items.Pairwise SkipList.PairLt ∧
    (∀ (path : SetPath) (top : Bool) (text : Option Bytes) (n : Nat), Counts n text →
      ∃ reply w', (path.pop top db (popFrames top key text)).run (World.step ω) w = (.ok reply, w') ∧
        (reply = memberFrames true ((queue top items).take n) ∨
          (queue top items).take n = [] ∧ reply = .nullArray) ∧
        Leaves db key w w' items (queue top ((queue top items).drop n))) ∧
    ∀ (range : SetRange) (lo hi : Bytes), range.Bounds lo hi →
      ∃ reported : List (Bytes × Float64), reported.Sublist items ∧
        (∀ path, ∃ w', (range.report path db key lo hi).run (World.step ω) w =
          (.ok (memberFrames true reported), w') ∧ Leaves db key w w' items items) ∧
        ∃ w', (range.removal db key lo hi).run (World.step ω) w = (.ok (count reported.length), w') ∧
          Leaves db key w w' items (items.filter fun p => decide (p ∉ reported)) :=
  ⟨h.sorted, fun path top _ _ hn => run_pop path top hn hdb h, fun range _ _ hb => run_removal range hb hdb h⟩

/-- Two members with scores. -/
def twoScored : World :=
  ⟨((Op.key 0 "z".toBytes (.zadd "b".toBytes ⟨0x4000000000000000⟩)).run (.at 0)
    ((Op.key 0 "z".toBytes (.zadd "a".toBytes ⟨0x3FF0000000000000⟩)).run (.at 0)
      (Engine.withConfig 1 .unlimited)).2).2, 0⟩

/-- ZPOPMIN takes the one with the lesser score. -/
theorem twoScored_popped :
    ∃ reply w', (SetPath.server.pop false 0 (popFrames false "z".toBytes none)).run (World.step fun _ => .at 0)
        twoScored = (.ok reply, w') ∧
      Leaves 0 "z".toBytes twoScored w'
        [("a".toBytes, ⟨0x3FF0000000000000⟩), ("b".toBytes, ⟨0x4000000000000000⟩)]
        [("b".toBytes, ⟨0x4000000000000000⟩)] := by
  have hitems : ((twoScored.engine.entryAt 0 "z".toBytes).bind fun sv => sv.value.asZset).map SkipList.items =
      some [("a".toBytes, ⟨0x3FF0000000000000⟩), ("b".toBytes, ⟨0x4000000000000000⟩)] := by
    rfl
  obtain ⟨z, hz, hlist⟩ := Option.map_eq_some_iff.mp hitems
  obtain ⟨sv, hent, hzset⟩ := Option.bind_eq_some_iff.mp hz
  have hv : sv.value = .sortedSet z := by
    cases hval : sv.value with
    | sortedSet z' =>
        rw [hval] at hzset
        cases hzset
        rfl
    | _ =>
        rw [hval] at hzset
        cases hzset
  have hholds : HoldsSet (twoScored.engine.entryAt 0 "z".toBytes)
      [("a".toBytes, ⟨0x3FF0000000000000⟩), ("b".toBytes, ⟨0x4000000000000000⟩)] := by
    rw [hent]
    refine ⟨z, hv, fun p hp => ?_, hlist⟩
    rw [hlist] at hp
    revert p
    decide
  obtain ⟨-, hpop, -⟩ := set_removals_exact (fun _ => .at 0) (by decide) hholds
  obtain ⟨reply, w', hrun, -, hleaves⟩ := hpop .server false none 1 rfl
  exact ⟨reply, w', hrun, hleaves⟩

end Ferrous
