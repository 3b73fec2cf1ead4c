/-
# `Storage.SkipSpec` — what the operations of the skip list do to its nodes

`Tower` is the invariant of the list: level `i` is the chain of the nodes that
reach above it, so every level is a sublist of the one below, and level 0 has
them all.  Each operation is stated on the sequence of the nodes: where a node
goes in, which one goes out, and what a query reads off the sequence.
-/
import Ferrous.Storage.SkipWiring

namespace Ferrous

open Lib

namespace SkipListInner

open Cell

variable {K V : Type}

/-- The nodes in their order, each on as many levels as it has pointers. -/
structure Tower (s : SkipListInner K V) (cells : List (Cell K V)) : Prop where
  wired : Wired s cells (above cells)
  length : s.length = cells.length
  level_lt : s.level < maxLevel
  levels : ∀ c ∈ cells, 1 ≤ c.levels ∧ c.levels ≤ s.level + 1

variable {s : SkipListInner K V} {cells as bs : List (Cell K V)}

/-- The new list. -/
theorem tower_new (base : Nat) (key : K) (value : V) : Tower (new base key value) [] where
  wired := {
    boxed := nofun
    head := ⟨_, Map.get?_set_self .., List.length_replicate⟩
    nodup := List.nodup_singleton 0
    only := fun p hp => by
      by_contra hne
      have hp0 : p ≠ 0 := fun h0 => hne (h0 ▸ List.mem_cons_self)
      exact hp ((Map.get?_set_ne _ _ hp0).trans (Map.get?_empty p))
    fresh := fun p hp => by
      rw [List.mem_singleton.mp hp]
      exact Nat.one_pos
    linked := fun i hi => by
      have hbox : (new base key value).boxes.get? 0 = some ⟨key, value, List.replicate maxLevel none⟩ :=
        Map.get?_set_self ..
      refine ⟨trivial, ?_⟩
      change ((new base key value).boxes.get? 0).bind (fun n => n.forward[i]?) = _
      rw [hbox]
      exact List.getElem?_replicate_of_lt hi
    sub := fun i => List.Sublist.refl _ }
  length := rfl
  level_lt := Nat.succ_pos 31
  levels := nofun

/-- The key index is nothing the nodes depend on. -/
theorem Tower.setIndex (h : Tower s cells) (index : Map K V) :
    Tower { s with keyIndex := index } cells where
  wired := ⟨h.wired.boxed, h.wired.head, h.wired.nodup, h.wired.only, h.wired.fresh, h.wired.linked,
    h.wired.sub⟩
  length := h.length
  level_lt := h.level_lt
  levels := h.levels

/-- The search from the top, split where the test stops passing. -/
theorem Tower.search (h : Tower s (as ++ bs)) (before : SkipListNode K V → Bool)
    (has : ∀ c ∈ as, ∀ fw, before ⟨c.key, c.value, fw⟩ = true)
    (hbs : ∀ c ∈ bs, ∀ fw, before ⟨c.key, c.value, fw⟩ = false) :
    s.search before (s.level + 1) s.head =
      some ((List.range (s.level + 1)).map (predecessor s.head as)) := by
  have htop : predecessor s.head as (s.level + 1) = s.head := by
    rw [predecessor, above_eq_nil fun c hc => (h.levels c (List.mem_append_left _ hc)).2]
    rfl
  have hsearch := h.wired.search h.length.symm has hbs (Nat.succ_le_of_lt h.level_lt)
  rwa [htop] at hsearch

section Changes

variable [Ord K] [DecidableEq K] [PartialOrd V]

omit [DecidableEq K] in
/-- A new node goes in behind the nodes that come before it. -/
theorem Tower.insertNewNode (h : Tower s (as ++ bs)) (base : Nat) {key : K} {value : V} {newLevel : Nat}
    (hnew : newLevel < maxLevel)
    (has : ∀ c ∈ as, compareNodes c.value c.key value key = .lt)
    (hbs : ∀ c ∈ bs, compareNodes c.value c.key value key ≠ .lt) :
    ∃ s', s.insertNewNode base key value newLevel = some s' ∧
      Tower s' (as ++ ⟨s.fresh, key, value, newLevel + 1⟩ :: bs) ∧ s'.keyIndex = s.keyIndex ∧
      s'.memoryUsage = s.memoryUsage + calculateNodeSize base (newLevel + 1) := by
  have hsearch := h.search (isBefore value key)
    (fun c hc _ => beq_iff_eq.mpr (has c hc)) (fun c hc _ => beq_eq_false_iff_ne.mpr (hbs c hc))
  generalize hc : (⟨s.fresh, key, value, newLevel + 1⟩ : Cell K V) = c
  have haddr : c.addr = s.fresh := by rw [← hc]
  have hlevels : c.levels = newLevel + 1 := by rw [← hc]
  -- the new box, which no chain has yet
  have hfresh : ∀ p ∈ s.head :: addrs (as ++ bs), p ≠ s.fresh :=
    fun p hp => Nat.ne_of_lt (h.wired.fresh p hp)
  have hperm : (s.head :: addrs (as ++ c :: bs)).Perm (c.addr :: s.head :: addrs (as ++ bs)) := by
    rw [addrs_append, addrs_cons, addrs_append, ← List.cons_append, ← List.cons_append]
    exact List.perm_middle
  have hboxed : Wired
      { s with
        level := max s.level newLevel
        boxes := s.boxes.set s.fresh ⟨key, value, List.replicate (newLevel + 1) none⟩
        fresh := s.fresh + 1 }
      (as ++ c :: bs) (linkedBelow as bs c 0) := by
    have hkeep : ∀ p ∈ s.head :: addrs (as ++ bs),
        (s.boxes.set s.fresh ⟨key, value, List.replicate (newLevel + 1) none⟩).get? p =
          s.boxes.get? p :=
      fun p hp => Map.get?_set_ne _ _ (hfresh p hp)
    refine ⟨fun d hd => ?_, ?_, ?_, fun p hp => ?_, fun p hp => ?_, fun i hi => ?_, fun i => ?_⟩
    · dsimp only
      rcases List.mem_append.mp hd with hd | hd
      · have hin : d ∈ as ++ bs := List.mem_append_left _ hd
        rw [hkeep _ (List.mem_cons_of_mem _ (List.mem_map_of_mem hin))]
        exact h.wired.boxed d hin
      · rcases List.mem_cons.mp hd with rfl | hd
        · rw [← hc]
          exact ⟨_, Map.get?_set_self .., List.length_replicate⟩
        · have hin : d ∈ as ++ bs := List.mem_append_right _ hd
          rw [hkeep _ (List.mem_cons_of_mem _ (List.mem_map_of_mem hin))]
          exact h.wired.boxed d hin
    · dsimp only
      rw [hkeep _ List.mem_cons_self]
      exact h.wired.head
    · refine hperm.nodup_iff.mpr (List.nodup_cons.mpr ⟨?_, h.wired.nodup⟩)
      intro hin
      exact hfresh _ hin haddr
    · refine hperm.mem_iff.mpr ?_
      dsimp only at hp
      rw [Map.get?_set] at hp
      split at hp
      · next hpf =>
          rw [hpf, haddr]
          exact List.mem_cons_self
      · exact List.mem_cons_of_mem _ (h.wired.only p hp)
    · rcases List.mem_cons.mp (hperm.mem_iff.mp hp) with rfl | hp
      · rw [haddr]
        exact Nat.lt_succ_self _
      · exact Nat.lt_succ_of_lt (h.wired.fresh p hp)
    · rw [linkedBelow, if_neg (Nat.not_lt_zero i), ← above_append]
      refine (h.wired.linked i hi).congr fun p hp => ?_
      have hin : p ∈ s.head :: addrs (as ++ bs) := by
        rcases List.mem_cons.mp hp with rfl | hp
        · exact List.mem_cons_self
        · exact List.mem_cons_of_mem _ (((h.wired.sub i).map _).subset hp)
      rw [next, next]
      dsimp only
      rw [hkeep p hin]
    · rw [linkedBelow, if_neg (Nat.not_lt_zero i), ← above_append]
      exact (above_sublist _ i).trans ((List.sublist_cons_self c bs).append_left as)
  -- the update vector reaches up to the new level
  have hupdate : ∀ i < newLevel + 1,
      ((List.range (s.level + 1)).map (predecessor s.head as) ++
        List.replicate (newLevel - s.level) s.head)[i]? = some (predecessor s.head as i) := by
    intro i hi
    by_cases hle : i < s.level + 1
    · rw [List.getElem?_append_left (by simpa using hle)]
      simp [hle]
    · have htop : predecessor s.head as i = s.head := by
        have hlow : ∀ c ∈ as, c.levels ≤ i := fun c hc => by
          have := (h.levels c (List.mem_append_left _ hc)).2
          omega
        rw [predecessor, above_eq_nil hlow]
        rfl
      rw [List.getElem?_append_right (by simpa using hle), htop]
      refine List.getElem?_replicate_of_lt ?_
      simp only [List.length_map, List.length_range]
      omega
  obtain ⟨s', hs', hsame, hw⟩ := hboxed.linkAll (n := newLevel + 1) (Nat.le_of_eq hlevels.symm)
    (Nat.succ_le_of_lt hnew) hupdate
  have hchain : linkedBelow as bs c (newLevel + 1) = above (as ++ c :: bs) := by
    funext i
    rw [linkedBelow, above_append]
    split
    · next hi =>
        have hcons : above (c :: bs) i = c :: above bs i :=
          List.filter_cons_of_pos (by simpa [hlevels] using hi)
        rw [hcons]
    · next hi =>
        have hcons : above (c :: bs) i = above bs i :=
          List.filter_cons_of_neg (by simpa [hlevels] using Nat.le_of_not_lt hi)
        rw [hcons]
  rw [hchain] at hw
  refine ⟨{ s' with
    length := s'.length + 1
    memoryUsage := s'.memoryUsage + calculateNodeSize base (newLevel + 1) }, ?_, ?_, ?_, ?_⟩
  · rw [SkipListInner.insertNewNode, hsearch]
    simp only [Option.bind_eq_bind, Option.bind_some]
    rw [haddr] at hs'
    rw [hs']
    rfl
  · refine ⟨⟨hw.boxed, hw.head, hw.nodup, hw.only, hw.fresh, hw.linked, hw.sub⟩, ?_, ?_, fun d hd => ?_⟩
    · dsimp only
      rw [hsame, List.length_append, List.length_cons]
      have := h.length
      rw [List.length_append] at this
      dsimp only
      omega
    · dsimp only
      rw [hsame]
      exact max_lt h.level_lt hnew
    · dsimp only
      rw [hsame]
      have hd' : d = c ∨ d ∈ as ++ bs := by
        simp only [List.mem_append, List.mem_cons] at hd ⊢
        tauto
      rcases hd' with rfl | hd'
      · rw [hlevels]
        exact ⟨Nat.succ_le_succ (Nat.zero_le _), Nat.succ_le_succ (le_max_right _ _)⟩
      · have hlow := h.levels d hd'
        exact ⟨hlow.1, hlow.2.trans (Nat.succ_le_succ (le_max_left _ _))⟩
  · rw [hsame]
  · dsimp only
    rw [hsame]

/-- The first node that does not come before (score, key) goes, if it holds that
key with an equal score. -/
theorem Tower.removeNodeByScore {t : Cell K V} (h : Tower s (as ++ t :: bs)) (base : Nat) {key : K}
    {score : V} (has : ∀ c ∈ as, compareNodes c.value c.key score key = .lt)
    (hbs : ∀ c ∈ t :: bs, compareNodes c.value c.key score key ≠ .lt) :
    if t.key = key ∧ eqScore t.value score then
      ∃ s', s.removeNodeByScore base key score = some s' ∧ Tower s' (as ++ bs) ∧
        s'.keyIndex = s.keyIndex ∧
        s'.memoryUsage = s.memoryUsage - calculateNodeSize base t.levels
    else s.removeNodeByScore base key score = some s := by
  have hsearch := h.search (isBefore score key)
    (fun c hc _ => beq_iff_eq.mpr (has c hc)) (fun c hc _ => beq_eq_false_iff_ne.mpr (hbs c hc))
  have hupdate : ∀ i < s.level + 1, ((List.range (s.level + 1)).map (predecessor s.head as))[i]? =
      some (predecessor s.head as i) := by
    intro i hi
    simp [hi]
  -- level 0 has every node, so the target is the one behind the search
  have hnext : s.next 0 (predecessor s.head as 0) = some (some t.addr) := by
    have hl := h.wired.linked 0 (by decide)
    have hall : above (t :: bs) 0 = t :: bs :=
      above_zero fun c hc => (h.levels c (List.mem_append_right _ hc)).1
    rw [above_append, hall, addrs_append] at hl
    exact (linked_append.mp hl).2.next_eq
  obtain ⟨fw, hfw, hlen⟩ :=
    h.wired.boxed t (List.mem_append_right _ List.mem_cons_self)
  have hstart : s.removeNodeByScore base key score =
      if t.key = key ∧ eqScore t.value score then do
        let unlinked ← unlink ((List.range (s.level + 1)).map (predecessor s.head as)) t.addr
          (s.level + 1) 0 s
        let level ← unlinked.lowerLevel unlinked.level
        some { unlinked with
          level := level
          boxes := unlinked.boxes.del t.addr
          length := unlinked.length - 1
          memoryUsage := unlinked.memoryUsage - calculateNodeSize base fw.length }
      else some s := by
    rw [SkipListInner.removeNodeByScore, hsearch]
    simp only [Option.bind_eq_bind, Option.bind_some, hupdate 0 (Nat.succ_pos _), hnext, hfw]
  rw [hstart]
  split
  · have hcells : unlinkedBelow as bs t 0 = above (as ++ t :: bs) := by
      funext k
      rw [unlinkedBelow, if_neg (Nat.not_lt_zero k)]
    have htlow := h.levels t (List.mem_append_right _ List.mem_cons_self)
    obtain ⟨s₁, hs₁, hsame, hw₁⟩ := Wired.unlink (s := s) (n := s.level + 1) (i := 0)
      (hcells.symm ▸ h.wired) (by omega) (by have := h.level_lt; omega)
      (fun k hk => hupdate k (by omega))
    have hlevel : s₁.level = s.level := by rw [hsame]
    have hleft : ∀ c ∈ as ++ bs, c ∈ as ++ t :: bs := fun c hc =>
      ((List.sublist_cons_self t bs).append_left as).subset hc
    obtain ⟨l, hl, hle, hlow⟩ := hw₁.lowerLevel (l := s₁.level) (by rw [hlevel]; exact h.level_lt)
      fun c hc => by
        rw [hlevel]
        exact (h.levels c (hleft c hc)).2
    have hfree := hw₁.free fun i => above_sublist (as ++ bs) i
    refine ⟨{ s₁ with
      level := l
      boxes := s₁.boxes.del t.addr
      length := s₁.length - 1
      memoryUsage := s₁.memoryUsage - calculateNodeSize base fw.length }, ?_, ?_, ?_, ?_⟩
    · simp only [hs₁, Option.bind_eq_bind, Option.bind_some, hl]
    · refine ⟨⟨hfree.boxed, hfree.head, hfree.nodup, hfree.only, hfree.fresh, hfree.linked,
        hfree.sub⟩, ?_, ?_, fun c hc => ⟨(h.levels c (hleft c hc)).1, hlow c hc⟩⟩
      · have hlength := h.length
        dsimp only
        rw [hsame]
        simp only [List.length_append, List.length_cons] at hlength ⊢
        omega
      · exact Nat.lt_of_le_of_lt (hlevel ▸ hle) h.level_lt
    · rw [hsame]
    · dsimp only
      rw [hsame, hlen]
  · rfl

/-- Behind the last node there is nothing to remove. -/
theorem Tower.removeNodeByScore_end (h : Tower s as) (base : Nat) {key : K} {score : V}
    (has : ∀ c ∈ as, compareNodes c.value c.key score key = .lt) :
    s.removeNodeByScore base key score = some s := by
  rw [← List.append_nil as] at h
  have hsearch := h.search (isBefore score key)
    (fun c hc _ => beq_iff_eq.mpr (has c hc)) nofun
  have hnext : s.next 0 (predecessor s.head as 0) = some none := by
    have hl := h.wired.linked 0 (by decide)
    rw [above_append, addrs_append] at hl
    exact (linked_append.mp hl).2.next_eq
  rw [SkipListInner.removeNodeByScore, hsearch]
  simp [hnext]

omit [Ord K] [DecidableEq K] [PartialOrd V] in
/-- The loop that frees the nodes one by one, whatever the higher levels are. -/
theorem freeAll_spec {fuel : Nat} (hlen : cells.length < fuel)
    (hhead : ∃ h, s.boxes.get? s.head = some h ∧ h.forward.length = maxLevel)
    (hnodup : (s.head :: addrs cells).Nodup)
    (honly : ∀ p, s.boxes.get? p ≠ none → p ∈ s.head :: addrs cells)
    (hlink : Linked (s.next 0) s.head (addrs cells)) :
    ∃ s', freeAll fuel s = some s' ∧ SameBut s s' ∧
      (∃ h, s'.boxes.get? s.head = some h ∧ h.forward.length = maxLevel) ∧
      ∀ p, s'.boxes.get? p ≠ none → p = s.head := by
  induction cells generalizing s fuel with
  | nil =>
      obtain ⟨fuel, rfl⟩ := Nat.exists_eq_succ_of_ne_zero (Nat.ne_of_gt hlen)
      refine ⟨s, ?_, .refl s, hhead, fun p hp => List.mem_singleton.mp (honly p hp)⟩
      rw [freeAll, hlink.next_eq]
      rfl
  | cons c cells ih =>
      obtain ⟨fuel, rfl⟩ := Nat.exists_eq_succ_of_ne_zero (Nat.ne_of_gt (Nat.zero_lt_of_lt hlen))
      obtain ⟨hd, hhd, hhlen⟩ := hhead
      rw [addrs_cons] at hnodup hlink honly
      obtain ⟨hnext, hrest⟩ := linked_cons.mp hlink
      have hne : c.addr ≠ s.head := fun heq =>
        (List.nodup_cons.mp hnodup).1 (heq ▸ List.mem_cons_self)
      obtain ⟨s₁, hs₁, hs₁'⟩ : ∃ s₁, s.setForward s.head 0 (addrs cells).head? = some s₁ ∧
          s₁ = { s with
            boxes := s.boxes.set s.head { hd with forward := hd.forward.set 0 (addrs cells).head? } } :=
        ⟨_, setForward_eq hhd (hhlen ▸ SkipChain.maxLevel_pos) _, rfl⟩
      have hnext₁ := next_setForward hs₁
      have hhead₁ : s₁.head = s.head := by rw [hs₁']
      have hbox₁ : ∀ p, p ≠ s.head → s₁.boxes.get? p = s.boxes.get? p := by
        intro p hp
        rw [hs₁']
        exact Map.get?_set_ne _ _ hp
      have hheadbox : s₁.boxes.get? s.head =
          some { hd with forward := hd.forward.set 0 (addrs cells).head? } := by
        rw [hs₁']
        exact Map.get?_set_self ..
      have hn : (s.head :: addrs cells).Nodup :=
        hnodup.sublist ((List.sublist_cons_self _ _).cons_cons _)
      have hcne : ∀ p ∈ s.head :: addrs cells, p ≠ c.addr := by
        intro p hp heq
        subst heq
        rcases List.mem_cons.mp hp with heq | hp
        · exact hne heq
        · exact (List.nodup_cons.mp (List.nodup_cons.mp hnodup).2).1 hp
      have hheadleft : (s₁.boxes.del c.addr).get? s.head =
          some { hd with forward := hd.forward.set 0 (addrs cells).head? } := by
        rw [Map.get?_del_ne _ (Ne.symm hne)]
        exact hheadbox
      have honlyleft : ∀ p, (s₁.boxes.del c.addr).get? p ≠ none → p ∈ s.head :: addrs cells := by
        intro p hp
        rw [Map.get?_del] at hp
        split at hp
        · exact absurd rfl hp
        · next hpc =>
            by_cases hph : p = s.head
            · rw [hph]
              exact List.mem_cons_self
            · rw [hbox₁ p hph] at hp
              rcases List.mem_cons.mp (honly p hp) with heq | hin
              · exact absurd heq hph
              · rcases List.mem_cons.mp hin with heq | hin
                · exact absurd heq hpc
                · exact List.mem_cons_of_mem _ hin
      -- the head points to where the freed node pointed, the rest is as before
      have hunlink : Linked (s₁.next 0) s.head ([] ++ addrs cells) := by
        refine Linked.unlink (t := c.addr) hlink hnodup ?_ fun q _ hq => ?_
        · rw [hnext₁, if_pos ⟨rfl, rfl⟩, hrest.next_eq]
        · rw [hnext₁, if_neg fun hand => hq hand.1]
      have hlinkleft : Linked (({ s₁ with boxes := s₁.boxes.del c.addr } : SkipListInner K V).next 0)
          s.head (addrs cells) := by
        refine hunlink.congr fun p hp => ?_
        rw [next, next]
        dsimp only
        rw [Map.get?_del_ne _ (hcne p hp)]
      rw [← hhead₁] at hheadleft honlyleft hlinkleft hn
      obtain ⟨s₂, hs₂, hsame₂, hhead₂, honly₂⟩ := ih (s := { s₁ with boxes := s₁.boxes.del c.addr })
        (Nat.lt_of_succ_lt_succ hlen) ⟨_, hheadleft, List.length_set.trans hhlen⟩ hn honlyleft hlinkleft
      refine ⟨s₂, ?_, ?_, hhead₁ ▸ hhead₂, fun p hp => hhead₁ ▸ honly₂ p hp⟩
      · rw [freeAll, hnext]
        simp only [Option.bind_eq_bind, Option.bind_some, hrest.next_eq, hs₁, hs₂]
      · unfold SameBut at hsame₂ ⊢
        rw [hsame₂, hs₁']

omit [Ord K] [DecidableEq K] [PartialOrd V] in
/-- The loop that clears the pointers of the head. -/
theorem clearHead {n : Nat} (hn : n ≤ maxLevel)
    (hhead : ∃ h, s.boxes.get? s.head = some h ∧ h.forward.length = maxLevel) :
    ∃ s', (List.range n).foldlM (fun s i => s.setForward s.head i none) s = some s' ∧ SameBut s s' ∧
      (∃ h, s'.boxes.get? s.head = some h ∧ h.forward.length = maxLevel) ∧
      (∀ i < n, s'.next i s.head = some none) ∧
      ∀ p, s'.boxes.get? p ≠ none → s.boxes.get? p ≠ none := by
  induction n with
  | zero => exact ⟨s, rfl, .refl s, hhead, fun i hi => absurd hi (Nat.not_lt_zero i), fun _ hp => hp⟩
  | succ n ih =>
      obtain ⟨s₁, hs₁, hsame, ⟨hd, hhd, hlen⟩, hcleared, honly⟩ := ih (Nat.le_of_succ_le hn)
      have hhead₁ : s₁.head = s.head := by rw [hsame]
      have hs₂ := setForward_eq hhd (hlen ▸ Nat.lt_of_succ_le hn) none
      refine ⟨_, ?_, hsame.trans (sameBut_setForward hs₂), ⟨_, Map.get?_set_self .., ?_⟩, fun i hi => ?_,
        fun p hp => ?_⟩
      · rw [List.range_succ, List.foldlM_append, hs₁]
        simp only [Option.bind_eq_bind, Option.bind_some, List.foldlM_cons, List.foldlM_nil, hhead₁, hs₂]
        rfl
      · exact List.length_set.trans hlen
      · rw [next_setForward hs₂]
        split
        · rfl
        · next hne => exact hcleared i (by simp at hne; omega)
      · refine honly p ?_
        dsimp only at hp
        rw [Map.get?_set] at hp
        split at hp
        · next heq => rw [heq, hhd]; exact Option.some_ne_none _
        · exact hp

omit [Ord K] [DecidableEq K] [PartialOrd V] in
/-- Clearing gives the empty list. -/
theorem Tower.clear (h : Tower s cells) (base : Nat) :
    ∃ s', s.clear base = some s' ∧ Tower s' [] ∧ s'.keyIndex = ∅ ∧
      s'.memoryUsage = calculateNodeSize base maxLevel := by
  have hlink : Linked (s.next 0) s.head (addrs cells) := by
    have hl := h.wired.linked 0 (by decide)
    rwa [above_zero fun c hc => (h.levels c hc).1] at hl
  have hfuel : cells.length < s.fuel := by
    rw [fuel, h.length]
    exact Nat.lt_succ_self _
  obtain ⟨s₁, hs₁, hsame₁, hhead₁, honly₁⟩ :=
    freeAll_spec hfuel h.wired.head h.wired.nodup h.wired.only hlink
  have hsh : s₁.head = s.head := by rw [hsame₁]
  rw [← hsh] at hhead₁ honly₁
  obtain ⟨s₂, hs₂, hsame₂, hhead₂, hcleared, honly₂⟩ := clearHead (s := { s₁ with
    level := 0
    length := 0
    memoryUsage := calculateNodeSize base maxLevel
    keyIndex := ∅ }) (Nat.le_refl maxLevel) hhead₁
  have hh₂ : s₂.head = s₁.head := by rw [hsame₂]
  refine ⟨s₂, ?_, ⟨⟨List.forall_mem_nil _, hh₂ ▸ hhead₂, List.nodup_singleton _, fun p hp => ?_, fun p hp => ?_,
    fun i hi => ⟨trivial, hh₂ ▸ hcleared i hi⟩, fun i => List.Sublist.refl _⟩, ?_, ?_, List.forall_mem_nil _⟩, ?_, ?_⟩
  · rw [SkipListInner.clear, hs₁]
    exact hs₂
  · rw [hh₂, honly₁ p (honly₂ p hp)]
    exact List.mem_cons_self
  · rw [List.mem_singleton.mp hp, hh₂, hsh, hsame₂, hsame₁]
    exact h.wired.fresh _ List.mem_cons_self
  · rw [hsame₂]
    rfl
  · rw [hsame₂]
    exact Nat.succ_pos 31
  · rw [hsame₂]
  · rw [hsame₂]

end Changes

/-! ## Queries -/

/-- What a node holds. -/
def item (c : Cell K V) : K × V := (c.key, c.value)

/-- Level 0 from a node on: the nodes behind it, all of them boxed. -/
structure Rest (s : SkipListInner K V) (p : Nat) (rest : List (Cell K V)) : Prop where
  linked : Linked (s.next 0) p (addrs rest)
  boxed : ∀ c ∈ rest, ∃ fw, s.boxes.get? c.addr = some ⟨c.key, c.value, fw⟩

theorem Rest.tail {p : Nat} {c : Cell K V} {rest : List (Cell K V)} (h : Rest s p (c :: rest)) :
    s.next 0 p = some (some c.addr) ∧ Rest s c.addr rest := by
  obtain ⟨hnext, hlink⟩ := linked_cons.mp h.linked
  exact ⟨hnext, hlink, fun d hd => h.boxed d (List.mem_cons_of_mem c hd)⟩

theorem Rest.end_eq {p : Nat} (h : Rest s p []) : s.next 0 p = some none := h.linked.next_eq

/-- From the head on, level 0 has every node. -/
theorem Tower.rest (h : Tower s cells) : Rest s s.head cells where
  linked := by
    have hl := h.wired.linked 0 (by decide)
    rwa [above_zero fun c hc => (h.levels c hc).1] at hl
  boxed := fun c hc => by
    obtain ⟨fw, hfw, -⟩ := h.wired.boxed c hc
    exact ⟨fw, hfw⟩

/-- Behind the first nodes are the others. -/
theorem Rest.drop {p : Nat} (h : Rest s p (as ++ bs)) : Rest s ((addrs as).getLastD p) bs where
  linked := by
    have hl := h.linked
    rw [addrs_append] at hl
    exact (linked_append.mp hl).2
  boxed := fun c hc => h.boxed c (List.mem_append_right _ hc)

theorem Rest.collect {more : Nat → SkipListNode K V → Bool} {p rank fuel : Nat} (h : Rest s p (as ++ bs))
    (has : ∀ i c, as[i]? = some c → ∀ fw, more (rank + i) ⟨c.key, c.value, fw⟩ = true)
    (hbs : ∀ c, bs.head? = some c → ∀ fw, more (rank + as.length) ⟨c.key, c.value, fw⟩ = false)
    (hfuel : as.length < fuel) : s.collect more fuel p rank = some (as.map item) := by
  induction as generalizing p rank fuel with
  | nil =>
      obtain ⟨fuel, rfl⟩ := Nat.exists_eq_succ_of_ne_zero (Nat.ne_of_gt hfuel)
      rw [SkipListInner.collect]
      cases bs with
      | nil =>
          rw [h.end_eq]
          rfl
      | cons b bs =>
          obtain ⟨fw, hfw⟩ := h.boxed b List.mem_cons_self
          rw [h.tail.1]
          have hstop := hbs b rfl fw
          simp only [List.length_nil, Nat.add_zero] at hstop
          simp [hfw, hstop]
  | cons c as ih =>
      obtain ⟨fuel, rfl⟩ := Nat.exists_eq_succ_of_ne_zero (Nat.ne_of_gt (Nat.zero_lt_of_lt hfuel))
      obtain ⟨hnext, hrest⟩ := h.tail
      obtain ⟨fw, hfw⟩ := h.boxed c List.mem_cons_self
      have hgo := has 0 c rfl fw
      rw [Nat.add_zero] at hgo
      have hih : s.collect more fuel c.addr (rank + 1) = some (as.map item) := by
        refine ih hrest (fun i d hd fw => ?_) (fun d hd fw => ?_) (Nat.lt_of_succ_lt_succ hfuel)
        · have hmore := has (i + 1) d hd fw
          rwa [Nat.add_assoc, Nat.add_comm 1 i]
        · have hstop := hbs d hd fw
          rwa [Nat.add_assoc, Nat.add_comm 1]
      rw [SkipListInner.collect, hnext]
      simp only [Option.bind_eq_bind, Option.bind_some, hfw, hgo, if_true, hih]
      rfl

/-- The full listing. -/
theorem Tower.getAllItems (h : Tower s cells) : s.getAllItems = some (cells.map item) := by
  have hrest := h.rest
  rw [← List.append_nil cells] at hrest
  exact hrest.collect (fun _ _ _ _ => rfl) nofun (by rw [fuel, h.length]; exact Nat.lt_succ_self _)

theorem Rest.skipRanks {p rank n : Nat} (h : Rest s p cells) (hn : n ≤ cells.length) :
    s.skipRanks n p rank = some ((addrs (cells.take n)).getLastD p, rank + n) := by
  induction n generalizing p rank cells with
  | zero => rfl
  | succ n ih =>
      cases cells with
      | nil => cases hn
      | cons c cells =>
          obtain ⟨hnext, hrest⟩ := h.tail
          rw [SkipListInner.skipRanks, hnext, List.take_succ_cons, addrs_cons, List.getLastD_cons]
          refine (ih hrest (Nat.le_of_succ_le_succ hn)).trans ?_
          rw [Nat.add_assoc, Nat.add_comm 1 n]

/-- The elements at the ranks of a closed interval. -/
theorem Tower.rangeByRank (h : Tower s cells) (startRank endRank : Nat) :
    s.rangeByRank startRank endRank =
      some (((cells.map item).drop startRank).take (endRank + 1 - startRank)) := by
  unfold SkipListInner.rangeByRank
  rw [h.length]
  split
  · next hle =>
      rw [List.drop_eq_nil_of_le (by rwa [List.length_map]), List.take_nil]
  · next hlt =>
      have hrest := h.rest
      rw [hrest.skipRanks (Nat.le_of_not_le hlt)]
      rw [← List.take_append_drop startRank cells] at hrest
      have hdrop := hrest.drop
      have hlen : (cells.drop startRank).length = cells.length - startRank := List.length_drop
      rw [← List.take_append_drop (endRank + 1 - startRank) (cells.drop startRank)] at hdrop
      simp only [Option.bind_eq_bind, Option.bind_some, Nat.zero_add]
      rw [← List.map_drop, ← List.map_take]
      refine hdrop.collect (fun i c hc fw => ?_) (fun c hc fw => ?_) ?_
      · obtain ⟨hi, -⟩ := List.getElem?_eq_some_iff.mp hc
        rw [List.length_take] at hi
        simp only [Bool.and_eq_true, decide_eq_true_eq]
        omega
      · rw [List.head?_drop] at hc
        obtain ⟨hi, -⟩ := List.getElem?_eq_some_iff.mp hc
        rw [List.length_take]
        simp only [Bool.and_eq_false_iff, decide_eq_false_iff_not]
        omega
      · have hle := List.length_take_le (endRank + 1 - startRank) (cells.drop startRank)
        have hle' : ((cells.drop startRank).take (endRank + 1 - startRank)).length ≤ cells.length := by
          rw [List.length_take]
          omega
        rw [fuel, h.length]
        omega

theorem Rest.itemFrom {p rank traversed fuel : Nat} (h : Rest s p cells) (hle : traversed ≤ rank)
    (hfuel : cells.length < fuel) :
    s.itemFrom rank fuel p traversed = some ((cells[rank - traversed]?).map item) := by
  induction cells generalizing p traversed fuel with
  | nil =>
      obtain ⟨fuel, rfl⟩ := Nat.exists_eq_succ_of_ne_zero (Nat.ne_of_gt hfuel)
      rw [SkipListInner.itemFrom, h.end_eq]
      rfl
  | cons c cells ih =>
      obtain ⟨fuel, rfl⟩ := Nat.exists_eq_succ_of_ne_zero (Nat.ne_of_gt (Nat.zero_lt_of_lt hfuel))
      obtain ⟨hnext, hrest⟩ := h.tail
      obtain ⟨fw, hfw⟩ := h.boxed c List.mem_cons_self
      rw [SkipListInner.itemFrom, hnext]
      simp only [Option.bind_eq_bind, Option.bind_some]
      split
      · next heq =>
          rw [hfw, heq, Nat.sub_self]
          rfl
      · next hne =>
          have hsub : rank - traversed = rank - (traversed + 1) + 1 := by omega
          rw [ih hrest (by omega) (Nat.lt_of_succ_lt_succ hfuel), hsub, List.getElem?_cons_succ]

/-- The element at a rank. -/
theorem Tower.getByRank (h : Tower s cells) (rank : Nat) :
    s.getByRank rank = some ((cells.map item)[rank]?) := by
  unfold SkipListInner.getByRank
  rw [List.getElem?_map]
  split
  · next hle =>
      rw [h.length] at hle
      rw [List.getElem?_eq_none hle]
      rfl
  · rw [h.rest.itemFrom (Nat.zero_le rank) (by rw [fuel, h.length]; exact Nat.lt_succ_self _)]
    rfl

theorem Rest.addresses {i p fuel : Nat} {rest : List (Cell K V)} (h : Linked (s.next i) p (addrs rest))
    (hfuel : rest.length < fuel) : s.addresses i fuel p = some (addrs rest) := by
  induction rest generalizing p fuel with
  | nil =>
      obtain ⟨fuel, rfl⟩ := Nat.exists_eq_succ_of_ne_zero (Nat.ne_of_gt hfuel)
      rw [SkipListInner.addresses, h.next_eq]
      rfl
  | cons c rest ih =>
      obtain ⟨fuel, rfl⟩ := Nat.exists_eq_succ_of_ne_zero (Nat.ne_of_gt (Nat.zero_lt_of_lt hfuel))
      obtain ⟨hnext, hrest⟩ := linked_cons.mp h
      rw [SkipListInner.addresses, hnext]
      simp only [Option.bind_eq_bind, Option.bind_some, ih hrest (Nat.lt_of_succ_lt_succ hfuel)]
      rfl

/-- The addresses on a level are those of the nodes that reach above it. -/
theorem Tower.levelChain (h : Tower s cells) {i : Nat} (hi : i < maxLevel) :
    s.levelChain i = some (addrs (above cells i)) := by
  refine Rest.addresses (h.wired.linked i hi) ?_
  rw [fuel, h.length]
  exact Nat.lt_succ_of_le (above_sublist cells i).length_le

section Ordered

/-- Behind the prefix that passes a test nothing passes it, if the test is
closed towards the front of a sorted list. -/
theorem not_of_mem_dropWhile {α : Type} {r : α → α → Prop} {p : α → Bool} {l : List α}
    (hl : l.Pairwise r) (hp : ∀ a b, r a b → p b = true → p a = true) {c : α}
    (hc : c ∈ l.dropWhile p) : p c = false := by
  induction l with
  | nil => cases hc
  | cons a l ih =>
      obtain ⟨hle, hl⟩ := List.pairwise_cons.mp hl
      by_cases ha : p a = true
      · rw [List.dropWhile_cons_of_pos ha] at hc
        exact ih hl hc
      · rw [List.dropWhile_cons_of_neg ha] at hc
        rcases List.mem_cons.mp hc with rfl | hc
        · exact Bool.eq_false_iff.mpr ha
        · exact Bool.eq_false_iff.mpr fun hpc => ha (hp a c (hle c hc) hpc)

variable [Ord K] [DecidableEq K] [PartialOrd V]

omit [DecidableEq K] in
theorem Rest.rankFrom {p fuel : Nat} {score : V} {key : K} (h : Rest s p (as ++ bs)) (rank : Nat)
    (has : ∀ c ∈ as, compareNodes c.value c.key score key = .lt)
    (hbs : ∀ c ∈ bs, compareNodes c.value c.key score key ≠ .lt) (hfuel : as.length < fuel) :
    s.rankFrom score key fuel p rank =
      some (if bs.head?.any fun c => compareNodes c.value c.key score key = .eq
        then some (rank + as.length) else none) := by
  induction as generalizing p rank fuel with
  | nil =>
      obtain ⟨fuel, rfl⟩ := Nat.exists_eq_succ_of_ne_zero (Nat.ne_of_gt hfuel)
      rw [SkipListInner.rankFrom]
      cases bs with
      | nil =>
          rw [h.end_eq]
          rfl
      | cons b bs =>
          obtain ⟨fw, hfw⟩ := h.boxed b List.mem_cons_self
          rw [h.tail.1]
          have hnot := hbs b List.mem_cons_self
          simp only [Option.bind_eq_bind, Option.bind_some, hfw, List.head?_cons, Option.any_some]
          have hcases : ∀ o : Ordering, o ≠ .lt → o = .eq ∨ o = .gt := by decide
          rcases hcases _ hnot with hcmp | hcmp
          · simp [hcmp]
          · simp [hcmp]
  | cons c as ih =>
      obtain ⟨fuel, rfl⟩ := Nat.exists_eq_succ_of_ne_zero (Nat.ne_of_gt (Nat.zero_lt_of_lt hfuel))
      obtain ⟨hnext, hrest⟩ := h.tail
      obtain ⟨fw, hfw⟩ := h.boxed c List.mem_cons_self
      have hlt := has c List.mem_cons_self
      rw [SkipListInner.rankFrom, hnext]
      simp only [Option.bind_eq_bind, Option.bind_some, hfw, hlt]
      rw [ih hrest (rank + 1) (fun d hd => has d (List.mem_cons_of_mem c hd))
        (Nat.lt_of_succ_lt_succ hfuel), List.length_cons, Nat.add_assoc, Nat.add_comm 1]

omit [Ord K] [DecidableEq K] in
/-- The elements from the first that is not below the minimum, as long as they
are not above the maximum. -/
theorem Tower.rangeByScore {cs : List (Cell K V)} (h : Tower s (as ++ (bs ++ cs))) (minScore maxScore : V)
    (has : ∀ c ∈ as, ltScore c.value minScore = true)
    (hrest : ∀ c ∈ bs ++ cs, ltScore c.value minScore = false)
    (hbs : ∀ c ∈ bs, leScore c.value maxScore = true)
    (hcs : ∀ c, cs.head? = some c → leScore c.value maxScore = false) :
    s.rangeByScore minScore maxScore = some (bs.map item) := by
  have hsearch := h.search (fun n => ltScore n.value minScore) (fun c hc _ => has c hc)
    (fun c hc _ => hrest c hc)
  have hall : predecessor s.head as 0 = (addrs as).getLastD s.head := by
    rw [predecessor, above_zero fun c hc => (h.levels c (List.mem_append_left _ hc)).1]
  have hfirst : ((List.range (s.level + 1)).map (predecessor s.head as))[0]? =
      some ((addrs as).getLastD s.head) := by
    simp [hall]
  rw [SkipListInner.rangeByScore, hsearch]
  simp only [Option.bind_eq_bind, Option.bind_some, hfirst]
  refine h.rest.drop.collect (fun i c hc _ => ?_) (fun c hc _ => ?_) ?_
  · exact hbs c (List.mem_of_getElem? hc)
  · exact hcs c hc
  · have hlen := h.length
    simp only [List.length_append] at hlen
    rw [fuel]
    omega

end Ordered

end SkipListInner

end Ferrous
