/-
# `Storage.SkipWiring` — every level of a skip list is a chain

A level of the list is a singly linked chain of its own, because an assignment
to `forward[i]` is seen on level `i` alone.  `Wired` gives the nodes by address
and the chain of each level; searching, linking a node in and unlinking one are
stated against it, level by level.
-/
import Ferrous.Storage.SkipTower

namespace Ferrous

open Lib

/-- A node as the chains see it: where it is, what it holds, and how many
forward pointers it has. -/
structure Cell (K V : Type) where
  addr : Nat
  key : K
  value : V
  levels : Nat

namespace Cell

variable {K V : Type}

/-- The nodes that reach above level `i`. -/
def above (cells : List (Cell K V)) (i : Nat) : List (Cell K V) :=
  cells.filter fun c => decide (i < c.levels)

theorem above_append (as bs : List (Cell K V)) (i : Nat) :
    above (as ++ bs) i = above as i ++ above bs i :=
  List.filter_append ..

theorem above_sublist (cells : List (Cell K V)) (i : Nat) : (above cells i).Sublist cells :=
  List.filter_sublist

/-- Higher up there are fewer of them. -/
theorem above_succ_sublist (cells : List (Cell K V)) (i : Nat) :
    (above cells (i + 1)).Sublist (above cells i) := by
  have hsub : above cells (i + 1) = above (above cells i) (i + 1) := by
    rw [above, above, above, List.filter_filter]
    refine List.filter_congr fun c _ => ?_
    rw [← Bool.decide_and, decide_eq_decide]
    omega
  rw [hsub]
  exact above_sublist _ _

theorem above_eq_nil {cells : List (Cell K V)} {i : Nat} (h : ∀ c ∈ cells, c.levels ≤ i) :
    above cells i = [] :=
  List.filter_eq_nil_iff.mpr fun c hc => by simpa using h c hc

theorem above_zero {cells : List (Cell K V)} (h : ∀ c ∈ cells, 1 ≤ c.levels) :
    above cells 0 = cells :=
  List.filter_eq_self.mpr fun c hc => decide_eq_true (h c hc)

/-- The addresses of some nodes. -/
def addrs (cells : List (Cell K V)) : List Nat := cells.map (·.addr)

theorem addrs_append (as bs : List (Cell K V)) : addrs (as ++ bs) = addrs as ++ addrs bs :=
  List.map_append

theorem addrs_cons (c : Cell K V) (cs : List (Cell K V)) : addrs (c :: cs) = c.addr :: addrs cs := rfl

/-- The last node that reaches above level `i`, or the head. -/
def predecessor (head : Nat) (cells : List (Cell K V)) (i : Nat) : Nat :=
  (addrs (above cells i)).getLastD head

/-- The predecessor of the level above is on the way to that of this level. -/
theorem above_split (head : Nat) (cells : List (Cell K V)) (i : Nat) :
    ∃ as bs, above cells i = as ++ bs ∧ (addrs as).getLastD head = predecessor head cells (i + 1) := by
  rcases List.eq_nil_or_concat (above cells (i + 1)) with hnil | ⟨front, c, hc⟩
  · refine ⟨[], above cells i, rfl, ?_⟩
    rw [predecessor, hnil]
  · rw [List.concat_eq_append] at hc
    have hmem : c ∈ above cells i := by
      refine (above_succ_sublist cells i).subset ?_
      rw [hc]
      exact List.mem_append_right _ (List.mem_singleton_self c)
    obtain ⟨as, bs, hsplit⟩ := List.append_of_mem hmem
    refine ⟨as ++ [c], bs, by rw [hsplit, List.append_assoc]; rfl, ?_⟩
    rw [predecessor, hc, addrs_append, addrs_append, getLastD_append, getLastD_append]
    rfl

end Cell

namespace SkipListInner

open Cell

variable {K V : Type}

/-- The head and the given nodes are boxed at different addresses, and nothing
else is; level `i` links the nodes of `chain i`, which are some of them, in
their order. -/
structure Wired (s : SkipListInner K V) (cells : List (Cell K V)) (chain : Nat → List (Cell K V)) :
    Prop where
  boxed : ∀ c ∈ cells, ∃ fw, s.boxes.get? c.addr = some ⟨c.key, c.value, fw⟩ ∧ fw.length = c.levels
  head : ∃ h, s.boxes.get? s.head = some h ∧ h.forward.length = maxLevel
  nodup : (s.head :: addrs cells).Nodup
  only : ∀ p, s.boxes.get? p ≠ none → p ∈ s.head :: addrs cells
  fresh : ∀ p ∈ s.head :: addrs cells, p < s.fresh
  linked : ∀ i < maxLevel, Linked (s.next i) s.head (addrs (chain i))
  sub : ∀ i, (chain i).Sublist cells

variable {s s' : SkipListInner K V} {cells : List (Cell K V)} {chain : Nat → List (Cell K V)}

theorem Wired.nodup_chain (h : Wired s cells chain) (i : Nat) :
    (s.head :: addrs (chain i)).Nodup :=
  h.nodup.sublist (((h.sub i).map _).cons_cons _)

/-- An assignment to a forward pointer changes that pointer alone. -/
theorem setForward_eq {p i : Nat} {n : SkipListNode K V} (hn : s.boxes.get? p = some n)
    (hi : i < n.forward.length) (q : Option Nat) :
    s.setForward p i q =
      some { s with boxes := s.boxes.set p { n with forward := n.forward.set i q } } := by
  rw [setForward, hn]
  simp [hi]

theorem next_setForward {p i : Nat} {q : Option Nat} (hs' : s.setForward p i q = some s')
    (k r : Nat) : s'.next k r = if r = p ∧ k = i then some q else s.next k r := by
  unfold setForward at hs'
  obtain ⟨n, hn, hs'⟩ := Option.bind_eq_some_iff.mp hs'
  split at hs'
  · next hi =>
      cases hs'
      unfold next
      dsimp only
      rw [Map.get?_set]
      by_cases hr : r = p
      · subst hr
        simp only [if_true, true_and, hn, Option.bind_eq_bind, Option.bind_some, List.getElem?_set]
        by_cases hk : k = i
        · subst hk
          simp [hi]
        · simp [hk, Ne.symm hk]
      · simp [hr]
  · cases hs'

/-- The boxes keep their places, keys, values and numbers of pointers. -/
theorem Wired.relink (h : Wired s cells chain) {p i : Nat} {q : Option Nat}
    (hs' : s.setForward p i q = some s') {l : List (Cell K V)} (hsub : l.Sublist cells)
    (hl : i < maxLevel → Linked (s'.next i) s.head (addrs l)) :
    Wired s' cells (Function.update chain i l) := by
  have hnext := next_setForward hs'
  unfold setForward at hs'
  obtain ⟨n, hn, hs'⟩ := Option.bind_eq_some_iff.mp hs'
  split at hs'
  · cases hs'
    have hshape : ∀ r m, s.boxes.get? r = some m → ∃ fw,
        (s.boxes.set p { n with forward := n.forward.set i q }).get? r =
          some { m with forward := fw } ∧ fw.length = m.forward.length := by
      intro r m hm
      rw [Map.get?_set]
      split
      · next hr =>
          subst hr
          obtain rfl : n = m := Option.some.inj (hn.symm.trans hm)
          exact ⟨_, rfl, List.length_set⟩
      · exact ⟨_, hm, rfl⟩
    refine ⟨fun c hc => ?_, ?_, h.nodup, fun r hr => ?_, h.fresh, fun k hk => ?_, fun k => ?_⟩
    · obtain ⟨fw, hfw, hlen⟩ := h.boxed c hc
      obtain ⟨fw', hfw', hlen'⟩ := hshape _ _ hfw
      exact ⟨fw', hfw', hlen'.trans hlen⟩
    · obtain ⟨hd, hhd, hlen⟩ := h.head
      obtain ⟨fw', hfw', hlen'⟩ := hshape _ _ hhd
      exact ⟨_, hfw', hlen'.trans hlen⟩
    · refine h.only r ?_
      dsimp only at hr
      rw [Map.get?_set] at hr
      split at hr
      · next hrp => rw [hrp, hn]; exact Option.some_ne_none _
      · exact hr
    · rw [Function.update_apply]
      split
      · next hki =>
          subst hki
          exact hl hk
      · next hki =>
          refine (h.linked k hk).congr fun r _ => ?_
          rw [hnext]
          simp [hki]
    · rw [Function.update_apply]
      split
      · exact hsub
      · exact h.sub k
  · cases hs'

/-! ## Searching -/

/-- Going along a level stops at the last node that passes the test. -/
theorem Wired.skip {before : SkipListNode K V → Bool} (h : Wired s cells chain) {i p : Nat}
    (hlen : cells.length = s.length) (hi : i < maxLevel) {front as bs : List (Cell K V)}
    (hchain : chain i = front ++ (as ++ bs)) (hp : p = (addrs front).getLastD s.head)
    (has : ∀ c ∈ as, ∀ fw, before ⟨c.key, c.value, fw⟩ = true)
    (hbs : ∀ c ∈ bs, ∀ fw, before ⟨c.key, c.value, fw⟩ = false) :
    s.skip before i p = some ((addrs as).getLastD p) := by
  have hl := h.linked i hi
  rw [hchain, addrs_append, addrs_append] at hl
  have hrest := (linked_append.mp hl).2
  rw [← hp] at hrest
  have htest : ∀ b, ∀ cs : List (Cell K V), (∀ c ∈ cs, c ∈ chain i) →
      (∀ c ∈ cs, ∀ fw, before ⟨c.key, c.value, fw⟩ = b) →
      ∀ q ∈ addrs cs, (s.boxes.get? q).map before = some b := by
    intro b cs hin hb q hq
    obtain ⟨c, hc, rfl⟩ := List.mem_map.mp hq
    obtain ⟨fw, hfw, -⟩ := h.boxed c ((h.sub i).subset (hin c hc))
    rw [hfw, Option.map_some, hb c hc]
  refine hrest.advance (htest true as ?_ has) (htest false bs ?_ hbs) ?_
  · intro c hc
    rw [hchain]
    simp [hc]
  · intro c hc
    rw [hchain]
    simp [hc]
  · have hle := (h.sub i).length_le
    rw [hchain] at hle
    simp only [List.length_append] at hle
    rw [fuel, addrs, List.length_map]
    omega

/-- The search finds, on each level, the last node that passes the test. -/
theorem Wired.search {before : SkipListNode K V → Bool} {as bs : List (Cell K V)}
    (h : Wired s (as ++ bs) (above (as ++ bs))) (hlen : (as ++ bs).length = s.length)
    (has : ∀ c ∈ as, ∀ fw, before ⟨c.key, c.value, fw⟩ = true)
    (hbs : ∀ c ∈ bs, ∀ fw, before ⟨c.key, c.value, fw⟩ = false) {n : Nat} (hn : n ≤ maxLevel) :
    s.search before n (predecessor s.head as n) =
      some ((List.range n).map (predecessor s.head as)) := by
  induction n with
  | zero => rfl
  | succ i ih =>
      obtain ⟨front, rest, hsplit, hfront⟩ := above_split s.head as i
      have hstep : s.skip before i (predecessor s.head as (i + 1)) =
          some (predecessor s.head as i) := by
        have hchain : above (as ++ bs) i = front ++ (rest ++ above bs i) := by
          rw [above_append, hsplit, List.append_assoc]
        rw [h.skip hlen hn hchain hfront.symm (fun c hc => has c ?_) (fun c hc => hbs c ?_),
          ← hfront, predecessor, hsplit, addrs_append, getLastD_append]
        · refine (above_sublist as i).subset ?_
          rw [hsplit]
          exact List.mem_append_right _ hc
        · exact (above_sublist bs i).subset hc
      rw [SkipListInner.search, hstep, List.range_succ, List.map_append]
      simp only [Option.bind_eq_bind, Option.bind_some, ih (Nat.le_of_succ_le hn)]
      rfl

/-! ## Linking and unlinking -/

/-- Only the boxes differ. -/
def SameBut (s s' : SkipListInner K V) : Prop := s' = { s with boxes := s'.boxes }

theorem SameBut.refl (s : SkipListInner K V) : SameBut s s := rfl

theorem SameBut.trans {s₁ s₂ s₃ : SkipListInner K V} (h : SameBut s₁ s₂) (h' : SameBut s₂ s₃) :
    SameBut s₁ s₃ := by
  unfold SameBut at h h' ⊢
  rw [h'] at ⊢
  rw [h]

theorem sameBut_setForward {p i : Nat} {q : Option Nat} (hs' : s.setForward p i q = some s') :
    SameBut s s' := by
  unfold setForward at hs'
  obtain ⟨n, hn, hs'⟩ := Option.bind_eq_some_iff.mp hs'
  split at hs'
  · cases hs'
    rfl
  · cases hs'

/-- The predecessor on a level has a pointer there. -/
theorem Wired.setForward_predecessor (h : Wired s cells chain) {as : List (Cell K V)} {i : Nat}
    (has : as.Sublist cells) (htall : ∀ d ∈ as, i < d.levels) (hi : i < maxLevel) (q : Option Nat) :
    ∃ s', s.setForward ((addrs as).getLastD s.head) i q = some s' := by
  rcases List.mem_cons.mp (getLastD_mem (addrs as) s.head) with hu | hu
  · obtain ⟨hd, hhd, hlen⟩ := h.head
    rw [hu]
    exact ⟨_, setForward_eq hhd (hlen ▸ hi) q⟩
  · obtain ⟨d, hd, hda⟩ := List.mem_map.mp hu
    obtain ⟨fw, hfw, hlen⟩ := h.boxed d (has.subset hd)
    rw [← hda]
    exact ⟨_, setForward_eq hfw (hlen ▸ htall d hd) q⟩

/-- A node of the list that is not on a level yet is linked in there. -/
theorem Wired.linkAt (h : Wired s cells chain) {c : Cell K V} {i : Nat} (hi : i < c.levels)
    (hmax : i < maxLevel) {as bs : List (Cell K V)} (hchain : chain i = as ++ bs)
    (htall : ∀ d ∈ as, i < d.levels) (hsub : (as ++ c :: bs).Sublist cells) {update : List Nat}
    (hu : update[i]? = some ((addrs as).getLastD s.head)) :
    ∃ s', linkAt update c.addr s i = some s' ∧ SameBut s s' ∧
      Wired s' cells (Function.update chain i (as ++ c :: bs)) := by
  have hc : c ∈ cells := hsub.subset (List.mem_append_right _ List.mem_cons_self)
  obtain ⟨fw, hfw, hlen⟩ := h.boxed c hc
  have hl := h.linked i hmax
  rw [hchain, addrs_append] at hl
  have hnodup := h.nodup_chain i
  rw [hchain, addrs_append] at hnodup
  have hnew : c.addr ∉ s.head :: (addrs as ++ addrs bs) := by
    have hall : (s.head :: (addrs as ++ c.addr :: addrs bs)).Nodup := by
      have hs := h.nodup.sublist ((hsub.map Cell.addr).cons_cons s.head)
      rwa [List.map_append, List.map_cons] at hs
    rw [← List.cons_append] at hall ⊢
    exact (List.nodup_cons.mp (List.nodup_middle.mp hall)).1
  have hnext := (linked_append.mp hl).2.next_eq
  -- the new node points to where its predecessor points
  obtain ⟨s₁, hs₁⟩ : ∃ s₁, s.setForward c.addr i (addrs bs).head? = some s₁ :=
    ⟨_, setForward_eq hfw (hlen ▸ hi) _⟩
  have hnext₁ := next_setForward hs₁
  have hw₁ := h.relink hs₁ (h.sub i) fun _ => (h.linked i hmax).congr fun r hr => by
    rw [hnext₁, if_neg]
    rintro ⟨rfl, -⟩
    rw [hchain, addrs_append] at hr
    exact hnew hr
  rw [Function.update_eq_self] at hw₁
  have hhead : s₁.head = s.head := by rw [sameBut_setForward hs₁]
  -- and its predecessor to it
  have has : as.Sublist cells :=
    ((List.sublist_append_left as bs).trans (hchain ▸ h.sub i))
  obtain ⟨s₂, hs₂⟩ := hw₁.setForward_predecessor has htall hmax (some c.addr)
  rw [hhead] at hs₂
  have hnext₂ := next_setForward hs₂
  refine ⟨s₂, ?_, (sameBut_setForward hs₁).trans (sameBut_setForward hs₂), hw₁.relink hs₂ hsub ?_⟩
  · rw [SkipListInner.linkAt, hu]
    simp only [Option.bind_eq_bind, Option.bind_some, hnext, hs₁, hs₂]
  · intro _
    rw [hhead]
    have hne : c.addr ≠ (addrs as).getLastD s.head := by
      intro heq
      refine hnew ?_
      rw [heq, ← List.cons_append]
      exact List.mem_append_left _ (getLastD_mem _ _)
    rw [addrs_append, addrs_cons]
    refine hl.insert hnodup hnew ?_ ?_ ?_
    · rw [hnext₂, if_neg fun hand => hne hand.1, hnext₁, if_pos ⟨rfl, rfl⟩, hnext]
    · rw [hnext₂, if_pos ⟨rfl, rfl⟩]
    · intro q hq hq'
      rw [hnext₂, if_neg fun hand => hq' hand.1, hnext₁, if_neg fun hand => hq hand.1]

/-- The chains while a node is linked in from the bottom: done below level `n`. -/
def linkedBelow (as bs : List (Cell K V)) (c : Cell K V) (n i : Nat) : List (Cell K V) :=
  if i < n then above as i ++ c :: above bs i else above as i ++ above bs i

/-- The loop that links a node in on its levels. -/
theorem Wired.linkAll {as bs : List (Cell K V)} {c : Cell K V} {update : List Nat} {n : Nat}
    (h : Wired s (as ++ c :: bs) (linkedBelow as bs c 0)) (hn : n ≤ c.levels) (hmax : n ≤ maxLevel)
    (hu : ∀ i < n, update[i]? = some (predecessor s.head as i)) :
    ∃ s', (List.range n).foldlM (SkipListInner.linkAt update c.addr) s = some s' ∧ SameBut s s' ∧
      Wired s' (as ++ c :: bs) (linkedBelow as bs c n) := by
  induction n with
  | zero => exact ⟨s, rfl, .refl s, h⟩
  | succ n ih =>
      obtain ⟨s₁, hs₁, hsame, hw₁⟩ := ih (Nat.le_of_succ_le hn) (Nat.le_of_succ_le hmax)
        fun i hi => hu i (Nat.lt_succ_of_lt hi)
      have hhead : s₁.head = s.head := by rw [hsame]
      have hchain : linkedBelow as bs c n n = above as n ++ above bs n := by
        rw [linkedBelow, if_neg (Nat.lt_irrefl n)]
      have hsub : (above as n ++ c :: above bs n).Sublist (as ++ c :: bs) :=
        (above_sublist as n).append ((above_sublist bs n).cons_cons c)
      have hun : update[n]? = some ((addrs (above as n)).getLastD s₁.head) := by
        rw [hhead]
        exact hu n (Nat.lt_succ_self n)
      obtain ⟨s₂, hs₂, hsame₂, hw₂⟩ := hw₁.linkAt (Nat.lt_of_succ_le hn) (Nat.lt_of_succ_le hmax) hchain
        (fun d hd => of_decide_eq_true (List.mem_filter.mp hd).2) hsub hun
      have hstep : Function.update (linkedBelow as bs c n) n (above as n ++ c :: above bs n) =
          linkedBelow as bs c (n + 1) := by
        funext i
        rw [Function.update_apply, linkedBelow, linkedBelow]
        by_cases hi : i = n
        · subst hi
          simp
        · rw [if_neg hi]
          by_cases hlt : i < n
          · rw [if_pos hlt, if_pos (Nat.lt_succ_of_lt hlt)]
          · rw [if_neg hlt, if_neg (by omega)]
      refine ⟨s₂, ?_, hsame.trans hsame₂, hstep ▸ hw₂⟩
      rw [List.range_succ, List.foldlM_append, hs₁]
      simp [hs₂]

/-- The chains while a node is unlinked from the bottom: done below level `i`. -/
def unlinkedBelow (as bs : List (Cell K V)) (t : Cell K V) (i k : Nat) : List (Cell K V) :=
  above (if k < i then as ++ bs else as ++ t :: bs) k

/-- The loop that unlinks a node: from level `i` on it is still linked. -/
theorem Wired.unlink {as bs : List (Cell K V)} {t : Cell K V} {update : List Nat} {n i : Nat}
    (h : Wired s (as ++ t :: bs) (unlinkedBelow as bs t i))
    (htop : t.levels ≤ i + n) (hmax : i + n ≤ maxLevel)
    (hu : ∀ k < i + n, update[k]? = some (predecessor s.head as k)) :
    ∃ s', unlink update t.addr n i s = some s' ∧ SameBut s s' ∧
      Wired s' (as ++ t :: bs) (above (as ++ bs)) := by
  -- above the node's own height the chains with and without it are the same
  have hhigh : ∀ k, t.levels ≤ k → above (as ++ t :: bs) k = above (as ++ bs) k := by
    intro k hk
    have ht : above (t :: bs) k = above bs k :=
      List.filter_cons_of_neg (by simpa using hk)
    rw [above_append, above_append, ht]
  have hdone : ∀ j, t.levels ≤ j → unlinkedBelow as bs t j = above (as ++ bs) := by
    intro j hj
    funext k
    unfold unlinkedBelow
    split
    · rfl
    · exact hhigh k (by omega)
  induction n generalizing i s with
  | zero =>
      refine ⟨s, rfl, .refl s, ?_⟩
      rwa [hdone i htop] at h
  | succ n ih =>
      have hat : unlinkedBelow as bs t i i = above as i ++ above (t :: bs) i := by
        rw [unlinkedBelow, if_neg (Nat.lt_irrefl i), above_append]
      have hi : i < maxLevel := by omega
      have hl := h.linked i hi
      rw [hat, addrs_append] at hl
      have hrest := (linked_append.mp hl).2
      have hnext := hrest.next_eq
      have hui : update[i]? = some ((addrs (above as i)).getLastD s.head) := hu i (by omega)
      rw [SkipListInner.unlink, hui]
      simp only [Option.bind_eq_bind, Option.bind_some, hnext]
      by_cases hti : i < t.levels
      · have ht : above (t :: bs) i = t :: above bs i :=
          List.filter_cons_of_pos (by simpa using hti)
        rw [ht] at hl hrest hat ⊢
        have hafter : s.next i t.addr = some (addrs (above bs i)).head? :=
          (linked_cons.mp hrest).2.next_eq
        simp only [addrs_cons, List.head?_cons, if_true]
        have hsub : (above as i).Sublist (as ++ t :: bs) :=
          (above_sublist as i).trans (List.sublist_append_left _ _)
        obtain ⟨s₁, hs₁⟩ := h.setForward_predecessor hsub
          (fun d hd => of_decide_eq_true (List.mem_filter.mp hd).2) hi (addrs (above bs i)).head?
        have hsame := sameBut_setForward hs₁
        have hnext₁ := next_setForward hs₁
        have hhead : s₁.head = s.head := by rw [hsame]
        have hnodup := h.nodup_chain i
        rw [hat, addrs_append] at hnodup
        have hw₁ := h.relink hs₁ (l := above (as ++ bs) i)
          ((above_sublist _ i).trans ((List.sublist_cons_self t bs).append_left as)) ?_
        · have hstep : Function.update (unlinkedBelow as bs t i) i (above (as ++ bs) i) =
              unlinkedBelow as bs t (i + 1) := by
            funext k
            rw [Function.update_apply, unlinkedBelow, unlinkedBelow]
            by_cases hk : k = i
            · subst hk
              simp
            · rw [if_neg hk]
              by_cases hlt : k < i
              · rw [if_pos hlt, if_pos (by omega)]
              · rw [if_neg hlt, if_neg (by omega)]
          rw [hstep] at hw₁
          obtain ⟨s₂, hs₂, hsame₂, hw₂⟩ := ih hw₁ (by omega) (by omega) fun k hk => by
            rw [hhead]
            exact hu k (by omega)
          refine ⟨s₂, ?_, hsame.trans hsame₂, hw₂⟩
          simp only [hafter, Option.bind_some, hs₁, hs₂]
        · intro _
          rw [above_append, addrs_append]
          refine hl.unlink hnodup ?_ fun q hq hq' => ?_
          · rw [hnext₁, if_pos ⟨rfl, rfl⟩, hafter]
          · rw [hnext₁, if_neg fun hand => hq' hand.1]
      · have ht : above (t :: bs) i = above bs i :=
          List.filter_cons_of_neg (by simpa using hti)
        have hle : t.levels ≤ i := Nat.le_of_not_lt hti
        rw [ht]
        cases hq : (addrs (above bs i)).head? with
        | none =>
            refine ih ?_ (by omega) (by omega) fun k hk => hu k (by omega)
            rw [hdone i hle] at h
            rwa [hdone (i + 1) (by omega)]
        | some q =>
            have hmem : q ∈ addrs bs := by
              have hq' := List.mem_of_mem_head? hq
              exact ((above_sublist bs i).map _).subset hq'
            have hne : q ≠ t.addr := by
              rintro rfl
              have hn := (List.nodup_cons.mp h.nodup).2
              rw [addrs_append] at hn
              exact (List.nodup_cons.mp (List.nodup_append.mp hn).2.1).1 hmem
            simp only [if_neg hne]
            refine ⟨s, rfl, .refl s, ?_⟩
            rwa [hdone i hle] at h

/-- The level is lowered to where the head still points. -/
theorem Wired.lowerLevel {left : List (Cell K V)} (h : Wired s cells (above left)) {l : Nat}
    (hl : l < maxLevel) (hlow : ∀ c ∈ left, c.levels ≤ l + 1) :
    ∃ l', s.lowerLevel l = some l' ∧ l' ≤ l ∧ ∀ c ∈ left, c.levels ≤ l' + 1 := by
  induction l with
  | zero => exact ⟨0, rfl, Nat.le_refl 0, hlow⟩
  | succ l ih =>
      have hnext := (h.linked (l + 1) hl).next_eq
      rw [SkipListInner.lowerLevel, hnext]
      cases hq : (addrs (above left (l + 1))).head? with
      | some q => exact ⟨l + 1, rfl, Nat.le_refl _, hlow⟩
      | none =>
          have hempty : above left (l + 1) = [] := by
            rwa [List.head?_eq_none_iff, addrs, List.map_eq_nil_iff] at hq
          obtain ⟨l', hl', hle, hlow'⟩ := ih (by omega) fun c hc => by
            have hnot := List.filter_eq_nil_iff.mp hempty c hc
            simpa using hnot
          exact ⟨l', hl', Nat.le_succ_of_le hle, hlow'⟩

/-- Free a node that no chain has. -/
theorem Wired.free {as bs : List (Cell K V)} {t : Cell K V} {chain : Nat → List (Cell K V)}
    (h : Wired s (as ++ t :: bs) chain) (hsub : ∀ i, (chain i).Sublist (as ++ bs)) :
    Wired { s with boxes := s.boxes.del t.addr } (as ++ bs) chain := by
  have hn := h.nodup
  rw [addrs_append, ← List.cons_append] at hn
  have hnot : t.addr ∉ s.head :: addrs (as ++ bs) := by
    rw [addrs_append, ← List.cons_append]
    exact (List.nodup_cons.mp (List.nodup_middle.mp hn)).1
  have hkeep : ∀ p, p ∈ s.head :: addrs (as ++ bs) → (s.boxes.del t.addr).get? p = s.boxes.get? p := by
    intro p hp
    refine Map.get?_del_ne _ ?_
    rintro rfl
    exact hnot hp
  have hmem : ∀ c ∈ as ++ bs, c.addr ∈ s.head :: addrs (as ++ bs) :=
    fun c hc => List.mem_cons_of_mem _ (List.mem_map_of_mem hc)
  have hle : (as ++ bs).Sublist (as ++ t :: bs) := (List.sublist_cons_self t bs).append_left as
  refine ⟨fun c hc => ?_, ?_, h.nodup.sublist ((hle.map _).cons_cons _), fun p hp => ?_, fun p hp => ?_,
    fun i hi => ?_, hsub⟩
  · rw [hkeep _ (hmem c hc)]
    exact h.boxed c (hle.subset hc)
  · rw [hkeep _ List.mem_cons_self]
    exact h.head
  · dsimp only at hp
    rw [Map.get?_del] at hp
    split at hp
    · exact absurd rfl hp
    · next hpt =>
        have hin := h.only p hp
        rw [addrs_append, ← List.cons_append] at hin ⊢
        rcases List.mem_append.mp hin with hin | hin
        · exact List.mem_append_left _ hin
        · rcases List.mem_cons.mp hin with rfl | hin
          · exact absurd rfl hpt
          · exact List.mem_append_right _ hin
  · refine h.fresh p ?_
    rcases List.mem_cons.mp hp with rfl | hp
    · exact List.mem_cons_self
    · exact List.mem_cons_of_mem _ ((hle.map _).subset hp)
  · refine (h.linked i hi).congr fun p hp => ?_
    have hin : p ∈ s.head :: addrs (as ++ bs) := by
      rcases List.mem_cons.mp hp with rfl | hp
      · exact List.mem_cons_self
      · exact List.mem_cons_of_mem _ (((hsub i).map _).subset hp)
    rw [next, next, hkeep p hin]

end SkipListInner

end Ferrous
