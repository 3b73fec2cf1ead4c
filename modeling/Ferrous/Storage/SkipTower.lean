/-
# `Storage.SkipTower` — the skip list as it lies in memory

Nodes are boxes at addresses, each with a vector of forward pointers; the head
is a box of its own with the full number of them.  An operation follows the
pointers as the source does.  `none` is a pointer to a box that is not there, an
index past the end of a forward vector, or a walk longer than the list.  Keys
and scores are any types with the comparisons the source asks for.
-/
import Ferrous.Lib.Linked
import Ferrous.Storage.SkipList

namespace Ferrous

open Lib

/-- `PartialOrd`: the operators on scores are those of `partial_cmp`. -/
class PartialOrd (V : Type) where
  partialCmp : V → V → Option Ordering

export PartialOrd (partialCmp)

/-- `SkipListNode`. -/
structure SkipListNode (K V : Type) where
  key : K
  value : V
  forward : List (Option Nat)

/-- `SkipListInner`: the boxes in use, the address of the next one, and the
fields of the source. -/
structure SkipListInner (K V : Type) where
  boxes : Map Nat (SkipListNode K V)
  fresh : Nat
  head : Nat
  level : Nat
  length : Nat
  memoryUsage : Nat
  keyIndex : Map K V

namespace SkipListInner

variable {K V : Type}

export SkipChain (maxLevel)

/-! ## Comparisons -/

section Comparisons

variable [PartialOrd V]

/-- The operators `==`, `<` and `<=` of scores. -/
def eqScore (a b : V) : Bool := partialCmp a b == some .eq

@[inherit_doc eqScore]
def ltScore (a b : V) : Bool := partialCmp a b == some .lt

@[inherit_doc eqScore]
def leScore (a b : V) : Bool := partialCmp a b == some .lt || partialCmp a b == some .eq

/-- `is_nan`. -/
def isNan (v : V) : Bool := (partialCmp v v).isNone

/-- `compare_nodes` and `compare_with_query`. -/
def compareNodes [Ord K] (v₁ : V) (k₁ : K) (v₂ : V) (k₂ : K) : Ordering :=
  match partialCmp v₁ v₂ with
  | some .eq => compare k₁ k₂
  | some ord => ord
  | none =>
      if isNan v₁ && isNan v₂ then compare k₁ k₂
      else if isNan v₁ then .gt else .lt

end Comparisons

/-! ## Pointers -/

/-- `forward[i]` of the box at an address. -/
def next (s : SkipListInner K V) (i p : Nat) : Option (Option Nat) := do
  let n ← s.boxes.get? p
  n.forward[i]?

/-- Assign to `forward[i]` of the box at an address. -/
def setForward (s : SkipListInner K V) (p i : Nat) (q : Option Nat) : Option (SkipListInner K V) := do
  let n ← s.boxes.get? p
  if i < n.forward.length then
    some { s with boxes := s.boxes.set p { n with forward := n.forward.set i q } }
  else none

/-- A walk visits no more nodes than there are. -/
def fuel (s : SkipListInner K V) : Nat := s.length + 1

/-- Go along a level while the next node passes the test. -/
def skip (s : SkipListInner K V) (before : SkipListNode K V → Bool) (i p : Nat) : Option Nat :=
  advance (s.next i) (fun q => (s.boxes.get? q).map before) s.fuel p

/-- The loop over the levels below `n`, from the highest: the node reached on
each, that of level 0 first. -/
def search (s : SkipListInner K V) (before : SkipListNode K V → Bool) : Nat → Nat → Option (List Nat)
  | 0, _ => some []
  | i + 1, p => do
      let q ← s.skip before i p
      let below ← s.search before i q
      some (below ++ [q])

/-! ## Changes -/

section Changes

variable [Ord K] [DecidableEq K] [PartialOrd V]

/-- Whether a node comes before (score, key). -/
def isBefore (value : V) (key : K) (n : SkipListNode K V) : Bool :=
  compareNodes n.value n.key value key == .lt

/-- `calculate_node_size`; `base` is the size of a node itself. -/
def calculateNodeSize (base levels : Nat) : Nat := base + levels * 16

/-- `SkipList::new`; the key and the value of the head are never looked at. -/
def new (base : Nat) (key : K) (value : V) : SkipListInner K V where
  boxes := (∅ : Map Nat (SkipListNode K V)).set 0 ⟨key, value, List.replicate maxLevel none⟩
  fresh := 1
  head := 0
  level := 0
  length := 0
  memoryUsage := calculateNodeSize base maxLevel
  keyIndex := ∅

/-- Link the new node at `p` behind its predecessor on one level. -/
def linkAt (update : List Nat) (p : Nat) (s : SkipListInner K V) (i : Nat) :
    Option (SkipListInner K V) := do
  let u ← update[i]?
  let n ← s.next i u
  let s ← s.setForward p i n
  s.setForward u i (some p)

/-- `insert_new_node`; `newLevel` is the outcome of `random_level`. -/
def insertNewNode (base : Nat) (s : SkipListInner K V) (key : K) (value : V) (newLevel : Nat) :
    Option (SkipListInner K V) := do
  let update ← s.search (isBefore value key) (s.level + 1) s.head
  let update := update ++ List.replicate (newLevel - s.level) s.head
  let boxed : SkipListInner K V :=
    { s with
      level := max s.level newLevel
      boxes := s.boxes.set s.fresh ⟨key, value, List.replicate (newLevel + 1) none⟩
      fresh := s.fresh + 1 }
  let linked ← (List.range (newLevel + 1)).foldlM (linkAt update s.fresh) boxed
  some { linked with
    length := linked.length + 1
    memoryUsage := linked.memoryUsage + calculateNodeSize base (newLevel + 1) }

/-- The loop that unlinks the target from level `i` on, for `n` levels; it ends
at the first level on which another node follows. -/
def unlink (update : List Nat) (target : Nat) : Nat → Nat → SkipListInner K V →
    Option (SkipListInner K V)
  | 0, _, s => some s
  | n + 1, i, s => do
      let u ← update[i]?
      match ← s.next i u with
      | none => unlink update target n (i + 1) s
      | some q =>
          if q = target then do
            let after ← s.next i target
            let s ← s.setForward u i after
            unlink update target n (i + 1) s
          else some s

/-- The loop that lowers the level while the head points nowhere there. -/
def lowerLevel (s : SkipListInner K V) : Nat → Option Nat
  | 0 => some 0
  | l + 1 => do
      match ← s.next (l + 1) s.head with
      | none => s.lowerLevel l
      | some _ => some (l + 1)

/-- `remove_node_by_score`. -/
def removeNodeByScore (base : Nat) (s : SkipListInner K V) (key : K) (score : V) :
    Option (SkipListInner K V) := do
  let update ← s.search (isBefore score key) (s.level + 1) s.head
  let current ← update[0]?
  match ← s.next 0 current with
  | none => some s
  | some target => do
      let t ← s.boxes.get? target
      if t.key = key ∧ eqScore t.value score then do
        let unlinked ← unlink update target (s.level + 1) 0 s
        let level ← unlinked.lowerLevel unlinked.level
        some { unlinked with
          level := level
          boxes := unlinked.boxes.del target
          length := unlinked.length - 1
          memoryUsage := unlinked.memoryUsage - calculateNodeSize base t.forward.length }
      else some s

/-- `insert`: the old score of the key, if it had one. -/
def insert (base : Nat) (s : SkipListInner K V) (key : K) (value : V) (newLevel : Nat) :
    Option (Option V × SkipListInner K V) :=
  match s.keyIndex.get? key with
  | some old => do
      let s ← s.removeNodeByScore base key old
      let s ← { s with keyIndex := s.keyIndex.set key value }.insertNewNode base key value newLevel
      some (some old, s)
  | none => do
      let s ← { s with keyIndex := s.keyIndex.set key value }.insertNewNode base key value newLevel
      some (none, s)

/-- `remove`. -/
def remove (base : Nat) (s : SkipListInner K V) (key : K) : Option (Option V × SkipListInner K V) :=
  match s.keyIndex.get? key with
  | some score => do
      let s ← { s with keyIndex := s.keyIndex.del key }.removeNodeByScore base key score
      some (some score, s)
  | none => some (none, s)

/-- The loop of `clear` that frees the first node until there is none. -/
def freeAll : Nat → SkipListInner K V → Option (SkipListInner K V)
  | 0, _ => none
  | fuel + 1, s => do
      match ← s.next 0 s.head with
      | none => some s
      | some q => do
          let after ← s.next 0 q
          let s ← s.setForward s.head 0 after
          freeAll fuel { s with boxes := s.boxes.del q }

/-- `clear`. -/
def clear (base : Nat) (s : SkipListInner K V) : Option (SkipListInner K V) := do
  let freed ← freeAll s.fuel s
  let reset : SkipListInner K V :=
    { freed with
      level := 0
      length := 0
      memoryUsage := calculateNodeSize base maxLevel
      keyIndex := ∅ }
  (List.range maxLevel).foldlM (fun s i => s.setForward s.head i none) reset

end Changes

/-! ## Queries -/

section Queries

variable [Ord K] [DecidableEq K] [PartialOrd V]

/-- `get_score`. -/
def getScore (s : SkipListInner K V) (key : K) : Option V := s.keyIndex.get? key

/-- The loop of `get_rank`. -/
def rankFrom (s : SkipListInner K V) (score : V) (key : K) : Nat → Nat → Nat → Option (Option Nat)
  | 0, _, _ => none
  | fuel + 1, p, rank => do
      match ← s.next 0 p with
      | none => some none
      | some q => do
          let n ← s.boxes.get? q
          match compareNodes n.value n.key score key with
          | .lt => s.rankFrom score key fuel q (rank + 1)
          | .eq => some (some rank)
          | .gt => some none

/-- `get_rank`. -/
def getRank (s : SkipListInner K V) (key : K) : Option (Option Nat) :=
  match s.keyIndex.get? key with
  | none => some none
  | some score => s.rankFrom score key s.fuel s.head 0

/-- The loop of `get_by_rank`. -/
def itemFrom (s : SkipListInner K V) (rank : Nat) : Nat → Nat → Nat → Option (Option (K × V))
  | 0, _, _ => none
  | fuel + 1, p, traversed => do
      match ← s.next 0 p with
      | none => some none
      | some q =>
          if traversed = rank then do
            let n ← s.boxes.get? q
            some (some (n.key, n.value))
          else s.itemFrom rank fuel q (traversed + 1)

/-- `get_by_rank`. -/
def getByRank (s : SkipListInner K V) (rank : Nat) : Option (Option (K × V)) :=
  if s.length ≤ rank then some none else s.itemFrom rank s.fuel s.head 0

/-- The first loop of `range_by_rank`: a number of steps along level 0; the node
reached and its rank. -/
def skipRanks (s : SkipListInner K V) : Nat → Nat → Nat → Option (Nat × Nat)
  | 0, p, rank => some (p, rank)
  | n + 1, p, rank => do
      match ← s.next 0 p with
      | none => some (p, rank)
      | some q => s.skipRanks n q (rank + 1)

/-- Collect along level 0 while the test passes. -/
def collect (s : SkipListInner K V) (more : Nat → SkipListNode K V → Bool) :
    Nat → Nat → Nat → Option (List (K × V))
  | 0, _, _ => none
  | fuel + 1, p, rank => do
      match ← s.next 0 p with
      | none => some []
      | some q => do
          let n ← s.boxes.get? q
          if more rank n then do
            let rest ← s.collect more fuel q (rank + 1)
            some ((n.key, n.value) :: rest)
          else some []

/-- `range_by_rank`. -/
def rangeByRank (s : SkipListInner K V) (startRank endRank : Nat) : Option (List (K × V)) :=
  if s.length ≤ startRank then some []
  else do
    let (p, rank) ← s.skipRanks startRank s.head 0
    s.collect (fun rank _ => decide (rank ≤ endRank) && decide (rank < s.length)) s.fuel p rank

/-- `range_by_score`. -/
def rangeByScore (s : SkipListInner K V) (minScore maxScore : V) : Option (List (K × V)) := do
  let update ← s.search (fun n => ltScore n.value minScore) (s.level + 1) s.head
  let p ← update[0]?
  s.collect (fun _ n => leScore n.value maxScore) s.fuel p 0

/-- `get_all_items`. -/
def getAllItems (s : SkipListInner K V) : Option (List (K × V)) :=
  s.collect (fun _ _ => true) s.fuel s.head 0

/-- The addresses of a level. -/
def addresses (s : SkipListInner K V) (i : Nat) : Nat → Nat → Option (List Nat)
  | 0, _ => none
  | fuel + 1, p => do
      match ← s.next i p with
      | none => some []
      | some q => do
          let rest ← s.addresses i fuel q
          some (q :: rest)

/-- The nodes of a level, from the head. -/
def levelChain (s : SkipListInner K V) (i : Nat) : Option (List Nat) := s.addresses i s.fuel s.head

end Queries

end SkipListInner

end Ferrous
