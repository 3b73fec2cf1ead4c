/-
# `Storage.AbsenceKeys` — the operations on one key

For each operation, its step on the expired entry is compared with its step on
no entry.  Almost all are one of three shapes: a read that answers a default on
an absent key, a write that creates an absent key, and an operation that goes
through `get`.
-/
import Ferrous.Storage.Absence
import Mathlib.Data.List.Dedup

namespace Ferrous

open Lib

/-! ## Comparing two steps -/

section Quiet

variable {α : Type} {now : Instant} {sv : StoredValue}

/-- The step asks for no memory, is not an out-of-memory error itself, and
leaves nothing live where the expired entry was. -/
structure KeyStep.Quiet (now : Instant) (sv : StoredValue) (st : KeyStep α) : Prop where
  charge : st.charge = none
  memory : st.result ≠ .err (.storage .outOfMemory)
  dead : liveOf now (st.entry.leaves (some sv)) = none

namespace KeyStep

theorem quiet_answer (hx : sv.isExpired now = true) (a : α) : (answer a).Quiet now sv :=
  ⟨rfl, nofun, liveOf_self hx⟩

theorem quiet_fail (hx : sv.isExpired now = true) {err : FerrousError}
    (he : err ≠ .storage .outOfMemory) : (fail err : KeyStep α).Quiet now sv :=
  ⟨rfl, fun h => he (Outcome.err.inj h), liveOf_self hx⟩

theorem quiet_wrongType (hx : sv.isExpired now = true) : (wrongType : KeyStep α).Quiet now sv :=
  quiet_fail hx nofun

theorem quiet_panics (hx : sv.isExpired now = true) : (panics : KeyStep α).Quiet now sv :=
  ⟨rfl, nofun, liveOf_self hx⟩

theorem quiet_update (hx : sv.isExpired now = true) (v : Value) (a : α) :
    (update sv v a).Quiet now sv :=
  ⟨rfl, nofun, liveOf_expired hx v⟩

theorem quiet_shrink (hx : sv.isExpired now = true) (v : Value) (isEmpty marks : Bool) (a : α) :
    (shrink sv v isEmpty marks a).Quiet now sv := by
  refine ⟨rfl, nofun, ?_⟩
  cases isEmpty
  · exact liveOf_expired hx v
  · rfl

end KeyStep

theorem Engine.refuses_of_charge {e : Engine} {st : KeyStep α} (h : st.charge = none) :
    e.refuses st = false := by
  rw [Engine.refuses, h]

/-- Against an absent key that only answers, the answers decide. -/
theorem agree_answer {e : Engine} {st : KeyStep α} (h : st.Quiet now sv) (d : α) :
    e.Agree now sv st (.answer d) ↔ st.result = .ok d := by
  have hr := Engine.refuses_of_charge (e := e) h.charge
  have hd : e.refuses (.answer d : KeyStep α) = false := rfl
  simp only [Engine.Agree, Engine.answerOf, Engine.leftBy, hr, hd, Bool.false_eq_true, if_false,
    h.dead]
  exact ⟨fun hh => hh.1, fun hh => ⟨hh, rfl⟩⟩

/-- Against an absent key that is created, the live entries differ, or the
creation is refused. -/
theorem not_agree_create {e : Engine} {st : KeyStep α} (h : st.Quiet now sv) (charge : Option Nat)
    (v : Value) (a : α) : ¬ e.Agree now sv st { KeyStep.create v a with charge := charge } := by
  have hr := Engine.refuses_of_charge (e := e) h.charge
  simp only [Engine.Agree, Engine.answerOf, Engine.leftBy, hr, Bool.false_eq_true, if_false, h.dead]
  rintro ⟨hres, hlive⟩
  split at hlive
  · next hc =>
      rw [if_pos hc] at hres
      exact h.memory hres
  · cases hlive

end Quiet

/-! ## The typed accesses, as one -/

/-- Use a stored value of the type `proj` selects. -/
def typed {α X : Type} (proj : Value → Option X) (absent : KeyStep α)
    (f : StoredValue → X → KeyStep α) : Option StoredValue → KeyStep α
  | none => absent
  | some sv => match proj sv.value with
    | some x => f sv x
    | none => .wrongType

section Typed

variable {α X : Type} {absent : KeyStep α} {ctx : Ctx}

theorem onString_eq (f : StoredValue → Bytes → KeyStep α) :
    KeyOps.onString absent f ctx = typed Value.asString absent f := by
  funext entry
  rcases entry with _ | ⟨v, d⟩
  · rfl
  · cases v <;> rfl

theorem onList_eq (f : StoredValue → List Bytes → KeyStep α) :
    KeyOps.onList absent f ctx = typed Value.asList absent f := by
  funext entry
  rcases entry with _ | ⟨v, d⟩
  · rfl
  · cases v <;> rfl

theorem onSet_eq (f : StoredValue → FSet Bytes → KeyStep α) :
    KeyOps.onSet absent f ctx = typed Value.asSet absent f := by
  funext entry
  rcases entry with _ | ⟨v, d⟩
  · rfl
  · cases v <;> rfl

theorem onHash_eq (f : StoredValue → Map Bytes Bytes → KeyStep α) :
    KeyOps.onHash absent f ctx = typed Value.asHash absent f := by
  funext entry
  rcases entry with _ | ⟨v, d⟩
  · rfl
  · cases v <;> rfl

theorem onZset_eq (f : StoredValue → SkipList → KeyStep α) :
    KeyOps.onZset absent f ctx = typed Value.asZset absent f := by
  funext entry
  rcases entry with _ | ⟨v, d⟩
  · rfl
  · cases v <;> rfl

theorem onStream_eq (f : StoredValue → Stream → KeyStep α) :
    KeyOps.onStream absent f ctx = typed Value.asStream absent f := by
  funext entry
  rcases entry with _ | ⟨v, d⟩
  · rfl
  · cases v <;> rfl

variable {e : Engine} {now : Instant} {sv : StoredValue} {proj : Value → Option X}
  {f : StoredValue → X → KeyStep α}

theorem typed_quiet (hx : sv.isExpired now = true)
    (hq : ∀ x, proj sv.value = some x → (f sv x).Quiet now sv) :
    (typed proj absent f (some sv)).Quiet now sv := by
  simp only [typed]
  cases h : proj sv.value with
  | none => exact KeyStep.quiet_wrongType hx
  | some x => exact hq x h

/-- A command that answers `d` on an absent key agrees exactly if the raw value
has its type and gives `d` as well. -/
theorem typed_read {d : α} {p : X → Prop} (hx : sv.isExpired now = true)
    (hq : ∀ x, proj sv.value = some x → (f sv x).Quiet now sv)
    (hp : ∀ x, proj sv.value = some x → ((f sv x).result = .ok d ↔ p x)) :
    e.Agree now sv (typed proj (.answer d) f (some sv)) (typed proj (.answer d) f none) ↔
      ∃ x ∈ proj sv.value, p x := by
  rw [show typed proj (.answer d) f none = .answer d from rfl, agree_answer (typed_quiet hx hq)]
  simp only [typed, Option.mem_def]
  cases h : proj sv.value with
  | none => exact ⟨nofun, fun ⟨x, hx', _⟩ => nomatch hx'⟩
  | some x =>
      simp only [hp x h, Option.some.injEq, exists_eq_left']

/-- A command that creates an absent key never agrees. -/
theorem typed_create (charge : Option Nat) {v : Value} {a : α} (hx : sv.isExpired now = true)
    (hq : ∀ x, proj sv.value = some x → (f sv x).Quiet now sv) :
    ¬ e.Agree now sv (typed proj { KeyStep.create v a with charge := charge } f (some sv))
      (typed proj { KeyStep.create v a with charge := charge } f none) :=
  not_agree_create (typed_quiet hx hq) charge v a

end Typed

/-! ## Counting removals -/

theorem removeKeys_fst_le {V : Type} (members : List Bytes) (acc : Nat × Map Bytes V) :
    acc.1 ≤ (members.foldl (fun acc m =>
      if acc.2.contains m then (acc.1 + 1, acc.2.del m) else acc) acc).1 := by
  induction members generalizing acc with
  | nil => exact le_refl _
  | cons m ms ih =>
      rw [List.foldl_cons]
      refine le_trans ?_ (ih _)
      split
      · exact Nat.le_succ _
      · exact le_refl _

/-- No key is removed exactly if none of those named is there. -/
theorem removeKeys_fst_eq_zero {V : Type} {s : Map Bytes V} {members : List Bytes} :
    (KeyOps.removeKeys s members).1 = 0 ↔ ∀ m ∈ members, s.contains m = false := by
  unfold KeyOps.removeKeys
  induction members with
  | nil => simp
  | cons m ms ih =>
      rw [List.foldl_cons]
      cases hm : s.contains m with
      | false =>
          simp only [Bool.false_eq_true, if_false, ih, List.forall_mem_cons, hm, true_and]
      | true =>
          have hle := removeKeys_fst_le ms ((0 : Nat) + 1, s.del m)
          simp only [if_true, List.forall_mem_cons, hm]
          constructor
          · intro h
            omega
          · intro h
            exact absurd h.1 (by simp)

theorem removeFirst_fst_eq_zero {element : Bytes} {n : Nat} {items : List Bytes} (hn : 0 < n) :
    (KeyOps.removeFirst element n items).1 = 0 ↔ element ∉ items := by
  induction items generalizing n with
  | nil => simp [KeyOps.removeFirst]
  | cons item items ih =>
      obtain ⟨n, rfl⟩ : ∃ k, n = k + 1 := ⟨n - 1, by omega⟩
      rw [KeyOps.removeFirst]
      by_cases h : item = element
      · simp [h]
      · simp only [h, if_false, List.mem_cons, not_or]
        rw [ih (Nat.succ_pos n)]
        exact ⟨fun hi => ⟨fun he => h he.symm, hi⟩, fun hi => hi.2⟩

/-- LREM removes nothing exactly if the element is not there. -/
theorem lremList_eq_zero {checks : Bool} {count : Int} {element : Bytes} {items rest : List Bytes}
    {removed : Nat} (h : KeyOps.lremList checks count element items = some (removed, rest)) :
    removed = 0 ↔ element ∉ items := by
  unfold KeyOps.lremList at h
  split at h
  · cases h
    exact List.count_eq_zero
  · split at h
    · next hpos =>
        have hr : (KeyOps.removeFirst element count.toNat items).1 = removed :=
          congrArg Prod.fst (Option.some.inj h)
        rw [← hr]
        exact removeFirst_fst_eq_zero (by omega)
    · split at h
      · cases h
      · next hz hpos _ =>
          have hr : (KeyOps.removeFirst element (-count).toNat items.reverse).1 = removed :=
            congrArg Prod.fst (Option.some.inj h)
          rw [← hr]
          refine (removeFirst_fst_eq_zero (by omega)).trans ?_
          rw [List.mem_reverse]

theorem deleteOne_le (ids : List StreamId) (acc : List StreamEntry × Nat × Nat) :
    acc.2.1 ≤ (ids.foldl Stream.deleteOne acc).2.1 := by
  induction ids generalizing acc with
  | nil => exact le_refl _
  | cons id ids ih =>
      rw [List.foldl_cons]
      refine le_trans ?_ (ih _)
      unfold Stream.deleteOne
      split
      · exact Nat.le_succ _
      · exact le_refl _

theorem foldl_deleteOne_eq_zero (ids : List StreamId) (es : List StreamEntry) (freed : Nat) :
    (ids.foldl Stream.deleteOne (es, 0, freed)).2.1 = 0 ↔
      ∀ id ∈ ids, Stream.foundAt es id = false := by
  induction ids with
  | nil => simp
  | cons id ids ih =>
      rw [List.foldl_cons, Stream.deleteOne]
      dsimp only
      cases hf : Stream.foundAt es id with
      | false => simp only [Bool.false_eq_true, if_false, ih, List.forall_mem_cons, hf, true_and]
      | true =>
          simp only [if_true, List.forall_mem_cons, hf]
          have hle := deleteOne_le ids (es.eraseIdx (Stream.lowerBound es id), 0 + 1,
            freed + ((es[Stream.lowerBound es id]?).map Stream.calculateEntrySize).getD 0)
          constructor
          · intro h
            rw [h] at hle
            exact absurd hle (Nat.not_succ_le_zero 0)
          · intro h
            exact absurd h.1 (by simp)

/-- XDEL deletes nothing exactly if no ID named is there. -/
theorem delete_fst_eq_zero {s : Stream} {ids : List StreamId} :
    (s.delete ids).1 = 0 ↔ ∀ id ∈ ids, Stream.foundAt s.entries id = false := by
  have hmem : ∀ id, id ∈ (StreamId.sort ids).dedup.reverse ↔ id ∈ ids := by
    intro id
    rw [List.mem_reverse, List.mem_dedup, StreamId.sort, List.mem_insertionSort]
  have hz := foldl_deleteOne_eq_zero ((StreamId.sort ids).dedup.reverse) s.entries 0
  simp only [hmem] at hz
  rw [← hz]
  unfold Stream.delete
  dsimp only
  split
  · rfl
  · next h => exact ⟨fun _ => Nat.eq_zero_of_not_pos h, fun _ => rfl⟩

/-! ## Empty ranges -/

theorem take_drop_eq_nil {β : Type} (l : List β) (a b : Nat) :
    (l.take b).drop a = [] ↔ min b l.length ≤ a := by
  rw [List.drop_eq_nil_iff, List.length_take]

theorem sliceOf_eq_nil (items : List Bytes) (start stop : Int) :
    KeyOps.sliceOf items start stop = [] ↔ EmptyRange items.length start stop :=
  take_drop_eq_nil items _ _

theorem zrangeItems_eq_nil (z : SkipList) (start stop : Int) (reverse : Bool) :
    KeyOps.zrangeItems z start stop reverse = [] ↔ EmptyRanks z.len start stop reverse := by
  have hrank : ∀ a b, a ≤ z.len - 1 → 0 < z.len →
      (z.rangeByRank a b = [] ↔ min (b + 1) z.len ≤ a) := by
    intro a b ha hpos
    have hlen : z.1.items.length = z.len := z.length_items
    show (if z.len ≤ a then [] else (z.1.items.drop a).take (min (b + 1) z.len - a)) = [] ↔ _
    rw [if_neg (by omega), List.take_eq_nil_iff, List.drop_eq_nil_iff, hlen]
    omega
  unfold KeyOps.zrangeItems EmptyRanks
  dsimp only
  by_cases h₀ : z.len = 0
  · simp [h₀]
  · simp only [h₀, if_false, false_or]
    cases reverse with
    | true =>
        simp only [if_true, List.reverse_eq_nil_iff]
        rw [hrank _ _ (by omega) (by omega)]
        omega
    | false =>
        simp only [Bool.false_eq_true, if_false]
        split
        · next h => simp [h]
        · next h =>
            rw [hrank _ _ (by omega) (by omega)]
            omega

/-- GETRANGE on a stored string answers nothing exactly on an empty range. -/
theorem getrange_eq_nil (ctx : Ctx) (sv : StoredValue) (bytes : Bytes) (start stop : Int)
    (h : sv.value = .string bytes) :
    (KeyOps.getrange start stop ctx (some sv)).result = .ok [] ↔
      EmptyBytes ctx.overflowChecks bytes.length start stop := by
  simp only [KeyOps.getrange, KeyOps.onString, h]
  generalize hf : KeyOps.clampIndex bytes.length start = first
  simp only [EmptyBytes, hf]
  -- a range that reaches into the string selects a byte
  have hsome : ∀ last : Nat, first ≤ last → first < bytes.length →
      (bytes.take (last + 1)).drop first ≠ [] := by
    intro last h₁ h₂ hnil
    rw [take_drop_eq_nil] at hnil
    omega
  have hcut : ∀ last : Nat,
      (if last < first ∨ bytes.length ≤ first then (KeyStep.answer ([] : Bytes))
        else if last = 2 ^ 64 - 1 then .panics
        else .answer ((bytes.take (last + 1)).drop first)).result = .ok [] ↔
      (bytes.length ≤ first ∨ last < first) := by
    intro last
    by_cases hc : last < first ∨ bytes.length ≤ first
    · simp only [if_pos hc, KeyStep.answer, true_iff]
      exact hc.symm
    · rw [if_neg hc]
      simp only [not_or, not_lt, not_le] at hc
      constructor
      · intro hres
        split at hres
        · cases hres
        · exact absurd (Outcome.ok.inj hres) (hsome last hc.1 hc.2)
      · intro hc'
        omega
  by_cases hs : stop < 0
  · simp only [if_pos hs]
    rw [hcut]
    split <;> rfl
  · simp only [if_neg hs]
    by_cases h₀ : bytes.length = 0
    · simp only [if_pos h₀]
      cases ctx.overflowChecks with
      | true => simp [KeyStep.panics]
      | false =>
          simp only [Bool.false_eq_true, if_false, iff_true]
          rw [hcut]
          exact .inl (by omega)
    · simp only [if_neg h₀]
      rw [hcut]
      omega

/-! ## Every operation on the key itself -/

section KeyItself

variable {α : Type} {e : Engine} {now : Instant} {sv : StoredValue}

/-- The same step on both sides. -/
theorem agree_same {st : KeyStep α} (hx : sv.isExpired now = true)
    (hk : st.entry = .keep ∨ ∃ sv', st.entry = .store sv') : e.Agree now sv st st := by
  refine ⟨rfl, ?_⟩
  unfold Engine.leftBy
  split
  · exact liveOf_self hx
  · rcases hk with hk | ⟨sv', hk⟩
    · rw [hk]
      exact liveOf_self hx
    · rw [hk]
      rfl

/-- An operation that goes through `get` removes the expired key first. -/
theorem agree_viaGet {ctx : Ctx} (hx : sv.isExpired ctx.now = true) (f : Option Value → Outcome α) :
    e.Agree ctx.now sv (KeyOps.viaGet f ctx (some sv)) (KeyOps.viaGet f ctx none) := by
  have h₁ : KeyOps.viaGet f ctx (some sv) = KeyOps.expunge (f none) := if_pos hx
  rw [h₁]
  exact ⟨rfl, rfl⟩

theorem agree_onGroups {ctx : Ctx} (hx : sv.isExpired ctx.now = true) (c : GroupCmd α) :
    e.Agree ctx.now sv (KeyOps.onGroups c ctx (some sv)) (KeyOps.onGroups c ctx none) := by
  have h₁ : KeyOps.onGroups c ctx (some sv) = KeyOps.expunge (.ok .missing) := if_pos hx
  rw [h₁]
  exact ⟨rfl, rfl⟩

theorem deadline_of_expired (hx : sv.isExpired now = true) :
    ∃ d, sv.expiresAt = some d ∧ d < now := by
  unfold StoredValue.isExpired at hx
  cases h : sv.expiresAt with
  | none => rw [h] at hx; cases hx
  | some d =>
      rw [h] at hx
      exact ⟨d, rfl, by simpa using hx⟩

theorem ok_answer_iff {a d : α} : (KeyStep.answer a).result = .ok d ↔ a = d :=
  ⟨fun h => Outcome.ok.inj h, fun h => congrArg Outcome.ok h⟩

end KeyItself

theorem size_eq_zero {V : Type} (m : Map Bytes V) : m.size = 0 ↔ m.toPairs = [] :=
  List.length_eq_zero_iff

theorem keyList_eq_nil {V : Type} (m : Map Bytes V) : m.keyList = [] ↔ m.size = 0 := by
  rw [size_eq_zero, Map.keyList, List.map_eq_nil_iff]

theorem valueList_eq_nil {V : Type} (m : Map Bytes V) : m.valueList = [] ↔ m.size = 0 := by
  rw [size_eq_zero, Map.valueList, List.map_eq_nil_iff]

theorem contains_eq_false {V : Type} (m : Map Bytes V) (k : Bytes) :
    m.contains k = false ↔ m.get? k = none := by
  rw [Map.contains, Option.isSome_eq_false_iff, Option.isNone_iff_eq_none]

/-- SRANDMEMBER on a stored set answers nothing exactly if the set is empty or
nothing is asked for. -/
theorem srandmember_eq_nil (ctx : Ctx) (s : FSet Bytes) (count : Int) :
    (if s.keyList.isEmpty then (KeyStep.answer ([] : List Bytes))
      else if 0 ≤ count then .answer ((ctx.shuffle s.keyList).take (min count.toNat s.keyList.length))
      else if ctx.overflowChecks && decide (count = -2 ^ 63) then .panics
      else if KeyOps.maxCapacity < (-count).toNat * 24 then .panics
      else .answer ((List.range (-count).toNat).filterMap fun i =>
        s.keyList[ctx.choose i s.keyList.length]?)).result = .ok [] ↔ s.size = 0 ∨ count = 0 := by
  rw [← keyList_eq_nil]
  by_cases hnil : s.keyList = []
  · simp [hnil, KeyStep.answer]
  · have hpos : 0 < s.keyList.length := List.length_pos_iff.mpr hnil
    rw [if_neg (by simpa using hnil)]
    by_cases hc : 0 ≤ count
    · rw [if_pos hc, ok_answer_iff, List.take_eq_nil_iff]
      have hlen : (ctx.shuffle s.keyList).length = s.keyList.length :=
        (ctx.shuffle_perm s.keyList).length_eq
      have hne : ctx.shuffle s.keyList ≠ [] := by
        intro h
        rw [h] at hlen
        exact hnil (List.eq_nil_of_length_eq_zero hlen.symm)
      simp only [hne, or_false, hnil, false_or]
      omega
    · rw [if_neg hc]
      refine ⟨fun h => ?_, fun h => ?_⟩
      · exfalso
        split at h
        · cases h
        · split at h
          · cases h
          · -- the first draw picks a member
            have h := Outcome.ok.inj h
            have hz : (0 : Nat) ∈ List.range (-count).toNat := List.mem_range.mpr (by omega)
            rw [List.filterMap_eq_nil_iff] at h
            have := h 0 hz
            rw [List.getElem?_eq_none_iff] at this
            have := ctx.choose_lt 0 s.keyList.length hpos
            omega
      · rcases h with h | h
        · exact absurd h hnil
        · omega

/-- SPOP on a stored set, likewise. -/
theorem spop_eq_nil (ctx : Ctx) (sv : StoredValue) (s : FSet Bytes) (count : Nat) :
    (if s.keyList.isEmpty then (KeyStep.answer ([] : List Bytes))
      else
        let popped := (ctx.shuffle s.keyList).take (min count s.keyList.length)
        let s' := (KeyOps.removeKeys s popped).2
        .shrink sv (.set s') (s'.size == 0) (!popped.isEmpty) popped).result = .ok [] ↔
      s.size = 0 ∨ count = 0 := by
  rw [← keyList_eq_nil]
  by_cases hnil : s.keyList = []
  · simp [hnil, KeyStep.answer]
  · rw [if_neg (by simpa using hnil)]
    have hlen : (ctx.shuffle s.keyList).length = s.keyList.length :=
      (ctx.shuffle_perm s.keyList).length_eq
    have hpos : 0 < s.keyList.length := List.length_pos_iff.mpr hnil
    have hne : ctx.shuffle s.keyList ≠ [] := by
      intro h
      rw [h] at hlen
      exact hnil (List.eq_nil_of_length_eq_zero hlen.symm)
    refine (ok_answer_iff (a := (ctx.shuffle s.keyList).take (min count s.keyList.length))).trans ?_
    rw [List.take_eq_nil_iff]
    simp only [hne, or_false, hnil, false_or]
    omega

/-- XADD with an ID: both sides refuse `0-0` with the same message; any other ID
creates the absent stream. -/
theorem xaddWithId_agree {e : Engine} {now : Instant} {sv : StoredValue} {key : Key}
    (hx : sv.isExpired now = true) (id : StreamId) (fields : Map Bytes Bytes) :
    let absent : KeyStep StreamId := match Stream.new.addWithId id fields with
      | .ok s => .createCharged (KeyOps.newStreamSize key s) (.stream s) id
      | .error msg => .fail (.command (.generic msg))
    let f : StoredValue → Stream → KeyStep StreamId := fun sv s =>
      match s.addWithId id fields with
      | .ok s' => .update sv (.stream s') id
      | .error msg => .fail (.command (.generic msg))
    e.Agree now sv (typed Value.asStream absent f (some sv)) (typed Value.asStream absent f none) ↔
      ∃ _s ∈ sv.value.asStream, id ≤ Stream.new.lastId := by
  intro absent f
  have hq : ∀ s, sv.value.asStream = some s → (f sv s).Quiet now sv := by
    intro s _
    show KeyStep.Quiet now sv (match s.addWithId id fields with
      | .ok s' => .update sv (.stream s') id
      | .error msg => .fail (.command (.generic msg)))
    split
    · exact KeyStep.quiet_update hx _ _
    · exact KeyStep.quiet_fail hx nofun
  by_cases hid : id ≤ Stream.new.lastId
  · -- `0-0` is not above the last ID of any stream
    have hall : ∀ s : Stream, id ≤ s.lastId := by
      intro s
      have h0 : id.packed ≤ 0 := hid
      show id.packed ≤ s.lastId.packed
      omega
    have hfail : ∀ s : Stream, s.addWithId id fields =
        .error "The ID specified in XADD is equal or smaller than the target stream top item" :=
      fun s => if_pos (hall s)
    have habs : absent = .fail (.command (.generic
        "The ID specified in XADD is equal or smaller than the target stream top item")) := by
      show (match Stream.new.addWithId id fields with | .ok s => _ | .error msg => _) = _
      rw [hfail]
    have hf : ∀ s, f sv s = .fail (.command (.generic
        "The ID specified in XADD is equal or smaller than the target stream top item")) := by
      intro s
      show (match s.addWithId id fields with | .ok s' => _ | .error msg => _) = _
      rw [hfail]
    simp only [typed, habs, hf, hid, and_true, Option.mem_def]
    cases hv : sv.value.asStream with
    | none =>
        refine ⟨fun h => ?_, fun ⟨_, h⟩ => nomatch h⟩
        exact nomatch (show (Outcome.err (.storage .wrongType) : Outcome StreamId) =
          .err (.command (.generic _)) from h.1)
    | some s => exact ⟨fun _ => ⟨s, rfl⟩, fun _ => agree_same hx (.inl rfl)⟩
  · have hok : ∃ s, Stream.new.addWithId id fields = .ok s := by
      unfold Stream.addWithId
      rw [if_neg hid]
      exact ⟨_, if_neg (show ¬ false = true by decide)⟩
    obtain ⟨s, hs⟩ := hok
    have habs : absent = .createCharged (KeyOps.newStreamSize key s) (.stream s) id := by
      show (match Stream.new.addWithId id fields with | .ok s => _ | .error msg => _) = _
      rw [hs]
    simp only [hid, and_false, exists_false, iff_false, habs]
    exact typed_create (some _) hx hq

/-- An operation on the expired key agrees exactly when the condition says. -/
theorem KeyCmd.agree_iff {α : Type} (c : KeyCmd α) {e : Engine} {ctx : Ctx} {key : Key}
    {sv : StoredValue} (hx : sv.isExpired ctx.now = true) :
    e.Agree ctx.now sv (c.step key ctx (some sv)) (c.step key ctx none) ↔
      c.Unaffected ctx.overflowChecks sv.value := by
  have hlive : KeyOps.live ctx (some sv) = false := by
    show (!sv.isExpired ctx.now) = false
    rw [hx]
    rfl
  have hnone : KeyOps.live ctx none = false := rfl
  obtain ⟨deadline, hdead, hlt⟩ := deadline_of_expired hx
  cases c with
  | setStringNx value =>
      simp only [step, Unaffected, iff_true]
      rw [show KeyOps.setStringNx key value ctx (some sv) = KeyOps.setStringNx key value ctx none by
        simp only [KeyOps.setStringNx, hlive, hnone]]
      exact agree_same hx (.inr ⟨_, rfl⟩)
  | setStringNxEx value d =>
      simp only [step, Unaffected, iff_true]
      rw [show KeyOps.setStringNxEx key value d ctx (some sv) =
        KeyOps.setStringNxEx key value d ctx none by
          simp only [KeyOps.setStringNxEx, hlive, hnone]]
      refine agree_same hx ?_
      simp only [KeyOps.setStringNxEx, hnone, Bool.false_eq_true, if_false]
      split
      · exact .inr ⟨_, rfl⟩
      · exact .inl rfl
  | setValue value d =>
      simp only [step, Unaffected, iff_true]
      show e.Agree ctx.now sv (KeyOps.setValue key value d ctx none) _
      refine agree_same hx ?_
      unfold KeyOps.setValue
      cases d with
      | none => exact .inr ⟨_, rfl⟩
      | some d =>
          dsimp only
          split
          · exact .inr ⟨_, rfl⟩
          · exact .inl rfl
  | get =>
      simp only [step, Unaffected, iff_false]
      rintro ⟨hres, -⟩
      have h₁ : KeyOps.get ctx (some sv) = KeyOps.expunge (.ok .expired) := if_pos hx
      rw [h₁] at hres
      cases hres
  | getString => exact iff_true_intro (agree_viaGet hx _)
  | exists? =>
      simp only [step, Unaffected, iff_true, KeyOps.exists?, hlive]
      exact agree_same hx (.inl rfl)
  | delete =>
      simp only [step, Unaffected, iff_false]
      rintro ⟨hres, -⟩
      cases hres
  | expire d =>
      simp only [step, Unaffected, iff_false]
      rintro ⟨hres, -⟩
      unfold KeyOps.expire at hres
      dsimp only at hres
      split at hres
      · cases hres
      · split at hres <;> cases hres
  | ttl =>
      simp only [step, Unaffected, iff_false]
      rintro ⟨hres, -⟩
      simp only [KeyOps.ttl, Option.bind_some, hdead, Option.map_some] at hres
      cases hres
  | pttl =>
      simp only [step, Unaffected, iff_false]
      rintro ⟨hres, -⟩
      have hrem : KeyOps.remaining deadline ctx.now = 0 := if_neg (Nat.lt_asymm hlt)
      simp only [KeyOps.pttl, Option.bind_some, hdead, hrem] at hres
      exact absurd (Outcome.ok.inj hres) (by decide)
  | persist =>
      simp only [step, Unaffected, iff_false]
      rintro ⟨hres, -⟩
      simp only [KeyOps.persist, hdead] at hres
      cases hres
  | keyType =>
      simp only [step, Unaffected, iff_false]
      rintro ⟨hres, -⟩
      have hname := Outcome.ok.inj hres
      revert hname
      cases sv.value <;> simp [Value.valueType, ValueType.name]
  | incrBy n =>
      simp only [step, Unaffected, iff_false]
      refine not_agree_create ?_ _ _ _
      unfold KeyOps.incrBy
      dsimp only
      split
      · exact KeyStep.quiet_fail hx (by rintro ⟨⟩)
      · split
        · exact KeyStep.quiet_update hx _ _
        · exact KeyStep.quiet_fail hx (by rintro ⟨⟩)
  | append value =>
      simp only [step, Unaffected, iff_false, KeyOps.append, onString_eq]
      exact typed_create none hx fun _ _ => KeyStep.quiet_update hx _ _
  | strlen =>
      simp only [step, Unaffected, KeyOps.strlen, onString_eq]
      exact typed_read hx (fun _ _ => KeyStep.quiet_answer hx _)
        fun _ _ => ok_answer_iff.trans List.length_eq_zero_iff
  | getrange start stop =>
      have hread : ∀ st, st = KeyOps.getrange start stop ctx (some sv) →
          (e.Agree ctx.now sv st (.answer []) ↔ ∃ bytes ∈ sv.value.asString,
            EmptyBytes ctx.overflowChecks bytes.length start stop) := by
        rintro st rfl
        have hq : (KeyOps.getrange start stop ctx (some sv)).Quiet ctx.now sv := by
          unfold KeyOps.getrange
          refine KeyOps.onString_rule ctx (by rintro ⟨⟩) (fun _ _ _ _ => ?_) (KeyStep.quiet_wrongType hx)
          dsimp only
          split
          · exact KeyStep.quiet_panics hx
          · split
            · exact KeyStep.quiet_answer hx _
            · split
              · exact KeyStep.quiet_panics hx
              · exact KeyStep.quiet_answer hx _
        rw [agree_answer hq]
        cases hv : sv.value with
        | string bytes =>
            rw [getrange_eq_nil ctx sv bytes start stop hv]
            simp [Value.asString]
        | _ =>
            simp only [KeyOps.getrange, KeyOps.onString, hv]
            exact iff_of_false (by rintro ⟨⟩) (by rintro ⟨_, ⟨⟩, _⟩)
      exact hread _ rfl
  | setrange offset value =>
      simp only [step, Unaffected, KeyOps.setrange, onString_eq]
      by_cases hcap : KeyOps.maxCapacity < offset + value.length
      · simp only [hcap, if_true, and_true]
        simp only [typed, Option.mem_def]
        cases hv : sv.value.asString with
        | none =>
            refine iff_of_false (fun h => ?_) (by rintro ⟨_, ⟨⟩⟩)
            cases (show (Outcome.err _ : Outcome Nat) = .panic from h.1)
        | some bytes => exact ⟨fun _ => ⟨bytes, rfl⟩, fun _ => agree_same hx (.inl rfl)⟩
      · simp only [hcap, if_false, and_false, exists_false, iff_false]
        exact typed_create none hx fun _ _ => KeyStep.quiet_update hx _ _
  | lpush elements =>
      simp only [step, Unaffected, iff_false, KeyOps.lpush, onList_eq]
      exact typed_create none hx fun _ _ => KeyStep.quiet_update hx _ _
  | rpush elements =>
      simp only [step, Unaffected, iff_false, KeyOps.rpush, onList_eq]
      exact typed_create none hx fun _ _ => KeyStep.quiet_update hx _ _
  | lpop =>
      simp only [step, Unaffected, KeyOps.lpop, onList_eq]
      refine typed_read hx (fun _ _ => KeyStep.quiet_shrink hx _ _ _ _) fun items _ => ?_
      exact ⟨fun h => List.head?_eq_none_iff.mp (Outcome.ok.inj h), fun h => by rw [h]; rfl⟩
  | rpop =>
      simp only [step, Unaffected, KeyOps.rpop, onList_eq]
      refine typed_read hx (fun _ _ => KeyStep.quiet_shrink hx _ _ _ _) fun items _ => ?_
      exact ⟨fun h => List.getLast?_eq_none_iff.mp (Outcome.ok.inj h), fun h => by rw [h]; rfl⟩
  | llen =>
      simp only [step, Unaffected, KeyOps.llen, onList_eq]
      exact typed_read hx (fun _ _ => KeyStep.quiet_answer hx _)
        fun _ _ => ok_answer_iff.trans List.length_eq_zero_iff
  | lrange start stop =>
      simp only [step, Unaffected, KeyOps.lrange, onList_eq]
      exact typed_read hx (fun _ _ => KeyStep.quiet_answer hx _)
        fun _ _ => ok_answer_iff.trans (sliceOf_eq_nil _ _ _)
  | lindex index =>
      simp only [step, Unaffected, KeyOps.lindex, onList_eq]
      refine typed_read hx (fun _ _ => KeyStep.quiet_answer hx _) fun items _ => ok_answer_iff.trans ?_
      -- a position that is in the list has an element
      have hpos : ∀ i, KeyOps.position items.length index = some i → i < items.length := by
        intro i hi
        unfold KeyOps.position at hi
        dsimp only at hi
        obtain ⟨h, hi⟩ := Option.ite_none_right_eq_some.mp hi
        have hi := Option.some.inj hi
        omega
      cases hp : KeyOps.position items.length index with
      | none => simp
      | some i => simp [hpos i hp]
  | lset index value =>
      simp only [step, Unaffected, iff_false, KeyOps.lset, onList_eq]
      rintro ⟨hres, -⟩
      simp only [typed] at hres
      cases hv : sv.value.asList with
      | none =>
          rw [hv] at hres
          cases hres
      | some items =>
          rw [hv] at hres
          dsimp only at hres
          cases hp : KeyOps.position items.length index with
          | none => rw [hp] at hres; cases hres
          | some i => rw [hp] at hres; cases hres
  | ltrim start stop =>
      simp only [step, Unaffected, KeyOps.ltrim, onList_eq]
      refine (typed_read (p := fun _ => True) hx (fun _ _ => KeyStep.quiet_shrink hx _ _ _ _)
        fun items _ => iff_of_true rfl trivial).trans ?_
      simp only [and_true]
  | lrem count element =>
      simp only [step, Unaffected, KeyOps.lrem, onList_eq]
      refine typed_read hx (fun items _ => ?_) fun items _ => ?_
      · split
        · exact KeyStep.quiet_panics hx
        · exact KeyStep.quiet_shrink hx _ _ _ _
      · cases hl : KeyOps.lremList ctx.overflowChecks count element items with
        | none =>
            refine ⟨by rintro ⟨⟩, fun h => ?_⟩
            exfalso
            unfold KeyOps.lremList at hl
            split at hl
            · cases hl
            · split at hl
              · cases hl
              · split at hl
                · next hc =>
                    simp only [Bool.and_eq_true, decide_eq_true_eq] at hc
                    exact h.2 hc
                · cases hl
        | some r =>
            have hz := lremList_eq_zero hl
            have hmin : ¬ (ctx.overflowChecks = true ∧ count = -2 ^ 63) := by
              rintro ⟨hc, rfl⟩
              rw [hc] at hl
              simp [KeyOps.lremList] at hl
            exact ⟨fun h => ⟨hz.mp (Outcome.ok.inj h), hmin⟩,
              fun h => congrArg Outcome.ok (hz.mpr h.1)⟩
  | sadd members =>
      simp only [step, Unaffected, iff_false, KeyOps.sadd, onSet_eq]
      exact typed_create none hx fun _ _ => ⟨rfl, by rintro ⟨⟩, liveOf_expired hx _⟩
  | srem members =>
      simp only [step, Unaffected, KeyOps.srem, onSet_eq]
      refine typed_read hx (fun _ _ => KeyStep.quiet_shrink hx _ _ _ _) fun s _ => ?_
      exact (ok_answer_iff (a := (KeyOps.removeKeys s members).1)).trans removeKeys_fst_eq_zero
  | smembers =>
      simp only [step, Unaffected, KeyOps.smembers, onSet_eq]
      exact typed_read hx (fun _ _ => KeyStep.quiet_answer hx _)
        fun _ _ => ok_answer_iff.trans (keyList_eq_nil _)
  | sismember member =>
      simp only [step, Unaffected, KeyOps.sismember, onSet_eq]
      exact typed_read hx (fun _ _ => KeyStep.quiet_answer hx _) fun _ _ => ok_answer_iff
  | scard =>
      simp only [step, Unaffected, KeyOps.scard, onSet_eq]
      exact typed_read hx (fun _ _ => KeyStep.quiet_answer hx _) fun _ _ => ok_answer_iff
  | hset fvs =>
      simp only [step, Unaffected, iff_false, KeyOps.hset, onHash_eq]
      exact typed_create none hx fun _ _ => KeyStep.quiet_update hx _ _
  | hget field =>
      simp only [step, Unaffected, KeyOps.hget, onHash_eq]
      exact typed_read hx (fun _ _ => KeyStep.quiet_answer hx _)
        fun _ _ => ok_answer_iff.trans (contains_eq_false _ _).symm
  | hmget fields =>
      simp only [step, Unaffected, KeyOps.hmget, onHash_eq]
      refine typed_read hx (fun _ _ => KeyStep.quiet_answer hx _) fun h _ => ok_answer_iff.trans ?_
      rw [List.map_inj_left]
      exact forall₂_congr fun f _ => (contains_eq_false h f).symm
  | hgetall =>
      simp only [step, Unaffected, KeyOps.hgetall, onHash_eq]
      exact typed_read hx (fun _ _ => KeyStep.quiet_answer hx _)
        fun _ _ => ok_answer_iff.trans (size_eq_zero _).symm
  | hdel fields =>
      simp only [step, Unaffected, KeyOps.hdel, onHash_eq]
      refine typed_read hx (fun _ _ => KeyStep.quiet_shrink hx _ _ _ _) fun h _ => ?_
      exact (ok_answer_iff (a := (KeyOps.removeKeys h fields).1)).trans removeKeys_fst_eq_zero
  | hlen =>
      simp only [step, Unaffected, KeyOps.hlen, onHash_eq]
      exact typed_read hx (fun _ _ => KeyStep.quiet_answer hx _) fun _ _ => ok_answer_iff
  | hexists field =>
      simp only [step, Unaffected, KeyOps.hexists, onHash_eq]
      exact typed_read hx (fun _ _ => KeyStep.quiet_answer hx _) fun _ _ => ok_answer_iff
  | hkeys =>
      simp only [step, Unaffected, KeyOps.hkeys, onHash_eq]
      exact typed_read hx (fun _ _ => KeyStep.quiet_answer hx _)
        fun _ _ => ok_answer_iff.trans (keyList_eq_nil _)
  | hvals =>
      simp only [step, Unaffected, KeyOps.hvals, onHash_eq]
      exact typed_read hx (fun _ _ => KeyStep.quiet_answer hx _)
        fun _ _ => ok_answer_iff.trans (valueList_eq_nil _)
  | hincrby field n =>
      simp only [step, Unaffected, iff_false, KeyOps.hincrby, onHash_eq]
      refine typed_create none hx fun h _ => ?_
      split
      · exact KeyStep.quiet_update hx _ _
      · split
        · exact KeyStep.quiet_fail hx (by rintro ⟨⟩)
        · split
          · exact KeyStep.quiet_panics hx
          · exact KeyStep.quiet_update hx _ _
  | zadd member score =>
      simp only [step, Unaffected, iff_false, KeyOps.zadd, onZset_eq]
      exact typed_create (some _) hx fun _ _ => KeyStep.quiet_update hx _ _
  | zincrby member n =>
      simp only [step, Unaffected, iff_false, KeyOps.zincrby, onZset_eq]
      exact typed_create (some _) hx fun _ _ => KeyStep.quiet_update hx _ _
  | zscore member =>
      simp only [step, Unaffected, KeyOps.zscore, onZset_eq]
      exact typed_read hx (fun _ _ => KeyStep.quiet_answer hx _) fun _ _ => ok_answer_iff
  | zrank member reverse =>
      simp only [step, Unaffected, KeyOps.zrank, onZset_eq]
      refine typed_read hx (fun _ _ => KeyStep.quiet_answer hx _) fun _ _ => ok_answer_iff.trans ?_
      rw [Option.map_eq_none_iff]
  | zrange start stop reverse =>
      simp only [step, Unaffected, KeyOps.zrange, onZset_eq]
      exact typed_read hx (fun _ _ => KeyStep.quiet_answer hx _)
        fun _ _ => ok_answer_iff.trans (zrangeItems_eq_nil _ _ _ _)
  | zrangebyscore lo hi reverse =>
      simp only [step, Unaffected, KeyOps.zrangebyscore, onZset_eq]
      refine typed_read hx (fun _ _ => KeyStep.quiet_answer hx _) fun _ _ => ok_answer_iff.trans ?_
      cases reverse <;> simp
  | zcount lo hi =>
      simp only [step, Unaffected, KeyOps.zcount, onZset_eq]
      exact typed_read hx (fun _ _ => KeyStep.quiet_answer hx _)
        fun _ _ => ok_answer_iff.trans List.length_eq_zero_iff
  | zcard =>
      simp only [step, Unaffected, KeyOps.zcard, onZset_eq]
      exact typed_read hx (fun _ _ => KeyStep.quiet_answer hx _) fun _ _ => ok_answer_iff
  | xadd fields =>
      simp only [step, Unaffected, iff_false, KeyOps.xadd, onStream_eq]
      exact typed_create (some _) hx fun _ _ => KeyStep.quiet_update hx _ _
  | xrange start stop count reverse =>
      simp only [step, Unaffected, KeyOps.xrange, onStream_eq]
      exact typed_read hx (fun _ _ => KeyStep.quiet_answer hx _) fun _ _ => ok_answer_iff
  | xlen =>
      simp only [step, Unaffected, KeyOps.xlen, onStream_eq]
      exact typed_read hx (fun _ _ => KeyStep.quiet_answer hx _) fun _ _ => ok_answer_iff
  | hscan cursor pattern count noValues => exact iff_true_intro (agree_viaGet hx _)
  | sscan cursor pattern count => exact iff_true_intro (agree_viaGet hx _)
  | zscan cursor pattern count => exact iff_true_intro (agree_viaGet hx _)
  | groupCreate name start => exact iff_true_intro (agree_onGroups hx (.create name start))
  | groupDestroy name => exact iff_true_intro (agree_onGroups hx (.destroy name))
  | groupCreateConsumer group consumer =>
      exact iff_true_intro (agree_onGroups hx (.createConsumer group consumer))
  | groupDeleteConsumer group consumer =>
      exact iff_true_intro (agree_onGroups hx (.deleteConsumer group consumer))
  | groupSetId group id => exact iff_true_intro (agree_onGroups hx (.setId group id))
  | readGroup group consumer afterId count noack =>
      exact iff_true_intro (agree_onGroups hx (.readGroup group consumer afterId count noack))
  | acknowledge group ids => exact iff_true_intro (agree_onGroups hx (.acknowledge group ids))
  | claim group consumer minIdleMs ids force =>
      exact iff_true_intro (agree_onGroups hx (.claim group consumer minIdleMs ids force))
  | autoClaim group consumer minIdleMs start count =>
      exact iff_true_intro (agree_onGroups hx (.autoClaim group consumer minIdleMs start count))
  | srandmember count =>
      simp only [step, Unaffected, KeyOps.srandmember, onSet_eq]
      refine typed_read hx (fun s _ => ?_) fun s _ => ?_
      · split
        · exact KeyStep.quiet_answer hx _
        · split
          · exact KeyStep.quiet_answer hx _
          · split
            · exact KeyStep.quiet_panics hx
            · split
              · exact KeyStep.quiet_panics hx
              · exact KeyStep.quiet_answer hx _
      · exact srandmember_eq_nil ctx s count
  | spop count =>
      simp only [step, Unaffected, KeyOps.spop, onSet_eq]
      refine typed_read hx (fun s _ => ?_) fun s _ => ?_
      · split
        · exact KeyStep.quiet_answer hx _
        · exact KeyStep.quiet_shrink hx _ _ _ _
      · exact spop_eq_nil ctx sv s count
  | zrem member =>
      simp only [step, Unaffected, KeyOps.zrem, onZset_eq]
      have hrem : ∀ z : SkipList, (z.remove member).1 = z.getScore member := by
        intro z
        show (z.1.remove member).1 = z.1.keyIndex.get? member
        unfold SkipChain.remove
        split
        · next h => exact h.symm
        · next h => exact h.symm
      refine typed_read hx (fun z _ => ?_) fun z _ => ?_
      · split
        · exact ⟨rfl, by rintro ⟨⟩, (KeyStep.quiet_shrink hx _ _ true true).dead⟩
        · exact KeyStep.quiet_answer hx _
      · rw [← hrem z]
        rcases z.remove member with ⟨_ | score, z'⟩
        · exact iff_of_true rfl rfl
        · exact iff_of_false (by rintro ⟨⟩) (by rintro ⟨⟩)
  | xaddWithId id fields =>
      simp only [step, Unaffected, KeyOps.xaddWithId, onStream_eq]
      exact xaddWithId_agree hx id fields
  | xtrim maxLen =>
      simp only [step, Unaffected, KeyOps.xtrim, onStream_eq]
      refine typed_read hx (fun _ _ => ⟨rfl, by rintro ⟨⟩, liveOf_expired hx _⟩) fun s _ => ?_
      refine (ok_answer_iff (a := (s.trimByCount maxLen).1)).trans ?_
      unfold Stream.trimByCount
      split
      · next h => exact iff_of_true rfl h
      · next h => exact ⟨fun h' => by dsimp only at h'; omega, fun h' => absurd h' h⟩
  | xdel ids =>
      simp only [step, Unaffected, KeyOps.xdel, onStream_eq]
      refine typed_read hx (fun _ _ => ⟨rfl, by rintro ⟨⟩, liveOf_expired hx _⟩) fun s _ => ?_
      exact (ok_answer_iff (a := (s.delete ids).1)).trans delete_fst_eq_zero

/-- An operation on one key treats the expired key as absent exactly if it is
another key's, or the condition holds. -/
theorem Op.key_treatsAsAbsent_iff {α : Type} {e : Engine} {ctx : Ctx} {db : Nat} {k : Key}
    {sv : StoredValue} (hsv : e.entryAt db k = some sv) (hx : sv.isExpired ctx.now = true)
    (db' : Nat) (k' : Key) (c : KeyCmd α) :
    (Op.key db' k' c).TreatsAsAbsent ctx e db k ↔
      ¬ (db' = db ∧ k' = k) ∨ c.Unaffected ctx.overflowChecks sv.value := by
  have hlive := Engine.evict_liveAt hsv hx
  show ((e.withEntry db' k' ctx (c.step k')).1 = ((e.evict db k).withEntry db' k' ctx (c.step k')).1 ∧
    ∀ db'' k'', (e.withEntry db' k' ctx (c.step k')).2.liveAt ctx.now db'' k'' =
      ((e.evict db k).withEntry db' k' ctx (c.step k')).2.liveAt ctx.now db'' k'') ↔ _
  by_cases hdb : db' < e.databases.length
  · have hdb' : db' < (e.evict db k).databases.length := by rwa [Engine.evict_length]
    have hans : ∀ st : KeyStep α, (e.evict db k).answerOf st = e.answerOf st := by
      intro st
      simp only [Engine.answerOf, Engine.evict_refuses]
    have hleft : ∀ (st : KeyStep α) old, (e.evict db k).leftBy st old = e.leftBy st old := by
      intro st old
      simp only [Engine.leftBy, Engine.evict_refuses]
    rw [Engine.withEntry_fst hdb, Engine.withEntry_fst hdb', hans]
    simp only [Engine.liveAt, Engine.withEntry_snd hdb, Engine.withEntry_snd hdb', hleft]
    by_cases hk : db' = db ∧ k' = k
    · obtain ⟨rfl, rfl⟩ := hk
      rw [Engine.evict_entryAt, if_pos ⟨rfl, rfl⟩, hsv]
      simp only [and_self, not_true_eq_false, false_or]
      rw [← @KeyCmd.agree_iff _ c e _ k' _ hx]
      refine and_congr_right fun _ => ⟨fun h => ?_, fun h db'' k'' => ?_⟩
      · have := h db' k'
        simpa using this
      · by_cases hkk : db'' = db' ∧ k'' = k'
        · rw [if_pos hkk, if_pos hkk]
          exact h
        · rw [if_neg hkk, if_neg hkk]
          exact (hlive db'' k'').symm
    · rw [Engine.evict_entryAt, if_neg hk]
      refine iff_of_true ⟨rfl, fun db'' k'' => ?_⟩ (.inl hk)
      by_cases hkk : db'' = db' ∧ k'' = k'
      · rw [if_pos hkk, if_pos hkk]
      · rw [if_neg hkk, if_neg hkk]
        exact (hlive db'' k'').symm
  · have hdb' : ¬ db' < (e.evict db k).databases.length := by rwa [Engine.evict_length]
    rw [Engine.withEntry_missing hdb, Engine.withEntry_missing hdb']
    refine iff_of_true ⟨rfl, fun db'' k'' => (hlive db'' k'').symm⟩ (.inl ?_)
    rintro ⟨rfl, rfl⟩
    obtain ⟨sh, hsh, -⟩ := Option.bind_eq_some_iff.mp hsv
    obtain ⟨d, hd, -⟩ := Option.map_eq_some_iff.mp hsh
    exact hdb (List.getElem?_eq_some_iff.mp hd).1

end Ferrous
