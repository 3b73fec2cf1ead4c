/-
# `Server.Echoes` — texts of a request that come back in its reply

A command that does not know its subcommand repeats it, and one that does not
know a group repeats the group, in a line of the reply.  `repeats` reads off the
arguments and the store which texts come back; the reply stays on its lines if
and only if these do.
-/
import Ferrous.Commands.Lines
import Ferrous.Server.Silence

namespace Ferrous

open Lib Args

/-- The frame keeps to its lines, or the text of the error does. -/
abbrev Framed (r : Outcome RespFrame) : Prop := Says Line RespFrame.Unbroken r

variable {ω : Nat → Ctx} {db : Nat} {parts : Parts} {w : World}

/-! ## Groups -/

/-- The stream of the key has no such group. -/
def unknownGroup (ω : Nat → Ctx) (db : Nat) (w : World) (key : Key) (group : String) : Bool :=
  match seen (ω w.calls) (w.engine.entryAt db key) with
  | .found s => (s.consumerGroups.get? group).isNone
  | _ => false

theorem unknownGroup_iff {key : Key} {group : String} :
    unknownGroup ω db w key group = true ↔
      ∃ s, seen (ω w.calls) (w.engine.entryAt db key) = .found s ∧ s.consumerGroups.get? group = none := by
  unfold unknownGroup
  cases h : seen (ω w.calls) (w.engine.entryAt db key) with
  | found s => simp
  | wrongType => simp
  | missing => simp

/-- What is found is in a database that exists. -/
theorem database_of_seen {ctx : Ctx} {key : Key} {s : Stream}
    (h : seen ctx (w.engine.entryAt db key) = .found s) : db < w.engine.databases.length := by
  obtain ⟨t, hentry, -⟩ := seen_found h
  by_contra hdb
  have hnone : w.engine.databases[db]? = none := List.getElem?_eq_none (Nat.le_of_not_lt hdb)
  rw [Engine.entryAt, Engine.shard?, hnone] at hentry
  cases hentry

/-- What a group command finds and what it makes of it. -/
def groupAnswer {α : Type} (ctx : Ctx) (g : GroupCmd α) : StreamAccess Stream → StreamAccess α
  | .found s => .found (g.apply ctx s).1
  | .wrongType => .wrongType
  | .missing => .missing

theorem onGroups_answer {α : Type} (g : GroupCmd α) (ctx : Ctx) (entry : Option StoredValue) :
    (KeyOps.onGroups g ctx entry).result = .ok (groupAnswer ctx g (seen ctx entry)) ∧
      (KeyOps.onGroups g ctx entry).charge = none := by
  cases entry with
  | none => exact ⟨rfl, rfl⟩
  | some sv =>
      obtain ⟨v, t⟩ := sv
      cases he : (⟨v, t⟩ : StoredValue).isExpired ctx.now with
      | true =>
          simp only [KeyOps.onGroups, seen, he, if_true]
          exact ⟨rfl, rfl⟩
      | false =>
          simp only [KeyOps.onGroups, seen, he, Bool.false_eq_true, if_false]
          cases v with
          | stream s => exact ⟨rfl, rfl⟩
          | _ => exact ⟨rfl, rfl⟩

/-- A group command is answered, wherever there is a database. -/
theorem step_groupAnswer {k : Key} {α : Type} {c : KeyCmd (StreamAccess α)} {g : GroupCmd α}
    (hc : c.step k = KeyOps.onGroups g) (hdb : db < w.engine.databases.length) :
    (World.step ω _ (.key db k c) w).1 =
      .ok (groupAnswer (ω w.calls) g (seen (ω w.calls) (w.engine.entryAt db k))) := by
  have h := onGroups_answer g (ω w.calls) (w.engine.entryAt db k)
  change (w.engine.withEntry db k _ _).1 = _
  rw [Engine.withEntry_fst hdb, hc]
  simp only [Engine.answerOf, Engine.refuses, h.1, h.2]
  rfl

/-- A fetch is answered with what is seen. -/
theorem step_getAnswer {k : Key} (hdb : db < w.engine.databases.length) :
    ∃ r, (World.step ω _ (.key db k .get) w).1 = .ok r ∧
      r.stream = seen (ω w.calls) (w.engine.entryAt db k) := by
  have hstep : (World.step ω _ (.key db k .get) w).1 =
      w.engine.answerOf (KeyOps.get (ω w.calls) (w.engine.entryAt db k)) := Engine.withEntry_fst hdb _ _ _
  rw [hstep]
  cases w.engine.entryAt db k with
  | none => exact ⟨_, rfl, rfl⟩
  | some sv =>
      obtain ⟨v, t⟩ := sv
      cases he : (⟨v, t⟩ : StoredValue).isExpired (ω w.calls).now with
      | true =>
          simp only [KeyOps.get, seen, he, if_true]
          exact ⟨_, rfl, rfl⟩
      | false =>
          simp only [KeyOps.get, seen, he, Bool.false_eq_true, if_false]
          cases v with
          | _ => exact ⟨_, rfl, rfl⟩

theorem framed_invalidDatabase : Framed (.err Engine.invalidDatabase) := line_of_plainText (plainText_of_chars rfl)

theorem step_invalidDatabase {key : Key} {α : Type} {c : KeyCmd α} (hdb : ¬ db < w.engine.databases.length) :
    (World.step ω _ (.key db key c) w).1 = .err Engine.invalidDatabase :=
  congrArg Prod.fst (Engine.withEntry_missing hdb key _ _)

/-- An error of the first operation is passed on. -/
theorem run_need_err {α β : Type} {o : Op α} {e : FerrousError} (h : (World.step ω _ o w).1 = .err e)
    (body : α → StoreProg β) : ((need o >>= body).run (World.step ω) w).1 = .err e := by
  rw [Prog.bind_eq, need, Prog.run_perform_bind]
  rcases hr : World.step ω _ o w with ⟨r, w'⟩
  rw [hr] at h
  cases h
  rfl

section Grouping

variable {key : Key} {α : Type} {c : KeyCmd (StreamAccess α)} {g : GroupCmd α} {missing : RespFrame}
  {render : α → RespFrame}

/-- A group command on a stream that is there. -/
theorem run_grouping {s : Stream} (hc : c.step key = KeyOps.onGroups g)
    (hs : seen (ω w.calls) (w.engine.entryAt db key) = .found s) :
    ((grouping db key c missing render).run (World.step ω) w).1 = .ok (render (g.apply (ω w.calls) s).1) := by
  have hstep := step_groupAnswer (ω := ω) hc (database_of_seen hs)
  rw [hs] at hstep
  exact congrArg Prod.fst (run_need (Prod.ext hstep rfl))

theorem framed_grouping (hc : c.step key = KeyOps.onGroups g) (hm : missing.Everywhere RespFrame.Unbroken)
    (hr : ∀ s, seen (ω w.calls) (w.engine.entryAt db key) = .found s →
      (render (g.apply (ω w.calls) s).1).Everywhere RespFrame.Unbroken) :
    Framed ((grouping db key c missing render).run (World.step ω) w).1 := by
  by_cases hdb : db < w.engine.databases.length
  · have hstep := step_groupAnswer (ω := ω) hc hdb
    cases hs : seen (ω w.calls) (w.engine.entryAt db key) with
    | found s =>
        rw [run_grouping hc hs]
        exact hr s hs
    | wrongType =>
        rw [hs] at hstep
        rw [grouping, run_need (Prod.ext hstep rfl)]
        exact wording_line.err rfl
    | missing =>
        rw [hs] at hstep
        rw [grouping, run_need (Prod.ext hstep rfl)]
        exact hm
  · rw [grouping, run_need_err (step_invalidDatabase hdb)]
    exact framed_invalidDatabase

/-- A stream that is there is looked at. -/
theorem run_fetching {s : Stream} (missing : RespFrame) (found : Stream → StoreProg RespFrame)
    (hs : seen (ω w.calls) (w.engine.entryAt db key) = .found s) :
    ∃ w', (fetching db key missing found).run (World.step ω) w = (found s).run (World.step ω) w' := by
  obtain ⟨r, hstep, hr⟩ := step_getAnswer (ω := ω) (k := key) (database_of_seen hs)
  refine ⟨(World.step ω _ (.key db key .get) w).2, ?_⟩
  rw [fetching, run_need (Prod.ext hstep rfl), hr, hs]
  rfl

theorem framed_fetching {found : Stream → StoreProg RespFrame} (hm : missing.Everywhere RespFrame.Unbroken)
    (hf : ∀ s w', seen (ω w.calls) (w.engine.entryAt db key) = .found s →
      Framed ((found s).run (World.step ω) w').1) :
    Framed ((fetching db key missing found).run (World.step ω) w).1 := by
  by_cases hdb : db < w.engine.databases.length
  · cases hs : seen (ω w.calls) (w.engine.entryAt db key) with
    | found s =>
        obtain ⟨w', hrun⟩ := run_fetching missing found hs
        rw [hrun]
        exact hf s w' hs
    | wrongType =>
        obtain ⟨r, hstep, hr⟩ := step_getAnswer (ω := ω) (k := key) hdb
        rw [fetching, run_need (Prod.ext hstep rfl), hr, hs]
        exact wording_line.err rfl
    | missing =>
        obtain ⟨r, hstep, hr⟩ := step_getAnswer (ω := ω) (k := key) hdb
        rw [fetching, run_need (Prod.ext hstep rfl), hr, hs]
        exact hm
  · rw [fetching, run_need_err (step_invalidDatabase hdb)]
    exact framed_invalidDatabase

end Grouping

theorem framed_noGroupFrame_iff {group : String} : Framed (.ok (noGroupFrame group)) ↔ Line group :=
  line_wrap_iff (plainText_of_chars rfl) (plainText_of_chars rfl)

/-- A program whose lines are lines whatever it is answered keeps to them. -/
theorem framed_of_worded {p : StoreProg RespFrame} (h : Worded Line RespFrame.Unbroken (Answered ω) p) :
    Framed (p.run (World.step ω) w).1 := by
  have hrun := Prog.Returns.run (answered_step ω) h w
  rcases hr : p.run (World.step ω) w with ⟨f | e | _, w'⟩
  · rw [hr] at hrun
    exact hrun
  · rw [hr] at hrun
    exact hrun
  · trivial

/-- Arguments that are refused are refused on one line. -/
theorem reading_framed_iff {α : Type} (args : Args α) {body : α → StoreProg RespFrame} {P : α → Prop}
    (h : Refuses RespFrame.Unbroken args) (hbody : ∀ a, Framed ((body a).run (World.step ω) w).1 ↔ P a) :
    Framed ((reading args body).run (World.step ω) w).1 ↔ ∀ a, args = .ok a → P a := by
  cases args with
  | ok a =>
      refine (hbody a).trans ⟨fun hp b hb => ?_, fun hp => hp a rfl⟩
      cases hb
      exact hp
  | error f => exact iff_of_true (h f rfl) (by rintro a ⟨⟩)

/-- A command on a group that answers with its name exactly if there is no such
group. -/
theorem grouping_framed_iff {key : Key} {α : Type} {c : KeyCmd (StreamAccess α)} {g : GroupCmd α}
    {missing : RespFrame} {render : α → RespFrame} {group : String} (hc : c.step key = KeyOps.onGroups g)
    (hm : missing.Everywhere RespFrame.Unbroken)
    (hnone : ∀ ctx s, s.consumerGroups.get? group = none → render (g.apply ctx s).1 = noGroupFrame group)
    (hsome : ∀ ctx s gr, s.consumerGroups.get? group = some gr →
      (render (g.apply ctx s).1).Everywhere RespFrame.Unbroken) :
    Framed ((grouping db key c missing render).run (World.step ω) w).1 ↔
      (unknownGroup ω db w key group = true → Line group) := by
  constructor
  · intro h hunknown
    obtain ⟨s, hs, hg⟩ := unknownGroup_iff.mp hunknown
    rw [run_grouping hc hs, hnone _ s hg] at h
    exact framed_noGroupFrame_iff.mp h
  · refine fun h => framed_grouping hc hm fun s hs => ?_
    cases hg : s.consumerGroups.get? group with
    | none =>
        rw [hnone _ s hg]
        exact framed_noGroupFrame_iff.mpr (h (unknownGroup_iff.mpr ⟨s, hs, hg⟩))
    | some gr => exact hsome _ s gr hg

@[inherit_doc grouping_framed_iff]
theorem fetching_framed_iff {key : Key} {missing : RespFrame} {found : Stream → StoreProg RespFrame}
    {group : String} (hm : missing.Everywhere RespFrame.Unbroken)
    (hnone : ∀ s, s.consumerGroups.get? group = none → found s = .ret (noGroupFrame group))
    (hsome : ∀ s gr, s.consumerGroups.get? group = some gr →
      Worded Line RespFrame.Unbroken (Answered ω) (found s)) :
    Framed ((fetching db key missing found).run (World.step ω) w).1 ↔
      (unknownGroup ω db w key group = true → Line group) := by
  constructor
  · intro h hunknown
    obtain ⟨s, hs, hg⟩ := unknownGroup_iff.mp hunknown
    obtain ⟨w', hfound⟩ := run_fetching missing found hs
    rw [hfound, hnone s hg] at h
    exact framed_noGroupFrame_iff.mp h
  · refine fun h => framed_fetching hm fun s w' hs => ?_
    cases hg : s.consumerGroups.get? group with
    | none =>
        rw [hnone s hg]
        exact framed_noGroupFrame_iff.mpr (h (unknownGroup_iff.mpr ⟨s, hs, hg⟩))
    | some gr => exact framed_of_worded (hsome s gr hg)

/-! ### XINFO CONSUMERS -/

/-- Key and group of XINFO CONSUMERS. -/
def infoConsumersArgs (parts : Parts) : Args (Key × String) := do
  arity "xinfo consumers" (parts.length == 4)
  let key ← bulk parts 2 "key"
  let group ← text parts 3 "group name"
  return (key, group)

theorem handleXinfoConsumers_framed_iff :
    Framed ((handleXinfoConsumers db parts).run (World.step ω) w).1 ↔
      ∀ a, infoConsumersArgs parts = .ok a → unknownGroup ω db w a.1 a.2 = true → Line a.2 := by
  refine reading_framed_iff (infoConsumersArgs parts) ?_ fun ⟨key, group⟩ => ?_
  · exact (wording_line.arity rfl).bind fun _ => (wording_line.bulkArg rfl).bind fun _ =>
      (refuses_text wording_line parts rfl).bind fun _ => .pure _
  · refine fetching_framed_iff (wording_line.list (List.forall_mem_nil _)) (fun s hg => ?_) fun s gr hg => ?_
    · rw [hg]
    · rw [hg]
      exact worded_consumersLoop wording_line (answers_answered ω) _ _ (List.forall_mem_nil _)

/-! ### XGROUP -/

theorem handleXgroupCreateconsumer_framed_iff :
    Framed ((handleXgroupCreateconsumer db parts).run (World.step ω) w).1 ↔
      ∀ a, consumerArgs "xgroup createconsumer" parts = .ok a →
        unknownGroup ω db w a.1 a.2.1 = true → Line a.2.1 := by
  refine reading_framed_iff _ ?_ fun ⟨key, group, consumer⟩ => ?_
  · exact (wording_line.arity rfl).bind fun _ => (wording_line.bulkArg rfl).bind fun _ =>
      (refuses_text wording_line parts rfl).bind fun _ =>
        (refuses_text wording_line parts rfl).bind fun _ => .pure _
  · refine grouping_framed_iff (g := .createConsumer group consumer) rfl (everywhere_noSuchKey wording_line)
      (fun ctx s hg => ?_) fun ctx s gr hg => ?_
    · simp only [GroupCmd.apply, hg]
    · simp only [GroupCmd.apply, hg]
      exact wording_line.flag _

theorem handleXgroupSetid_framed_iff :
    Framed ((handleXgroupSetid db parts).run (World.step ω) w).1 ↔
      ∀ a, groupArgs "xgroup setid" parts = .ok a → (groupStart false a.2.2).toOption.isSome = true →
        unknownGroup ω db w a.1 a.2.1 = true → Line a.2.1 := by
  refine reading_framed_iff _ (refuses_groupArgs wording_line parts rfl) fun ⟨key, group, id⟩ => ?_
  dsimp only
  cases hstart : groupStart false id with
  | ok start =>
      refine Iff.trans ?_ ⟨fun h _ => h, fun h => h rfl⟩
      refine grouping_framed_iff (g := .setId group start) rfl (everywhere_noSuchKey wording_line)
        (fun ctx s hg => ?_) fun ctx s gr hg => ?_
      · simp only [GroupCmd.apply, hg, Bool.false_eq_true, if_false]
      · simp only [GroupCmd.apply, hg, if_true]
        exact wording_line.ok
  | error complaint =>
      refine iff_of_true ?_ (by rintro ⟨⟩)
      exact framed_fetching (everywhere_noSuchKey wording_line) fun _ _ _ =>
        everywhere_groupStart wording_line hstart

/-! ### XCLAIM -/

/-- Key, group, consumer and the rest of XCLAIM. -/
def claimAllArgs (parts : Parts) :
    Args (Key × String × String × Nat × List StreamId × Bool × Bool) := do
  arity "xclaim" (6 ≤ parts.length)
  let key ← bulk parts 1 "key"
  let group ← textOr "ERR invalid group name" parts 2
  let consumer ← textOr "ERR invalid consumer name" parts 3
  let idle ← textOr "ERR invalid min-idle-time" parts 4
  match parseU64 idle with
  | none => reject "ERR Invalid min-idle-time"
  | some idle =>
      let (ids, force, justid) ← claimArgs (parts.drop 5) [] false false
      return (key, group, consumer, idle, ids, force, justid)

theorem handleXclaim_framed_iff :
    Framed ((handleXclaim db parts).run (World.step ω) w).1 ↔
      ∀ a, claimAllArgs parts = .ok a → unknownGroup ω db w a.1 a.2.1 = true → Line a.2.1 := by
  refine reading_framed_iff (claimAllArgs parts) ?_
    fun ⟨key, group, consumer, idle, ids, force, justid⟩ => ?_
  · refine (wording_line.arity rfl).bind fun _ => (wording_line.bulkArg rfl).bind fun _ =>
      (refuses_textOr wording_line parts rfl 2).bind fun _ => (refuses_textOr wording_line parts rfl 3).bind fun _ =>
        (refuses_textOr wording_line parts rfl 4).bind fun idle => ?_
    split
    · exact wording_line.reject rfl
    · exact (refuses_claimArgs wording_line _ _ _ _).bind fun _ => .pure _
  · refine grouping_framed_iff (g := .claim group consumer idle ids force) rfl
      (wording_line.list (List.forall_mem_nil _)) (fun ctx s hg => ?_) fun ctx s gr hg => ?_
    · simp only [GroupCmd.apply, Stream.claimMessages, hg, GroupCmd.settle]
      rfl
    · simp only [GroupCmd.apply, Stream.claimMessages, hg, GroupCmd.settle]
      split
      · exact wording_line.listMap _ _ fun _ => wording_line.text _
      · exact everywhere_entriesFrame wording_line _

/-! ### XREADGROUP -/

/-- A stream that XREADGROUP gets to does not know the group. -/
def readsUnknown (ω : Nat → Ctx) (db : Nat) (group consumer : String) (o : ReadGroupOptions) :
    List (RespFrame × RespFrame) → World → Bool
  | [], _ => false
  | (k, i) :: rest, w =>
      match readGroupPair k i with
      | .error _ => false
      | .ok (key, id) =>
          match readGroupStart id, seen (ω w.calls) (w.engine.entryAt db key) with
          | some after, .found s =>
              (s.consumerGroups.get? group).isNone || readsUnknown ω db group consumer o rest
                (World.step ω _ (.key db key (.readGroup group consumer after o.limit o.noack)) w).2
          | some after, .missing => readsUnknown ω db group consumer o rest
              (World.step ω _ (.key db key (.readGroup group consumer after o.limit o.noack)) w).2
          | none, .missing => readsUnknown ω db group consumer o rest (World.step ω _ (.key db key .get) w).2
          | _, _ => false

theorem step_database (β : Type) (db : Nat) (key : Key) (c : KeyCmd β) (w : World) :
    (World.step ω β (.key db key c) w).2.engine.databases.length = w.engine.databases.length :=
  Engine.withEntry_databases_length _ _ _ _ _

/-- Where there is no database nothing is read. -/
theorem readsUnknown_missing {group consumer : String} {o : ReadGroupOptions}
    (pairs : List (RespFrame × RespFrame)) (hdb : ¬ db < w.engine.databases.length) :
    readsUnknown ω db group consumer o pairs w = false := by
  induction pairs generalizing w with
  | nil => rfl
  | cons p rest ih =>
      obtain ⟨k, i⟩ := p
      rw [readsUnknown]
      cases readGroupPair k i with
      | error f => rfl
      | ok a =>
          have hnone : w.engine.databases[db]? = none := List.getElem?_eq_none (Nat.le_of_not_lt hdb)
          have hseen : seen (ω w.calls) (w.engine.entryAt db a.1) = .missing := by
            rw [Engine.entryAt, Engine.shard?, hnone]
            rfl
          dsimp only
          rw [hseen]
          cases readGroupStart a.2 with
          | none => exact ih (by rwa [step_database])
          | some after => exact ih (by rwa [step_database])

theorem refuses_readGroupPair (k i : RespFrame) : Refuses RespFrame.Unbroken (readGroupPair k i) :=
  (wording_line.bulkArg rfl).bind fun _ => (refuses_text wording_line [i] rfl).bind fun _ => .pure _

/-- XREADGROUP answers with the name of the group exactly if a stream it gets to
does not know it. -/
theorem readGroupLoop_framed_iff {group consumer : String} {o : ReadGroupOptions}
    (pairs : List (RespFrame × RespFrame)) (acc : List RespFrame)
    (hacc : ∀ f ∈ acc, f.Everywhere RespFrame.Unbroken) :
    Framed ((readGroupLoop db group consumer o pairs acc).run (World.step ω) w).1 ↔
      (readsUnknown ω db group consumer o pairs w = true → Line group) := by
  induction pairs generalizing acc w with
  | nil =>
      refine iff_of_true ?_ (by rintro ⟨⟩)
      rw [readGroupLoop]
      split
      · exact wording_line.nullArray
      · exact wording_line.list hacc
  | cons p rest ih =>
      obtain ⟨k, i⟩ := p
      by_cases hdb : db < w.engine.databases.length
      · change Framed ((reading (readGroupPair k i) _).run (World.step ω) w).1 ↔ _
        rw [readsUnknown]
        cases hp : readGroupPair k i with
        | error f => exact iff_of_true (refuses_readGroupPair k i f hp) (by rintro ⟨⟩)
        | ok a =>
            obtain ⟨key, id⟩ := a
            simp only [reading]
            cases hstart : readGroupStart id with
            | none =>
                obtain ⟨r, hstep, hr⟩ := step_getAnswer (ω := ω) (k := key) hdb
                dsimp only
                rw [run_need (Prod.ext hstep rfl), hr]
                cases seen (ω w.calls) (w.engine.entryAt db key) with
                | found s => exact iff_of_true (wording_line.err rfl) (by rintro ⟨⟩)
                | wrongType => exact iff_of_true (wording_line.err rfl) (by rintro ⟨⟩)
                | missing => exact ih acc hacc
            | some after =>
                have hstep := step_groupAnswer (ω := ω) (k := key)
                  (c := .readGroup group consumer after o.limit o.noack)
                  (g := .readGroup group consumer after o.limit o.noack) rfl hdb
                dsimp only
                rw [run_need (Prod.ext hstep rfl)]
                cases hs : seen (ω w.calls) (w.engine.entryAt db key) with
                | wrongType => exact iff_of_true (wording_line.err rfl) (by rintro ⟨⟩)
                | missing => exact ih acc hacc
                | found s =>
                    have happly := readGroup_apply (ω w.calls) s group consumer after o.limit o.noack
                    dsimp only [groupAnswer]
                    cases hg : s.consumerGroups.get? group with
                    | none =>
                        have hnone : ((GroupCmd.readGroup group consumer after o.limit o.noack).apply
                            (ω w.calls) s).1 = .error (Stream.noGroup group) := by
                          simp only [GroupCmd.apply, Stream.readGroup, hg, GroupCmd.settle]
                        rw [hnone]
                        exact framed_noGroupFrame_iff.trans ⟨fun h _ => h, fun h => h rfl⟩
                    | some gr =>
                        rw [hg] at happly
                        obtain ⟨s', happly, -⟩ := happly
                        rw [happly]
                        simp only [Option.isNone_some, Bool.false_or]
                        refine ih _ fun f hf => ?_
                        split at hf
                        · exact hacc f hf
                        · rcases List.mem_append.mp hf with hf | hf
                          · exact hacc f hf
                          · exact List.mem_singleton.mp hf ▸ everywhere_streamFrame wording_line _ _
      · rw [readsUnknown_missing _ hdb]
        refine iff_of_true ?_ (by rintro ⟨⟩)
        change Framed ((reading (readGroupPair k i) _).run (World.step ω) w).1
        cases hp : readGroupPair k i with
        | error f => exact refuses_readGroupPair k i f hp
        | ok a =>
            simp only [reading]
            split
            · rw [run_need_err (step_invalidDatabase hdb)]
              exact framed_invalidDatabase
            · rw [run_need_err (step_invalidDatabase hdb)]
              exact framed_invalidDatabase

theorem handleXreadgroup_framed_iff :
    Framed ((handleXreadgroup db parts).run (World.step ω) w).1 ↔
      ∀ a, readGroupArgs parts = .ok a → readsUnknown ω db a.1 a.2.1 a.2.2.1 a.2.2.2 w = true → Line a.1 := by
  refine reading_framed_iff (readGroupArgs parts) ?_
    fun ⟨group, consumer, o, pairs⟩ => readGroupLoop_framed_iff pairs [] (List.forall_mem_nil _)
  refine (wording_line.arity rfl).bind fun _ => .guarded (wording_line.reject rfl) ?_
  exact (refuses_textOr wording_line parts rfl 2).bind fun _ => (refuses_textOr wording_line parts rfl 3).bind fun _ =>
    (refuses_readGroupOptions wording_line _ _).bind fun _ =>
      (refuses_keysAndIds wording_line (wording_line.plain (plainText_of_chars rfl)) _).bind fun _ => .pure _

/-! ## Subcommands -/

theorem line_of_mem {l : List String} {sub : String} (h : sub ∈ l) (hl : l.all plainText = true) : Line sub :=
  line_of_plainText (List.all_eq_true.mp hl sub h)

theorem length_of_part {bytes : Bytes} {i : Nat} (h : (parts[i]?).bind RespFrame.bulk? = some bytes) :
    i < parts.length := by
  by_contra hlen
  rw [List.getElem?_eq_none (Nat.le_of_not_lt hlen)] at h
  cases h

theorem arity_of_part {cmd : String} {bytes : Bytes} (h : (parts[1]?).bind RespFrame.bulk? = some bytes) :
    arity cmd (decide (2 ≤ parts.length)) = .ok () := by
  rw [decide_eq_true (Nat.succ_le_of_lt (length_of_part h))]
  rfl

theorem word?_eq_none {p : Option RespFrame} (h : p.bind RespFrame.bulk? = none) : p.bind word? = none := by
  cases p with
  | none => rfl
  | some q => exact congrArg (Option.map fun bytes => toUppercase (fromUtf8Lossy bytes)) h

/-- A command repeats a subcommand that it does not know. -/
theorem subcommands_framed_iff {cmd : List Char} (hcmd : cmd.all plainChar = true)
    {run : String → Option (StoreProg RespFrame)} {P : String → Prop}
    (hsome : ∀ sub p, run sub = some p → (Framed (p.run (World.step ω) w).1 ↔ P sub))
    (hnone : ∀ sub, run sub = none → (P sub ↔ Line sub)) :
    Framed ((subcommands (String.ofList cmd) run parts).run (World.step ω) w).1 ↔
      ∀ sub, (parts[1]?).bind word? = some sub → P sub := by
  refine (reading_framed_iff _ (P := fun sub => P (toUppercase sub)) ?_ fun sub => ?_).trans ?_
  · exact (wording_line.arity hcmd).bind fun _ => refuses_text wording_line parts rfl
  · cases hrun : run (toUppercase sub) with
    | some p => exact hsome _ p hrun
    | none =>
        rw [hnone _ hrun]
        exact line_wrap_iff (plainText_of_chars rfl) (plainText_of_chars rfl)
  · cases hbulk : (parts[1]?).bind RespFrame.bulk? with
    | none =>
        rw [word?_eq_none hbulk]
        refine iff_of_true (fun sub hsub => ?_) (by rintro _ ⟨⟩)
        obtain ⟨-, -, hsub⟩ := bind_ok hsub
        rw [Ferrous.text, bulk, hbulk] at hsub
        cases hsub
    | some bytes =>
        rw [word?_eq_some hbulk, arity_of_part hbulk, Ferrous.text, bulk, hbulk]
        exact ⟨fun h sub hsub => Option.some.inj hsub ▸ h _ rfl,
          fun h sub hsub => h _ (Except.ok.inj hsub ▸ rfl)⟩

/-! ### XINFO and XGROUP -/

/-- XINFO keeps to its lines. -/
def infoKeepsLines (ω : Nat → Ctx) (db : Nat) (parts : Parts) (w : World) (sub : String) : Prop :=
  Line sub ∧ (sub = "CONSUMERS" → ∀ a, infoConsumersArgs parts = .ok a →
    unknownGroup ω db w a.1 a.2 = true → Line a.2)

theorem handleXinfo_framed_iff :
    Framed ((handleXinfo db parts).run (World.step ω) w).1 ↔
      ∀ sub, (parts[1]?).bind word? = some sub → infoKeepsLines ω db parts w sub := by
  have hknown {sub : String} {p : StoreProg RespFrame} (h : sub ∈ ["STREAM", "GROUPS", "HELP"])
      (hp : Worded Line RespFrame.Unbroken (Answered ω) p) :
      Framed (p.run (World.step ω) w).1 ↔ infoKeepsLines ω db parts w sub := by
    refine iff_of_true (framed_of_worded hp) ⟨line_of_mem h (by decide), ?_⟩
    rintro rfl
    exact absurd h (by decide)
  refine subcommands_framed_iff rfl (fun sub p hrun => ?_) fun sub hrun => ?_
  · split at hrun
    · exact Option.some.inj hrun ▸ hknown (by decide)
        (worded_handleXinfoStream wording_line (answers_answered ω) parts)
    · exact Option.some.inj hrun ▸ hknown (by decide)
        (worded_handleXinfoGroups wording_line (answers_answered ω) parts)
    · rw [← Option.some.inj hrun, handleXinfoConsumers_framed_iff]
      exact ⟨fun h => ⟨line_of_mem (l := ["CONSUMERS"]) (by decide) (by decide), fun _ => h⟩,
        fun h => h.2 rfl⟩
    · exact Option.some.inj hrun ▸ hknown (by decide) (.ret (everywhere_helpFrame wording_line _))
    · cases hrun
  · refine ⟨And.left, fun h => ⟨h, ?_⟩⟩
    rintro rfl
    cases hrun

/-- XGROUP keeps to its lines. -/
def groupKeepsLines (ω : Nat → Ctx) (db : Nat) (parts : Parts) (w : World) (sub : String) : Prop :=
  Line sub ∧
    (sub = "CREATECONSUMER" → ∀ a, consumerArgs "xgroup createconsumer" parts = .ok a →
      unknownGroup ω db w a.1 a.2.1 = true → Line a.2.1) ∧
    (sub = "SETID" → ∀ a, groupArgs "xgroup setid" parts = .ok a →
      (groupStart false a.2.2).toOption.isSome = true → unknownGroup ω db w a.1 a.2.1 = true → Line a.2.1)

theorem handleXgroup_framed_iff :
    Framed ((handleXgroup db parts).run (World.step ω) w).1 ↔
      ∀ sub, (parts[1]?).bind word? = some sub → groupKeepsLines ω db parts w sub := by
  have hknown {sub : String} {p : StoreProg RespFrame} (h : sub ∈ ["CREATE", "DESTROY", "DELCONSUMER", "HELP"])
      (hp : Worded Line RespFrame.Unbroken (Answered ω) p) :
      Framed (p.run (World.step ω) w).1 ↔ groupKeepsLines ω db parts w sub := by
    refine iff_of_true (framed_of_worded hp) ⟨line_of_mem h (by decide), ?_, ?_⟩
    all_goals
      rintro rfl
      exact absurd h (by decide)
  refine subcommands_framed_iff rfl (fun sub p hrun => ?_) fun sub hrun => ?_
  · split at hrun
    · exact Option.some.inj hrun ▸ hknown (by decide)
        (worded_handleXgroupCreate wording_line (answers_answered ω) (groupAnswers_answered ω) parts)
    · exact Option.some.inj hrun ▸ hknown (by decide)
        (worded_handleXgroupDestroy wording_line (answers_answered ω) parts)
    · rw [← Option.some.inj hrun, handleXgroupCreateconsumer_framed_iff]
      exact ⟨fun h => ⟨line_of_mem (l := ["CREATECONSUMER"]) (by decide) (by decide), fun _ => h,
        fun hsub => absurd hsub (by decide)⟩, fun h => h.2.1 rfl⟩
    · exact Option.some.inj hrun ▸ hknown (by decide)
        (worded_handleXgroupDelconsumer wording_line (answers_answered ω) parts)
    · rw [← Option.some.inj hrun, handleXgroupSetid_framed_iff]
      exact ⟨fun h => ⟨line_of_mem (l := ["SETID"]) (by decide) (by decide),
        fun hsub => absurd hsub (by decide), fun _ => h⟩, fun h => h.2.2 rfl⟩
    · exact Option.some.inj hrun ▸ hknown (by decide) (.ret (everywhere_helpFrame wording_line _))
    · cases hrun
  · refine ⟨And.left, fun h => ⟨h, ?_, ?_⟩⟩
    all_goals
      rintro rfl
      cases hrun

/-! ### MEMORY and COMMAND -/

theorem handleMemory_framed_iff (lay : Layout) :
    Framed ((handleMemory lay db parts).run (World.step ω) w).1 ↔
      ∀ sub, (parts[1]?).bind word? = some sub → Line sub := by
  constructor
  · intro h sub hsub
    by_cases hknown : sub ∈ ["USAGE", "STATS", "DOCTOR", "HELP"]
    · exact line_of_mem hknown (by decide)
    · obtain ⟨p, hp, hword⟩ := Option.bind_eq_some_iff.mp hsub
      obtain ⟨bytes, hbytes, rfl⟩ := Option.map_eq_some_iff.mp hword
      have hbulk : (parts[1]?).bind RespFrame.bulk? = some bytes := by rw [hp]; exact hbytes
      have hrun : handleMemory lay db parts = .ret (.err (
          "ERR Unknown subcommand or wrong number of arguments for 'memory " ++
            toUppercase (fromUtf8Lossy bytes) ++ "'")) := by
        unfold handleMemory
        rw [arity_of_part hbulk, bulk, hbulk]
        simp only [bind, Except.bind, reading]
        generalize toUppercase (fromUtf8Lossy bytes) = sub at hknown ⊢
        split
        all_goals first
          | exact absurd (by decide) hknown
          | rfl
      rw [hrun] at h
      exact (line_wrap_iff (plainText_of_chars rfl) (plainText_of_chars rfl)).mp h
  · exact fun h => framed_of_worded (worded_handleMemory wording_line (answers_answered ω) parts lay
      fun bytes hb _ => h _ (word?_eq_some hb))

theorem handleCommand_framed_iff :
    Framed ((handleCommand parts).run (World.step ω) w).1 ↔
      ∀ sub, ((parts[1]?).bind RespFrame.bulk?).bind fromUtf8 = some sub → toLowercase sub ∉ ["count", "info"] →
        Line sub := by
  constructor
  · intro h sub hsub hknown
    obtain ⟨bytes, hbulk, htext⟩ := Option.bind_eq_some_iff.mp hsub
    have hlen : ¬ parts.length = 1 := by
      have := length_of_part hbulk
      omega
    have hrun : handleCommand parts = .ret (.err ("ERR unknown subcommand '" ++ sub ++ "'")) := by
      unfold handleCommand
      simp only [hbulk, htext, if_neg hlen]
      split
      all_goals first
        | rfl
        | next heq => exact absurd (by rw [heq]; decide) hknown
    rw [hrun] at h
    exact (line_wrap_iff (plainText_of_chars rfl) (plainText_of_chars rfl)).mp h
  · refine fun h => framed_of_worded (worded_handleCommand wording_line parts fun bytes sub hb htext h₁ h₂ =>
      h sub (Option.bind_eq_some_iff.mpr ⟨bytes, hb, htext⟩) ?_)
    simp only [List.mem_cons, List.not_mem_nil, or_false, not_or]
    exact ⟨h₁, h₂⟩

/-! ## Scripts -/

/-- The script of EVAL and the number of its keys. -/
def evalHead (parts : Parts) : Args (String × Nat) := do
  arity "eval" (3 ≤ parts.length)
  let script ← match (parts[1]?).bind RespFrame.bulk? with
    | none => reject "ERR invalid script"
    | some bytes =>
        match fromUtf8 bytes with
        | some s => .ok s
        | none => reject "ERR invalid script - not valid UTF-8"
  let n ← numKeysArg parts[2]?
  return (script, n)

/-- The keys and arguments of EVAL. -/
def evalTail (parts : Parts) (n : Nat) : Args (List Bytes × List Bytes) := do
  if parts.length < 3 + n then reject "ERR wrong number of arguments"
  let keys ← stringArgs "keys must be strings" ((parts.drop 3).take n)
  let args ← stringArgs "args must be strings" (parts.drop (3 + n))
  return (keys, args)

/-- What an answer of the interpreter has to keep to: the script of EVAL is run on
these keys and arguments, in this database and on this store. -/
def scriptKeepsLines (lua : LuaEngine) (ω : Nat → Ctx) (db : Nat) (parts : Parts) (w : World) : Prop :=
  ∀ script n keys args, evalHead parts = .ok (script, n) → 3 + n < 2 ^ 64 →
    evalTail parts n = .ok (keys, args) → Framed ((lua.eval script keys args db).run (World.step ω) w).1

theorem handleEval_framed_iff (lua : LuaEngine) :
    Framed ((handleEval lua db parts).run (World.step ω) w).1 ↔ scriptKeepsLines lua ω db parts w := by
  have hnumber (script : String) : Refuses RespFrame.Unbroken (do
      let n ← numKeysArg parts[2]?
      return (script, n)) := (refuses_numKeysArg wording_line _).bind fun _ => .pure _
  have hhead : Refuses RespFrame.Unbroken (evalHead parts) := by
    refine (wording_line.arity rfl).bind fun _ => ?_
    dsimp only
    split
    · exact (wording_line.reject rfl).bind hnumber
    · split
      · exact .bind (.ok _) hnumber
      · exact (wording_line.reject rfl).bind hnumber
  have htail (n : Nat) : Refuses RespFrame.Unbroken (evalTail parts n) :=
    .guarded (wording_line.reject rfl) ((refuses_stringArgs wording_line rfl _).bind fun _ =>
      (refuses_stringArgs wording_line rfl _).bind fun _ => .pure _)
  refine (reading_framed_iff (evalHead parts) (P := fun a => 3 + a.2 < 2 ^ 64 → ∀ b,
    evalTail parts a.2 = .ok b → Framed ((lua.eval a.1 b.1 b.2 db).run (World.step ω) w).1) hhead
      fun ⟨script, n⟩ => ?_).trans ?_
  · dsimp only
    split
    · next hbig => exact iff_of_true trivial fun hsmall => absurd hsmall (Nat.not_lt_of_le hbig)
    · next hsmall =>
        refine (reading_framed_iff (evalTail parts n) (P := fun b =>
          Framed ((lua.eval script b.1 b.2 db).run (World.step ω) w).1) (htail n) fun _ => Iff.rfl).trans ?_
        exact ⟨fun h _ => h, fun h => h (Nat.lt_of_not_le hsmall)⟩
  · exact ⟨fun h script n keys args hh hn ht => h (script, n) hh hn (keys, args) ht,
      fun h a hh hn b ht => h a.1 a.2 b.1 b.2 hh hn ht⟩

end Ferrous
