/-
# `Commands.GroupReplies` — replies of the consumer group commands

The group a client names comes back in the reply that there is no such group.
Where that line has the property of lines, the replies of these commands are
worded like all others.
-/
import Ferrous.Commands.Replies

namespace Ferrous

open Lib Args

/-- The reply on an unknown group is a line. -/
def Names (L : String → Prop) (group : String) : Prop := L (Stream.noGroup group)

/-- What the group operations answer. -/
structure GroupAnswers (L : String → Prop) (A : ∀ β : Type, Op β → Except FerrousError β → Prop) :
    Prop where
  created : ∀ {db key group start msg},
    A _ (.key db key (.groupCreate group start)) (.ok (.found (.error msg))) → L msg
  read : ∀ {db key group consumer after limit noack msg}, Names L group →
    A _ (.key db key (.readGroup group consumer after limit noack)) (.ok (.found (.error msg))) → L msg
  acknowledged : ∀ {db key group ids msg}, containsText msg "NOGROUP" = false →
    A _ (.key db key (.acknowledge group ids)) (.ok (.found (.error msg))) → L msg
  claimed : ∀ {db key group consumer idle ids force msg}, Names L group →
    A _ (.key db key (.claim group consumer idle ids force)) (.ok (.found (.error msg))) → L msg

section GroupHandlers

variable {L : String → Prop} {Q : RespFrame → Prop}
  {A : ∀ β : Type, Op β → Except FerrousError β → Prop} (W : Wording L Q) (H : Answers L A)
  (G : GroupAnswers L A) {db : Nat} (parts : Parts)

include W

/-! ## Streams under a key -/

theorem refuses_text {i : Nat} {what : List Char} (hwhat : what.all plainChar = true) :
    Refuses Q (Ferrous.text parts i (String.ofList what)) :=
  (W.bulkArg hwhat).map _

theorem refuses_textOr {complaint : List Char} (hc : complaint.all plainChar = true) (i : Nat) :
    Refuses Q (textOr (String.ofList complaint) parts i) := by
  unfold textOr
  split
  · exact .ok _
  · exact W.reject hc

theorem worded_onStream {α : Type} {missing : RespFrame} {found : α → StoreProg RespFrame}
    (hm : missing.Everywhere Q) (hf : ∀ a, Worded L Q A (found a)) (r : StreamAccess α) :
    Worded L Q A (onStream missing found r) := by
  cases r with
  | found a => exact hf a
  | wrongType => exact .ret (W.err rfl)
  | missing => exact .ret hm

include H in
theorem worded_fetching {key : Key} {missing : RespFrame} {found : Stream → StoreProg RespFrame}
    (hm : missing.Everywhere Q) (hf : ∀ s, Worded L Q A (found s)) :
    Worded L Q A (fetching db key missing found) :=
  .need H fun _ _ => worded_onStream W hm hf _

include H in
theorem worded_grouping {α : Type} {key : Key} {c : KeyCmd (StreamAccess α)} {missing : RespFrame}
    {render : α → RespFrame} (hm : missing.Everywhere Q)
    (hr : ∀ a, A _ (.key db key c) (.ok (.found a)) → (render a).Everywhere Q) :
    Worded L Q A (grouping db key c missing render) := by
  refine .need H fun r hans => ?_
  cases r with
  | found a => exact .ret (hr a hans)
  | wrongType => exact .ret (W.err rfl)
  | missing => exact .ret hm

theorem everywhere_noSuchKey : noSuchKey.Everywhere Q := W.err rfl

theorem everywhere_noGroupFrame {group : String} (h : Names L group) :
    (noGroupFrame group).Everywhere Q := W.error h

theorem everywhere_helpFrame (lines : List String) : (helpFrame lines).Everywhere Q :=
  W.listMap _ _ W.text

/-- A text argument that is accepted is the part's. -/
theorem reads_text {i : Nat} {what : List Char} (hwhat : what.all plainChar = true) :
    Fetches (fun s => ∃ bytes, (parts[i]?).bind RespFrame.bulk? = some bytes ∧ s = fromUtf8Lossy bytes) Q
      (Ferrous.text parts i (String.ofList what)) := by
  unfold Ferrous.text Args.bulk
  split
  · next bytes hbytes => exact ⟨bytes, hbytes, rfl⟩
  · exact W.error (W.invalidFormat hwhat)

/-- A command that knows its subcommand answers as it does, and with the name of
one it does not know. -/
theorem worded_subcommands {cmd : List Char} (hcmd : cmd.all plainChar = true)
    {run : String → Option (StoreProg RespFrame)}
    (hrun : ∀ bytes p, (parts[1]?).bind RespFrame.bulk? = some bytes →
      run (toUppercase (fromUtf8Lossy bytes)) = some p → Worded L Q A p)
    (hsub : ∀ bytes, (parts[1]?).bind RespFrame.bulk? = some bytes →
      run (toUppercase (fromUtf8Lossy bytes)) = none → L (toUppercase (fromUtf8Lossy bytes))) :
    Worded L Q A (subcommands (String.ofList cmd) run parts) := by
  refine .readingWith (.after (W.arity hcmd) fun _ => reads_text W parts rfl) ?_
  rintro sub ⟨bytes, hbytes, rfl⟩
  cases hr : run (toUppercase (fromUtf8Lossy bytes)) with
  | some p => exact hrun bytes p hbytes hr
  | none =>
      exact .ret (W.error (W.wrap (plainText_of_chars rfl) (plainText_of_chars rfl)
        (hsub bytes hbytes hr)))

theorem everywhere_optEntry (e : Option StreamEntry) : (optEntry e).Everywhere Q := by
  cases e with
  | none => exact W.nullArray
  | some e => exact everywhere_entryFrame W e

theorem everywhere_streamInfo (s : Stream) : (streamInfo s).Everywhere Q := by
  refine W.list fun f hf => ?_
  simp only [List.mem_cons, List.not_mem_nil, or_false] at hf
  rcases hf with rfl | rfl | rfl | rfl | rfl | rfl | rfl | rfl | rfl | rfl | rfl | rfl | rfl | rfl
  all_goals first
    | exact W.text _
    | exact W.integer _
    | exact everywhere_optEntry W _

include H in
theorem worded_handleXinfoStream : Worded L Q A (handleXinfoStream db parts) :=
  .reading ((W.arity rfl).bind fun _ => W.bulkArg rfl) fun _ =>
    worded_fetching W H (everywhere_noSuchKey W) fun s => .ret (everywhere_streamInfo W s)

theorem everywhere_groupInfo (g : ConsumerGroup) : (groupInfo g).Everywhere Q := by
  refine W.list fun f hf => ?_
  simp only [List.mem_cons, List.not_mem_nil, or_false] at hf
  rcases hf with rfl | rfl | rfl | rfl | rfl | rfl | rfl | rfl
  all_goals first
    | exact W.text _
    | exact W.integer _

include H in
theorem worded_handleXinfoGroups : Worded L Q A (handleXinfoGroups db parts) :=
  .reading ((W.arity rfl).bind fun _ => W.bulkArg rfl) fun _ =>
    worded_fetching W H (W.list nofun) fun _ =>
      .ret (W.listMap _ _ fun p => everywhere_groupInfo W p.2)

include H in
theorem worded_consumersLoop (cs : List (String × Consumer)) (acc : List RespFrame)
    (h : ∀ f ∈ acc, f.Everywhere Q) : Worded L Q A (consumersLoop cs acc) := by
  induction cs generalizing acc with
  | nil => exact .ret (W.list h)
  | cons p cs ih =>
      refine .need H fun now _ => ih _ fun f hf => ?_
      rcases List.mem_append.mp hf with hf | hf
      · exact h f hf
      · refine List.mem_singleton.mp hf ▸ W.list fun g hg => ?_
        simp only [List.mem_cons, List.not_mem_nil, or_false] at hg
        rcases hg with rfl | rfl | rfl | rfl | rfl | rfl
        all_goals first
          | exact W.text _
          | exact W.integer _

include H in
theorem worded_handleXinfoConsumers
    (hg : ∀ bytes, (parts[3]?).bind RespFrame.bulk? = some bytes → Names L (fromUtf8Lossy bytes)) :
    Worded L Q A (handleXinfoConsumers db parts) := by
  refine .readingWith (P := fun a => Names L a.2) (.after (W.arity rfl) fun _ =>
    .after (W.bulkArg rfl) fun key => (reads_text W parts rfl).bind fun group hgroup => ?_)
      fun ⟨key, group⟩ hname => worded_fetching W H (W.list nofun) fun s => ?_
  · obtain ⟨bytes, hbytes, rfl⟩ := hgroup
    exact hg bytes hbytes
  · split
    · exact .ret (everywhere_noGroupFrame W hname)
    · exact worded_consumersLoop W H _ _ nofun

include H in
/-- XINFO answers with a subcommand it does not know. -/
theorem worded_handleXinfo
    (hsub : ∀ bytes, (parts[1]?).bind RespFrame.bulk? = some bytes →
      toUppercase (fromUtf8Lossy bytes) ∉ ["STREAM", "GROUPS", "CONSUMERS", "HELP"] →
      L (toUppercase (fromUtf8Lossy bytes)))
    (hg : ∀ bytes sub, (parts[1]?).bind RespFrame.bulk? = some sub →
      toUppercase (fromUtf8Lossy sub) = "CONSUMERS" →
      (parts[3]?).bind RespFrame.bulk? = some bytes → Names L (fromUtf8Lossy bytes)) :
    Worded L Q A (handleXinfo db parts) := by
  refine worded_subcommands W parts rfl (fun bytes p hbytes hp => ?_) fun bytes hbytes hnone => ?_
  · split at hp
    · exact Option.some.inj hp ▸ worded_handleXinfoStream W H parts
    · exact Option.some.inj hp ▸ worded_handleXinfoGroups W H parts
    · next hname =>
        exact Option.some.inj hp ▸ worded_handleXinfoConsumers W H parts fun group hgroup =>
          hg group bytes hbytes hname hgroup
    · exact Option.some.inj hp ▸ .ret (everywhere_helpFrame W _)
    · cases hp
  · refine hsub bytes hbytes fun hmem => ?_
    simp only [List.mem_cons, List.not_mem_nil, or_false] at hmem
    rcases hmem with h | h | h | h
    all_goals
      rw [h] at hnone
      cases hnone

/-! ## XGROUP -/

theorem everywhere_groupStart {zero : Bool} {s : String} {f : RespFrame}
    (h : groupStart zero s = .error f) : f.Everywhere Q := by
  unfold groupStart at h
  split at h
  · cases h
  · split at h
    · cases h
    · split at h
      · cases h
      · exact Except.error.inj h ▸ W.err rfl

theorem everywhere_createdFrame {r : Except String Unit} (h : ∀ msg, r = .error msg → L msg) :
    (createdFrame r).Everywhere Q := by
  cases r with
  | ok u => exact W.ok
  | error msg =>
      simp only [createdFrame]
      split
      · exact W.err rfl
      · exact W.error (W.append (plainText_of_chars rfl) (h msg rfl))

theorem refuses_groupArgs {cmd : List Char} (hcmd : cmd.all plainChar = true) :
    Refuses Q (groupArgs (String.ofList cmd) parts) :=
  (W.arity hcmd).bind fun _ => (W.bulkArg rfl).bind fun _ => (refuses_text W parts rfl).bind fun _ =>
    (refuses_text W parts rfl).bind fun _ => .pure _

/-- The group is the fourth part. -/
theorem reads_groupArgs {cmd : List Char} (hcmd : cmd.all plainChar = true)
    (hg : ∀ bytes, (parts[3]?).bind RespFrame.bulk? = some bytes → Names L (fromUtf8Lossy bytes)) :
    Fetches (fun a => Names L a.2.1) Q (groupArgs (String.ofList cmd) parts) := by
  refine .after (W.arity hcmd) fun _ => .after (W.bulkArg rfl) fun key =>
    (reads_text W parts rfl).bind fun group hgroup => .after (refuses_text W parts rfl) fun id => ?_
  obtain ⟨bytes, hbytes, rfl⟩ := hgroup
  exact hg bytes hbytes

include H G in
theorem worded_handleXgroupCreate : Worded L Q A (handleXgroupCreate db parts) := by
  refine .reading (refuses_groupArgs W parts rfl) fun ⟨key, group, id⟩ => ?_
  have habsent (mkstream : Bool) {p : StoreProg RespFrame} (hp : Worded L Q A p) :
      Worded L Q A (if mkstream then do
          need (.key db key (.setValue (.stream Stream.new) none))
          p
        else .ret (.err "ERR The XGROUP subcommand requires the key to exist")) := by
    split
    · exact .need H fun _ _ => hp
    · exact .ret (W.err rfl)
  have hcreated {start : Option StreamId} {r : Except String Unit}
      (hr : A _ (.key db key (.groupCreate group start)) (.ok (.found r))) :
      (createdFrame r).Everywhere Q :=
    everywhere_createdFrame W fun msg hmsg => G.created (hmsg ▸ hr)
  dsimp only
  split
  · next start _ =>
      refine .need H fun r hr => ?_
      cases r with
      | found a => exact .ret (hcreated hr)
      | wrongType => exact .ret (W.err rfl)
      | missing =>
          exact habsent _ (worded_grouping W H (W.err rfl) fun a ha => hcreated ha)
  · next complaint hstart =>
      have hcomplaint := everywhere_groupStart W hstart
      refine .need H fun r _ => ?_
      split
      · exact .ret hcomplaint
      · exact .ret (W.err rfl)
      · exact habsent _ (.ret hcomplaint)

include H in
theorem worded_handleXgroupDestroy : Worded L Q A (handleXgroupDestroy db parts) :=
  .reading ((W.arity rfl).bind fun _ => (W.bulkArg rfl).bind fun _ =>
    (refuses_text W parts rfl).bind fun _ => .pure _) fun _ =>
      worded_grouping W H (W.int 0) fun _ _ => W.flag _

/-- The group is the fourth part. -/
theorem reads_consumerArgs {cmd : List Char} (hcmd : cmd.all plainChar = true) :
    Fetches (fun a => ∃ bytes, (parts[3]?).bind RespFrame.bulk? = some bytes ∧ a.2.1 = fromUtf8Lossy bytes)
      Q (consumerArgs (String.ofList cmd) parts) :=
  .after (W.arity hcmd) fun _ => .after (W.bulkArg rfl) fun _ =>
    (reads_text W parts rfl).bind fun _ hgroup => .after (refuses_text W parts rfl) fun _ => hgroup

include H in
theorem worded_handleXgroupCreateconsumer
    (hg : ∀ bytes, (parts[3]?).bind RespFrame.bulk? = some bytes → Names L (fromUtf8Lossy bytes)) :
    Worded L Q A (handleXgroupCreateconsumer db parts) := by
  refine .readingWith (reads_consumerArgs W parts rfl) ?_
  rintro ⟨key, group, consumer⟩ ⟨bytes, hbytes, rfl⟩
  refine worded_grouping W H (everywhere_noSuchKey W) fun a _ => ?_
  cases a with
  | some created => exact W.flag created
  | none => exact everywhere_noGroupFrame W (hg bytes hbytes)

include H in
theorem worded_handleXgroupDelconsumer : Worded L Q A (handleXgroupDelconsumer db parts) :=
  .readingWith (reads_consumerArgs W parts rfl) fun _ _ =>
    worded_grouping W H (W.int 0) fun _ _ => W.count _

include H in
theorem worded_handleXgroupSetid
    (hg : ∀ bytes, (parts[3]?).bind RespFrame.bulk? = some bytes → Names L (fromUtf8Lossy bytes)) :
    Worded L Q A (handleXgroupSetid db parts) := by
  refine .readingWith (reads_groupArgs W parts rfl hg) fun ⟨key, group, id⟩ hname => ?_
  dsimp only
  split
  · refine worded_grouping W H (everywhere_noSuchKey W) fun known _ => ?_
    cases known with
    | true => exact W.ok
    | false => exact everywhere_noGroupFrame W hname
  · next hstart =>
      exact worded_fetching W H (everywhere_noSuchKey W) fun _ => .ret (everywhere_groupStart W hstart)

include H G in
/-- XGROUP answers with a subcommand it does not know. -/
theorem worded_handleXgroup
    (hsub : ∀ bytes, (parts[1]?).bind RespFrame.bulk? = some bytes →
      toUppercase (fromUtf8Lossy bytes) ∉
        ["CREATE", "DESTROY", "CREATECONSUMER", "DELCONSUMER", "SETID", "HELP"] →
      L (toUppercase (fromUtf8Lossy bytes)))
    (hg : ∀ bytes sub, (parts[1]?).bind RespFrame.bulk? = some sub →
      toUppercase (fromUtf8Lossy sub) ∈ ["CREATECONSUMER", "SETID"] →
      (parts[3]?).bind RespFrame.bulk? = some bytes → Names L (fromUtf8Lossy bytes)) :
    Worded L Q A (handleXgroup db parts) := by
  refine worded_subcommands W parts rfl (fun bytes p hbytes hp => ?_) fun bytes hbytes hnone => ?_
  · split at hp
    · exact Option.some.inj hp ▸ worded_handleXgroupCreate W H G parts
    · exact Option.some.inj hp ▸ worded_handleXgroupDestroy W H parts
    · next hname =>
        exact Option.some.inj hp ▸ worded_handleXgroupCreateconsumer W H parts fun group hgroup =>
          hg group bytes hbytes (by rw [hname]; exact List.mem_cons_self) hgroup
    · exact Option.some.inj hp ▸ worded_handleXgroupDelconsumer W H parts
    · next hname =>
        exact Option.some.inj hp ▸ worded_handleXgroupSetid W H parts fun group hgroup =>
          hg group bytes hbytes (by rw [hname]; exact List.mem_cons_of_mem _ List.mem_cons_self) hgroup
    · exact Option.some.inj hp ▸ .ret (everywhere_helpFrame W _)
    · cases hp
  · refine hsub bytes hbytes fun hmem => ?_
    simp only [List.mem_cons, List.not_mem_nil, or_false] at hmem
    rcases hmem with h | h | h | h | h | h
    all_goals
      rw [h] at hnone
      cases hnone

/-! ## XREADGROUP -/

theorem refuses_readGroupOptions (ps : Parts) (o : ReadGroupOptions) :
    Refuses Q (readGroupOptions ps o) := by
  fun_induction readGroupOptions ps o
  all_goals first
    | exact .ok _
    | exact W.reject rfl
    | assumption

include H G in
theorem worded_readGroupLoop {group : String} (hg : Names L group) (consumer : String)
    (o : ReadGroupOptions) (pairs : List (RespFrame × RespFrame)) (acc : List RespFrame)
    (h : ∀ f ∈ acc, f.Everywhere Q) : Worded L Q A (readGroupLoop db group consumer o pairs acc) := by
  induction pairs generalizing acc with
  | nil =>
      refine .ret ?_
      split
      · exact W.nullArray
      · exact W.list h
  | cons p pairs ih =>
      rw [readGroupLoop]
      refine .reading ((W.bulkArg rfl).bind fun _ => (refuses_text W _ rfl).bind fun _ => .pure _)
        fun ⟨key, id⟩ => ?_
      dsimp only
      split
      · refine .need H fun r hr => ?_
        cases r with
        | wrongType => exact .ret (W.err rfl)
        | missing => exact ih acc h
        | found r =>
            cases r with
            | error msg => exact .ret (W.error (G.read hg hr))
            | ok es =>
                refine ih _ fun f hf => ?_
                split at hf
                · exact h f hf
                · rcases List.mem_append.mp hf with hf | hf
                  · exact h f hf
                  · exact List.mem_singleton.mp hf ▸ everywhere_streamFrame W key es
      · refine .need H fun r _ => ?_
        split
        · exact .ret (W.err rfl)
        · exact ih acc h
        · exact .ret (W.err rfl)

/-- The text of a part, with a complaint of its own. -/
theorem reads_textOr {complaint : List Char} (hc : complaint.all plainChar = true) (i : Nat) :
    Fetches (fun s => ∃ bytes, (parts[i]?).bind RespFrame.bulk? = some bytes ∧ s = fromUtf8Lossy bytes) Q
      (textOr (String.ofList complaint) parts i) := by
  unfold textOr
  split
  · next bytes hbytes => exact ⟨bytes, hbytes, rfl⟩
  · exact W.err hc

include H G in
theorem worded_handleXreadgroup
    (hg : ∀ bytes, (parts[2]?).bind RespFrame.bulk? = some bytes → Names L (fromUtf8Lossy bytes)) :
    Worded L Q A (handleXreadgroup db parts) := by
  refine .readingWith (P := fun a => Names L a.1)
    (.after (W.arity rfl) fun _ => .guarded (W.reject rfl) ?_)
    fun a hname => worded_readGroupLoop W H G hname a.2.1 a.2.2.1 a.2.2.2 [] (List.forall_mem_nil _)
  refine (reads_textOr W parts rfl 2).bind fun group hgroup => .after (refuses_textOr W parts rfl 3)
    fun _ => .after (refuses_readGroupOptions W _ _) fun _ =>
      .after (refuses_keysAndIds W (W.plain (plainText_of_chars rfl)) _) fun _ => ?_
  obtain ⟨bytes, hbytes, rfl⟩ := hgroup
  exact hg bytes hbytes

/-! ## XACK, XPENDING and XCLAIM -/

include H G in
theorem worded_handleXack : Worded L Q A (handleXack db parts) := by
  refine .reading ((W.arity rfl).bind fun _ => (W.bulkArg rfl).bind fun _ =>
    (refuses_text W parts rfl).bind fun _ => (refuses_idArgs W rfl _).bind fun _ => .pure _)
      fun ⟨key, group, ids⟩ => worded_grouping W H (W.int 0) fun r hr => ?_
  cases r with
  | ok n => exact W.count n
  | error msg =>
      dsimp only
      split
      · exact W.int 0
      · next hno => exact W.error (G.acknowledged (Bool.eq_false_iff.mpr hno) hr)

theorem everywhere_optId (id : Option StreamId) : (optId id).Everywhere Q := by
  cases id with
  | some id => exact W.text _
  | none => exact W.nullBulk

theorem everywhere_pendingSummary (g : ConsumerGroup) : (pendingSummary g).Everywhere Q := by
  refine W.list fun f hf => ?_
  simp only [List.mem_cons, List.not_mem_nil, or_false] at hf
  rcases hf with rfl | rfl | rfl | rfl
  · exact W.count _
  · exact everywhere_optId W _
  · exact everywhere_optId W _
  · refine W.listMap _ _ fun p => W.list fun f hf => ?_
    rcases List.mem_cons.mp hf with rfl | hf
    · exact W.text _
    · exact List.mem_singleton.mp hf ▸ W.count _

theorem everywhere_pendingFrame (now : Nat) (e : PendingEntry) : (pendingFrame now e).Everywhere Q := by
  refine W.list fun f hf => ?_
  simp only [List.mem_cons, List.not_mem_nil, or_false] at hf
  rcases hf with rfl | rfl | rfl | rfl
  · exact W.text _
  · exact W.text _
  · exact W.count _
  · exact W.count _

theorem refuses_pendingRangeArgs : Refuses Q (pendingRangeArgs parts) := by
  unfold pendingRangeArgs
  refine .guarded (W.reject rfl) ?_
  refine (refuses_textOr W parts rfl 3).bind fun _ => (refuses_textOr W parts rfl 4).bind fun _ =>
    (refuses_textOr W parts rfl 5).bind fun n => ?_
  split
  · exact W.reject rfl
  · exact .pure _

include H in
theorem worded_handleXpending : Worded L Q A (handleXpending db parts) := by
  refine .reading ((W.arity rfl).bind fun _ => (W.bulkArg rfl).bind fun _ =>
    (refuses_text W parts rfl).bind fun _ => .pure _) fun ⟨key, group⟩ =>
      worded_fetching W H W.nullArray fun s => ?_
  split
  · exact .ret W.nullArray
  · split
    · exact .ret (everywhere_pendingSummary W _)
    · refine .reading (refuses_pendingRangeArgs W parts) fun ⟨start, stop, n, consumer⟩ =>
        .need H fun now _ => ?_
      split
      · trivial
      · exact .ret (W.listMap _ _ (everywhere_pendingFrame W now))

theorem refuses_claimArgs (ps : Parts) (ids : List StreamId) (force justid : Bool) :
    Refuses Q (claimArgs ps ids force justid) := by
  fun_induction claimArgs ps ids force justid
  all_goals first
    | exact .ok _
    | exact W.reject rfl
    | assumption

include H G in
theorem worded_handleXclaim
    (hg : ∀ bytes, (parts[2]?).bind RespFrame.bulk? = some bytes → Names L (fromUtf8Lossy bytes)) :
    Worded L Q A (handleXclaim db parts) := by
  refine .readingWith (P := fun a => Names L a.2.1) (.after (W.arity rfl) fun _ =>
    .after (W.bulkArg rfl) fun _ => (reads_textOr W parts rfl 2).bind fun group hgroup =>
      .after (refuses_textOr W parts rfl 3) fun _ => .after (refuses_textOr W parts rfl 4) fun idle => ?_)
        fun ⟨key, group, consumer, idle, ids, force, justid⟩ hname =>
          worded_grouping W H (W.list nofun) fun r hr => ?_
  · obtain ⟨bytes, hbytes, rfl⟩ := hgroup
    split
    · exact W.err rfl
    · exact .after (refuses_claimArgs W _ _ _ _) fun _ => hg bytes hbytes
  · cases r with
    | error msg => exact W.error (G.claimed hname hr)
    | ok es =>
        dsimp only
        split
        · exact W.listMap _ _ fun _ => W.text _
        · exact everywhere_entriesFrame W es

end GroupHandlers

end Ferrous
