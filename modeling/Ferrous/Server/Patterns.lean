/-
# `Server.Patterns` — the two matchers side by side

The matcher of the subscriptions works on bytes and knows no classes, the one of
the keyspace works on characters.  Both decide the language of a pattern.  Where
a pattern of ASCII characters has no class, the languages part only at `?`,
which takes one byte here and one character there.
-/
import Ferrous.Server.PubSub
import Ferrous.Storage.GlobLanguage

namespace Ferrous

open Lib

namespace ChannelPattern

/-! ## The language of a channel pattern -/

/-- The channels of a pattern. -/
inductive Denotes : Bytes → Bytes → Prop
  | nil : Denotes [] []
  | star {p v : Bytes} (u : Bytes) : Denotes p v → Denotes (42 :: p) (u ++ v)
  | any {p v : Bytes} (b : UInt8) : Denotes p v → Denotes (63 :: p) (b :: v)
  | escaped {p v : Bytes} (b : UInt8) : Denotes p v → Denotes (92 :: b :: p) (b :: v)
  | backslash : Denotes [92] [92]
  | itself {p v : Bytes} (b : UInt8) : b ∉ [42, 63, 92] → Denotes p v → Denotes (b :: p) (b :: v)

/-- How a pattern goes on. -/
def piece : Bytes → Piece Bytes UInt8
  | [] => .done
  | p :: ps =>
      if p = 63 then .item (fun _ => true) ps
      else if p = 42 then .star ps
      else
        match p, ps with
        | 92, b :: ps => .item (b == ·) ps
        | _, _ => .item (p == ·) ps

theorem piece_star {p q : Bytes} (h : piece p = .star q) : p = 42 :: q := by
  unfold piece at h
  split at h
  · cases h
  · split at h
    · cases h
    · split at h
      · next hp =>
          cases h
          rw [hp]
      · split at h <;> cases h

theorem piece_item {p q : Bytes} {a : UInt8 → Bool} (h : piece p = .item a q) : q.length < p.length := by
  unfold piece at h
  split at h
  · cases h
  · split at h
    · cases h
      exact Nat.lt_succ_self _
    · split at h
      · cases h
      · split at h
        · cases h
          simp only [List.length_cons]
          omega
        · cases h
          exact Nat.lt_succ_self _

theorem piece_done {p : Bytes} (h : piece p = .done) : p = [] := by
  unfold piece at h
  split at h
  · rfl
  · split at h
    · cases h
    · split at h
      · cases h
      · split at h <;> cases h

/-- Channel patterns, read piece by piece. -/
def reader : Reader Bytes UInt8 where
  read := piece
  ends ps := ps.all (· == 42)
  size := List.length
  star_lt h := piece_star h ▸ Nat.lt_succ_self _
  item_lt h := piece_item h
  ends_done h := by rw [piece_done h, List.all_nil]
  ends_star h := by rw [piece_star h, List.all_cons, beq_self_eq_true, Bool.true_and]
  ends_item {p a q} h := by
    cases p with
    | nil => cases h
    | cons p ps =>
        by_cases hp : p = 42
        · subst hp
          cases h
        · rw [List.all_cons, beq_eq_false_iff_ne.mpr hp, Bool.false_and]

theorem piece_itself {b : UInt8} (h : b ∉ [42, 63, 92]) (ps : Bytes) : piece (b :: ps) = .item (b == ·) ps := by
  simp only [List.mem_cons, List.not_mem_nil, or_false, not_or] at h
  obtain ⟨hstar, hany, hescape⟩ := h
  unfold piece
  dsimp only
  rw [if_neg hany, if_neg hstar]
  split
  · exact absurd rfl hescape
  · rfl

/-- One round of the loop, by the piece it meets. -/
theorem loop_cons (fuel : Nat) (ps : Bytes) (t : UInt8) (ts : Bytes) (star : Option (Bytes × Bytes)) :
    channelLoop (fuel + 1) ps (t :: ts) star =
      match piece ps with
      | .done => channelBack (channelLoop fuel) star
      | .star q => channelLoop fuel q (t :: ts) (some (q, t :: ts))
      | .item a q => if a t then channelLoop fuel q ts star else channelBack (channelLoop fuel) star := by
  rw [channelLoop_cons]
  cases ps with
  | nil => rfl
  | cons p ps =>
      by_cases hp : p ∈ [42, 63, 92]
      · simp only [List.mem_cons, List.not_mem_nil, or_false] at hp
        rcases hp with rfl | rfl | rfl
        · rfl
        · rfl
        · unfold channelRound piece
          cases ps with
          | nil => simp
          | cons b ps => simp
      · rw [piece_itself hp]
        simp only [List.mem_cons, List.not_mem_nil, or_false, not_or] at hp
        unfold channelRound
        dsimp only
        rw [if_neg hp.2.1, if_neg hp.1, if_neg fun h => hp.2.2 h.1]
        simp only [beq_iff_eq]

/-- The loop of the source is the matcher with one remembered star. -/
theorem loop_eq_run (fuel : Nat) (ps ts : Bytes) (star : Option (Bytes × Bytes)) :
    channelLoop fuel ps ts star = (reader.run fuel ⟨ps, ts, star⟩).getD false := by
  induction fuel generalizing ps ts star with
  | zero => rfl
  | succ fuel ih =>
      cases ts with
      | nil => rfl
      | cons t ts =>
          have hback : channelBack (channelLoop fuel) star =
              ((Reader.back star).elim some (reader.run fuel)).getD false := by
            rcases star with _ | ⟨q, _ | ⟨x, ts'⟩⟩
            · rfl
            · rfl
            · exact ih _ _ _
          have hread : reader.read ps = piece ps := rfl
          rw [loop_cons, Reader.run_succ]
          cases hp : piece ps with
          | done =>
              simp only [Reader.turn, hread, hp]
              exact hback
          | star q =>
              simp only [Reader.turn, hread, hp]
              exact ih _ _ _
          | item a q =>
              simp only [Reader.turn, hread, hp]
              cases a t with
              | true => exact ih _ _ _
              | false => exact hback

/-- What the rules give, the pieces give. -/
theorem Denotes.language {ps ts : Bytes} (h : Denotes ps ts) : reader.Language ps ts := by
  induction h with
  | nil => exact .done rfl
  | star u _ ih => exact .star u rfl ih
  | any b _ ih => exact .item rfl rfl ih
  | escaped b _ ih => exact .item rfl (beq_self_eq_true b) ih
  | backslash => exact .item rfl (beq_self_eq_true _) (.done rfl)
  | itself b hb _ ih => exact .item (piece_itself hb _) (beq_self_eq_true b) ih

/-- What the pieces give, the rules give. -/
theorem denotes_of_language {ps ts : Bytes} (h : reader.Language ps ts) : Denotes ps ts := by
  induction h with
  | done hdone => exact piece_done hdone ▸ .nil
  | star u hstar _ ih => exact piece_star hstar ▸ .star u ih
  | @item p q a t v hitem ht _ ih =>
      have hitem : piece p = .item a q := hitem
      cases p with
      | nil => cases hitem
      | cons b ps =>
          by_cases hb : b ∈ [42, 63, 92]
          · simp only [List.mem_cons, List.not_mem_nil, or_false] at hb
            rcases hb with rfl | rfl | rfl
            · cases hitem
            · cases hitem
              exact .any t ih
            · cases ps with
              | nil =>
                  cases hitem
                  obtain rfl := beq_iff_eq.mp ht
                  cases ih with
                  | nil => exact .backslash
              | cons b ps =>
                  cases hitem
                  obtain rfl := beq_iff_eq.mp ht
                  exact .escaped b ih
          · cases (piece_itself hb ps).symm.trans hitem
            obtain rfl := beq_iff_eq.mp ht
            exact .itself b hb ih

/-- The loop of `pattern_matches` ends and decides the language of the pattern. -/
theorem channelMatches_decides (pattern channel : Bytes) :
    (∃ n, ∀ fuel, n < fuel →
        reader.run fuel ⟨pattern, channel, none⟩ = some (channelMatches pattern channel)) ∧
      (channelMatches pattern channel = true ↔ Denotes pattern channel) := by
  have hmatches : channelMatches pattern channel =
      (reader.run ((channel.length + 1) * (pattern.length + 2)) ⟨pattern, channel, none⟩).getD false :=
    loop_eq_run _ _ _ _
  have hdecides := reader.decides_of_fuel hmatches
  exact ⟨hdecides.1, hdecides.2.trans ⟨denotes_of_language, Denotes.language⟩⟩

/-! ## The two languages -/

/-- The byte of an ASCII character. -/
def byteOf (c : Char) : UInt8 := UInt8.ofNat c.toNat

/-- The bytes of a run of characters. -/
def encoded (t : List Char) : Bytes := t.flatMap String.utf8EncodeChar

/-- Characters that both matchers read alike. -/
def Plain (p : List Char) : Prop := ∀ c ∈ p, c.toNat < 128 ∧ c ≠ '['

/-- No `?` stands for itself as a wildcard; one behind a backslash is a character. -/
def NoAny : List Char → Prop
  | '\\' :: _ :: p => NoAny p
  | c :: p => c ≠ '?' ∧ NoAny p
  | [] => True

/-- What is left of a text's bytes behind a star: the rest of a character beyond
ASCII, and whole characters. -/
structure Rest (p t : List Char) (cont : Bytes) : Prop where
  high : ∀ b ∈ cont, 128 ≤ b.toNat
  fits : (cont = [] ∧ ∀ c ∈ t, c.toNat < 128) ∨ NoAny p

theorem byteOf_toNat {c : Char} (h : c.toNat < 128) : (byteOf c).toNat = c.toNat :=
  UInt8.toNat_ofNat_of_lt' (Nat.lt_of_lt_of_le h (by decide))

theorem encoded_cons (c : Char) (t : List Char) : encoded (c :: t) = String.utf8EncodeChar c ++ encoded t :=
  List.flatMap_cons

theorem encoded_append (s t : List Char) : encoded (s ++ t) = encoded s ++ encoded t :=
  List.flatMap_append

theorem encoded_eq_nil {t : List Char} (h : encoded t = []) : t = [] := by
  cases t with
  | nil => rfl
  | cons c t =>
      rw [encoded_cons, List.append_eq_nil_iff] at h
      by_cases hc : c.toNat < 128
      · rw [utf8EncodeChar_ascii hc] at h
        cases h.1
      · exact absurd h.1 (utf8EncodeChar_high (Nat.le_of_not_lt hc)).1

/-- An ASCII byte in front is a whole character. -/
theorem head_of_ascii {cont : Bytes} {t : List Char} {c : Char} {v : Bytes} (hc : c.toNat < 128)
    (hcont : ∀ b ∈ cont, 128 ≤ b.toNat) (h : byteOf c :: v = cont ++ encoded t) :
    cont = [] ∧ ∃ t', t = c :: t' ∧ v = encoded t' := by
  cases cont with
  | cons b cont =>
      have hb : byteOf c = b := (List.cons.inj h).1
      have hhigh := hcont b List.mem_cons_self
      rw [← hb, byteOf_toNat hc] at hhigh
      omega
  | nil =>
      refine ⟨rfl, ?_⟩
      rw [List.nil_append] at h
      cases t with
      | nil => cases h
      | cons d t =>
          rw [encoded_cons] at h
          by_cases hd : d.toNat < 128
          · rw [utf8EncodeChar_ascii hd] at h
            obtain ⟨hbyte, hv⟩ := List.cons.inj h
            exact ⟨t, congrArg (· :: t) (ofNat_toNat_inj hc hd hbyte).symm, hv⟩
          · obtain ⟨hne, hhigh⟩ := utf8EncodeChar_high (Nat.le_of_not_lt hd)
            cases he : String.utf8EncodeChar d with
            | nil => exact absurd he hne
            | cons b bs =>
                rw [he] at h hhigh
                have hb := hhigh b List.mem_cons_self
                rw [← (List.cons.inj h).1, byteOf_toNat hc] at hb
                omega

/-- What stands behind a star. -/
theorem suffix_of_encoded {t : List Char} {u v : Bytes} (h : u ++ v = encoded t) :
    ∃ s t' cont, t = s ++ t' ∧ v = cont ++ encoded t' ∧ (∀ b ∈ cont, 128 ≤ b.toNat) ∧
      ((∀ c ∈ t, c.toNat < 128) → cont = []) := by
  induction t generalizing u with
  | nil =>
      obtain ⟨rfl, rfl⟩ := List.append_eq_nil_iff.mp h
      exact ⟨[], [], [], rfl, rfl, nofun, fun _ => rfl⟩
  | cons c t ih =>
      rw [encoded_cons] at h
      rcases List.append_eq_append_iff.mp h with ⟨w, hchar, hv⟩ | ⟨w, _, hrest⟩
      · -- the star ends inside the first character
        by_cases hc : c.toNat < 128
        · rw [utf8EncodeChar_ascii hc] at hchar
          cases u with
          | nil =>
              refine ⟨[], c :: t, [], rfl, ?_, nofun, fun _ => rfl⟩
              rw [hv, ← List.nil_append w, ← hchar, encoded_cons, utf8EncodeChar_ascii hc]
              rfl
          | cons b u =>
              have hnil := List.append_eq_nil_iff.mp (List.cons.inj hchar).2.symm
              refine ⟨[c], t, [], rfl, ?_, nofun, fun _ => rfl⟩
              rw [hv, hnil.2]
        · have hhigh := (utf8EncodeChar_high (Nat.le_of_not_lt hc)).2
          rw [hchar] at hhigh
          refine ⟨[c], t, w, rfl, hv, fun b hb => hhigh b (List.mem_append_right _ hb), ?_⟩
          exact fun hascii => absurd (hascii c List.mem_cons_self) hc
      · obtain ⟨s, t', cont, rfl, hv, hhigh, hascii⟩ := ih hrest.symm
        exact ⟨c :: s, t', cont, rfl, hv, hhigh, fun h => hascii fun d hd => h d (List.mem_cons_of_mem _ hd)⟩

theorem Plain.tail {c : Char} {p : List Char} (h : Plain (c :: p)) : Plain p :=
  fun d hd => h d (List.mem_cons_of_mem c hd)

theorem noAny_cons {c : Char} (hc : c ≠ '\\') {p : List Char} : NoAny (c :: p) ↔ c ≠ '?' ∧ NoAny p := by
  conv_lhs => unfold NoAny
  split
  · next h => exact absurd (List.cons.inj h).1 hc
  · next h =>
      obtain ⟨rfl, rfl⟩ := List.cons.inj h
      exact Iff.rfl
  · next h => cases h

/-- What characters match, their bytes match. -/
theorem denotes_of_glob {p t : List Char} (h : Glob.Denotes p t) (hp : Plain p)
    (hfits : (∀ c ∈ t, c.toNat < 128) ∨ NoAny p) : Denotes (p.map byteOf) (encoded t) := by
  induction h with
  | nil => exact .nil
  | @star p v u _ ih =>
      rw [encoded_append]
      refine .star _ (ih hp.tail (hfits.imp ?_ fun h => ((noAny_cons (by decide)).mp h).2))
      exact fun hascii c hc => hascii c (List.mem_append_right _ hc)
  | @any p v c _ ih =>
      have hascii := hfits.resolve_right fun h => ((noAny_cons (by decide)).mp h).1 rfl
      rw [encoded_cons, utf8EncodeChar_ascii (hascii c List.mem_cons_self)]
      exact .any _ (ih hp.tail (.inl fun d hd => hascii d (List.mem_cons_of_mem _ hd)))
  | positive _ _ _ _ _ => exact absurd rfl (hp '[' List.mem_cons_self).2
  | negative _ _ _ _ => exact absurd rfl (hp '[' List.mem_cons_self).2
  | @escaped p v c _ ih =>
      have hc := (hp.tail c List.mem_cons_self).1
      rw [encoded_cons, utf8EncodeChar_ascii hc]
      refine .escaped _ (ih hp.tail.tail (hfits.imp ?_ id))
      exact fun hascii d hd => hascii d (List.mem_cons_of_mem _ hd)
  | backslash => exact .backslash
  | @itself p v c hc _ ih =>
      have hplain := hp c List.mem_cons_self
      have hbyte : byteOf c ∉ [42, 63, 92] := by
        intro hmem
        have hlit {d : Char} (hd : d.toNat < 128) (h : byteOf c = byteOf d) : c = d :=
          ofNat_toNat_inj hplain.1 hd h
        simp only [List.mem_cons, List.not_mem_nil, or_false] at hmem hc
        rcases hmem with h | h | h
        · exact hc (.inl (@hlit '*' (by decide) h))
        · exact hc (.inr (.inl (@hlit '?' (by decide) h)))
        · exact hc (.inr (.inr (.inr (@hlit '\\' (by decide) h))))
      have hne : c ≠ '\\' := by
        rintro rfl
        simp at hc
      rw [encoded_cons, utf8EncodeChar_ascii hplain.1]
      refine .itself _ hbyte (ih hp.tail (hfits.imp ?_ fun h => ((noAny_cons hne).mp h).2))
      exact fun hascii d hd => hascii d (List.mem_cons_of_mem _ hd)

/-- What bytes match, the characters match, also behind the rest of a character. -/
theorem glob_of_denotes {q w : Bytes} (h : Denotes q w) {p t : List Char} {cont : Bytes} (hp : Plain p)
    (hq : q = p.map byteOf) (hw : w = cont ++ encoded t) (hrest : Rest p t cont) : Glob.Denotes p t := by
  induction h generalizing p t cont with
  | nil =>
      obtain rfl : p = [] := List.map_eq_nil_iff.mp hq.symm
      obtain rfl := encoded_eq_nil (List.append_eq_nil_iff.mp hw.symm).2
      exact .nil
  | @star q v u _ ih =>
      obtain ⟨c, p, rfl, hc, rfl⟩ := List.map_eq_cons_iff.mp hq.symm
      obtain rfl : c = '*' := ofNat_toNat_inj (hp c List.mem_cons_self).1 (by decide) hc
      rcases List.append_eq_append_iff.mp hw with ⟨cont', hcont, hv⟩ | ⟨w, _, ht⟩
      · refine .star [] (ih hp.tail rfl hv ⟨fun b hb => ?_, ?_⟩)
        · exact hrest.high b (hcont ▸ List.mem_append_right _ hb)
        · refine hrest.fits.imp ?_ fun h => ((noAny_cons (by decide)).mp h).2
          rintro ⟨rfl, hascii⟩
          exact ⟨(List.append_eq_nil_iff.mp hcont.symm).2, hascii⟩
      · obtain ⟨s, t', cont', rfl, hv, hhigh, hascii⟩ := suffix_of_encoded ht.symm
        refine .star s (ih hp.tail rfl hv ⟨hhigh, ?_⟩)
        refine hrest.fits.imp ?_ fun h => ((noAny_cons (by decide)).mp h).2
        rintro ⟨-, h⟩
        exact ⟨hascii h, fun c hc => h c (List.mem_append_right _ hc)⟩
  | @any q v b _ ih =>
      obtain ⟨c, p, rfl, hc, rfl⟩ := List.map_eq_cons_iff.mp hq.symm
      obtain rfl : c = '?' := ofNat_toNat_inj (hp c List.mem_cons_self).1 (by decide) hc
      obtain ⟨rfl, hascii⟩ := hrest.fits.resolve_right fun h => ((noAny_cons (by decide)).mp h).1 rfl
      cases t with
      | nil => cases hw
      | cons d t =>
          rw [encoded_cons, utf8EncodeChar_ascii (hascii d List.mem_cons_self)] at hw
          refine .any d (@ih p t [] hp.tail rfl (List.cons.inj hw).2 ⟨nofun, .inl ⟨rfl, ?_⟩⟩)
          exact fun e he => hascii e (List.mem_cons_of_mem _ he)
  | @escaped q v b _ ih =>
      obtain ⟨c, p', rfl, hc, hp'⟩ := List.map_eq_cons_iff.mp hq.symm
      obtain rfl : c = '\\' := ofNat_toNat_inj (hp c List.mem_cons_self).1 (by decide) hc
      obtain ⟨c, p, rfl, rfl, rfl⟩ := List.map_eq_cons_iff.mp hp'
      have hc := (hp.tail c List.mem_cons_self).1
      obtain ⟨rfl, t', rfl, rfl⟩ := head_of_ascii hc hrest.high hw
      refine .escaped c (@ih p t' [] hp.tail.tail rfl rfl ⟨nofun, hrest.fits.imp ?_ id⟩)
      rintro ⟨-, hascii⟩
      exact ⟨rfl, fun e he => hascii e (List.mem_cons_of_mem _ he)⟩
  | backslash =>
      obtain ⟨c, p, rfl, hc, hp'⟩ := List.map_eq_cons_iff.mp hq.symm
      obtain rfl : c = '\\' := ofNat_toNat_inj (hp c List.mem_cons_self).1 (by decide) hc
      obtain rfl : p = [] := List.map_eq_nil_iff.mp hp'
      obtain ⟨rfl, t', rfl, ht⟩ := @head_of_ascii cont t '\\' [] (by decide) hrest.high hw
      obtain rfl := encoded_eq_nil ht.symm
      exact .backslash
  | @itself q v b hb _ ih =>
      obtain ⟨c, p, rfl, rfl, rfl⟩ := List.map_eq_cons_iff.mp hq.symm
      have hplain := hp c List.mem_cons_self
      obtain ⟨rfl, t', rfl, rfl⟩ := head_of_ascii hplain.1 hrest.high hw
      have hc : c ∉ ['*', '?', '[', '\\'] := by
        intro hmem
        simp only [List.mem_cons, List.not_mem_nil, or_false] at hmem
        rcases hmem with rfl | rfl | rfl | rfl
        · exact hb (by decide)
        · exact hb (by decide)
        · exact hplain.2 rfl
        · exact hb (by decide)
      have hne : c ≠ '\\' := by
        rintro rfl
        simp at hc
      refine .itself c hc (@ih p t' [] hp.tail rfl rfl ⟨nofun, hrest.fits.imp ?_ ?_⟩)
      · rintro ⟨-, hascii⟩
        exact ⟨rfl, fun e he => hascii e (List.mem_cons_of_mem _ he)⟩
      · exact fun h => ((noAny_cons hne).mp h).2

end ChannelPattern

/-- The two matchers end and decide their languages, and agree on a pattern of
ASCII characters without a class, where the text is ASCII as well or no wildcard
takes a single one. -/
theorem glob_matchers_exact (pattern channel : Bytes) (p t : String) :
    ((∀ fuel star, channelLoop fuel pattern channel star =
          (ChannelPattern.reader.run fuel ⟨pattern, channel, star⟩).getD false) ∧
        (∃ n, ∀ fuel, n < fuel → ChannelPattern.reader.run fuel ⟨pattern, channel, none⟩ =
          some (channelMatches pattern channel)) ∧
        (channelMatches pattern channel = true ↔ ChannelPattern.Denotes pattern channel)) ∧
      ((∀ fuel star, Glob.loop fuel p.toList t.toList star =
          (Glob.reader.run fuel ⟨p.toList, t.toList, star⟩).getD false) ∧
        (∃ n, ∀ fuel, n < fuel → Glob.reader.run fuel ⟨p.toList, t.toList, none⟩ =
          some (Glob.patternMatches p t)) ∧
        (Glob.patternMatches p t = true ↔ Glob.Denotes p.toList t.toList)) ∧
      (ChannelPattern.Plain p.toList → (∀ c ∈ t.toList, c.toNat < 128) ∨ ChannelPattern.NoAny p.toList →
        channelMatches p.toBytes t.toBytes = Glob.patternMatches p t) := by
  obtain ⟨hchannelEnds, hchannel⟩ := ChannelPattern.channelMatches_decides pattern channel
  obtain ⟨hglobEnds, hglob⟩ := Glob.patternMatches_decides p t
  refine ⟨⟨fun fuel star => ChannelPattern.loop_eq_run fuel _ _ star, hchannelEnds, hchannel⟩,
    ⟨fun fuel star => Glob.loop_eq_run fuel _ _ star, hglobEnds, hglob⟩, fun hp hfits => ?_⟩
  have hpattern : p.toBytes = p.toList.map ChannelPattern.byteOf := by
    rw [← String.ofList_toList (s := p), toBytes_ofList_ascii fun c hc => (hp c (by simpa using hc)).1]
    simp only [String.toList_ofList]
    rfl
  have htext : t.toBytes = ChannelPattern.encoded t.toList := by
    rw [ChannelPattern.encoded, ← toBytes_ofList, String.ofList_toList]
  have hiff : channelMatches p.toBytes t.toBytes = true ↔ Glob.patternMatches p t = true := by
    rw [(ChannelPattern.channelMatches_decides _ _).2, hglob, hpattern, htext]
    constructor
    · intro h
      refine ChannelPattern.glob_of_denotes h hp rfl (List.nil_append _).symm ⟨nofun, ?_⟩
      exact hfits.imp (fun hascii => ⟨rfl, hascii⟩) id
    · exact fun h => ChannelPattern.denotes_of_glob h hp hfits
  exact Bool.eq_iff_iff.mpr hiff

theorem glob_matchers_exact_news :
    ChannelPattern.Plain "news.*".toList ∧ ChannelPattern.NoAny "news.*".toList ∧
      channelMatches "news.*".toBytes "news.été".toBytes = Glob.patternMatches "news.*" "news.été" := by
  have hall : ("news.*".toList.all fun c => decide (c.toNat < 128 ∧ c ≠ '[')) = true := by decide +kernel
  have hplain : ChannelPattern.Plain "news.*".toList := fun c hc =>
    of_decide_eq_true (List.all_eq_true.mp hall c hc)
  have hany : ChannelPattern.NoAny ['n', 'e', 'w', 's', '.', '*'] := by simp [ChannelPattern.NoAny]
  exact ⟨hplain, hany, (glob_matchers_exact [] [] "news.*" "news.été").2.2 hplain (.inr hany)⟩

/-- The single wildcard of a channel pattern takes a byte, that of a key pattern a
character. -/
theorem channelMatches_question :
    ChannelPattern.Plain "?".toList ∧ channelMatches "?".toBytes "é".toBytes ≠ Glob.patternMatches "?" "é" := by
  constructor
  · intro c hc
    obtain rfl : c = '?' := by simpa using hc
    decide
  · decide +kernel

end Ferrous
