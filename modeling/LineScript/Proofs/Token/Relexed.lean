import LineScript.Machine.Call
import LineScript.Proofs.Token.Standing
set_option autoImplicit false

/-!
Tokens of a text that is lexed while the program runs: initialisers, defaults and the arguments of host
calls. Such tokens have their words from the text and no more colons than it; the initialiser that they
spell has one colon less. A word that stands in a text is found in it.
-/

namespace LineScript

open Lexer

namespace Text

theorem blankRanges_disjoint :
    ∀ r ∈ blankRanges, ∀ s ∈ alphanumericRanges, r.2 < s.1 ∨ s.2 < r.1 := by
  decide +kernel

theorem isWordChar_of_isBlank {c : Char} (h : isBlank c = true) : isWordChar c = false := by
  obtain ⟨r, hr, hc⟩ := List.any_eq_true.1 h
  have hc : r.1 ≤ c.toNat ∧ c.toNat ≤ r.2 := by simpa using hc
  have hunder : c ≠ '_' := by
    rintro rfl
    cases h
  have halnum : isAlphanumeric c = false := by
    rw [Bool.eq_false_iff]
    intro halnum
    unfold isAlphanumeric at halnum
    split at halnum
    · next hascii =>
      have hsmall : ∀ r ∈ blankRanges, r.1 < 0x80 → r.2 ≤ 0x20 := by decide
      have hc' : c.toNat ≤ 0x20 := hc.2.trans (hsmall r hr (by omega))
      have hlow : ∀ k ≤ 0x20, (Char.ofNat k).isAlphanum = false := by decide
      have hno := hlow c.toNat hc'
      rw [Char.ofNat_toNat,halnum] at hno
      cases hno
    · obtain ⟨s, hs, hcs⟩ := List.any_eq_true.1 halnum
      have hcs : s.1 ≤ c.toNat ∧ c.toNat ≤ s.2 := by simpa using hcs
      have := blankRanges_disjoint r hr s hs
      omega
  simp [isWordChar,halnum,hunder]

theorem isWordChar_of_isBreak {c : Char} (h : isBreak c = true) : isWordChar c = false := by
  rcases Bool.or_eq_true_iff.1 h with hb | hd
  · exact isWordChar_of_isBlank hb
  · rcases eq_of_isDelimiter hd with rfl | rfl | rfl | rfl | rfl <;> decide

theorem wordAt_of_append {a w b : List Char} {prev : Option Char} (hw : w ≠ [])
    (ha : isWordEnd (a.getLast?.or prev) = true) (hb : isWordEnd b.head? = true) :
    (wordAt w prev (a ++ w ++ b)).isSome = true := by
  induction a generalizing prev with
  | nil =>
    obtain ⟨c, r, rfl⟩ := List.exists_cons_of_ne_nil hw
    have hprev : isWordEnd prev = true := by simpa using ha
    have hhere : (c :: r).isPrefixOf (c :: (r ++ b)) = true :=
      List.isPrefixOf_iff_prefix.2 ⟨b, rfl⟩
    simp only [List.nil_append,List.cons_append,wordAt]
    rw [if_pos]
    · rfl
    · simp [hhere,hprev,hb]
  | cons c a ih =>
    have hlast : (c :: a).getLast?.or prev = a.getLast?.or (some c) := by
      rw [List.getLast?_cons]
      cases a.getLast? <;> rfl
    have hrest : (wordAt w (some c) (a ++ w ++ b)).isSome = true := ih (hlast ▸ ha)
    simp only [List.cons_append,wordAt]
    split
    · rfl
    · simpa using hrest

/-- A word that stands in a text is found there. -/
theorem wordAt_of_stands {w cs : List Char} (hw : IsWord w) (h : Stands w cs) :
    (wordAt w none cs).isSome = true := by
  obtain ⟨a, b, rfl, ha, hb⟩ := h
  refine wordAt_of_append hw.ne_nil ?_ ?_
  · cases ha with
    | start => rfl
    | break_ hc a => simp [isWordEnd,isWordChar_of_isBreak hc]
    | arrow a => simp [isWordEnd]; decide
  · cases hb with
    | stop => rfl
    | break_ hc b => simp [isWordEnd,isWordChar_of_isBreak hc]
    | at_ b => rfl
    | arrow b => rfl
    | comment b => rfl

end Text

namespace Kind

theorem mem_keywords {word : String} {k : Kind} (h : ofKeyword? word = some k) :
    (word, k) ∈ keywords := by
  obtain ⟨before, after, hk, -⟩ := List.lookup_eq_some_iff.1 h
  simp [hk]

theorem mem_keywords_of_ofPart {part : String} (h : ofPart part ≠ comment ∧ ofPart part ≠ dataType ∧
    ofPart part ≠ identifier) : (part, ofPart part) ∈ keywords := by
  unfold ofPart at h ⊢
  cases hw : ofKeyword? part with
  | some k => exact mem_keywords hw
  | none =>
    simp only [hw] at h
    split at h <;> simp at h

theorem of_ofPart_identifier {part : String} (h : ofPart part = identifier) :
    ofKeyword? part = none ∧ (∀ r, part.toList ≠ '/' :: '/' :: r) ∧ ∀ r, part.toList ≠ '@' :: r := by
  unfold ofPart at h
  cases hw : ofKeyword? part with
  | some k =>
    have hnone : ∀ e ∈ keywords, e.2 ≠ identifier := by decide
    exact absurd (by simpa [hw] using h) (hnone _ (mem_keywords hw))
  | none =>
    simp only [hw] at h
    split at h
    · cases h
    · cases h
    · next hcomment htype => exact ⟨rfl, hcomment, htype⟩

theorem ofPart_comment (r : List Char) : ofPart (String.ofList ('/' :: '/' :: r)) = comment := by
  have hnone : ∀ e ∈ keywords, e.1.toList.take 2 ≠ ['/', '/'] := by decide
  unfold ofPart
  cases hw : ofKeyword? (String.ofList ('/' :: '/' :: r)) with
  | some k => exact absurd (by simp) (hnone _ (mem_keywords hw))
  | none => simp

end Kind

namespace Token

/-- The colons in the texts of the tokens. -/
def colons (ts : List Token) : Nat := (ts.flatMap fun t => t.text.toList).count ':'

theorem colons_cons (t : Token) (ts : List Token) :
    colons (t :: ts) = t.text.toList.count ':' + colons ts := by
  simp [colons]

theorem colons_le_of_sublist {ts us : List Token} (h : ts.Sublist us) : colons ts ≤ colons us := by
  induction h with
  | slnil => exact Nat.le_refl _
  | cons t _ ih => rw [colons_cons]; omega
  | cons_cons t _ ih => rw [colons_cons,colons_cons]; omega

/-- The token comes from a text that is lexed as it is. -/
def Spelled (t : Token) : Prop := ∃ text, t ∈ codeOfText text

theorem mem_codeOfText {text : String} {t : Token} (h : t ∈ codeOfText text) :
    ∃ p ∈ parts text.toList, t = ofPart (String.ofList p) ∧ t.kind ≠ .comment := by
  obtain ⟨h, hkind⟩ := List.mem_filter.1 h
  obtain ⟨part, hpart, rfl⟩ := List.mem_map.1 h
  obtain ⟨p, hp, rfl⟩ := List.mem_map.1 hpart
  exact ⟨p, hp, rfl, by simpa using hkind⟩

theorem Spelled.kind_eq {t : Token} (h : t.Spelled) : t = .word (Kind.ofPart t.text) t.text := by
  obtain ⟨text, h⟩ := h
  obtain ⟨p, -, rfl, -⟩ := mem_codeOfText h
  rfl

theorem Spelled.text_of_kind {t : Token} (h : t.Spelled) {k : Kind} {word : String} (hk : t.kind = k)
    (hne : k ≠ .comment ∧ k ≠ .dataType ∧ k ≠ .identifier)
    (hword : ∀ e ∈ Kind.keywords, e.2 = k → e.1 = word) : t.text = word := by
  have hpart : Kind.ofPart t.text = k := by rw [h.kind_eq] at hk; exact hk
  exact hword _ (Kind.mem_keywords_of_ofPart (hpart ▸ hne)) hpart

theorem Spelled.text_of_colon {t : Token} (h : t.Spelled) (hk : t.kind = .colon) : t.text = ":" :=
  h.text_of_kind hk (by decide) (by decide)

theorem Spelled.text_of_comma {t : Token} (h : t.Spelled) (hk : t.kind = .comma) : t.text = "," :=
  h.text_of_kind hk (by decide) (by decide)

theorem Spelled.isWord {t : Token} (h : t.Spelled) (hk : t.kind = .identifier) :
    IsWord t.text.toList := by
  obtain ⟨text, h⟩ := h
  obtain ⟨p, hp, rfl, -⟩ := mem_codeOfText h
  obtain ⟨hkey, hcomment, htype⟩ := Kind.of_ofPart_identifier hk
  simp only [String.toList_ofList] at hcomment htype
  show IsWord (String.ofList p).toList
  rw [String.toList_ofList]
  rcases (lexed_parts text.toList).part_cases hp with ⟨r, rfl⟩ | rfl | ⟨c, hc, rfl⟩ | ⟨c, w, rfl, hc, hw⟩
  · exact absurd rfl (hcomment r)
  · cases hkey
  · rcases eq_of_isDelimiter hc with rfl | rfl | rfl | rfl | rfl <;> cases hkey
  · have hc : isInner c = true := hc (by rintro rfl; exact htype w rfl)
    refine ⟨by simp, List.forall_mem_cons.2 ⟨hc, hw⟩, ?_⟩
    intro harrow
    rw [harrow] at hkey
    cases hkey

/-- The words of the tokens of a text are words of the text. -/
theorem stands_of_mem_codeOfText {text : String} {t : Token} {w : List Char} (h : t ∈ codeOfText text)
    (hw : IsWord w) (hs : Stands w t.text.toList) : Stands w text.toList := by
  obtain ⟨p, hp, rfl, hkind⟩ := mem_codeOfText h
  have hs : Stands w p := by simpa [ofPart,Token.text] using hs
  refine (lexed_parts text.toList).stands hp ?_ hw hs
  rintro r rfl
  exact hkind (Kind.ofPart_comment r)

theorem colons_codeOfText_le (text : String) : colons (codeOfText text) ≤ text.toList.count ':' := by
  have htexts : (ofText text).flatMap (fun t => t.text.toList) = (parts text.toList).flatten := by
    simp [ofText,split,ofPart,Token.text,List.flatMap_map,List.flatMap_id']
  calc colons (codeOfText text) ≤ colons (ofText text) := colons_le_of_sublist List.filter_sublist
    _ = (parts text.toList).flatten.count ':' := by rw [colons,htexts]
    _ ≤ text.toList.count ':' := (flatten_sublist_of_lexed (lexed_parts _)).count_le ':'

/-- One step of writing tokens out. -/
def writeAfter (s : String) (t : Token) : String :=
  if s.isEmpty || t.kind = .comma || t.kind = .colon then s ++ t.text else s ++ " " ++ t.text

theorem sourceText_eq (ts : List Token) : sourceText ts = ts.foldl writeAfter "" := rfl

theorem count_sourceText (ts : List Token) : (sourceText ts).toList.count ':' = colons ts := by
  have hfrom (s : String) : (ts.foldl writeAfter s).toList.count ':' =
      s.toList.count ':' + colons ts := by
    induction ts generalizing s with
    | nil => simp [colons]
    | cons t ts ih =>
      rw [List.foldl_cons,ih,colons_cons,writeAfter]
      split <;> simp [Nat.add_assoc]
  simpa [sourceText_eq] using hfrom ""

theorem stands_writeAfter {s : String} {t : Token} {w : List Char} (ht : t.Spelled) (hw : IsWord w)
    (h : Stands w (writeAfter s t).toList) : Stands w s.toList ∨ Stands w t.text.toList := by
  have hmark {c : Char} (hc : isBreak c = true) (hi : isInner c = false)
      (h : Stands w (s.toList ++ [c])) : Stands w s.toList := by
    rcases h.of_append_break hw hc hi with h | h
    · exact h
    · exact absurd h hw.not_stands_nil
  unfold writeAfter at h
  split at h
  · next hjoin =>
    have hcase : (s = "" ∨ t.kind = .comma) ∨ t.kind = .colon := by simpa using hjoin
    rcases hcase with (rfl | hk) | hk
    · exact .inr (by simpa using h)
    · exact .inl (hmark (c := ',') rfl rfl (by simpa [ht.text_of_comma hk] using h))
    · exact .inl (hmark (c := ':') rfl rfl (by simpa [ht.text_of_colon hk] using h))
  · have h : Stands w (s.toList ++ ' ' :: t.text.toList) := by simpa using h
    exact h.of_append_break hw rfl rfl

theorem stands_of_written {s : String} {ts : List Token} {w : List Char} (hts : ∀ t ∈ ts, t.Spelled)
    (hw : IsWord w) (h : Stands w (ts.foldl writeAfter s).toList) :
    Stands w s.toList ∨ ∃ t ∈ ts, Stands w t.text.toList := by
  induction ts generalizing s with
  | nil => exact .inl h
  | cons t ts ih =>
    obtain ⟨ht, hts⟩ := List.forall_mem_cons.1 hts
    rcases ih hts h with h | ⟨u, hu, h⟩
    · exact (stands_writeAfter ht hw h).imp_right fun h => ⟨t, by simp, h⟩
    · exact .inr ⟨u, by simp [hu], h⟩

/-- The words of tokens written out are words of the tokens. -/
theorem stands_of_sourceText {ts : List Token} {w : List Char} (hts : ∀ t ∈ ts, t.Spelled)
    (hw : IsWord w) (h : Stands w (sourceText ts).toList) : ∃ t ∈ ts, Stands w t.text.toList := by
  rcases stands_of_written hts hw (sourceText_eq ts ▸ h) with h | h
  · exact absurd h hw.not_stands_nil
  · exact h

end Token

namespace Calls

/-- What the initialiser in spelled tokens keeps of them. -/
theorem of_initOfTokens {ts : List Token} {text : String} (hts : ∀ t ∈ ts, t.Spelled)
    (h : initOfTokens ts = some text) :
    text.toList.count ':' < Token.colons ts ∧
      ∀ w, IsWord w → Stands w text.toList → ∃ t ∈ ts, Stands w t.text.toList := by
  unfold initOfTokens at h
  dsimp only at h
  split at h
  · cases h
  · next hne =>
    obtain rfl := Option.some.inj h
    have hsub : (ts.dropWhile fun t => t.kind ≠ .colon).Sublist ts := List.dropWhile_sublist _
    cases hd : ts.dropWhile fun t => t.kind ≠ .colon with
    | nil =>
      rw [hd] at hne
      exact absurd rfl hne
    | cons t rest =>
      rw [hd] at hsub
      have hcolon : t.text = ":" := by
        refine (hts t (hsub.subset (by simp))).text_of_colon ?_
        have hhead := List.head_dropWhile_not (p := fun t : Token => decide (t.kind ≠ .colon))
          (l := ts) (w := by simp only [hd,ne_eq,reduceCtorEq,not_false_eq_true])
        simpa only [hd,List.head_cons,decide_eq_false_iff_not,ne_eq,Decidable.not_not] using hhead
      constructor
      · have hle := Token.colons_le_of_sublist hsub
        rw [Token.colons_cons,hcolon] at hle
        rw [List.drop_one,List.tail_cons,Token.count_sourceText]
        have hone : ":".toList.count ':' = 1 := rfl
        omega
      · intro w hw hs
        have hrest : ∀ u ∈ rest, u ∈ ts := fun u hu => hsub.subset (by simp [hu])
        obtain ⟨u, hu, hs⟩ := Token.stands_of_sourceText (fun u hu => hts u (hrest u hu)) hw hs
        exact ⟨u, hrest u hu, hs⟩

/-- The value text of an entry stands in the initialiser. -/
theorem stands_of_mem_initEntries {cs entry name text : List Char} (h : entry ∈ initEntries cs)
    (hcut : Text.cut [':'] entry = some (name, text)) : Stands (Text.trim text) cs := by
  obtain ⟨h, -⟩ := List.mem_filter.1 h
  obtain ⟨piece, hp, rfl⟩ := List.mem_map.1 h
  have hpiece : Stands piece cs := stands_of_mem_pieces rfl hp
  have htext : Stands text (Text.trim piece) := stands_of_cut rfl hcut
  exact (stands_trim text).trans (htext.trans ((stands_trim piece).trans hpiece))

end Calls

end LineScript
