import GuardedAutomata.Proofs.Mirror

/-!
# Literals in two parts

A literal is a byte string, and how its bytes are read is decided for the whole of it: as the
characters they encode if all of it is UTF-8, and otherwise byte by byte.  A part of a literal
is a literal of its own, for which the decision is made anew.  So a literal cannot be cut
anywhere: the two bytes of `é`, cut apart, are two letters (`Pattern.compile_eAcute`), and `é`
next to a byte that is not UTF-8 is two letters only as long as the byte is joined to it.

Where it can be cut is a question about code points.  Both patterns stand for words, the
joined one for the code points of the whole and the split one for those of the one part and
then of the other (`Pattern.isWord_split`).  Automata of words accept the same texts only if
the words are the same: each of them accepts its own word, and two words that contain each
other are equal (`Pattern.IsWord.forall_accepts_eq_iff`).

That leaves the decoder, and there a count decides.  A byte string has at most as many code
points as bytes, and only one that is read byte by byte has as many
(`Utf8.bytewise_of_length`).  So where the cut divides the code points of a string that is
read byte by byte, both parts are read that way: neither has more code points than bytes, and
together they have as many.  Where it divides those of a UTF-8 string and one part is UTF-8,
the characters that are left are those of the other part (`Utf8.codePoints_append_iff`).
The condition that comes out, `Utf8.Separable`, is one on the bytes alone.
-/

namespace GuardedAutomata
namespace Utf8

/-! ## Byte strings that are UTF-8 -/

/-- The byte string encodes characters. -/
def Valid (bytes : List UInt8) : Prop := ∃ chars, encode chars = bytes

/-- Each byte is read as the code point of its own value. -/
def Bytewise (bytes : List UInt8) : Prop := codePoints bytes = bytes.map UInt8.toUInt32

theorem encode_eq_flatMap (chars : List Char) :
    encode chars = chars.flatMap String.utf8EncodeChar := by
  rw [encode, String.toUTF8_eq_toByteArray, String.toByteArray_ofList, List.utf8Encode,
    List.toList_data_toByteArray]

theorem encode_append (chars chars' : List Char) :
    encode (chars ++ chars') = encode chars ++ encode chars' := by
  simp only [encode_eq_flatMap, List.flatMap_append]

theorem encode_cons (c : Char) (chars : List Char) :
    encode (c :: chars) = String.utf8EncodeChar c ++ encode chars := by
  simp only [encode_eq_flatMap, List.flatMap_cons]

/-- The decoder answers exactly on what encodes characters. -/
theorem chars?_eq_some_iff {bytes : List UInt8} {chars : List Char} :
    chars? bytes = some chars ↔ encode chars = bytes := by
  constructor
  · intro h
    obtain ⟨s, hs, rfl⟩ := Option.map_eq_some_iff.mp h
    rw [String.fromUTF8?] at hs
    split at hs
    · obtain rfl := Option.some.inj hs
      have hbytes : (encode (String.fromUTF8 bytes.toByteArray ‹_›).toList).toByteArray =
          bytes.toByteArray := by
        rw [encode_eq_flatMap]
        exact String.utf8Encode_toList
      exact List.toByteArray_inj.mp hbytes
    · cases hs
  · rintro rfl
    exact chars?_encode chars

instance (bytes : List UInt8) : Decidable (Valid bytes) :=
  decidable_of_iff ((chars? bytes).isSome = true)
    (Option.isSome_iff_exists.trans (exists_congr fun _ => chars?_eq_some_iff))

theorem codePoints_encode (chars : List Char) :
    codePoints (encode chars) = chars.map Char.val := by
  rw [codePoints, chars?_encode]

theorem bytewise_of_not_valid {bytes : List UInt8} (h : ¬Valid bytes) : Bytewise bytes := by
  cases hchars : chars? bytes with
  | some chars => exact absurd ⟨chars, chars?_eq_some_iff.mp hchars⟩ h
  | none => rw [Bytewise, codePoints, hchars]

/-! ## As many code points as bytes -/

theorem length_le_length_encode (chars : List Char) :
    chars.length ≤ (encode chars).length := by
  induction chars with
  | nil => exact Nat.zero_le _
  | cons c rest ih =>
    have hsize : 0 < c.utf8Size := c.utf8Size_pos
    rw [encode_cons, List.length_append, String.length_utf8EncodeChar, List.length_cons]
    omega

/-- If there are no more bytes than characters, all characters are of the ASCII range. -/
theorem ascii_of_length_encode {chars : List Char}
    (h : (encode chars).length = chars.length) : ∀ c ∈ chars, c.val ≤ 127 := by
  induction chars with
  | nil => exact fun c hc => absurd hc List.not_mem_nil
  | cons c rest ih =>
    have hsize : 0 < c.utf8Size := c.utf8Size_pos
    have hrest : rest.length ≤ (encode rest).length := length_le_length_encode rest
    rw [encode_cons, List.length_append, String.length_utf8EncodeChar, List.length_cons] at h
    intro d hd
    rcases List.mem_cons.mp hd with rfl | hd
    · exact Char.utf8Size_eq_one_iff.mp (by omega)
    · exact ih (by omega) d hd

theorem encode_of_ascii {chars : List Char} (h : ∀ c ∈ chars, c.val ≤ 127) :
    encode chars = chars.map fun c => c.val.toUInt8 := by
  induction chars with
  | nil => exact encode_eq_flatMap []
  | cons c rest ih =>
    have hsize : c.utf8Size = 1 := Char.utf8Size_eq_one_iff.mpr (h c List.mem_cons_self)
    rw [encode_cons, String.utf8EncodeChar_eq_singleton hsize,
      ih fun d hd => h d (List.mem_cons_of_mem _ hd), List.map_cons, List.singleton_append]

theorem bytewise_encode_of_ascii {chars : List Char} (h : ∀ c ∈ chars, c.val ≤ 127) :
    Bytewise (encode chars) := by
  rw [Bytewise, codePoints_encode, encode_of_ascii h, List.map_map]
  refine List.map_congr_left fun c hc => ?_
  have hle : c.val.toNat ≤ 127 := UInt32.le_iff_toNat_le.mp (h c hc)
  apply UInt32.toNat_inj.mp
  rw [Function.comp_apply, UInt8.toNat_toUInt32, UInt32.toNat_toUInt8]
  omega

theorem length_codePoints_le (bytes : List UInt8) :
    (codePoints bytes).length ≤ bytes.length := by
  by_cases h : Valid bytes
  · obtain ⟨chars, rfl⟩ := h
    rw [codePoints_encode, List.length_map]
    exact length_le_length_encode chars
  · rw [bytewise_of_not_valid h, List.length_map]

/-- **Only what is read byte by byte has as many code points as bytes.** -/
theorem bytewise_of_length {bytes : List UInt8}
    (h : (codePoints bytes).length = bytes.length) : Bytewise bytes := by
  by_cases hvalid : Valid bytes
  · obtain ⟨chars, rfl⟩ := hvalid
    rw [codePoints_encode, List.length_map] at h
    exact bytewise_encode_of_ascii (ascii_of_length_encode h.symm)
  · exact bytewise_of_not_valid hvalid

/-- A byte string is read byte by byte if it is not UTF-8, or if all its bytes are of the
ASCII range. -/
theorem bytewise_iff {bytes : List UInt8} :
    Bytewise bytes ↔ ¬Valid bytes ∨ ∀ b ∈ bytes, b ≤ 127 := by
  constructor
  · intro h
    refine or_iff_not_imp_left.mpr fun hvalid => ?_
    obtain ⟨chars, rfl⟩ := not_not.mp hvalid
    have hlength : (encode chars).length = chars.length := by
      have hpoints := congrArg List.length h
      rw [codePoints_encode, List.length_map, List.length_map] at hpoints
      exact hpoints.symm
    have hascii : ∀ c ∈ chars, c.val ≤ 127 := ascii_of_length_encode hlength
    rw [encode_of_ascii hascii]
    intro b hb
    obtain ⟨c, hc, rfl⟩ := List.mem_map.mp hb
    have hle : c.val.toNat ≤ 127 := UInt32.le_iff_toNat_le.mp (hascii c hc)
    refine UInt8.le_iff_toNat_le.mpr ?_
    rw [UInt32.toNat_toUInt8]
    exact (Nat.mod_le _ _).trans hle
  · rintro (h | h)
    · exact bytewise_of_not_valid h
    · -- the bytes encode the characters of the same values
      have hascii : ∀ c ∈ bytes.map Char.ofUInt8, c.val ≤ 127 := by
        intro c hc
        obtain ⟨b, hb, rfl⟩ := List.mem_map.mp hc
        exact UInt8.le_iff_toNat_le.mp (h b hb)
      have hbytes : encode (bytes.map Char.ofUInt8) = bytes := by
        rw [encode_of_ascii hascii, List.map_map]
        exact (List.map_congr_left fun b _ => UInt8.toUInt8_toUInt32 b).trans (List.map_id bytes)
      rw [← hbytes]
      exact bytewise_encode_of_ascii hascii

/-! ## Cutting a byte string -/

/-- Both parts are UTF-8, or there is nothing to decode in the parts and in the whole: each of
them is not UTF-8, or all its bytes are of the ASCII range. -/
def Separable (a b : List UInt8) : Prop :=
  (Valid a ∧ Valid b) ∨ ∀ part ∈ [a, b, a ++ b], ¬Valid part ∨ ∀ byte ∈ part, byte ≤ 127

instance (a b : List UInt8) : Decidable (Separable a b) :=
  inferInstanceAs (Decidable ((Valid a ∧ Valid b) ∨
    ∀ part ∈ [a, b, a ++ b], ¬Valid part ∨ ∀ byte ∈ part, byte ≤ 127))

theorem separable_iff_bytewise {a b : List UInt8} :
    Separable a b ↔ (Valid a ∧ Valid b) ∨ (Bytewise a ∧ Bytewise b ∧ Bytewise (a ++ b)) := by
  simp only [Separable, ← bytewise_iff, List.forall_mem_cons, List.not_mem_nil, false_imp_iff,
    implies_true, and_true]

theorem codePoints_append_of_separable {a b : List UInt8} (h : Separable a b) :
    codePoints (a ++ b) = codePoints a ++ codePoints b := by
  rcases separable_iff_bytewise.mp h with ⟨⟨chars, rfl⟩, chars', rfl⟩ | ⟨ha, hb, hab⟩
  · rw [← encode_append, codePoints_encode, codePoints_encode, codePoints_encode,
      List.map_append]
  · rw [hab, ha, hb, List.map_append]

theorem map_val_inj {chars chars' : List Char} :
    chars.map Char.val = chars'.map Char.val ↔ chars = chars' :=
  List.map_inj_right fun _ _ => Char.val_inj.mp

/-- If the code points of a UTF-8 string are divided by the cut, then so are its characters;
only the bytes may be cut elsewhere. -/
theorem exists_chars_append {a b : List UInt8} (hab : Valid (a ++ b))
    (h : codePoints (a ++ b) = codePoints a ++ codePoints b) :
    ∃ first rest, encode first ++ encode rest = a ++ b ∧
      first.map Char.val = codePoints a ∧ rest.map Char.val = codePoints b := by
  obtain ⟨chars, hchars⟩ := hab
  rw [← hchars, codePoints_encode] at h
  obtain ⟨first, rest, rfl, hfirst, hrest⟩ := List.map_eq_append_iff.mp h
  exact ⟨first, rest, (encode_append first rest).symm.trans hchars, hfirst, hrest⟩

/-- In that case, both parts are UTF-8 if the first is. -/
theorem valid_right {a b : List UInt8} (ha : Valid a) (hab : Valid (a ++ b))
    (h : codePoints (a ++ b) = codePoints a ++ codePoints b) : Valid b := by
  obtain ⟨first, rest, hbytes, hfirst, -⟩ := exists_chars_append hab h
  obtain ⟨chars, rfl⟩ := ha
  rw [codePoints_encode] at hfirst
  obtain rfl := map_val_inj.mp hfirst
  exact ⟨rest, List.append_cancel_left hbytes⟩

theorem valid_left {a b : List UInt8} (hb : Valid b) (hab : Valid (a ++ b))
    (h : codePoints (a ++ b) = codePoints a ++ codePoints b) : Valid a := by
  obtain ⟨first, rest, hbytes, -, hrest⟩ := exists_chars_append hab h
  obtain ⟨chars, rfl⟩ := hb
  rw [codePoints_encode] at hrest
  obtain rfl := map_val_inj.mp hrest
  exact ⟨first, List.append_cancel_right hbytes⟩

/-- **Where a byte string can be cut** so that its code points are those of the one part and
then those of the other. -/
theorem codePoints_append_iff {a b : List UInt8} :
    codePoints (a ++ b) = codePoints a ++ codePoints b ↔ Separable a b := by
  refine ⟨fun h => separable_iff_bytewise.mpr ?_, codePoints_append_of_separable⟩
  have hlength : (codePoints (a ++ b)).length = (codePoints a).length + (codePoints b).length :=
    (congrArg List.length h).trans List.length_append
  by_cases hab : Valid (a ++ b)
  · by_cases ha : Valid a
    · exact .inl ⟨ha, valid_right ha hab h⟩
    by_cases hb : Valid b
    · exact .inl ⟨valid_left hb hab h, hb⟩
    -- two parts that are not UTF-8 have as many code points as bytes, and so has the whole
    have ha' : Bytewise a := bytewise_of_not_valid ha
    have hb' : Bytewise b := bytewise_of_not_valid hb
    refine .inr ⟨ha', hb', bytewise_of_length ?_⟩
    rw [hlength, ha', hb', List.length_map, List.length_map, List.length_append]
  · -- the whole has as many code points as bytes, and neither part can have more
    have hab' : Bytewise (a ++ b) := bytewise_of_not_valid hab
    have ha : (codePoints a).length ≤ a.length := length_codePoints_le a
    have hb : (codePoints b).length ≤ b.length := length_codePoints_le b
    rw [hab', List.length_map, List.length_append] at hlength
    exact .inr ⟨bytewise_of_length (by omega), bytewise_of_length (by omega), hab'⟩

end Utf8

/-! ## Patterns that stand for a word -/

namespace SlotRelation

theorem word_append (w : Array UInt32) (us vs : List UInt32) :
    word w (us ++ vs) = andThen (word w us) (word w vs) := by
  simp only [← inOrder_symbols, List.map_append, inOrder_append]

theorem word_whole_iff {w : Array UInt32} {vs : List UInt32} :
    word w vs 0 w.size ↔ vs = w.toList := by
  rw [word, List.drop_zero, Nat.zero_add, ← Array.length_toList]
  constructor
  · rintro ⟨hlength, hprefix⟩
    exact hprefix.eq_of_length hlength.symm
  · rintro rfl
    exact ⟨rfl, List.prefix_rfl⟩

theorem exists_word_iff {w : Array UInt32} {vs : List UInt32} :
    (∃ i j, i ≤ j ∧ j ≤ w.size ∧ word w vs i j) ↔ vs <:+: w.toList := by
  constructor
  · rintro ⟨i, j, -, -, -, hprefix⟩
    exact hprefix.isInfix.trans (List.drop_suffix i _).isInfix
  · rintro ⟨before, after, hparts⟩
    have hsize : before.length + vs.length + after.length = w.size := by
      rw [← Array.length_toList, ← hparts, List.length_append, List.length_append]
    refine ⟨before.length, before.length + vs.length, by omega, by omega, rfl, after, ?_⟩
    rw [← hparts, List.append_assoc, List.drop_left]

end SlotRelation

namespace Pattern

open SlotRelation

variable {words : WordData} {settings : Settings} {p q : Pattern} {A A' : Automaton}
  {us vs : List UInt32}

/-- The pattern stands for the given code points in order. -/
def IsWord (words : WordData) (p : Pattern) (vs : List UInt32) : Prop :=
  ∀ w, p.spans words w = word w vs

theorem isWord_literal (words : WordData) (bytes : List UInt8) :
    (literal bytes).IsWord words (Utf8.codePoints bytes) := fun _ => rfl

theorem isWord_split (words : WordData) (a b : List UInt8) :
    (concat [.literal a, .literal b]).IsWord words (Utf8.codePoints a ++ Utf8.codePoints b) := by
  intro w
  rw [word_append]
  exact congrArg (andThen _) (andThen_stay _)

/-- A search for a word accepts the texts that contain it; otherwise only the word itself is
accepted. -/
theorem IsWord.accepts_eq (hp : p.IsWord words vs) (h : p.compile words settings = .ok A)
    (t : Text) : A.accepts t = .ok (decide (if settings.unanchored then vs <:+: t.values.toList
      else vs = t.values.toList)) := by
  obtain ⟨o, hrun, ho⟩ := exists_run_of_compile h t
  rw [Automaton.accepts, hrun]
  refine congrArg Except.ok (Bool.eq_iff_iff.mpr (ho.trans (Iff.trans ?_ decide_eq_true_iff.symm)))
  cases settings.unanchored with
  | false =>
    show p.spans words t.values 0 t.values.size ↔ vs = t.values.toList
    rw [hp, word_whole_iff]
  | true =>
    rw [spansWhole_true_iff, Occurs, if_pos rfl, ← exists_word_iff]
    simp only [hp t.values]

/-- **Automata of words accept the same texts only if the words are the same.** -/
theorem IsWord.forall_accepts_eq_iff (hp : p.IsWord words us) (hq : q.IsWord words vs)
    (h : p.compile words settings = .ok A) (h' : q.compile words settings = .ok A') :
    (∀ t, A.accepts t = A'.accepts t) ↔ us = vs := by
  constructor
  · intro haccepts
    -- each of the automata accepts its own word, and so does the other
    have hboth : ∀ ws : List UInt32,
        (if settings.unanchored then us <:+: ws else us = ws) ↔
          if settings.unanchored then vs <:+: ws else vs = ws := by
      intro ws
      have hanswer := haccepts (.ofValues ws.toArray)
      rw [hp.accepts_eq h, hq.accepts_eq h'] at hanswer
      exact decide_eq_decide.mp (Except.ok.inj hanswer)
    cases hsearch : settings.unanchored with
    | false =>
      simp only [hsearch, Bool.false_eq_true, if_false] at hboth
      exact ((hboth us).mp rfl).symm
    | true =>
      simp only [hsearch, if_true] at hboth
      exact List.infix_antisymm ((hboth vs).mpr List.infix_rfl) ((hboth us).mp List.infix_rfl)
  · rintro rfl t
    rw [hp.accepts_eq h, hq.accepts_eq h']

/-! ## Main result -/

theorem exists_compile_of_admits (hlooks : p.looks = [])
    (hadmits : p.estimate settings.unanchored ≤ settings.sizeLimit) :
    ∃ A, p.compile words settings = .ok A :=
  exists_compile_iff.mpr ⟨hadmits, by rw [hlooks]; rfl⟩

/-- **Where a literal can be cut in two.**  Under settings that admit the joined literal and
its two parts, both compile, and both automata give an answer on every text.  The answers are
the same on all texts if and only if both parts are UTF-8, or each part and the whole is read
byte by byte because it is not UTF-8 or has bytes of the ASCII range only. -/
theorem compile_split_literal (words : WordData) (settings : Settings) (a b : List UInt8)
    (hjoined : (literal (a ++ b)).estimate settings.unanchored ≤ settings.sizeLimit)
    (hsplit : (concat [.literal a, .literal b]).estimate settings.unanchored ≤
      settings.sizeLimit) :
    ∃ A A', (literal (a ++ b)).compile words settings = .ok A ∧
      (concat [.literal a, .literal b]).compile words settings = .ok A' ∧
      (∀ t, ∃ answer answer', A.accepts t = .ok answer ∧ A'.accepts t = .ok answer') ∧
      ((∀ t, A.accepts t = A'.accepts t) ↔ Utf8.Separable a b) := by
  have hwhole := isWord_literal words (a ++ b)
  have hparts := isWord_split words a b
  obtain ⟨A, hA⟩ : ∃ A, (literal (a ++ b)).compile words settings = .ok A :=
    exists_compile_of_admits rfl hjoined
  obtain ⟨A', hA'⟩ : ∃ A', (concat [.literal a, .literal b]).compile words settings = .ok A' :=
    exists_compile_of_admits rfl hsplit
  refine ⟨A, A', hA, hA', fun t => ⟨_, _, hwhole.accepts_eq hA t, hparts.accepts_eq hA' t⟩, ?_⟩
  rw [hwhole.forall_accepts_eq_iff hparts hA hA', Utf8.codePoints_append_iff]

/-- A byte that is not UTF-8 can be cut off from an `a`, but not from an `é`. -/
theorem compile_split_literal_stray :
    (∃ A A', (literal (0xFF :: "a".toUTF8.toList)).compile .missing {} = .ok A ∧
      (concat [.literal [0xFF], .literal "a".toUTF8.toList]).compile .missing {} = .ok A' ∧
      ∀ t, A.accepts t = A'.accepts t) ∧
    ∃ A A', (literal (0xFF :: "é".toUTF8.toList)).compile .missing {} = .ok A ∧
      (concat [.literal [0xFF], .literal "é".toUTF8.toList]).compile .missing {} = .ok A' ∧
      ¬∀ t, A.accepts t = A'.accepts t := by
  obtain ⟨A, A', hA, hA', -, hiff⟩ := compile_split_literal .missing {} [0xFF] "a".toUTF8.toList
    (by decide +kernel) (by decide +kernel)
  obtain ⟨B, B', hB, hB', -, hiff'⟩ := compile_split_literal .missing {} [0xFF] "é".toUTF8.toList
    (by decide +kernel) (by decide +kernel)
  have hsame : Utf8.Separable [0xFF] "a".toUTF8.toList := by decide +kernel
  have hdiffer : ¬Utf8.Separable [0xFF] "é".toUTF8.toList := by decide +kernel
  exact ⟨⟨A, A', hA, hA', hiff.mpr hsame⟩, B, B', hB, hB', fun h => hdiffer (hiff'.mp h)⟩

/-- The two bytes of `é` are that letter when they are joined, and `Ã` and `©` when they are
cut apart. -/
theorem compile_eAcute :
    ∃ A A', (literal ([0xC3] ++ [0xA9])).compile .missing {} = .ok A ∧
      (concat [.literal [0xC3], .literal [0xA9]]).compile .missing {} = .ok A' ∧
      A.accepts (.ofString "é") = .ok true ∧ A'.accepts (.ofString "é") = .ok false ∧
      A.accepts (.ofString "Ã©") = .ok false ∧ A'.accepts (.ofString "Ã©") = .ok true := by
  have hwhole := isWord_literal .missing ([0xC3] ++ [0xA9])
  have hparts := isWord_split .missing [0xC3] [0xA9]
  obtain ⟨A, hA⟩ : ∃ A, (literal ([0xC3] ++ [0xA9])).compile .missing {} = .ok A :=
    exists_compile_of_admits rfl (by decide +kernel)
  obtain ⟨A', hA'⟩ : ∃ A', (concat [.literal [0xC3], .literal [0xA9]]).compile .missing {} =
      .ok A' := exists_compile_of_admits rfl (by decide +kernel)
  refine ⟨A, A', hA, hA', ?_, ?_, ?_, ?_⟩
  · exact (hwhole.accepts_eq hA _).trans (congrArg Except.ok (by decide +kernel))
  · exact (hparts.accepts_eq hA' _).trans (congrArg Except.ok (by decide +kernel))
  · exact (hwhole.accepts_eq hA _).trans (congrArg Except.ok (by decide +kernel))
  · exact (hparts.accepts_eq hA' _).trans (congrArg Except.ok (by decide +kernel))

end Pattern
end GuardedAutomata
