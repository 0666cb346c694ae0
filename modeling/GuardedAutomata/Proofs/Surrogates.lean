import GuardedAutomata.Regex
import Mathlib.Data.List.Chain

/-!
# Code points and UTF-16 units

Reading UTF-16 units loses nothing, although every list of units can be read.
An unpaired surrogate stays what it is, so the lists of code points that are
read are more than those of strings; they are exactly the lists without a value
beyond `0x10FFFF` and without a high surrogate directly before a low one
(`Utf16.Decoded`).  Between these lists and the lists of units, reading and
writing are inverse to each other (`Utf16.decoding_round_trips`).

Reading looks one unit ahead, and both inductions have to say what it sees.

* Along the units, there are two ways to go on: over a pair, or over one unit
  that does not pair with the next (`decode_induction`).
* Along the code points, `encodeOne_cases` says how a value is written: as one
  unit of the same value, or as a pair that combines to it.
* A low surrogate in front is one on both sides.  Neither a pair of units nor
  the value of a pair has one in front, so what follows a high surrogate pairs
  with it on the one side exactly when it does on the other.
-/

namespace GuardedAutomata
namespace Utf16

/-! ## The two ranges of surrogates -/

theorem isHigh_iff {v : UInt32} : isHigh v = true ↔ 0xD800 ≤ v.toNat ∧ v.toNat ≤ 0xDBFF := by
  simp [isHigh, UInt32.le_iff_toNat_le]

theorem isLow_iff {v : UInt32} : isLow v = true ↔ 0xDC00 ≤ v.toNat ∧ v.toNat ≤ 0xDFFF := by
  simp [isLow, UInt32.le_iff_toNat_le]

/-- The first value is a high surrogate and the second a low one. -/
def Pairs (a b : UInt32) : Prop := isHigh a = true ∧ isLow b = true

variable {high low : UInt32}

theorem toNat_combine (h : Pairs high low) :
    (combine high low).toNat =
      0x10000 + (high.toNat - 0xD800) * 0x400 + (low.toNat - 0xDC00) := by
  obtain ⟨hhigh, hlow⟩ := h
  rw [isHigh_iff] at hhigh
  rw [isLow_iff] at hlow
  simp only [combine, UInt32.toNat_add, UInt32.toNat_mul, UInt32.toNat_sub, UInt32.toNat_ofNat]
  omega

/-- What a pair combines to lies between `0x10000` and `0x10FFFF`. -/
theorem combine_bounds (h : Pairs high low) :
    0x10000 ≤ (combine high low).toNat ∧ (combine high low).toNat ≤ 0x10FFFF := by
  have hvalue := toNat_combine h
  have hhigh := isHigh_iff.mp h.1
  have hlow := isLow_iff.mp h.2
  omega

theorem not_isLow_of_isHigh {v : UInt32} (h : isHigh v = true) : ¬isLow v = true := by
  rw [isHigh_iff] at h
  rw [isLow_iff]
  omega

/-- A value beyond `0xFFFF` is not a surrogate. -/
theorem not_surrogate_of_le {v : UInt32} (h : 0x10000 ≤ v.toNat) :
    ¬isHigh v = true ∧ ¬isLow v = true := by
  rw [isHigh_iff, isLow_iff]
  omega

/-! ## How one value is written -/

theorem encodeOne_toUInt32 (u : UInt16) : encodeOne u.toUInt32 = [u] := by
  have hlt : u.toUInt32 < 0x10000 := by
    rw [UInt32.lt_iff_toNat_lt, UInt16.toNat_toUInt32]
    exact u.toNat_lt
  unfold encodeOne
  rw [if_pos hlt, UInt16.toUInt16_toUInt32]

/-- From `0x10000` on, a value is written as two units: ten bits each of what is left of it. -/
theorem encodeOne_of_le {value : UInt32} (hmin : 0x10000 ≤ value.toNat)
    (hmax : value.toNat ≤ 0x10FFFF) :
    ∃ u v : UInt16, encodeOne value = [u, v] ∧
      u.toNat = 0xD800 + (value.toNat - 0x10000) / 0x400 ∧
      v.toNat = 0xDC00 + (value.toNat - 0x10000) % 0x400 := by
  have hbeyond : ¬value < 0x10000 := by
    rw [UInt32.lt_iff_toNat_lt]
    exact Nat.not_lt.mpr hmin
  have hrest : (value - 0x10000).toNat = value.toNat - 0x10000 :=
    UInt32.toNat_sub_of_le _ _ (UInt32.le_iff_toNat_le.mpr hmin)
  refine ⟨_, _, if_neg hbeyond, ?_, ?_⟩
  · simp only [UInt32.toNat_toUInt16, UInt32.toNat_add, UInt32.toNat_div, UInt32.toNat_ofNat,
      Nat.reduceMod, Nat.reducePow, hrest]
    omega
  · simp only [UInt32.toNat_toUInt16, UInt32.toNat_add, UInt32.toNat_mod, UInt32.toNat_ofNat,
      Nat.reduceMod, Nat.reducePow, hrest]
    omega

theorem encodeOne_combine {u v : UInt16} (h : Pairs u.toUInt32 v.toUInt32) :
    encodeOne (combine u.toUInt32 v.toUInt32) = [u, v] := by
  have hvalue := toNat_combine h
  have hhigh := isHigh_iff.mp h.1
  have hlow := isLow_iff.mp h.2
  obtain ⟨hmin, hmax⟩ := combine_bounds h
  obtain ⟨u', v', hencode, hu, hv⟩ := encodeOne_of_le hmin hmax
  simp only [UInt16.toNat_toUInt32] at hvalue hhigh hlow
  have hu' : u' = u := UInt16.toNat_inj.mp (by omega)
  have hv' : v' = v := UInt16.toNat_inj.mp (by omega)
  rw [hencode, hu', hv']

/-- A value up to `0x10FFFF` is written as the one unit of the same value, or as a pair that
combines to it. -/
theorem encodeOne_cases {value : UInt32} (hmax : value.toNat ≤ 0x10FFFF) :
    (∃ u : UInt16, value = u.toUInt32 ∧ encodeOne value = [u]) ∨
      ∃ u v : UInt16, Pairs u.toUInt32 v.toUInt32 ∧
        value = combine u.toUInt32 v.toUInt32 ∧ encodeOne value = [u, v] := by
  by_cases hlt : value.toNat < 0x10000
  · left
    have hvalue : value = value.toUInt16.toUInt32 := by
      apply UInt32.toNat_inj.mp
      rw [UInt16.toNat_toUInt32, UInt32.toNat_toUInt16, Nat.mod_eq_of_lt hlt]
    exact ⟨value.toUInt16, hvalue, if_pos (UInt32.lt_iff_toNat_lt.mpr hlt)⟩
  · right
    obtain ⟨u, v, hencode, hu, hv⟩ := encodeOne_of_le (Nat.le_of_not_lt hlt) hmax
    have hpairs : Pairs u.toUInt32 v.toUInt32 := by
      refine ⟨isHigh_iff.mpr ?_, isLow_iff.mpr ?_⟩
      all_goals
        rw [UInt16.toNat_toUInt32]
        omega
    refine ⟨u, v, hpairs, ?_, hencode⟩
    apply UInt32.toNat_inj.mp
    rw [toNat_combine hpairs, UInt16.toNat_toUInt32, UInt16.toNat_toUInt32]
    omega

/-! ## How units are read -/

theorem decode_pair {u v : UInt16} (h : Pairs u.toUInt32 v.toUInt32) (rest : List UInt16) :
    decode (u :: v :: rest) = combine u.toUInt32 v.toUInt32 :: decode rest := by
  rw [decode, if_pos (Bool.and_eq_true_iff.mpr h)]

/-- A unit that does not pair with the next is read alone, and the next is read again. -/
theorem decode_unpaired {u : UInt16} {rest : List UInt16}
    (h : ∀ v ∈ rest.head?, ¬Pairs u.toUInt32 v.toUInt32) :
    decode (u :: rest) = u.toUInt32 :: decode rest := by
  cases rest with
  | nil => rfl
  | cons v rest =>
    have hv : ¬Pairs u.toUInt32 v.toUInt32 := h v rfl
    rw [decode, if_neg (mt Bool.and_eq_true_iff.mp hv)]

/-- Induction along the units as they are read: over a pair, or over a unit that does not
pair with the next. -/
theorem decode_induction {motive : List UInt16 → Prop} (nil : motive [])
    (pair : ∀ u v rest, Pairs u.toUInt32 v.toUInt32 → motive rest → motive (u :: v :: rest))
    (unpaired : ∀ u rest, (∀ v ∈ rest.head?, ¬Pairs u.toUInt32 v.toUInt32) →
      motive rest → motive (u :: rest))
    (units : List UInt16) : motive units := by
  induction units using decode.induct with
  | case1 => exact nil
  | case2 u => exact unpaired u [] (by simp) nil
  | case3 u v rest hpair ih => exact pair u v rest (Bool.and_eq_true_iff.mp hpair) ih
  | case4 u v rest hpair ih =>
    refine unpaired u (v :: rest) ?_ ih
    rintro w ⟨⟩
    exact mt Bool.and_eq_true_iff.mpr hpair

theorem encode_decode (units : List UInt16) : encode (decode units) = units := by
  induction units using decode_induction with
  | nil => rfl
  | pair u v rest h ih =>
    rw [decode_pair h, encode_cons, encodeOne_combine h, ih]
    rfl
  | unpaired u rest h ih =>
    rw [decode_unpaired h, encode_cons, encodeOne_toUInt32, ih]
    rfl

/-! ## What comes out of reading -/

/-- No value is beyond `0x10FFFF`, and no high surrogate stands directly before a low one. -/
structure Decoded (values : List UInt32) : Prop where
  le_max : ∀ value ∈ values, value.toNat ≤ 0x10FFFF
  unpaired : values.IsChain fun a b => ¬Pairs a b

theorem decoded_nil : Decoded [] where
  le_max := by simp
  unpaired := .nil

theorem decoded_cons_iff {value : UInt32} {values : List UInt32} :
    Decoded (value :: values) ↔
      value.toNat ≤ 0x10FFFF ∧ (∀ b ∈ values.head?, ¬Pairs value b) ∧ Decoded values := by
  constructor
  · rintro ⟨hmax, hchain⟩
    obtain ⟨hvalue, hvalues⟩ := List.forall_mem_cons.mp hmax
    obtain ⟨hhead, htail⟩ := List.isChain_cons.mp hchain
    exact ⟨hvalue, hhead, hvalues, htail⟩
  · rintro ⟨hvalue, hhead, hvalues, htail⟩
    exact ⟨List.forall_mem_cons.mpr ⟨hvalue, hvalues⟩, List.isChain_cons.mpr ⟨hhead, htail⟩⟩

/-- A low surrogate that is read first was the first unit. -/
theorem head?_of_decode {units : List UInt16} {value : UInt32}
    (hvalue : value ∈ (decode units).head?) (hlow : isLow value = true) :
    ∃ u ∈ units.head?, u.toUInt32 = value := by
  induction units using decode_induction with
  | nil => cases hvalue
  | pair u v rest h =>
    rw [decode_pair h] at hvalue
    cases hvalue
    exact absurd hlow (not_surrogate_of_le (combine_bounds h).1).2
  | unpaired u rest h =>
    rw [decode_unpaired h] at hvalue
    cases hvalue
    exact ⟨u, rfl, rfl⟩

/-- A low surrogate that is the first unit is the first value that was written. -/
theorem head?_of_encode {values : List UInt32} (hvalues : Decoded values) {u : UInt16}
    (hu : u ∈ (encode values).head?) (hlow : isLow u.toUInt32 = true) :
    u.toUInt32 ∈ values.head? := by
  cases values with
  | nil => cases hu
  | cons value values =>
    rw [encode_cons] at hu
    obtain ⟨v, rfl, hencode⟩ | ⟨v, w, hpairs, rfl, hencode⟩ :=
      encodeOne_cases (decoded_cons_iff.mp hvalues).1
    · rw [hencode] at hu
      cases hu
      rfl
    · rw [hencode] at hu
      cases hu
      exact absurd hlow (not_isLow_of_isHigh hpairs.1)

theorem decoded_decode (units : List UInt16) : Decoded (decode units) := by
  induction units using decode_induction with
  | nil => exact decoded_nil
  | pair u v rest h ih =>
    obtain ⟨hmin, hmax⟩ := combine_bounds h
    rw [decode_pair h, decoded_cons_iff]
    exact ⟨hmax, fun b _ hpairs => (not_surrogate_of_le hmin).1 hpairs.1, ih⟩
  | unpaired u rest h ih =>
    have hmax : u.toUInt32.toNat ≤ 0x10FFFF := by
      have hlt := u.toNat_lt
      rw [UInt16.toNat_toUInt32]
      omega
    rw [decode_unpaired h, decoded_cons_iff]
    refine ⟨hmax, ?_, ih⟩
    intro b hb hpairs
    obtain ⟨v, hv, rfl⟩ := head?_of_decode hb hpairs.2
    exact h v hv hpairs

theorem decode_encode {values : List UInt32} (h : Decoded values) :
    decode (encode values) = values := by
  induction values with
  | nil => rfl
  | cons value values ih =>
    obtain ⟨hmax, hhead, hvalues⟩ := decoded_cons_iff.mp h
    rw [encode_cons]
    obtain ⟨u, rfl, hencode⟩ | ⟨u, v, hpairs, rfl, hencode⟩ := encodeOne_cases hmax
    · have hunpaired : ∀ v ∈ (encode values).head?, ¬Pairs u.toUInt32 v.toUInt32 := by
        intro v hv hpairs
        exact hhead _ (head?_of_encode hvalues hv hpairs.2) hpairs
      rw [hencode]
      show decode (u :: encode values) = _
      rw [decode_unpaired hunpaired, ih hvalues]
    · rw [hencode]
      show decode (u :: v :: encode values) = _
      rw [decode_pair hpairs, ih hvalues]

/-! ## Strings -/

/-- The UTF-16 units of a string. -/
def ofString (s : String) : List UInt16 := encode (s.toList.map Char.val)

/-- A character is not a surrogate, and it is not beyond `0x10FFFF`. -/
theorem val_bounds (c : Char) : ¬isHigh c.val = true ∧ c.val.toNat ≤ 0x10FFFF := by
  rw [isHigh_iff]
  obtain hbelow | ⟨habove, hmax⟩ := c.valid
  · omega
  · omega

theorem decoded_characters (characters : List Char) : Decoded (characters.map Char.val) := by
  induction characters with
  | nil => exact decoded_nil
  | cons c characters ih =>
    rw [List.map_cons, decoded_cons_iff]
    exact ⟨(val_bounds c).2, fun b _ hpairs => (val_bounds c).1 hpairs.1, ih⟩

/-- **Reading and writing UTF-16 are inverse to each other.**  Whatever units are read, writing
the code points gives them back, and the code points are `Decoded`; whatever `Decoded` code
points are written, reading the units gives them back.  So a string and its units are the same
text, and every expression answers the same on both. -/
theorem decoding_round_trips :
    (∀ units : List UInt16,
      encode (Text.ofUtf16 units).values.toList = units ∧
        Decoded (Text.ofUtf16 units).values.toList) ∧
    (∀ values : List UInt32, Decoded values →
      Text.ofUtf16 (encode values) = Text.ofValues values.toArray) ∧
    ∀ s : String, Text.ofUtf16 (ofString s) = Text.ofString s ∧
      ∀ r : Regex, r.isMatchUtf16 (ofString s) = r.isMatch s := by
  have hread (values : List UInt32) (h : Decoded values) :
      Text.ofUtf16 (encode values) = Text.ofValues values.toArray := by
    unfold Text.ofUtf16
    rw [decode_encode h]
  have hstring (s : String) : Text.ofUtf16 (ofString s) = Text.ofString s :=
    hread _ (decoded_characters s.toList)
  refine ⟨fun units => ⟨encode_decode units, decoded_decode units⟩, hread, fun s => ?_⟩
  refine ⟨hstring s, fun r => ?_⟩
  show r.automaton.accepts (.ofUtf16 (ofString s)) = r.automaton.accepts (.ofString s)
  rw [hstring s]

/-- Unpaired surrogates around a pair: a low one before it, and a high one after it. -/
def unpairedAround : List UInt32 := [0xDC00, 0x10437, 0xD801, 0x61, 0xD801]

theorem decoding_round_trips_unpaired :
    Decoded unpairedAround ∧
      encode unpairedAround = [0xDC00, 0xD801, 0xDC37, 0xD801, 0x61, 0xD801] ∧
      Text.ofUtf16 (encode unpairedAround) = Text.ofValues unpairedAround.toArray := by
  have h : Decoded unpairedAround := decoded_decode [0xDC00, 0xD801, 0xDC37, 0xD801, 0x61, 0xD801]
  exact ⟨h, by decide, decoding_round_trips.2.1 unpairedAround h⟩

end Utf16
end GuardedAutomata
