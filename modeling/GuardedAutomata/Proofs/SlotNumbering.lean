import GuardedAutomata.Proofs.Emission

/-!
# Every slot has two numbers

An index counts slots from the start of a text if it is not negative and from its end if it is.  In
a text of length `n` the indices from `0` to `n` and those from `-n - 1` to `-1` name its slots, each
once, and no other index names one (`Anchor.names_iff`, `Anchor.exists_names_iff`).

## In 64-bit words

Indices are signed words and positions are unsigned ones.  Where positions are below `2 ^ 63` the
computation stays in the word (`Anchor.namesWord?_eq`): the difference of two positions is then
between `-2 ^ 63` and `2 ^ 63`, both ends left out, and the successor of an index is taken of
negative ones only.  The bound is the right one, since the first slot of a text of length
`2 ^ 63 - 1` is named by the least word there is (`Anchor.slot_numbering_least`).

## At the two ends

Two assertions have an index for a guard, the others a predicate.  What the index says is defined
by counting, and what the assertion says by the neighbours of the slot, so that the two agree
(`Assertion.holds_guard`) needs every slot to be looked at, also the one slot of the empty text,
which is both ends at once.
-/

namespace GuardedAutomata
namespace Anchor

/-! ## Which indices name a slot -/

section

variable {index : Int} {slot length : Nat}

/-- A slot has a number from the start and one from the end. -/
theorem names_iff (h : slot ≤ length) :
    names index slot length = true ↔ index = slot ∨ index = (slot : Int) - length - 1 := by
  rcases lt_or_ge index 0 with hneg | hnonneg
  · rw [names_of_neg hneg]
    omega
  · rw [names_of_nonneg hnonneg]
    omega

/-- The indices that name a slot of a text are those that its length allows. -/
theorem exists_names_iff :
    (∃ slot ≤ length, names index slot length = true) ↔
      -(length : Int) - 1 ≤ index ∧ index ≤ length := by
  constructor
  · rintro ⟨slot, hslot, hnames⟩
    rw [names_iff hslot] at hnames
    omega
  · intro hindex
    rcases lt_or_ge index 0 with hneg | hnonneg
    · exact ⟨(index + length + 1).toNat, by omega, (names_of_neg hneg _ _).mpr (by omega)⟩
    · exact ⟨index.toNat, by omega, (names_of_nonneg hnonneg _ _).mpr (by omega)⟩

end

/-! ## Counting in words -/

/-- The greatest position that is a signed word of 64 bits, `2 ^ 63 - 1`. -/
def maxPosition : Nat := 0x7FFFFFFFFFFFFFFF

theorem le_toInt (i : Int64) : -(maxPosition : Int) - 1 ≤ i.toInt := i.le_toInt

theorem toInt_le (i : Int64) : i.toInt ≤ maxPosition := Int.le_of_lt_add_one i.toInt_lt

theorem bmod_eq_self {n : Int} (hle : -(maxPosition : Int) - 1 ≤ n) (hge : n ≤ maxPosition) :
    n.bmod 0x10000000000000000 = n := by
  unfold maxPosition at hle hge
  exact Int.bmod_eq_of_le (by omega) (by omega)

theorem toInt_toInt64 {n : UInt64} (h : n.toNat ≤ maxPosition) : n.toInt64.toInt = n.toNat := by
  unfold maxPosition at h
  have hlt : 2 * n.toBitVec.toNat < 2 ^ 64 := by
    rw [UInt64.toNat_toBitVec]
    omega
  exact BitVec.toInt_eq_toNat_of_lt hlt

theorem exists_toInt_eq {n : Int} (hle : -(maxPosition : Int) - 1 ≤ n) (hge : n ≤ maxPosition) :
    ∃ i : Int64, i.toInt = n :=
  ⟨.ofInt n, Int64.toInt_ofInt.trans (bmod_eq_self hle hge)⟩

theorem toInt_sub_of_nonneg {a b : Int64} (ha : 0 ≤ a.toInt) (hb : 0 ≤ b.toInt) :
    (a - b).toInt = a.toInt - b.toInt := by
  have hale := toInt_le a
  have hble := toInt_le b
  exact (Int64.toInt_sub a b).trans (bmod_eq_self (by omega) (by omega))

theorem toInt_add_one_of_neg {a : Int64} (ha : a.toInt < 0) : (a + 1).toInt = a.toInt + 1 := by
  have hale := le_toInt a
  have hone : (1 : Int64).toInt = 1 := rfl
  have hmax : 0 ≤ (maxPosition : Int) := Int.natCast_nonneg _
  rw [← hone]
  exact (Int64.toInt_add a 1).trans (bmod_eq_self (by omega) (by omega))

theorem beq_eq_beq_toInt (a b : Int64) : (a == b) = (a.toInt == b.toInt) := by
  rw [Bool.eq_iff_iff, beq_iff_eq, beq_iff_eq, Int64.toInt_inj]

variable {index : Int64} {cursor length slot : UInt64}

/-- A position and an index are the same word if they are the same number. -/
theorem beq_toUInt64 (hcursor : cursor.toNat ≤ maxPosition) :
    (cursor == index.toUInt64) = ((cursor.toNat : Int) == index.toInt) := by
  rw [← toInt_toInt64 hcursor, ← beq_eq_beq_toInt, Bool.eq_iff_iff, beq_iff_eq, beq_iff_eq]
  constructor
  · rintro rfl
    exact Int64.toInt64_toUInt64 index
  · rintro rfl
    exact (UInt64.toUInt64_toInt64 cursor).symm

/-- **Counting in words is counting.** -/
theorem namesWord?_eq (hcursor : cursor.toNat ≤ maxPosition) (hlength : length.toNat ≤ maxPosition) :
    namesWord? index cursor length = some (names index.toInt cursor.toNat length.toNat) := by
  have hsign : 0 ≤ index ↔ 0 ≤ index.toInt := Int64.le_iff_toInt_le
  rcases lt_or_ge index.toInt 0 with hneg | hnonneg
  · have hdistance : (cursor.toInt64 - length.toInt64).toInt =
        cursor.toInt64.toInt - length.toInt64.toInt := by
      refine toInt_sub_of_nonneg ?_ ?_
      · rw [toInt_toInt64 hcursor]
        exact Int.natCast_nonneg _
      · rw [toInt_toInt64 hlength]
        exact Int.natCast_nonneg _
    have hslot : (index + 1).toInt = index.toInt + (1 : Int64).toInt := toInt_add_one_of_neg hneg
    have hsub : subWord? cursor.toInt64 length.toInt64 =
        some (cursor.toInt64 - length.toInt64) := if_pos hdistance
    have hadd : addWord? index 1 = some (index + 1) := if_pos hslot
    rw [namesWord?, if_neg (by rw [hsign]; omega), names, if_neg (by omega), hsub, hadd]
    simp only [Option.bind_eq_bind, Option.bind_some, beq_eq_beq_toInt, hdistance, hslot,
      toInt_toInt64 hcursor, toInt_toInt64 hlength]
    rfl
  · rw [namesWord?, if_pos (hsign.mpr hnonneg), names, if_pos hnonneg, beq_toUInt64 hcursor]

theorem exists_indices (hlength : length.toNat ≤ maxPosition) (hslot : slot.toNat ≤ length.toNat) :
    ∃ i j : Int64, i.toInt = slot.toNat ∧ j.toInt = (slot.toNat : Int) - length.toNat - 1 ∧ i ≠ j ∧
      ∀ index, namesWord? index slot length = some true ↔ index = i ∨ index = j := by
  obtain ⟨i, hi⟩ : ∃ i : Int64, i.toInt = slot.toNat := exists_toInt_eq (by omega) (by omega)
  obtain ⟨j, hj⟩ : ∃ j : Int64, j.toInt = (slot.toNat : Int) - length.toNat - 1 :=
    exists_toInt_eq (by omega) (by omega)
  refine ⟨i, j, hi, hj, fun heq => ?_, fun index => ?_⟩
  · rw [heq] at hi
    omega
  · rw [namesWord?_eq (hslot.trans hlength) hlength, Option.some.injEq, names_iff hslot, ← hi,
      Int64.toInt_inj, hi, ← hj, Int64.toInt_inj]

theorem exists_namesWord?_iff (hlength : length.toNat ≤ maxPosition) :
    (∃ slot : UInt64, slot.toNat ≤ length.toNat ∧ namesWord? index slot length = some true) ↔
      -(length.toNat : Int) - 1 ≤ index.toInt ∧ index.toInt ≤ length.toNat := by
  rw [← exists_names_iff]
  constructor
  · rintro ⟨slot, hslot, hnames⟩
    rw [namesWord?_eq (hslot.trans hlength) hlength, Option.some.injEq] at hnames
    exact ⟨slot.toNat, hslot, hnames⟩
  · rintro ⟨slot, hslot, hnames⟩
    have hword : (UInt64.ofNat slot).toNat = slot :=
      UInt64.toNat_ofNat_of_lt (hslot.trans_lt length.toNat_lt_size)
    refine ⟨.ofNat slot, by rwa [hword], ?_⟩
    rw [namesWord?_eq (by omega) hlength, hword, hnames]

end Anchor

/-! ## The two ends of the text -/

/-- The index of the slot at which the assertion holds, if it is about an end of the text. -/
def Assertion.index? : Assertion → Option Int64
  | .textStart => some 0
  | .textEnd => some (-1)
  | _ => none

/-- The guard of an assertion about an end of the text is the index of that end. -/
theorem Assertion.guard_eq_index (words : WordData) {a : Assertion} {i : Int64}
    (h : a.index? = some i) : a.guard words = .index i.toInt := by
  cases a with
  | textStart =>
    obtain rfl : 0 = i := Option.some.inj h
    rfl
  | textEnd =>
    obtain rfl : -1 = i := Option.some.inj h
    rfl
  | _ => nomatch h

theorem Grammar.emit_assertion (words : WordData) {g : Grammar} {id : NodeId} {a : Assertion}
    (hnode : g.nodes[id]? = some (.assertion a)) {b : Builder} {source target : StateId}
    (hstates : b.hasStates source target = true) :
    g.emit words id source target b =
      .ok () { b with epsilon := b.epsilon.push { source, target, guard := a.guard words } } := by
  have hemit : g.emit words id = Fragment.guarded (a.guard words) := by
    rw [emit, emitWithin, hnode]
    rfl
  rw [hemit]
  exact Build.addEpsilon_eq_ok (e := { source, target, guard := a.guard words }) hstates

/-- In words, the index of an end of the text says where the assertion holds. -/
theorem Assertion.namesWord?_eq_holds (words : WordData) {a : Assertion} {i : Int64}
    (h : a.index? = some i) {t : Text} (ht : t.length ≤ Anchor.maxPosition) :
    Anchor.namesWord? i (.ofNat t.cursor) (.ofNat t.length) = some (a.holds words t) := by
  have hcursor : t.cursor ≤ t.length := t.cursor_le
  have hword : ∀ {n : Nat}, n ≤ Anchor.maxPosition → (UInt64.ofNat n).toNat = n := fun hn =>
    UInt64.toNat_ofNat_of_lt (hn.trans_lt (by decide))
  have hcursorWord := hword (hcursor.trans ht)
  have hlengthWord := hword ht
  rw [Anchor.namesWord?_eq (hcursorWord.le.trans (hcursor.trans ht)) (hlengthWord.le.trans ht),
    hcursorWord, hlengthWord, ← holds_guard, guard_eq_index words h, Guard.holds_index]

/-- **The numbering of slots by indices**, for texts of at most `2 ^ 63 - 1` code points, in 64-bit
words.  No step of the computation leaves the word, and it decides the rule over the integers.  Every
slot is named by exactly two indices, the number of slots before it and, counted from the end, one
less than the negated number of code points after it; no other index names a slot.  The edge that is
emitted for an assertion about an end of the text has the index of that end for its guard, and is
open at exactly the slots at which the assertion holds. -/
theorem Anchor.slot_numbering :
    (∀ (index : Int64) (cursor length : UInt64),
      cursor.toNat ≤ maxPosition → length.toNat ≤ maxPosition →
      ∃ answer, namesWord? index cursor length = some answer ∧
        (answer = true ↔ if 0 ≤ index.toInt then (cursor.toNat : Int) = index.toInt
          else (cursor.toNat : Int) - length.toNat = index.toInt + 1)) ∧
    (∀ slot length : UInt64, length.toNat ≤ maxPosition → slot.toNat ≤ length.toNat →
      ∃ i j : Int64, i.toInt = slot.toNat ∧ j.toInt = (slot.toNat : Int) - length.toNat - 1 ∧
        i ≠ j ∧ ∀ index, namesWord? index slot length = some true ↔ index = i ∨ index = j) ∧
    (∀ (index : Int64) (length : UInt64), length.toNat ≤ maxPosition →
      ((∃ slot : UInt64, slot.toNat ≤ length.toNat ∧ namesWord? index slot length = some true) ↔
        -(length.toNat : Int) - 1 ≤ index.toInt ∧ index.toInt ≤ length.toNat)) ∧
    (∀ (words : WordData) (a : Assertion) (i : Int64), a.index? = some i →
      (∀ (g : Grammar) (id : NodeId) (b : Builder) (source target : StateId),
        g.nodes[id]? = some (.assertion a) → b.hasStates source target = true →
        g.emit words id source target b =
          .ok () { b with epsilon := b.epsilon.push { source, target, guard := .index i.toInt } }) ∧
      ∀ t : Text, (Guard.index i.toInt).holds t = a.holds words t ∧
        (t.length ≤ maxPosition →
          namesWord? i (.ofNat t.cursor) (.ofNat t.length) = some (a.holds words t))) := by
  refine ⟨fun index cursor length hcursor hlength => ?_, fun slot length hlength hslot =>
    exists_indices hlength hslot, fun index length hlength => exists_namesWord?_iff hlength,
    fun words a i hi => ⟨fun g id b source target hnode hstates => ?_, fun t => ⟨?_, fun ht => ?_⟩⟩⟩
  · refine ⟨_, namesWord?_eq hcursor hlength, ?_⟩
    split
    · next hindex => exact names_of_nonneg hindex _ _
    · next hindex =>
      rw [names_of_neg (Int.not_le.mp hindex)]
      omega
  · rw [Grammar.emit_assertion words hnode hstates, Assertion.guard_eq_index words hi]
  · rw [← Assertion.guard_eq_index words hi, Assertion.holds_guard]
  · exact Assertion.namesWord?_eq_holds words hi ht

/-- In a text of the greatest length, the first slot is also named by the least word. -/
theorem Anchor.slot_numbering_least :
    namesWord? Int64.minValue 0 0x7FFFFFFFFFFFFFFF = some true ∧
    (∀ index, namesWord? index 0 0x7FFFFFFFFFFFFFFF = some true ↔
      index = 0 ∨ index = Int64.minValue) ∧
    namesWord? (-1) 0 0 = some (Assertion.textEnd.holds .missing .empty) := by
  obtain ⟨-, hindices, -, hends⟩ := slot_numbering
  obtain ⟨i, j, hi, hj, -, hiff⟩ := hindices 0 0x7FFFFFFFFFFFFFFF (by decide) (by decide)
  obtain rfl : i = 0 := Int64.toInt_inj.mp hi
  obtain rfl : j = Int64.minValue := Int64.toInt_inj.mp (hj.trans (by decide))
  obtain ⟨-, hempty⟩ := hends .missing .textEnd (-1) rfl
  exact ⟨(hiff _).mpr (.inr rfl), hiff, (hempty .empty).2 (by decide)⟩

end GuardedAutomata
