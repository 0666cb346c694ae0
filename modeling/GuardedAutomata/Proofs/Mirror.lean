import GuardedAutomata.Proofs.Search
import GuardedAutomata.Proofs.SizeLimit

/-!
# Patterns read backwards

A pattern has a mirror image: concatenations and literals are reversed, and looks at a start
are exchanged with looks at the corresponding end.  The mirror image compiles under the same
settings to as many states, and it accepts exactly the reversed texts
(`Pattern.compile_mirror`).

The two automata have nothing in common that a proof could follow --- a bounded repetition,
say, is unrolled from left to right in both --- so they are compared by what they stand for.
Slot `i` of a text of length `n` is slot `n - i` of the reversed text.  A relation between
slots *mirrors* another if it has the same pairs, counted from the other end and exchanged
(`SlotRelation.Mirrors`).

* What is composed is mirrored part by part, in reverse order.  The slot between two parts
  has to be one of the text for that, and it is, because no relation goes back.
* Copies of a relation lose their first one where the copies of its mirror image lose their
  last (`copies_succ_eq`).
* The neighbours of a slot change sides, and `Look.holdsBetween_mirror` says what becomes of
  a look when they do.

Two things have no mirror image, and `Pattern.mirrorable` excludes them.  The bytes of a
literal that is not UTF-8 may be UTF-8 when they are reversed.  And a carriage return with a
line feed after it is one end of a line, but not the other way round.
-/

namespace GuardedAutomata

/-! ## Relations on a reversed text -/

/-- The code points of a reversed text are counted from the other end. -/
theorem getElem?_reverse_of_add {w : Array UInt32} {i i' : Nat} (h : i + i' + 1 = w.size) :
    w.reverse[i']? = w[i]? := by
  rw [Array.getElem?_reverse (by omega)]
  congr 1
  omega

namespace SlotRelation

/-- On a text of length `n`, the pairs of the one relation are those of the other, counted
from the other end and exchanged.  Neither relation goes back. -/
structure Mirrors (n : Nat) (R S : SlotRelation) : Prop where
  le_left : ∀ i j, R i j → i ≤ j
  le_right : ∀ i j, S i j → i ≤ j
  iff : ∀ i j i' j', i + i' = n → j + j' = n → (R i j ↔ S j' i')

theorem mirrors_stay (n : Nat) : Mirrors n stay stay where
  le_left i j h := Nat.le_of_eq h
  le_right i j h := Nat.le_of_eq h
  iff i j i' j' hi hj := by
    show i = j ↔ j' = i'
    omega

namespace Mirrors

variable {n : Nat} {R R' S S' : SlotRelation}

theorem symm (h : Mirrors n R S) : Mirrors n S R where
  le_left := h.le_right
  le_right := h.le_left
  iff i j i' j' hi hj := (h.iff j' i' j i (by omega) (by omega)).symm

/-- The slot in between is counted from the other end as well. -/
theorem andThen_of_andThen (hR : Mirrors n R R') (hS : Mirrors n S S') {i j i' j' : Nat}
    (hi : i + i' = n) (hj : j + j' = n) (h : SlotRelation.andThen R S i j) :
    SlotRelation.andThen S' R' j' i' := by
  obtain ⟨k, hik, hkj⟩ := h
  -- the slot in between is not behind `j`, so it is one of the text
  have hk : k + (n - k) = n := by
    have hle := hS.le_left k j hkj
    omega
  exact ⟨n - k, (hS.iff k j _ j' hk hj).mp hkj, (hR.iff i k i' _ hi hk).mp hik⟩

/-- One relation after the other is mirrored by the other before the one. -/
theorem andThen (hR : Mirrors n R R') (hS : Mirrors n S S') :
    Mirrors n (SlotRelation.andThen R S) (SlotRelation.andThen S' R') where
  le_left := by
    rintro i j ⟨k, hik, hkj⟩
    exact (hR.le_left i k hik).trans (hS.le_left k j hkj)
  le_right := by
    rintro i j ⟨k, hik, hkj⟩
    exact (hS.le_right i k hik).trans (hR.le_right k j hkj)
  iff i j i' j' hi hj := by
    constructor
    · exact hR.andThen_of_andThen hS hi hj
    · exact hS.symm.andThen_of_andThen hR.symm (by omega) (by omega)

theorem either (hR : Mirrors n R R') (hS : Mirrors n S S') :
    Mirrors n (SlotRelation.either R S) (SlotRelation.either R' S') where
  le_left i j h := h.elim (hR.le_left i j) (hS.le_left i j)
  le_right i j h := h.elim (hR.le_right i j) (hS.le_right i j)
  iff i j i' j' hi hj := or_congr (hR.iff i j i' j' hi hj) (hS.iff i j i' j' hi hj)

theorem copies (hR : Mirrors n R S) (k : Nat) :
    Mirrors n (SlotRelation.copies R k) (SlotRelation.copies S k) := by
  induction k with
  | zero => exact mirrors_stay n
  | succ k ih =>
    -- the first copy on the one side is the last on the other
    rw [copies_succ, copies_succ_eq S]
    exact hR.andThen ih

theorem repetition (hR : Mirrors n R S) (min : Nat) (max : Option Nat) :
    Mirrors n (SlotRelation.repetition R min max) (SlotRelation.repetition S min max) where
  le_left := by
    rintro i j ⟨k, -, hk⟩
    exact (hR.copies k).le_left i j hk
  le_right := by
    rintro i j ⟨k, -, hk⟩
    exact (hR.copies k).le_right i j hk
  iff i j i' j' hi hj := exists_congr fun k =>
    and_congr_right fun _ => (hR.copies k).iff i j i' j' hi hj

theorem oneOf {Rs Ss : List SlotRelation} (h : List.Forall₂ (Mirrors n) Rs Ss) :
    Mirrors n (SlotRelation.oneOf Rs) (SlotRelation.oneOf Ss) := by
  induction h with
  | nil =>
    have hnone : ∀ i j, ¬SlotRelation.oneOf [] i j := not_oneOf_nil
    exact ⟨fun i j h => absurd h (hnone i j), fun i j h => absurd h (hnone i j),
      fun i j i' j' _ _ => iff_of_false (hnone i j) (hnone j' i')⟩
  | cons hR _ ih =>
    rw [oneOf_cons, oneOf_cons]
    exact hR.either ih

end Mirrors

variable {w : Array UInt32}

/-- Relations in order are mirrored by their mirror images in reverse order. -/
theorem Mirrors.inOrder {n : Nat} {Rs Ss : List SlotRelation}
    (h : List.Forall₂ (Mirrors n) Rs Ss) :
    Mirrors n (SlotRelation.inOrder Rs) (SlotRelation.inOrder Ss.reverse) := by
  induction h with
  | nil => exact mirrors_stay n
  | cons hR _ ih =>
    rw [List.reverse_cons, inOrder_append, inOrder_cons, inOrder_singleton]
    exact hR.andThen ih

theorem mirrors_symbol (w : Array UInt32) (p : UInt32 → Prop) :
    Mirrors w.size (symbol w p) (symbol w.reverse p) where
  le_left i j h := h.1 ▸ Nat.le_succ i
  le_right i j h := h.1 ▸ Nat.le_succ i
  iff i j i' j' hi hj := by
    constructor
    · rintro ⟨rfl, v, hv, hp⟩
      refine ⟨by omega, v, ?_, hp⟩
      rwa [getElem?_reverse_of_add (i := i) (by omega)]
    · rintro ⟨rfl, v, hv, hp⟩
      refine ⟨by omega, v, ?_, hp⟩
      rwa [getElem?_reverse_of_add (i := i) (by omega)] at hv

theorem mirrors_word (w : Array UInt32) (vs : List UInt32) :
    Mirrors w.size (word w vs) (word w.reverse vs.reverse) := by
  have hsymbols : List.Forall₂ (Mirrors w.size) (vs.map fun v => symbol w (· = v))
      (vs.map fun v => symbol w.reverse (· = v)) := by
    induction vs with
    | nil => exact .nil
    | cons v vs ih => exact .cons (mirrors_symbol w _) ih
  rw [← inOrder_symbols, ← inOrder_symbols, List.map_reverse]
  exact .inOrder hsymbols

/-- Conditions that hold at corresponding slots mirror each other. -/
theorem mirrors_condition {p q : Text → Bool}
    (h : ∀ (i i' : Nat) (hi : i ≤ w.size) (hi' : i' ≤ w.reverse.size), i + i' = w.size →
      p (.ofValuesAt w i hi) = q (.ofValuesAt w.reverse i' hi')) :
    Mirrors w.size (condition w p) (condition w.reverse q) where
  le_left i j hij := Nat.le_of_eq hij.1
  le_right i j hij := Nat.le_of_eq hij.1
  iff i j i' j' hi hj := by
    have hsize : w.reverse.size = w.size := Array.size_reverse
    constructor
    · rintro ⟨rfl, hle, hp⟩
      obtain rfl : i' = j' := by omega
      exact ⟨rfl, by omega, h i i' hle (by omega) hi ▸ hp⟩
    · rintro ⟨rfl, hle, hq⟩
      obtain rfl : i = j := by omega
      exact ⟨rfl, by omega, (h i j' (by omega) hle hi).symm ▸ hq⟩

end SlotRelation

/-! ## Looks -/

namespace Text

variable {w : Array UInt32} {i i' : Nat}

/-- Before a slot of the reversed text stands what stands after the corresponding slot. -/
theorem before?_reverse (hi : i ≤ w.size) (hi' : i' ≤ w.reverse.size) (h : i + i' = w.size) :
    (ofValuesAt w.reverse i' hi').before? = (ofValuesAt w i hi).after? := by
  cases i' with
  | zero => exact (Array.getElem?_eq_none (show w.size ≤ i by omega)).symm
  | succ k => exact getElem?_reverse_of_add (show i + k + 1 = w.size by omega)

theorem after?_reverse (hi : i ≤ w.size) (hi' : i' ≤ w.reverse.size) (h : i + i' = w.size) :
    (ofValuesAt w.reverse i' hi').after? = (ofValuesAt w i hi).before? := by
  cases i with
  | zero =>
    have hsize : w.reverse.size = w.size := Array.size_reverse
    exact Array.getElem?_eq_none (show w.reverse.size ≤ i' by omega)
  | succ k => exact getElem?_reverse_of_add (show k + i' + 1 = w.size by omega)

end Text

namespace Look

/-- The look in the other direction. -/
def mirror : Look → Look
  | .start => .finish
  | .finish => .start
  | .startLF => .endLF
  | .endLF => .startLF
  | .wordStartAscii => .wordEndAscii
  | .wordEndAscii => .wordStartAscii
  | .wordStartUnicode => .wordEndUnicode
  | .wordEndUnicode => .wordStartUnicode
  | .wordStartHalfAscii => .wordEndHalfAscii
  | .wordEndHalfAscii => .wordStartHalfAscii
  | .wordStartHalfUnicode => .wordEndHalfUnicode
  | .wordEndHalfUnicode => .wordStartHalfUnicode
  | l => l

/-- The look takes a carriage return for an end of a line. -/
def isCRLF : Look → Bool
  | .startCRLF | .endCRLF => true
  | _ => false

@[simp] theorem mirror_mirror (l : Look) : l.mirror.mirror = l := by
  cases l <;> rfl

@[simp] theorem needsUnicode_mirror (l : Look) : l.mirror.needsUnicode = l.needsUnicode := by
  cases l <;> rfl

/-- A look in the other direction holds if the look does when the neighbours change sides. -/
theorem holdsBetween_mirror (words : WordData) {l : Look} (h : l.isCRLF = false)
    (before after : Option UInt32) :
    l.mirror.assertion.holdsBetween words after before =
      l.assertion.holdsBetween words before after := by
  cases l with
  | startCRLF | endCRLF => nomatch h
  | wordStartAscii | wordStartUnicode | wordEndAscii | wordEndUnicode => exact Bool.and_comm _ _
  | wordAscii | wordAsciiNegate | wordUnicode | wordUnicodeNegate =>
    exact congrArg (· != _) bne_comm
  | _ => rfl

/-- The condition of a look is mirrored by the look in the other direction. -/
theorem mirrors_condition (words : WordData) (w : Array UInt32) {l : Look}
    (h : l.isCRLF = false) :
    SlotRelation.Mirrors w.size (.condition w (l.assertion.holds words))
      (.condition w.reverse (l.mirror.assertion.holds words)) := by
  refine SlotRelation.mirrors_condition fun i i' hi hi' hslots => ?_
  rw [Assertion.holds, Assertion.holds, Text.before?_reverse hi hi' hslots,
    Text.after?_reverse hi hi' hslots, holdsBetween_mirror words h]

end Look

/-! ## Literals -/

namespace Utf8

/-- The bytes of characters. -/
def encode (chars : List Char) : List UInt8 := (String.ofList chars).toUTF8.data.toList

/-- The bytes of the characters in reverse order; a byte string that is not UTF-8 has no
characters and stays as it is. -/
def mirror (bytes : List UInt8) : List UInt8 :=
  match chars? bytes with
  | some chars => encode chars.reverse
  | none => bytes

@[simp] theorem chars?_encode (chars : List Char) : chars? (encode chars) = some chars := by
  have hbytes : (encode chars).toByteArray = (String.ofList chars).toByteArray := by
    apply ByteArray.ext
    rw [List.data_toByteArray, encode, Array.toArray_toList, String.toUTF8_eq_toByteArray]
  have hstring : String.fromUTF8? (String.ofList chars).toByteArray = some (String.ofList chars) :=
    dif_pos (String.ofList chars).isValidUTF8
  rw [chars?, hbytes, hstring, Option.map_some, String.toList_ofList]

theorem codePoints_mirror {bytes : List UInt8} (h : (chars? bytes).isSome = true) :
    codePoints (mirror bytes) = (codePoints bytes).reverse := by
  obtain ⟨chars, hchars⟩ := Option.isSome_iff_exists.mp h
  simp only [mirror, codePoints, hchars, chars?_encode, List.map_reverse]

end Utf8

/-! ## Patterns -/

namespace Pattern

open SlotRelation

mutual

/-- The mirror image of a pattern. -/
def mirror : Pattern → Pattern
  | .empty => .empty
  | .literal bytes => .literal (Utf8.mirror bytes)
  | .codeClass ranges => .codeClass ranges
  | .look l => .look l.mirror
  | .repetition min max greedy sub => .repetition min max greedy (mirror sub)
  | .capture index name sub => .capture index name (mirror sub)
  | .concat subs => .concat (mirrorAll subs).reverse
  | .alternation subs => .alternation (mirrorAll subs)

/-- The mirror images of several patterns, in the same order. -/
def mirrorAll : List Pattern → List Pattern
  | [] => []
  | sub :: rest => mirror sub :: mirrorAll rest

end

mutual

/-- All literals are UTF-8, and no look takes a carriage return for an end of a line. -/
def mirrorable : Pattern → Bool
  | .empty | .codeClass _ => true
  | .literal bytes => (Utf8.chars? bytes).isSome
  | .look l => !l.isCRLF
  | .repetition _ _ _ sub | .capture _ _ sub => mirrorable sub
  | .concat subs | .alternation subs => mirrorableAll subs

/-- The same of several patterns. -/
def mirrorableAll : List Pattern → Bool
  | [] => true
  | sub :: rest => mirrorable sub && mirrorableAll rest

end

@[simp] theorem length_mirrorAll (subs : List Pattern) :
    (mirrorAll subs).length = subs.length := by
  induction subs with
  | nil => rfl
  | cons sub rest ih => rw [mirrorAll, List.length_cons, List.length_cons, ih]

variable {words : WordData} {w : Array UInt32}

/-! ### What they stand for -/

mutual

/-- **The mirror image of a pattern mirrors it** on the reversed text. -/
theorem mirrors_spans : (p : Pattern) → p.mirrorable = true →
    Mirrors w.size (p.spans words w) (p.mirror.spans words w.reverse)
  | .empty, _ => mirrors_stay _
  | .literal bytes, h => by
    rw [mirror, spans, spans, Utf8.codePoints_mirror h]
    exact mirrors_word w _
  | .codeClass _, _ => mirrors_symbol w _
  | .look l, h => l.mirrors_condition words w (by simpa [mirrorable] using h)
  | .repetition min max _ sub, h => (mirrors_spans sub h).repetition min max
  | .capture _ _ sub, h => mirrors_spans sub h
  | .concat subs, h => by
    have hsubs := mirrors_spansAll subs h
    rw [mirror, spans, spans, spansAll_eq_map words w.reverse, List.map_reverse, ← spansAll_eq_map]
    exact .inOrder hsubs
  | .alternation subs, h => .oneOf (mirrors_spansAll subs h)

theorem mirrors_spansAll : (subs : List Pattern) → mirrorableAll subs = true →
    List.Forall₂ (Mirrors w.size) (spansAll words w subs)
      (spansAll words w.reverse (mirrorAll subs))
  | [], _ => .nil
  | sub :: rest, h => by
    rw [mirrorableAll, Bool.and_eq_true] at h
    exact .cons (mirrors_spans sub h.1) (mirrors_spansAll rest h.2)

end

theorem mirrors_spansWhole {p : Pattern} (hp : p.mirrorable = true) (unanchored : Bool) :
    Mirrors w.size (p.spansWhole words unanchored w)
      (p.mirror.spansWhole words unanchored w.reverse) := by
  have hspans : Mirrors w.size (p.spans words w) (p.mirror.spans words w.reverse) :=
    mirrors_spans p hp
  cases unanchored with
  | false => exact hspans
  | true =>
    have hskip : Mirrors w.size (skipping w) (skipping w.reverse) :=
      (mirrors_symbol w _).repetition 0 none
    exact .inOrder (.cons hskip (.cons hspans (.cons hskip .nil)))

/-! ### How many states they take -/

/-- The estimate and the number of states that are allocated are the same for both. -/
structure SameStates (p q : Pattern) : Prop where
  stateBound : p.stateBound = q.stateBound
  freshStates : p.freshStates = q.freshStates

theorem stateBoundAll_append (subs subs' : List Pattern) :
    stateBoundAll (subs ++ subs') = stateBoundAll subs + stateBoundAll subs' := by
  induction subs with
  | nil => exact (Nat.zero_add _).symm
  | cons sub rest ih => rw [List.cons_append, stateBoundAll, ih, stateBoundAll, Nat.add_assoc]

theorem freshStatesAll_append (subs subs' : List Pattern) :
    freshStatesAll (subs ++ subs') = freshStatesAll subs + freshStatesAll subs' := by
  induction subs with
  | nil => exact (Nat.zero_add _).symm
  | cons sub rest ih => rw [List.cons_append, freshStatesAll, ih, freshStatesAll, Nat.add_assoc]

/-- The order of several patterns has no bearing on the number of states. -/
theorem sameStatesAll_reverse (subs : List Pattern) :
    stateBoundAll subs.reverse = stateBoundAll subs ∧
      freshStatesAll subs.reverse = freshStatesAll subs := by
  induction subs with
  | nil => exact ⟨rfl, rfl⟩
  | cons sub rest ih =>
    obtain ⟨hbound, hfresh⟩ := ih
    rw [List.reverse_cons]
    constructor
    · rw [stateBoundAll_append, hbound, stateBoundAll, stateBoundAll, stateBoundAll, Nat.add_zero,
        Nat.add_comm]
    · rw [freshStatesAll_append, hfresh, freshStatesAll, freshStatesAll, freshStatesAll,
        Nat.add_zero, Nat.add_comm]

mutual

theorem sameStates_mirror : (p : Pattern) → p.mirrorable = true → SameStates p.mirror p
  | .empty, _ => ⟨rfl, rfl⟩
  | .literal bytes, h => by
    have hlength : (Utf8.codePoints (Utf8.mirror bytes)).length =
        (Utf8.codePoints bytes).length := by
      rw [Utf8.codePoints_mirror h, List.length_reverse]
    exact ⟨congrArg (· - 1) hlength, congrArg (· - 1) hlength⟩
  | .codeClass _, _ => ⟨rfl, rfl⟩
  | .look _, _ => ⟨rfl, rfl⟩
  | .repetition min max _ sub, h => by
    obtain ⟨hbound, hfresh⟩ := sameStates_mirror sub h
    exact ⟨congrArg (fun n => (n + 1) * copyCount min max) hbound,
      congrArg (fun n => Fragment.repeatedStates n min max) hfresh⟩
  | .capture _ _ sub, h => by
    obtain ⟨hbound, hfresh⟩ := sameStates_mirror sub h
    exact ⟨hbound, hfresh⟩
  | .concat subs, h => by
    obtain ⟨hbound, hfresh⟩ := sameStatesAll_mirrorAll subs h
    obtain ⟨hbound', hfresh'⟩ := sameStatesAll_reverse (mirrorAll subs)
    constructor
    · rw [mirror, stateBound, stateBound, hbound', hbound, List.length_reverse, length_mirrorAll]
    · rw [mirror, freshStates, freshStates, hfresh', hfresh, List.length_reverse, length_mirrorAll]
  | .alternation subs, h => by
    obtain ⟨hbound, hfresh⟩ := sameStatesAll_mirrorAll subs h
    exact ⟨hbound, hfresh⟩

theorem sameStatesAll_mirrorAll : (subs : List Pattern) → mirrorableAll subs = true →
    stateBoundAll (mirrorAll subs) = stateBoundAll subs ∧
      freshStatesAll (mirrorAll subs) = freshStatesAll subs
  | [], _ => ⟨rfl, rfl⟩
  | sub :: rest, h => by
    rw [mirrorableAll, Bool.and_eq_true] at h
    obtain ⟨hbound, hfresh⟩ := sameStates_mirror sub h.1
    obtain ⟨hbounds, hfreshs⟩ := sameStatesAll_mirrorAll rest h.2
    exact ⟨congrArg₂ (· + ·) hbound hbounds, congrArg₂ (· + ·) hfresh hfreshs⟩

end

theorem estimate_mirror {p : Pattern} (hp : p.mirrorable = true) (unanchored : Bool) :
    p.mirror.estimate unanchored = p.estimate unanchored := by
  rw [estimate_eq, estimate_eq, stateBoundWhole, stateBoundWhole,
    (sameStates_mirror p hp).stateBound]

/-! ### Their looks -/

mutual

/-- The looks of the mirror image are those in the other direction. -/
theorem mem_looks_mirror {l : Look} : (p : Pattern) → (l ∈ p.mirror.looks ↔ l.mirror ∈ p.looks)
  | .empty => by simp [mirror, looks]
  | .literal _ => by simp [mirror, looks]
  | .codeClass _ => by simp [mirror, looks]
  | .look l' => by
    rw [mirror, looks, looks, List.mem_singleton, List.mem_singleton]
    constructor
    · rintro rfl
      exact l'.mirror_mirror
    · rintro rfl
      exact l.mirror_mirror.symm
  | .repetition _ _ _ sub => mem_looks_mirror sub
  | .capture _ _ sub => mem_looks_mirror sub
  | .concat subs => by
    have hsubs := mem_looksAll_mirrorAll (l := l) subs
    rw [mem_looksAll] at hsubs
    rw [mirror, looks, looks, mem_looksAll, ← hsubs]
    simp only [List.mem_reverse]
  | .alternation subs => mem_looksAll_mirrorAll subs

theorem mem_looksAll_mirrorAll {l : Look} : (subs : List Pattern) →
    (l ∈ looksAll (mirrorAll subs) ↔ l.mirror ∈ looksAll subs)
  | [] => by simp [mirrorAll, looksAll]
  | sub :: rest => by
    rw [mirrorAll, looksAll, looksAll, List.mem_append, List.mem_append, mem_looks_mirror sub,
      mem_looksAll_mirrorAll rest]

end

/-- A look is refused in the mirror image if and only if one is in the pattern. -/
theorem find?_refuses_mirror (p : Pattern) :
    p.mirror.looks.find? (refuses words) = none ↔ p.looks.find? (refuses words) = none := by
  rw [find?_refuses_eq_none_iff, find?_refuses_eq_none_iff]
  refine or_congr_right ⟨fun h l hl => ?_, fun h l hl => ?_⟩
  · have hmirror : l.mirror ∈ p.mirror.looks := (mem_looks_mirror p).mpr (by simpa using hl)
    exact l.needsUnicode_mirror.symm.trans (h l.mirror hmirror)
  · exact l.needsUnicode_mirror.symm.trans (h l.mirror ((mem_looks_mirror p).mp hl))

/-! ## Main result -/

/-- **The mirror image of a pattern accepts the reversed texts.**  Under the same settings,
a pattern compiles if and only if its mirror image does; the two automata have the same
number of states; and the one accepts a text if and only if the other accepts that text
reversed. -/
theorem compile_mirror (words : WordData) (settings : Settings) {p : Pattern}
    (hp : p.mirrorable = true) :
    ((∃ a, p.compile words settings = .ok a) ↔ ∃ a', p.mirror.compile words settings = .ok a') ∧
    ∀ a a', p.compile words settings = .ok a → p.mirror.compile words settings = .ok a' →
      a.stateCount = a'.stateCount ∧
      ∀ t t' : Text, t'.values = t.values.reverse →
        ∃ o o', a.run t = .ok o ∧ a'.run t' = .ok o' ∧
          (o.accepted = true ↔ o'.accepted = true) := by
  constructor
  · rw [exists_compile_iff, exists_compile_iff, estimate_mirror hp, find?_refuses_mirror]
  · intro a a' ha ha'
    constructor
    · rw [stateCount_of_compile ha, stateCount_of_compile ha', freshStatesWhole, freshStatesWhole,
        (sameStates_mirror p hp).freshStates]
    · intro t t' hvalues
      obtain ⟨o, hrun, ho⟩ := exists_run_of_compile ha t
      obtain ⟨o', hrun', ho'⟩ := exists_run_of_compile ha' t'
      have hspans : Mirrors t.values.size (p.spansWhole words settings.unanchored t.values)
          (p.mirror.spansWhole words settings.unanchored t.values.reverse) :=
        mirrors_spansWhole hp settings.unanchored
      have hwhole := hspans.iff 0 t.values.size t.values.size 0 (Nat.zero_add _) (Nat.add_zero _)
      rw [hvalues, Array.size_reverse] at ho'
      exact ⟨o, o', hrun, hrun', ho.trans (hwhole.trans ho'.symm)⟩

/-- At the start of a word the letters `aé`, of which the second takes two bytes, and then at
most two times the letter `b`. -/
def accented : Pattern :=
  .concat [.look .wordStartAscii, .literal "aé".toUTF8.toList,
    .repetition 0 (some 2) true (.codeClass [.single 'b'.val])]

theorem mirrorable_accented : accented.mirrorable = true := by decide +kernel

theorem matches_accented : accented.Matches .missing #['a'.val, 'é'.val, 'b'.val] := by
  have hstart : condition #['a'.val, 'é'.val, 'b'.val]
      (Look.wordStartAscii.assertion.holds .missing) 0 0 := ⟨rfl, by decide, by decide⟩
  have hpoints : Utf8.codePoints "aé".toUTF8.toList = ['a'.val, 'é'.val] := by decide +kernel
  have hliteral : word #['a'.val, 'é'.val, 'b'.val] (Utf8.codePoints "aé".toUTF8.toList) 0 2 := by
    rw [hpoints]
    exact ⟨rfl, ['b'.val], rfl⟩
  have hletter : symbol #['a'.val, 'é'.val, 'b'.val] (InRanges [.single 'b'.val]) 2 3 :=
    ⟨rfl, 'b'.val, rfl, .single 'b'.val, List.mem_singleton.mpr rfl, by decide, by decide⟩
  have hallowed : AllowsCopies 0 (some 2) 1 := (allowsCopies_of_le (by decide) 1).mpr (by decide)
  exact ⟨0, hstart, 2, hliteral, 3, ⟨1, hallowed, 3, hletter, rfl⟩, rfl⟩

/-- The pattern accepts `aéb`, and so its mirror image compiles and accepts `béa`. -/
theorem exists_run_mirror_accented :
    ∃ a', accented.mirror.compile .missing {} = .ok a' ∧
      ∃ o', a'.run (.ofString "béa") = .ok o' ∧ o'.accepted = true := by
  obtain ⟨a, ha⟩ : ∃ a, accented.compile .missing {} = .ok a :=
    exists_compile_iff.mpr ⟨by decide +kernel, rfl⟩
  obtain ⟨hcompiles, hruns⟩ := compile_mirror .missing {} mirrorable_accented
  obtain ⟨a', ha'⟩ := hcompiles.mp ⟨a, ha⟩
  obtain ⟨-, haccepts⟩ := hruns a a' ha ha'
  obtain ⟨o, o', hrun, hrun', hiff⟩ :=
    haccepts (.ofString "aéb") (.ofString "béa") (by decide +kernel)
  obtain ⟨o₁, hrun₁, ho₁⟩ := exists_run_of_compile ha (.ofString "aéb")
  obtain rfl : o = o₁ := Except.ok.inj (hrun.symm.trans hrun₁)
  exact ⟨a', ha', o', hrun', hiff.mp (ho₁.mpr matches_accented)⟩

end Pattern
end GuardedAutomata
