import GuardedAutomata.Assertion

/-!
# The slots at which an assertion holds

An assertion looks at the two neighbours of a slot and at nothing else, so the slots at which it
holds can be collected in one pass from left to right.  `Assertion.slots` says which slots these
are, in terms of `Assertion.holds`; `Assertion.slots_eq` says that the pass finds them.

The pass is written for a *piece* of a text.  What stands to the left of the piece is given by one
value, `prev`, and it matters for the first slot of the piece alone: `slotsBetween_eq` splits that
slot off, and `laterSlots`, the rest, is about the piece and nothing before it.  So a fact about
all texts can be proved by induction on the piece.
-/

namespace GuardedAutomata

/-- The slots of a text at which the assertion holds, in ascending order. -/
def Assertion.slots (words : WordData) (a : Assertion) (w : Array UInt32) : List Nat :=
  (List.range (w.size + 1)).filter fun c =>
    decide (∃ h : c ≤ w.size, a.holds words (.ofValuesAt w c h) = true)

theorem Assertion.mem_slots {words : WordData} {a : Assertion} {w : Array UInt32} {c : Nat}
    (h : c ≤ w.size) :
    c ∈ a.slots words w ↔ a.holds words (.ofValuesAt w c h) = true := by
  rw [slots, List.mem_filter, List.mem_range, decide_eq_true_eq]
  exact ⟨fun hc => hc.2.2, fun hc => ⟨Nat.lt_succ_of_le h, h, hc⟩⟩

theorem Assertion.le_of_mem_slots {words : WordData} {a : Assertion} {w : Array UInt32} {c : Nat}
    (hc : c ∈ a.slots words w) : c ≤ w.size :=
  Nat.le_of_lt_succ (List.mem_range.mp (List.mem_filter.mp hc).1)

theorem Assertion.pairwise_slots (words : WordData) (a : Assertion) (w : Array UInt32) :
    (a.slots words w).Pairwise (· < ·) :=
  List.pairwise_lt_range.filter _

namespace Text

/-- The value before a slot of a piece, where `prev` is the value before the piece. -/
def valueBefore (prev : Option UInt32) (piece : List UInt32) : Nat → Option UInt32
  | 0 => prev
  | c + 1 => piece[c]?

variable (p : Option UInt32 → Option UInt32 → Bool)

/-- The slots of a piece whose two neighbours pass the test, counted from the start of the
piece. -/
def slotsBetween (prev : Option UInt32) (piece : List UInt32) : List Nat :=
  (List.range (piece.length + 1)).filter fun c => p (valueBefore prev piece c) piece[c]?

/-- The slots of a piece whose two neighbours pass the test, its first slot left out. -/
def laterSlots : List UInt32 → List Nat
  | [] => []
  | v :: rest => (slotsBetween p (some v) rest).map (· + 1)

/-- Only the first slot of a piece looks to the left of the piece. -/
theorem slotsBetween_eq (prev : Option UInt32) (piece : List UInt32) :
    slotsBetween p prev piece =
      (if p prev piece.head? then [0] else []) ++ laterSlots p piece := by
  have hlater : ((List.range piece.length).map Nat.succ).filter
      (fun c => p (valueBefore prev piece c) piece[c]?) = laterSlots p piece := by
    cases piece with
    | nil => rfl
    | cons v rest =>
      -- slot `c + 1` of the piece is slot `c` of what follows its first value
      rw [laterSlots, slotsBetween, List.filter_map]
      refine congrArg (List.map _) (List.filter_congr fun c _ => ?_)
      cases c with
      | zero => rfl
      | succ c => rfl
  rw [slotsBetween, List.range_succ_eq_map, List.filter_cons, hlater, List.head?_eq_getElem?]
  show (if p prev piece[0]? then 0 :: laterSlots p piece else laterSlots p piece) = _
  split
  · rfl
  · rfl

variable {p} {prev : Option UInt32} {piece : List UInt32}

theorem slotsBetween_of_first (h : p prev piece.head? = true) :
    slotsBetween p prev piece = 0 :: laterSlots p piece := by
  rw [slotsBetween_eq, if_pos h]
  rfl

theorem slotsBetween_of_not_first (h : p prev piece.head? = false) :
    slotsBetween p prev piece = laterSlots p piece := by
  rw [slotsBetween_eq, h]
  rfl

end Text

open Text in
/-- The slots at which an assertion holds, collected from left to right. -/
theorem Assertion.slots_eq (words : WordData) (a : Assertion) (w : Array UInt32) :
    a.slots words w = slotsBetween (a.holdsBetween words) none w.toList := by
  refine List.filter_congr fun c hc => ?_
  have hle : c ≤ w.size := Nat.le_of_lt_succ (List.mem_range.mp hc)
  have hbefore : (ofValuesAt w c hle).before? = valueBefore none w.toList c := by
    cases c with
    | zero => rfl
    | succ c => exact (Array.getElem?_toList).symm
  have hafter : (ofValuesAt w c hle).after? = w.toList[c]? := (Array.getElem?_toList).symm
  rw [Bool.eq_iff_iff, decide_eq_true_eq, exists_prop_of_true hle, holds, hbefore, hafter]

end GuardedAutomata
