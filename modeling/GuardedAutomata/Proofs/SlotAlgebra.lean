import GuardedAutomata.SlotRelation
import Mathlib.Tactic.Common

/-!
# Calculating with slot relations

Relations between slots compose like words: `andThen` is associative and `stay` is
its unit, so copies in a row can be split anywhere (`copies_add`).  The two tails of
a repetition, `anyNumber` of copies and copies `upTo` a number, satisfy the
equations by which fragments build them, and a repetition is its mandatory copies
followed by such a tail.

A relation is `Bounded` on a text if it does not lead out of it.  Every relation that
a node can stand for is.  All ways to compose relations are monotone.
-/

namespace GuardedAutomata
namespace SlotRelation

/-- Any number of copies of a relation in a row. -/
def anyNumber (R : SlotRelation) : SlotRelation := fun i j => ∃ k, copies R k i j

/-- At most the given number of copies of a relation in a row. -/
def upTo (R : SlotRelation) (n : Nat) : SlotRelation := fun i j => ∃ k ≤ n, copies R k i j

/-- One of two relations. -/
def either (R S : SlotRelation) : SlotRelation := fun i j => R i j ∨ S i j

/-! ## Composition -/

@[simp] theorem stay_andThen (R : SlotRelation) : andThen stay R = R := by
  ext i k
  constructor
  · intro hrel
    obtain ⟨j, rfl, h⟩ := hrel
    exact h
  · exact fun h => ⟨i, rfl, h⟩

@[simp] theorem andThen_stay (R : SlotRelation) : andThen R stay = R := by
  ext i k
  constructor
  · intro hrel
    obtain ⟨j, h, rfl⟩ := hrel
    exact h
  · exact fun h => ⟨k, h, rfl⟩

theorem andThen_assoc (R S T : SlotRelation) :
    andThen (andThen R S) T = andThen R (andThen S T) := by
  ext i l
  constructor
  · intro hrel
    obtain ⟨k, ⟨j, hR, hS⟩, hT⟩ := hrel
    exact ⟨j, hR, k, hS, hT⟩
  · intro hrel
    obtain ⟨j, hR, k, hS, hT⟩ := hrel
    exact ⟨k, ⟨j, hR, hS⟩, hT⟩

/-- Copies in a row can be split anywhere. -/
theorem copies_add (R : SlotRelation) (m n : Nat) :
    copies R (m + n) = andThen (copies R m) (copies R n) := by
  induction m with
  | zero => rw [Nat.zero_add, copies_zero, stay_andThen]
  | succ m ih => rw [Nat.succ_add, copies_succ, copies_succ, ih, andThen_assoc]

/-- The last of several copies can be split off. -/
theorem copies_succ_eq (R : SlotRelation) (k : Nat) :
    copies R (k + 1) = andThen (copies R k) R := by
  rw [copies_add, copies_succ, copies_zero, andThen_stay]

@[simp] theorem inOrder_singleton (R : SlotRelation) : inOrder [R] = R := andThen_stay R

theorem inOrder_append (Rs Ss : List SlotRelation) :
    inOrder (Rs ++ Ss) = andThen (inOrder Rs) (inOrder Ss) := by
  induction Rs with
  | nil => exact (stay_andThen _).symm
  | cons R rest ih => rw [List.cons_append, inOrder_cons, ih, inOrder_cons, andThen_assoc]

theorem oneOf_cons (R : SlotRelation) (rest : List SlotRelation) :
    oneOf (R :: rest) = either R (oneOf rest) := by
  ext i j
  constructor
  · intro hrel
    obtain ⟨S, hS, h⟩ := hrel
    rcases List.mem_cons.mp hS with rfl | hS
    · exact .inl h
    · exact .inr ⟨S, hS, h⟩
  · intro hrel
    rcases hrel with h | ⟨S, hS, h⟩
    · exact ⟨R, List.mem_cons_self, h⟩
    · exact ⟨S, List.mem_cons_of_mem _ hS, h⟩

theorem not_oneOf_nil (i j : Nat) : ¬oneOf [] i j := by
  intro hrel
  obtain ⟨R, hR, -⟩ := hrel
  exact List.not_mem_nil hR

/-! ## Words -/

theorem word_nil (w : Array UInt32) : word w [] = stay := by
  ext i j
  constructor
  · exact fun h => h.1.symm
  · exact fun h => ⟨h.symm, List.nil_prefix⟩

/-- A word is its first code point and then the rest. -/
theorem word_cons (w : Array UInt32) (v : UInt32) (vs : List UInt32) :
    word w (v :: vs) = andThen (symbol w (· = v)) (word w vs) := by
  ext i j
  constructor
  · intro hrel
    obtain ⟨hj, hprefix⟩ := hrel
    cases hdrop : w.toList.drop i with
    | nil =>
      rw [hdrop] at hprefix
      exact absurd (List.prefix_nil.mp hprefix) (List.cons_ne_nil v vs)
    | cons u us =>
      rw [hdrop, List.cons_prefix_cons] at hprefix
      have hget : w[i]? = some u := by
        rw [← Array.getElem?_toList, ← List.head?_drop, hdrop, List.head?_cons]
      have hrest : w.toList.drop (i + 1) = us := by
        rw [← List.tail_drop, hdrop, List.tail_cons]
      refine ⟨i + 1, ⟨rfl, u, hget, hprefix.1.symm⟩, ?_, hrest ▸ hprefix.2⟩
      rw [hj, List.length_cons]
      omega
  · intro hrel
    obtain ⟨_, ⟨rfl, u, hu, rfl⟩, hj, hprefix⟩ := hrel
    obtain ⟨hlt, rfl⟩ := Array.getElem?_eq_some_iff.mp hu
    refine ⟨by rw [hj, List.length_cons]; omega, ?_⟩
    rw [List.drop_eq_getElem_cons (by simpa using hlt), List.cons_prefix_cons]
    exact ⟨Array.getElem_toList hlt, hprefix⟩

/-- A word is its code points in order. -/
theorem inOrder_symbols (w : Array UInt32) (vs : List UInt32) :
    inOrder (vs.map fun v => symbol w (· = v)) = word w vs := by
  induction vs with
  | nil => exact (word_nil w).symm
  | cons v vs ih => rw [List.map_cons, inOrder_cons, ih, word_cons]

/-! ## Repetitions -/

theorem upTo_zero (R : SlotRelation) : upTo R 0 = stay := by
  ext i j
  constructor
  · intro hrel
    obtain ⟨k, hk, h⟩ := hrel
    obtain rfl := Nat.le_zero.mp hk
    exact h
  · exact fun h => ⟨0, Nat.le_refl _, h⟩

/-- Optional copies are left out, or there is one and then the rest. -/
theorem upTo_succ (R : SlotRelation) (n : Nat) :
    upTo R (n + 1) = either stay (andThen R (upTo R n)) := by
  ext i j
  constructor
  · intro hrel
    obtain ⟨k, hk, h⟩ := hrel
    cases k with
    | zero => exact .inl h
    | succ k =>
      obtain ⟨m, hR, hrest⟩ := h
      exact .inr ⟨m, hR, k, Nat.le_of_succ_le_succ hk, hrest⟩
  · intro hrel
    rcases hrel with h | ⟨m, hR, k, hk, hrest⟩
    · exact ⟨0, Nat.zero_le _, h⟩
    · exact ⟨k + 1, Nat.succ_le_succ hk, m, hR, hrest⟩

/-- Without an upper bound, the mandatory copies are followed by any number. -/
theorem andThen_copies_anyNumber (R : SlotRelation) (min : Nat) :
    andThen (copies R min) (anyNumber R) = repetition R min none := by
  ext i j
  constructor
  · intro hrel
    obtain ⟨m, hmin, k, hk⟩ := hrel
    refine ⟨min + k, (allowsCopies_none _ _).mpr (Nat.le_add_right _ _), ?_⟩
    rw [copies_add]
    exact ⟨m, hmin, hk⟩
  · intro hrel
    obtain ⟨k, hk, h⟩ := hrel
    obtain ⟨l, rfl⟩ := Nat.exists_eq_add_of_le ((allowsCopies_none _ _).mp hk)
    rw [copies_add] at h
    obtain ⟨m, hmin, hl⟩ := h
    exact ⟨m, hmin, l, hl⟩

/-- With an upper bound, the mandatory copies are followed by the optional ones, of
which there are none if the bound is below `min`. -/
theorem andThen_copies_upTo (R : SlotRelation) (min max : Nat) :
    andThen (copies R min) (upTo R (max - min)) = repetition R min (some max) := by
  have hallows : ∀ l, AllowsCopies min (some max) (min + l) ↔ l ≤ max - min := by
    intro l
    rcases Nat.lt_or_ge max min with hlt | hle
    · rw [allowsCopies_of_lt hlt]
      omega
    · rw [allowsCopies_of_le hle]
      omega
  ext i j
  constructor
  · intro hrel
    obtain ⟨m, hmin, l, hl, h⟩ := hrel
    refine ⟨min + l, (hallows l).mpr hl, ?_⟩
    rw [copies_add]
    exact ⟨m, hmin, h⟩
  · intro hrel
    obtain ⟨k, hk, h⟩ := hrel
    obtain ⟨l, rfl⟩ := Nat.exists_eq_add_of_le hk.1
    rw [copies_add] at h
    obtain ⟨m, hmin, hrest⟩ := h
    exact ⟨m, hmin, l, (hallows l).mp hk, hrest⟩

/-! ## Bounded relations -/

/-- The relation does not lead out of the text. -/
def Bounded (w : Array UInt32) (R : SlotRelation) : Prop :=
  ∀ i j, i ≤ w.size → R i j → j ≤ w.size

variable {w : Array UInt32} {R S : SlotRelation}

theorem bounded_stay : Bounded w stay := by
  rintro i _ hi rfl
  exact hi

theorem bounded_condition (p : Text → Bool) : Bounded w (condition w p) := by
  rintro i _ hi ⟨rfl, -⟩
  exact hi

theorem bounded_symbol (p : UInt32 → Prop) : Bounded w (symbol w p) := by
  rintro i _ - ⟨rfl, v, hv, -⟩
  obtain ⟨hlt, -⟩ := Array.getElem?_eq_some_iff.mp hv
  exact hlt

theorem Bounded.andThen (hR : Bounded w R) (hS : Bounded w S) : Bounded w (andThen R S) := by
  intro i k hi hrel
  obtain ⟨j, hij, hjk⟩ := hrel
  exact hS j k (hR i j hi hij) hjk

theorem Bounded.inOrder {Rs : List SlotRelation} (h : ∀ R ∈ Rs, Bounded w R) :
    Bounded w (inOrder Rs) := by
  induction Rs with
  | nil => exact bounded_stay
  | cons R rest ih =>
    exact (h R List.mem_cons_self).andThen (ih fun S hS => h S (List.mem_cons_of_mem _ hS))

theorem Bounded.oneOf {Rs : List SlotRelation} (h : ∀ R ∈ Rs, Bounded w R) :
    Bounded w (oneOf Rs) := by
  intro i j hi hrel
  obtain ⟨R, hR, hij⟩ := hrel
  exact h R hR i j hi hij

theorem Bounded.copies (hR : Bounded w R) (k : Nat) : Bounded w (copies R k) := by
  induction k with
  | zero => exact bounded_stay
  | succ k ih => exact hR.andThen ih

theorem Bounded.repetition (hR : Bounded w R) (min : Nat) (max : Option Nat) :
    Bounded w (repetition R min max) := by
  intro i j hi hrel
  obtain ⟨k, -, hk⟩ := hrel
  exact hR.copies k i j hi hk

/-! ## Monotone composition -/

theorem andThen_mono {R R' S S' : SlotRelation} (hR : ∀ i j, R i j → R' i j)
    (hS : ∀ i j, S i j → S' i j) (i j : Nat) (h : SlotRelation.andThen R S i j) :
    SlotRelation.andThen R' S' i j := by
  obtain ⟨k, hik, hkj⟩ := h
  exact ⟨k, hR i k hik, hS k j hkj⟩

theorem copies_mono {R R' : SlotRelation} (h : ∀ i j, R i j → R' i j) (k : Nat) :
    ∀ i j, SlotRelation.copies R k i j → SlotRelation.copies R' k i j := by
  induction k with
  | zero => exact fun _ _ hij => hij
  | succ k ih => exact andThen_mono h ih

theorem repetition_mono {R R' : SlotRelation} (h : ∀ i j, R i j → R' i j) (min : Nat)
    (max : Option Nat) (i j : Nat) (hij : SlotRelation.repetition R min max i j) :
    SlotRelation.repetition R' min max i j := by
  obtain ⟨k, hk, hcopies⟩ := hij
  exact ⟨k, hk, copies_mono h k i j hcopies⟩

variable {ι : Type} {cs : List ι} {rel rel' : ι → SlotRelation}

theorem inOrder_mono (h : ∀ c ∈ cs, ∀ i j, rel c i j → rel' c i j) :
    ∀ i j, SlotRelation.inOrder (cs.map rel) i j → SlotRelation.inOrder (cs.map rel') i j := by
  induction cs with
  | nil => exact fun _ _ hij => hij
  | cons c rest ih =>
    exact andThen_mono (h c List.mem_cons_self) (ih fun d hd => h d (List.mem_cons_of_mem _ hd))

theorem oneOf_mono (h : ∀ c ∈ cs, ∀ i j, rel c i j → rel' c i j) (i j : Nat)
    (hij : SlotRelation.oneOf (cs.map rel) i j) : SlotRelation.oneOf (cs.map rel') i j := by
  obtain ⟨R, hR, hij⟩ := hij
  obtain ⟨c, hc, rfl⟩ := List.mem_map.mp hR
  exact ⟨rel' c, List.mem_map_of_mem hc, h c hc i j hij⟩

end SlotRelation
end GuardedAutomata
