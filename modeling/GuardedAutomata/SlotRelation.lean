import GuardedAutomata.Text.Basic

/-!
# Relations between slots

What a pattern or a node of a grammar stands for, on a given text, is a relation
between slots: it relates `i` to `j` if it can stand for the part of the text
from slot `i` to slot `j`.  A relation is the right notion rather than a set of
texts, because an assertion sees the whole text and not only the part between
two slots.

The relations of the single code point and of the condition come from the text.
The others are composed: one relation after the other, a choice between several,
and a number of copies.
-/

namespace GuardedAutomata

/-- A relation between the slots of a text. -/
abbrev SlotRelation := Nat → Nat → Prop

namespace SlotRelation

variable (w : Array UInt32)

/-- From a slot to itself. -/
def stay : SlotRelation := fun i j => i = j

/-- From a slot to itself, wherever a condition on the text and its cursor holds. -/
def condition (p : Text → Bool) : SlotRelation := fun i j =>
  i = j ∧ ∃ h : i ≤ w.size, p (Text.ofValuesAt w i h) = true

/-- Over one code point of which a predicate holds. -/
def symbol (p : UInt32 → Prop) : SlotRelation := fun i j =>
  j = i + 1 ∧ ∃ v, w[i]? = some v ∧ p v

/-- Over a list of given code points. -/
def word (values : List UInt32) : SlotRelation := fun i j =>
  j = i + values.length ∧ values <+: w.toList.drop i

/-- One relation after the other. -/
def andThen (R S : SlotRelation) : SlotRelation := fun i k => ∃ j, R i j ∧ S j k

/-- Several relations in order. -/
def inOrder : List SlotRelation → SlotRelation
  | [] => stay
  | R :: rest => andThen R (inOrder rest)

/-- Any one of several relations. -/
def oneOf (Rs : List SlotRelation) : SlotRelation := fun i j => ∃ R ∈ Rs, R i j

/-- A number of copies of a relation in a row. -/
def copies (R : SlotRelation) : Nat → SlotRelation
  | 0 => stay
  | k + 1 => andThen R (copies R k)

/-- A repetition with the given bounds may have `k` copies: at least `min` and, if
there is a `max`, at most that many or exactly `min`. -/
def AllowsCopies (min : Nat) (max : Option Nat) (k : Nat) : Prop :=
  min ≤ k ∧ ∀ m ∈ max, k ≤ m ∨ k = min

/-- Any number of copies that the bounds of a repetition allow. -/
def repetition (R : SlotRelation) (min : Nat) (max : Option Nat) : SlotRelation :=
  fun i j => ∃ k, AllowsCopies min max k ∧ copies R k i j

@[simp] theorem inOrder_nil : inOrder [] = stay := rfl

@[simp] theorem inOrder_cons (R : SlotRelation) (rest : List SlotRelation) :
    inOrder (R :: rest) = andThen R (inOrder rest) := rfl

@[simp] theorem copies_zero (R : SlotRelation) : copies R 0 = stay := rfl

@[simp] theorem copies_succ (R : SlotRelation) (k : Nat) :
    copies R (k + 1) = andThen R (copies R k) := rfl

/-- Without an upper bound, every number from `min` on is allowed. -/
@[simp] theorem allowsCopies_none (min k : Nat) : AllowsCopies min none k ↔ min ≤ k := by
  simp [AllowsCopies]

/-- An upper bound below `min` leaves `min` itself. -/
theorem allowsCopies_of_lt {min max : Nat} (h : max < min) (k : Nat) :
    AllowsCopies min (some max) k ↔ k = min := by
  simp only [AllowsCopies, Option.mem_some_iff, forall_eq']
  omega

/-- An upper bound that is not below `min` is one. -/
theorem allowsCopies_of_le {min max : Nat} (h : min ≤ max) (k : Nat) :
    AllowsCopies min (some max) k ↔ min ≤ k ∧ k ≤ max := by
  simp only [AllowsCopies, Option.mem_some_iff, forall_eq']
  omega

end SlotRelation
end GuardedAutomata
