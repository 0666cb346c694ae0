import GuardedAutomata.Proofs.Allocation
import GuardedAutomata.Proofs.Refusals

/-!
# What the size limit bounds

The limit is held against an estimate, so it bounds the automaton exactly as far as the
estimate bounds what is allocated (`Pattern.limitSound_iff`).

* The words in which the estimate is computed lose nothing: it is the word of a natural
  number (`Pattern.estimate_eq`).
* Where the two recursions along the tree differ is the repetition.  For an unbounded one
  the estimate counts its body once more than is built.  For a bounded one it counts as
  many copies as the upper bound says, while the mandatory copies are all built even if
  there are more of them.
* So the limit is sound for patterns whose bounds are in order
  (`Pattern.limitSound_of_ordered`).  Without that no limit bounds anything: a repetition at
  least `n` and at most `0` times is estimated at nothing, and takes `n` copies
  (`Pattern.exists_compile_inverted`).
-/

namespace GuardedAutomata

/-! ## Saturating words -/

namespace Saturating

theorem toNat_ofNat (n : Nat) : (ofNat n).toNat = min n (UInt64.size - 1) := by
  rw [ofNat]
  by_cases hn : n < UInt64.size
  · rw [UInt64.toNat_ofNatClamp_of_lt hn]
    omega
  · rw [UInt64.toNat_ofNatClamp_of_le (Nat.not_lt.mp hn)]
    omega

theorem ofNat_congr {m n : Nat} (h : min m (UInt64.size - 1) = min n (UInt64.size - 1)) :
    ofNat m = ofNat n := by
  rw [← UInt64.toNat_inj, toNat_ofNat, toNat_ofNat, h]

theorem add_ofNat (m n : Nat) : add (ofNat m) (ofNat n) = ofNat (m + n) := by
  rw [add, toNat_ofNat, toNat_ofNat]
  exact ofNat_congr (by omega)

/-- A factor can be cut off before the product is. -/
theorem min_mul_min (m n c : Nat) : min (m * min n c) c = min (m * n) c := by
  rcases Nat.le_total n c with hn | hn
  · rw [Nat.min_eq_left hn]
  rw [Nat.min_eq_right hn]
  rcases Nat.eq_zero_or_pos m with rfl | hm
  · rw [Nat.zero_mul, Nat.zero_mul]
  · have hcut : c ≤ m * c := Nat.le_mul_of_pos_left c hm
    have hwhole : m * c ≤ m * n := Nat.mul_le_mul_left m hn
    omega

theorem mul_ofNat (m n : Nat) : mul (ofNat m) (ofNat n) = ofNat (m * n) := by
  rw [mul, toNat_ofNat, toNat_ofNat]
  refine ofNat_congr ?_
  generalize UInt64.size - 1 = c
  calc min (min m c * min n c) c
      = min (min m c * n) c := min_mul_min _ n c
    _ = min (n * min m c) c := by rw [Nat.mul_comm]
    _ = min (n * m) c := min_mul_min n m c
    _ = min (m * n) c := by rw [Nat.mul_comm]

end Saturating

/-! ## The estimate -/

namespace Pattern

variable {words : WordData}

/-- The estimate of a pattern, or of a search for it, as a natural number. -/
def stateBoundWhole (unanchored : Bool) (p : Pattern) : Nat :=
  p.stateBound + if unanchored then searchStates else 0

mutual

theorem estimateTree_eq : (p : Pattern) → p.estimateTree = Saturating.ofNat p.stateBound
  | .empty => rfl
  | .literal _ => rfl
  | .codeClass _ => rfl
  | .look _ => rfl
  | .repetition min max _ sub => by
    have hcopy : Saturating.add sub.estimateTree 1 = Saturating.ofNat (sub.stateBound + 1) := by
      rw [estimateTree_eq sub]
      exact Saturating.add_ofNat sub.stateBound 1
    cases max with
    | none =>
      have hcopies : Saturating.add (Saturating.ofNat min) 2 = Saturating.ofNat (min + 2) :=
        Saturating.add_ofNat min 2
      simp only [estimateTree, hcopy, hcopies]
      exact Saturating.mul_ofNat _ _
    | some max =>
      simp only [estimateTree, hcopy]
      exact Saturating.mul_ofNat _ _
  | .capture _ _ sub => estimateTree_eq sub
  | .concat subs => by
    rw [estimateTree, estimateSum_eq (subs.length - 1) subs, stateBound]
  | .alternation subs => by
    have hsum := estimateSum_eq 0 subs
    rw [Nat.zero_add] at hsum
    rw [estimateTree, stateBound]
    exact hsum

theorem estimateSum_eq : (total : Nat) → (subs : List Pattern) →
    estimateSum (Saturating.ofNat total) subs = Saturating.ofNat (total + stateBoundAll subs)
  | _, [] => rfl
  | total, sub :: rest => by
    rw [estimateSum, estimateTree_eq sub, Saturating.add_ofNat, estimateSum_eq _ rest,
      stateBoundAll, Nat.add_assoc]

end

/-- **The estimate is exact arithmetic**, cut off at the greatest word. -/
theorem estimate_eq (unanchored : Bool) (p : Pattern) :
    p.estimate unanchored = Saturating.ofNat (p.stateBoundWhole unanchored) := by
  rw [estimate, estimateTree_eq, stateBoundWhole]
  cases unanchored with
  | false => rfl
  | true => exact Saturating.add_ofNat _ _

/-! ## Bounds in order -/

mutual

/-- No repetition has a lower bound above its upper bound. -/
def ordered : Pattern → Bool
  | .empty | .literal _ | .codeClass _ | .look _ => true
  | .repetition min max _ sub => max.all (fun max => decide (min ≤ max)) && ordered sub
  | .capture _ _ sub => ordered sub
  | .concat subs | .alternation subs => orderedAll subs

/-- The same of several patterns. -/
def orderedAll : List Pattern → Bool
  | [] => true
  | sub :: rest => ordered sub && orderedAll rest

end

theorem repeatedStates_none_le {body bound : Nat} (h : body ≤ bound) (min : Nat) :
    Fragment.repeatedStates body min none ≤ (bound + 1) * copyCount min none :=
  calc (body + 1) * min + (body + 2)
      ≤ (bound + 1) * min + (bound + 1) * 2 :=
        Nat.add_le_add (Nat.mul_le_mul_right min (by omega)) (by omega)
    _ = (bound + 1) * (min + 2) := (Nat.mul_add _ _ _).symm

theorem repeatedStates_some_le {body bound : Nat} (h : body ≤ bound) {min max : Nat}
    (hmax : min ≤ max) :
    Fragment.repeatedStates body min (some max) ≤ (bound + 1) * copyCount min (some max) := by
  rw [Fragment.repeatedStates, copyCount, Nat.add_sub_cancel' hmax]
  exact Nat.mul_le_mul_right max (by omega)

mutual

/-- **What is allocated is within the estimate** if all bounds are in order. -/
theorem freshStates_le_stateBound : (p : Pattern) → p.ordered = true →
    p.freshStates ≤ p.stateBound
  | .empty, _ => le_rfl
  | .literal _, _ => le_rfl
  | .codeClass _, _ => le_rfl
  | .look _, _ => le_rfl
  | .repetition min none _ sub, h => by
    rw [ordered, Option.all_none, Bool.true_and] at h
    exact repeatedStates_none_le (freshStates_le_stateBound sub h) min
  | .repetition min (some max) _ sub, h => by
    rw [ordered, Option.all_some, Bool.and_eq_true, decide_eq_true_eq] at h
    obtain ⟨hmax, hsub⟩ := h
    exact repeatedStates_some_le (freshStates_le_stateBound sub hsub) hmax
  | .capture _ _ sub, h => freshStates_le_stateBound sub h
  | .concat subs, h => Nat.add_le_add_left (freshStatesAll_le_stateBoundAll subs h) _
  | .alternation subs, h => freshStatesAll_le_stateBoundAll subs h

theorem freshStatesAll_le_stateBoundAll : (subs : List Pattern) → orderedAll subs = true →
    freshStatesAll subs ≤ stateBoundAll subs
  | [], _ => le_rfl
  | sub :: rest, h => by
    rw [orderedAll, Bool.and_eq_true] at h
    obtain ⟨hsub, hrest⟩ := h
    exact Nat.add_le_add (freshStates_le_stateBound sub hsub)
      (freshStatesAll_le_stateBoundAll rest hrest)

end

/-! ## The limit -/

/-- Whatever the limit is, the automaton of the pattern has no more states than the limit
allows beyond the source and the target. -/
def LimitSound (words : WordData) (unanchored : Bool) (p : Pattern) : Prop :=
  ∀ limit a, p.compile words ⟨unanchored, limit⟩ = .ok a → a.stateCount - 2 ≤ limit.toNat

theorem stateCount_sub_two {settings : Settings} {p : Pattern} {a : Automaton}
    (h : p.compile words settings = .ok a) :
    a.stateCount - 2 = p.freshStatesWhole settings.unanchored := by
  rw [stateCount_of_compile h, Nat.add_sub_cancel_left]

theorem limitSound_of_within {unanchored : Bool} {p : Pattern}
    (h : p.freshStatesWhole unanchored ≤ (p.estimate unanchored).toNat) :
    p.LimitSound words unanchored := by
  intro limit a ha
  obtain ⟨hlimit, -⟩ := exists_compile_iff.mp ⟨a, ha⟩
  rw [stateCount_sub_two ha]
  exact h.trans (UInt64.le_iff_toNat_le.mp hlimit)

/-- The least limit under which a pattern compiles is its estimate. -/
theorem LimitSound.within {unanchored : Bool} {p : Pattern} (h : p.LimitSound words unanchored)
    (hlooks : p.looks.find? (refuses words) = none) :
    p.freshStatesWhole unanchored ≤ (p.estimate unanchored).toNat := by
  obtain ⟨a, ha⟩ : ∃ a, p.compile words ⟨unanchored, p.estimate unanchored⟩ = .ok a :=
    exists_compile_iff.mpr ⟨UInt64.le_refl _, hlooks⟩
  have hwithin := h _ a ha
  rwa [stateCount_sub_two ha] at hwithin

/-- The limit is sound for a pattern whose bounds are in order and whose estimate is a
word. -/
theorem limitSound_of_ordered {unanchored : Bool} {p : Pattern} (hp : p.ordered = true)
    (hsize : p.stateBoundWhole unanchored < UInt64.size) : p.LimitSound words unanchored := by
  have hestimate : (p.estimate unanchored).toNat = p.stateBoundWhole unanchored := by
    rw [estimate_eq, Saturating.toNat_ofNat]
    omega
  refine limitSound_of_within ?_
  rw [hestimate]
  exact Nat.add_le_add_right (freshStates_le_stateBound p hp) _

example : LimitSound .missing true
    (.repetition 2 (some 3) true (.literal "ab".toUTF8.toList)) :=
  limitSound_of_ordered rfl (by decide +kernel)

/-- **The limit is as sound as the estimate.**  For a pattern without a look that is refused,
the states of the automaton are within every limit under which the pattern compiles if and
only if they are within the estimate.  They are if no repetition has a lower bound above
its upper bound and the estimate is not cut off. -/
theorem limitSound_iff (words : WordData) (unanchored : Bool) (p : Pattern) :
    (p.LimitSound words unanchored ↔
      p.looks.find? (refuses words) ≠ none ∨
        p.freshStatesWhole unanchored ≤ (p.estimate unanchored).toNat) ∧
    (p.ordered = true → p.stateBoundWhole unanchored < UInt64.size →
      p.LimitSound words unanchored) := by
  refine ⟨⟨fun h => ?_, fun h => ?_⟩, limitSound_of_ordered⟩
  · by_cases hlooks : p.looks.find? (refuses words) = none
    · exact .inr (h.within hlooks)
    · exact .inl hlooks
  · rcases h with hrefused | hwithin
    · intro limit a ha
      obtain ⟨-, hlooks⟩ := exists_compile_iff.mp ⟨a, ha⟩
      exact absurd hlooks hrefused
    · exact limitSound_of_within hwithin

/-! ## Bounds out of order -/

/-- A repetition at least `n` and at most `0` times compiles under every limit, and builds
all `n` copies. -/
theorem exists_compile_inverted {p : Pattern} (hlooks : p.looks.find? (refuses words) = none)
    (limit : UInt64) (n : Nat) :
    ∃ a, (Pattern.repetition n (some 0) true p).compile words ⟨false, limit⟩ = .ok a ∧
      a.stateCount = 2 + (p.freshStates + 1) * n := by
  have hestimate : (Pattern.repetition n (some 0) true p).estimate false = 0 := by
    rw [estimate_eq]
    rfl
  have hlimit : (Pattern.repetition n (some 0) true p).estimate false ≤ limit := by
    rw [hestimate]
    exact UInt64.zero_le
  obtain ⟨a, ha⟩ : ∃ a, (Pattern.repetition n (some 0) true p).compile words ⟨false, limit⟩ =
      .ok a := exists_compile_iff.mpr ⟨hlimit, hlooks⟩
  have hcount : a.stateCount = 2 + (p.freshStates + 1) * (n + (0 - n)) := stateCount_of_compile ha
  rw [Nat.zero_sub, Nat.add_zero] at hcount
  exact ⟨a, ha, hcount⟩

/-- At least five and at most two letters. -/
def fiveOrTwo : Pattern := .repetition 5 (some 2) true (.codeClass [⟨97, 122⟩])

/-- That pattern compiles under the limit two, with five states beyond the source and the
target. -/
theorem exists_compile_fiveOrTwo :
    ∃ a, fiveOrTwo.compile .missing { sizeLimit := 2 } = .ok a ∧ a.stateCount = 7 ∧
      ¬a.stateCount - 2 ≤ (2 : UInt64).toNat := by
  obtain ⟨a, ha⟩ : ∃ a, fiveOrTwo.compile .missing { sizeLimit := 2 } = .ok a :=
    exists_compile_iff.mpr ⟨by decide +kernel, rfl⟩
  have hcount : a.stateCount = 7 := stateCount_of_compile ha
  refine ⟨a, ha, hcount, ?_⟩
  rw [hcount]
  decide

end Pattern
end GuardedAutomata
