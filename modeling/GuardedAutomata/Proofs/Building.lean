import GuardedAutomata.Automaton.Builder

/-!
# Builders that calls lead to

A builder is `Constructed` if some sequence of calls leads to it from the empty
builder.  Calls that fault leave the builder as it was, so they need no case of
their own.

Every call checks the states it is given, so a constructed builder only ever
becomes a well-formed automaton (`Builder.Constructed.wellFormed`).  Each call has
a lemma that says so of its own step, and the lemmas are used again wherever a
fragment makes these calls.
-/

namespace GuardedAutomata
namespace Builder

/-- Calls lead from the empty builder to this one. -/
inductive Constructed : Builder → Prop where
  | empty : Constructed empty
  | freshState {b b' : Builder} {s : StateId} (h : Constructed b)
      (hcall : Build.freshState b = .ok s b') : Constructed b'
  | addEpsilon {b b' : Builder} {e : EpsilonEdge} (h : Constructed b)
      (hcall : Build.addEpsilon e b = .ok () b') : Constructed b'
  | addAlpha {b b' : Builder} {e : AlphaEdge} (h : Constructed b)
      (hcall : Build.addAlpha e b = .ok () b') : Constructed b'

theorem wellFormed_empty : empty.build.WellFormed where
  two_le_stateCount := Nat.le_refl _
  epsilon_lt _ he := absurd he List.not_mem_nil
  alpha_lt _ he := absurd he List.not_mem_nil

variable {b : Builder}

theorem wellFormed_freshState (h : b.build.WellFormed) :
    ({ b with stateCount := b.stateCount + 1 } : Builder).build.WellFormed where
  two_le_stateCount := Nat.le_succ_of_le h.two_le_stateCount
  epsilon_lt e he := ⟨Nat.lt_succ_of_lt (h.epsilon_lt e he).1,
    Nat.lt_succ_of_lt (h.epsilon_lt e he).2⟩
  alpha_lt e he := ⟨Nat.lt_succ_of_lt (h.alpha_lt e he).1, Nat.lt_succ_of_lt (h.alpha_lt e he).2⟩

theorem wellFormed_addEpsilon (h : b.build.WellFormed) {e : EpsilonEdge}
    (he : e.source < b.stateCount ∧ e.target < b.stateCount) :
    ({ b with epsilon := b.epsilon.push e } : Builder).build.WellFormed where
  two_le_stateCount := h.two_le_stateCount
  epsilon_lt e' he' := by
    rcases Array.mem_push.mp (Array.mem_toList_iff.mp he') with hold | rfl
    · exact h.epsilon_lt e' (Array.mem_toList_iff.mpr hold)
    · exact he
  alpha_lt := h.alpha_lt

theorem wellFormed_addAlpha (h : b.build.WellFormed) {e : AlphaEdge}
    (he : e.source < b.stateCount ∧ e.target < b.stateCount) :
    ({ b with alpha := b.alpha.push e } : Builder).build.WellFormed where
  two_le_stateCount := h.two_le_stateCount
  epsilon_lt := h.epsilon_lt
  alpha_lt e' he' := by
    rcases Array.mem_push.mp (Array.mem_toList_iff.mp he') with hold | rfl
    · exact h.alpha_lt e' (Array.mem_toList_iff.mpr hold)
    · exact he

/-- Constructed builders are well formed. -/
theorem Constructed.wellFormed (h : b.Constructed) : b.build.WellFormed := by
  induction h with
  | empty => exact wellFormed_empty
  | freshState _ hcall ih =>
    cases hcall
    exact wellFormed_freshState ih
  | @addEpsilon b b' e _ hcall ih =>
    by_cases he : b.hasStates e.source e.target = true
    · rw [Build.addEpsilon_eq_ok he] at hcall
      cases hcall
      exact wellFormed_addEpsilon ih (hasStates_iff.mp he)
    · rw [Build.addEpsilon_eq_error he] at hcall
      cases hcall
  | @addAlpha b b' e _ hcall ih =>
    by_cases he : b.hasStates e.source e.target = true
    · rw [Build.addAlpha_eq_ok he] at hcall
      cases hcall
      exact wellFormed_addAlpha ih (hasStates_iff.mp he)
    · rw [Build.addAlpha_eq_error he] at hcall
      cases hcall

end Builder
end GuardedAutomata
