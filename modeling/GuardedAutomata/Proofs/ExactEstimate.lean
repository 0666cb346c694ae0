import GuardedAutomata.Proofs.SizeLimit

/-!
# How exact the estimate is

The estimate of a pattern is a number of states, and so is what lowering and building the
pattern allocates (`Pattern.TakesStates`).  Both are recursions along the tree, and they
differ at repetitions only.

* A bounded repetition whose bounds are in order is counted exactly: as many copies as the
  upper bound says, each with one state to go on from.
* An unbounded repetition is counted as two copies more than are mandatory, each with one
  state.  What is built is one copy more, between the two states of the loop.  So the
  estimate counts the states of the body once too often.

For patterns whose bounds are in order the estimate is therefore an upper bound, and it is
exact if no unbounded repetition has a body with states (`Pattern.estimate_exact`).

The words in which the estimate is computed are cut off at every step, also below a
repetition of no copies, where the product is zero whatever was cut off before.  That
nothing is lost is `Pattern.estimate_eq`: the result is the word of the natural number.
-/

namespace GuardedAutomata
namespace Pattern

variable {words : WordData}

/-! ## What is allocated -/

/-- Lowering the pattern, or a search for it, into the empty grammar and building its root
succeeds, and takes the given number of states beyond the source and the target. -/
def TakesStates (words : WordData) (unanchored : Bool) (p : Pattern) (n : Nat) : Prop :=
  ∃ root g a, p.lowerWhole words unanchored Grammar.empty = .ok root g ∧
    g.compile words root = .ok a ∧ a.stateCount = 2 + n

theorem takesStates_iff {unanchored : Bool} {p : Pattern} {n : Nat} :
    p.TakesStates words unanchored n ↔
      p.looks.find? (refuses words) = none ∧ n = p.freshStatesWhole unanchored := by
  have hrefusal := refusal_lowerWhole words unanchored p Grammar.empty
  constructor
  · rintro ⟨root, g, a, hlower, hcompile, hcount⟩
    rw [hlower] at hrefusal
    rw [stateCount_of_lowerWhole hlower hcompile] at hcount
    exact ⟨Option.map_eq_none_iff.mp hrefusal.symm, (Nat.add_left_cancel hcount).symm⟩
  · rintro ⟨hlooks, rfl⟩
    rw [hlooks] at hrefusal
    cases hlower : p.lowerWhole words unanchored Grammar.empty with
    | error e g =>
      rw [hlower] at hrefusal
      nomatch hrefusal
    | ok root g =>
      have hlowered := lowered_lowerWhole hlower
      have hroot := hlowered.usable List.mem_cons_self
      obtain ⟨a, hcompile, -⟩ := hroot.exists_compile words
      exact ⟨root, g, a, hlower, hcompile, stateCount_of_lowerWhole hlower hcompile⟩

/-! ## Where the estimate is exact -/

mutual

/-- The bodies of the unbounded repetitions of a pattern. -/
def loopBodies : Pattern → List Pattern
  | .empty | .literal _ | .codeClass _ | .look _ => []
  | .repetition _ none _ sub => sub :: loopBodies sub
  | .repetition _ (some _) _ sub | .capture _ _ sub => loopBodies sub
  | .concat subs | .alternation subs => loopBodiesAll subs

/-- The same of several patterns. -/
def loopBodiesAll : List Pattern → List Pattern
  | [] => []
  | sub :: rest => loopBodies sub ++ loopBodiesAll rest

end

mutual

/-- **The estimate is exact** if all bounds are in order and the bodies of unbounded
repetitions have no states. -/
theorem freshStates_eq_stateBound : (p : Pattern) → p.ordered = true →
    (∀ body ∈ p.loopBodies, body.freshStates = 0) → p.freshStates = p.stateBound
  | .empty, _, _ => rfl
  | .literal _, _, _ => rfl
  | .codeClass _, _, _ => rfl
  | .look _, _, _ => rfl
  | .repetition min none _ sub, h, hbodies => by
    rw [ordered, Option.all_none, Bool.true_and] at h
    obtain ⟨hbody, hinner⟩ := List.forall_mem_cons.mp hbodies
    have hbound : sub.stateBound = 0 := by
      rw [← freshStates_eq_stateBound sub h hinner, hbody]
    rw [freshStates, stateBound, hbody, hbound, Fragment.repeatedStates, copyCount]
    omega
  | .repetition min (some max) _ sub, h, hbodies => by
    rw [ordered, Option.all_some, Bool.and_eq_true, decide_eq_true_eq] at h
    obtain ⟨hmax, hsub⟩ := h
    rw [freshStates, stateBound, freshStates_eq_stateBound sub hsub hbodies,
      Fragment.repeatedStates, copyCount, Nat.add_sub_cancel' hmax]
  | .capture _ _ sub, h, hbodies => freshStates_eq_stateBound sub h hbodies
  | .concat subs, h, hbodies => by
    rw [freshStates, stateBound, freshStatesAll_eq_stateBoundAll subs h hbodies]
  | .alternation subs, h, hbodies => freshStatesAll_eq_stateBoundAll subs h hbodies

theorem freshStatesAll_eq_stateBoundAll : (subs : List Pattern) → orderedAll subs = true →
    (∀ body ∈ loopBodiesAll subs, body.freshStates = 0) →
    freshStatesAll subs = stateBoundAll subs
  | [], _, _ => rfl
  | sub :: rest, h, hbodies => by
    rw [orderedAll, Bool.and_eq_true] at h
    obtain ⟨hsub, hrest⟩ := h
    obtain ⟨hfirst, hlater⟩ := List.forall_mem_append.mp hbodies
    rw [freshStatesAll, stateBoundAll, freshStates_eq_stateBound sub hsub hfirst,
      freshStatesAll_eq_stateBoundAll rest hrest hlater]

end

/-- **The estimate is exact up to unbounded loops, and never wraps.**  For a pattern whose
bounds are in order, the estimate is the natural number that the recursion comes to, cut off
once at the greatest word.  If no look of the pattern is refused, lowering and building it
succeeds; the states that this takes are at most that number, and exactly that number if
building the body of an unbounded repetition takes no states. -/
theorem estimate_exact (words : WordData) (unanchored : Bool) {p : Pattern}
    (hp : p.ordered = true) :
    (p.estimate unanchored).toNat = min (2 ^ 64 - 1) (p.stateBoundWhole unanchored) ∧
    (p.looks.find? (refuses words) = none → ∃ n, p.TakesStates words unanchored n) ∧
    ∀ n, p.TakesStates words unanchored n →
      n ≤ p.stateBoundWhole unanchored ∧
        ((∀ body ∈ p.loopBodies, body.TakesStates words false 0) →
          n = p.stateBoundWhole unanchored) := by
  refine ⟨?_, fun hlooks => ⟨_, takesStates_iff.mpr ⟨hlooks, rfl⟩⟩, fun n hn => ?_⟩
  · rw [estimate_eq, Saturating.toNat_ofNat, Nat.min_comm]
    rfl
  · obtain ⟨-, rfl⟩ := takesStates_iff.mp hn
    refine ⟨Nat.add_le_add_right (freshStates_le_stateBound p hp) _, fun hbodies => ?_⟩
    have hbare : ∀ body ∈ p.loopBodies, body.freshStates = 0 := fun body hbody =>
      ((takesStates_iff.mp (hbodies body hbody)).2).symm
    rw [freshStatesWhole, stateBoundWhole, freshStates_eq_stateBound p hp hbare]

/-- The greatest number of copies, of the greatest number of copies, of the greatest number of
copies of the empty sequence. -/
def beyondWords : Pattern :=
  .repetition 0 (some 0xFFFFFFFF) true
    (.repetition 0 (some 0xFFFFFFFF) true (.repetition 0 (some 0xFFFFFFFF) true .empty))

/-- Any number of letters, two or three times the word `ab`, and no copies of a pattern whose
estimate is cut off. -/
def lettersAndWords : Pattern :=
  .concat [.repetition 0 none true (.codeClass [⟨97, 122⟩]),
    .repetition 2 (some 3) true (.literal "ab".toUTF8.toList),
    .repetition 0 (some 0) true beyondWords]

/-- A search for that pattern is estimated at sixteen states, and takes sixteen. -/
theorem takesStates_lettersAndWords :
    lettersAndWords.ordered = true ∧ lettersAndWords.looks.find? (refuses .missing) = none ∧
      (lettersAndWords.estimate true).toNat = 16 ∧ lettersAndWords.TakesStates .missing true 16 := by
  have hbound : lettersAndWords.stateBoundWhole true = 16 := by decide +kernel
  obtain ⟨hestimate, hsome, hexact⟩ :=
    estimate_exact .missing true (show lettersAndWords.ordered = true by decide +kernel)
  have hbodies : ∀ body ∈ lettersAndWords.loopBodies, body.TakesStates .missing false 0 := by
    intro body hbody
    obtain rfl : body = .codeClass [⟨97, 122⟩] := List.mem_singleton.mp hbody
    exact takesStates_iff.mpr ⟨rfl, rfl⟩
  obtain ⟨n, hn⟩ := hsome rfl
  have hcount : n = 16 := ((hexact n hn).2 hbodies).trans hbound
  rw [hbound] at hestimate
  rw [hcount] at hn
  exact ⟨by decide +kernel, rfl, hestimate, hn⟩

end Pattern
end GuardedAutomata
