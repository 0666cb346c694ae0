import GuardedAutomata.Automaton.Run
import GuardedAutomata.Proofs.Building
import GuardedAutomata.Proofs.MaskTracking
import GuardedAutomata.Proofs.RankTracking

/-!
# Matching decides acceptance

`Automaton.run` chooses between two simulations by the number of states.  Both
track the automaton, so whichever is chosen, the match ends without a fault in the
outcome that runs determine (`Automaton.exists_outcome`).  For automata from a builder
that is `Builder.Constructed.accepted_iff_accepts`: a text is accepted if and
only if a run accepts it, the code points stay as they are, the cursor ends behind
the last of them, and where it was before makes no difference.
-/

namespace GuardedAutomata

/-- Every match of a well-formed automaton comes to the outcome that runs determine, by
either simulation, the one with masks if the states fit into a word. -/
theorem Automaton.exists_outcome {a : Automaton} (ha : a.WellFormed) (t : Text) :
    ∃ o, a.IsOutcome t.values o ∧ a.run t = .ok o ∧ (RankTable.simulation a).run t = .ok o ∧
      (a.stateCount ≤ maskLimit → (Mask.simulation a).run t = .ok o) := by
  obtain ⟨o, htable, ho⟩ := (RankTable.tracks ha).exists_run t
  have hmask : a.stateCount ≤ maskLimit → (Mask.simulation a).run t = .ok o := by
    intro hlimit
    obtain ⟨o', hrun, ho'⟩ := (Mask.tracks ha hlimit).exists_run t
    rwa [ho.unique ho']
  refine ⟨o, ho, ?_, htable, hmask⟩
  unfold run strategy
  by_cases hlimit : a.stateCount ≤ maskLimit
  · rw [if_pos hlimit]
    exact hmask hlimit
  · rw [if_neg hlimit]
    exact htable

theorem Simulation.run_eq_of_values_eq {σ : Type} (sim : Simulation σ) {t t' : Text}
    (h : t'.values = t.values) : sim.run t' = sim.run t := by
  obtain ⟨values, cursor, hcursor⟩ := t
  obtain ⟨values', cursor', hcursor'⟩ := t'
  subst h
  rw [run, run, Text.setCursor_eq_ok (Nat.zero_le _), Text.setCursor_eq_ok (Nat.zero_le _)]

/-- **Matching is sound and complete for runs.** -/
theorem Builder.Constructed.accepted_iff_accepts {b : Builder} (hb : b.Constructed) (t : Text) :
    ∃ o, b.build.run t = .ok o ∧
      (o.accepted = true ↔ b.build.Accepts t.values) ∧
      o.text.values = t.values ∧ o.text.cursor = t.length ∧
      ∀ t' : Text, t'.values = t.values → b.build.run t' = .ok o := by
  obtain ⟨o, hout, hrun, -⟩ := Automaton.exists_outcome hb.wellFormed t
  refine ⟨o, hrun, hout.accepted, ?_, ?_, fun t' ht' => ?_⟩
  · rw [hout.text]
    rfl
  · rw [hout.text]
    rfl
  · rw [← hrun]
    unfold Automaton.run
    cases b.build.strategy with
    | mask => exact Simulation.run_eq_of_values_eq _ ht'
    | table => exact Simulation.run_eq_of_values_eq _ ht'

/-- A builder whose epsilon edges go round in a cycle that is open before the end of
the text only, next to an edge to the target that is open at the end only. -/
def Builder.cyclic : Builder where
  epsilon := #[{ source := 0, target := 2 },
    { source := 2, target := 0, guard := .custom fun t => t.after?.isSome },
    { source := 2, target := 1, guard := .index (-1) }]
  alpha := #[.literal 0 2 'a']
  stateCount := 3

theorem Builder.constructed_cyclic : Builder.cyclic.Constructed := by
  have hstate := Constructed.freshState .empty rfl
  have hforth := Constructed.addEpsilon (e := { source := 0, target := 2 }) hstate rfl
  have hback := Constructed.addEpsilon
    (e := { source := 2, target := 0, guard := .custom fun t => t.after?.isSome }) hforth rfl
  have hend := Constructed.addEpsilon
    (e := { source := 2, target := 1, guard := .index (-1) }) hback rfl
  exact .addAlpha (e := .literal 0 2 'a') hend rfl

/-- Over one letter, back along the cycle, over the other letter and to the target. -/
theorem Builder.accepts_cyclic : Builder.cyclic.build.Accepts #['a'.val, 'a'.val] := by
  have hfirst : Builder.cyclic.build.Reaches #['a'.val, 'a'.val] ⟨0, 0⟩ ⟨2, 1⟩ :=
    .single (.consume (e := .literal 0 2 'a') (by simp [cyclic, build]) (by decide) rfl)
  have hback := hfirst.tail (.free
    (e := { source := 2, target := 0, guard := .custom fun t => t.after?.isSome })
    (by simp [cyclic, build]) (by decide) rfl)
  have hsecond := hback.tail
    (.consume (e := .literal 0 2 'a') (by simp [cyclic, build]) (by decide) rfl)
  exact hsecond.tail (.free (e := { source := 2, target := 1, guard := .index (-1) })
    (by simp [cyclic, build]) (by decide) (by decide))

/-- The match of that builder's automaton finds this run. -/
theorem Builder.exists_run_cyclic :
    Builder.cyclic.Constructed ∧ ∃ o,
      Builder.cyclic.build.run (Text.ofValues #['a'.val, 'a'.val]) = .ok o ∧
        o.accepted = true := by
  obtain ⟨o, hrun, hiff, -⟩ := constructed_cyclic.accepted_iff_accepts
    (Text.ofValues #['a'.val, 'a'.val])
  exact ⟨constructed_cyclic, o, hrun, hiff.mpr accepts_cyclic⟩

end GuardedAutomata
