import GuardedAutomata.Proofs.Matching
import Mathlib.Order.Bounds.Basic

/-!
# What the early exit says

A match that comes to a code point which leads nowhere stops there, puts the cursor to the end,
rejects, and leaves a record with a number in it.  `Builder.Constructed.exit_exact` says what can be
read off the record: it is there exactly if no run gets through the text, and the number is one more
than what the longest run consumes.

What runs can consume is a set of numbers, `Automaton.consumable`.  A run that consumes a number of
code points has consumed every smaller number on its way (`consumable_of_le`), so the set is an
initial segment of the slots.  It always has `0` in it, and the match exits exactly if it does not
have the last slot in it.

The exit is decided when a code point has been consumed and *before* the closure of the slot behind
it.  That is no loss, since a closure only adds to states that are there already: a slot is in the
set as soon as some state is reached over the code point before it
(`Automaton.activeAt_succ_eq_empty_iff`), whatever guards are open there.
-/

namespace GuardedAutomata

variable {a : Automaton} {w : Array UInt32}

/-! ## What runs can consume -/

theorem Automaton.Reaches.slot_le_size {c d : Config} (hc : c.slot ≤ w.size)
    (h : a.Reaches w c d) : d.slot ≤ w.size := by
  rcases Relation.ReflTransGen.cases_tail h with rfl | ⟨e, -, hmove⟩
  · exact hc
  · cases hmove with
    | free _ hslot => exact hslot
    | consume _ hslot => exact hslot

namespace Automaton

/-- The numbers of code points that runs from the source can consume, in whatever state they end. -/
def consumable (a : Automaton) (w : Array UInt32) : Set Nat :=
  {k | ∃ q, a.Reaches w ⟨source, 0⟩ ⟨q, k⟩}

theorem not_mem_consumable {k : Nat} : k ∉ a.consumable w ↔ a.activeAt w k = ∅ :=
  Set.not_nonempty_iff_eq_empty

theorem le_size_of_mem_consumable {k : Nat} (hk : k ∈ a.consumable w) : k ≤ w.size := by
  obtain ⟨q, hrun⟩ := hk
  exact hrun.slot_le_size (Nat.zero_le _)

/-- Runs consume the code points one by one. -/
theorem consumable_of_le {k l : Nat} (hle : l ≤ k) (hk : k ∈ a.consumable w) :
    l ∈ a.consumable w := by
  by_contra hl
  have hempty := not_mem_consumable.mp hl
  have hsize := le_size_of_mem_consumable hk
  exact not_mem_consumable.mpr (a.activeAt_eq_empty_of_le w hle hsize hempty) hk

/-- The slot after which all runs end is the greatest that one of them gets to. -/
theorem isGreatest_consumable {k : Nat} (hk : (a.activeAt w k).Nonempty)
    (hend : a.activeAt w (k + 1) = ∅) : IsGreatest (a.consumable w) k := by
  refine ⟨hk, fun l hl => Nat.not_lt.mp fun hlt => ?_⟩
  exact not_mem_consumable.mpr hend (consumable_of_le hlt hl)

/-! ## What the outcome says -/

namespace IsOutcome

variable {o : Outcome}

theorem log_ne_nil_iff (h : a.IsOutcome w o) : o.log ≠ [] ↔ w.size ∉ a.consumable w := by
  rcases h.log with ⟨hactive, hlog⟩ | ⟨k, hk, hactive, hend, hlog⟩
  · exact iff_of_false (fun hne => hne hlog) fun hnot => hnot hactive
  · refine iff_of_true (by rw [hlog]; exact List.cons_ne_nil _ _) fun hsize => ?_
    exact not_mem_consumable.mpr hend (consumable_of_le hk hsize)

theorem exists_log_eq (h : a.IsOutcome w o) (hnot : w.size ∉ a.consumable w) :
    ∃ k, IsGreatest (a.consumable w) k ∧ o.log = [.exhausted (k + 1) w.size] := by
  rcases h.log with ⟨hactive, -⟩ | ⟨k, -, hactive, hend, hlog⟩
  · exact absurd hactive hnot
  · exact ⟨k, isGreatest_consumable hactive hend, hlog⟩

theorem accepted_eq_false (h : a.IsOutcome w o) (hnot : w.size ∉ a.consumable w) :
    o.accepted = false := by
  rw [← Bool.not_eq_true, h.accepted]
  exact fun haccepts => hnot ⟨target, haccepts⟩

end IsOutcome
end Automaton

/-- **The record of an early exit is exact**, by either simulation.  A match leaves a record if and
only if no run consumes the whole text.  Then it leaves one record, which counts one code point more
than the longest run consumes; the text is rejected, and the cursor is at its end. -/
theorem Builder.Constructed.exit_exact {b : Builder} (hb : b.Constructed) (t : Text) :
    ∃ o, b.build.run t = .ok o ∧ (RankTable.simulation b.build).run t = .ok o ∧
      (b.build.stateCount ≤ Automaton.maskLimit → (Mask.simulation b.build).run t = .ok o) ∧
      (o.log ≠ [] ↔ t.length ∉ b.build.consumable t.values) ∧
      (t.length ∉ b.build.consumable t.values →
        ∃ k, IsGreatest (b.build.consumable t.values) k ∧
          o.log = [.exhausted (k + 1) t.length] ∧
          o.log.map LogRecord.message =
            [s!"no active states after {k + 1} of {t.length} symbols"] ∧
          o.accepted = false ∧ o.text.cursor = t.length) := by
  obtain ⟨o, hout, hrun, htable, hmask⟩ := Automaton.exists_outcome hb.wellFormed t
  refine ⟨o, hrun, htable, hmask, hout.log_ne_nil_iff, fun hnot => ?_⟩
  obtain ⟨k, hk, hlog⟩ := hout.exists_log_eq hnot
  refine ⟨k, hk, hlog, ?_, hout.accepted_eq_false hnot, ?_⟩
  · rw [hlog]
    rfl
  · rw [hout.text]
    rfl

/-- The only letter of the cyclic builder is `a`, so its runs through `aba` end at the `b`. -/
theorem Builder.isGreatest_cyclic :
    IsGreatest (cyclic.build.consumable #['a'.val, 'b'.val, 'a'.val]) 1 := by
  have hfirst : cyclic.build.Reaches #['a'.val, 'b'.val, 'a'.val] ⟨0, 0⟩ ⟨2, 1⟩ :=
    .single (.consume (e := .literal 0 2 'a') (by simp [cyclic, build]) (by decide) rfl)
  have hend : cyclic.build.activeAt #['a'.val, 'b'.val, 'a'.val] 2 = ∅ := by
    rw [Automaton.activeAt_succ_eq_empty_iff _ _ (by decide)]
    refine Set.eq_empty_of_forall_notMem ?_
    rintro q ⟨e, he, -, haccepts, -⟩
    obtain rfl : e = .literal 0 2 'a' := by simpa [cyclic, build] using he
    exact absurd haccepts (by decide)
  exact Automaton.isGreatest_consumable ⟨2, hfirst⟩ hend

/-- Its automaton takes the first letter of `aba`, gives up at the second and says so. -/
theorem Builder.exit_exact_cyclic :
    Builder.cyclic.Constructed ∧ ∃ o,
      Builder.cyclic.build.run (.ofString "aba") = .ok o ∧ o.log = [.exhausted 2 3] ∧
        o.accepted = false ∧ o.text.cursor = 3 := by
  obtain ⟨o, hrun, -, -, -, hexit⟩ := constructed_cyclic.exit_exact (.ofString "aba")
  have hnot : 3 ∉ cyclic.build.consumable #['a'.val, 'b'.val, 'a'.val] := fun hmem =>
    absurd (isGreatest_cyclic.2 hmem) (by decide)
  obtain ⟨k, hk, hlog, -, hrejected, hcursor⟩ := hexit hnot
  obtain rfl : k = 1 := hk.unique isGreatest_cyclic
  exact ⟨constructed_cyclic, o, hrun, hlog, hrejected, hcursor⟩

end GuardedAutomata
