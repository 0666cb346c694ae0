import GuardedAutomata.Automaton.Simulation
import GuardedAutomata.Proofs.ActiveStates

/-!
# Simulations that track the active states

A `Simulation` is free to represent sets of states as it likes.  It *tracks* an
automaton if its four operations never fault and agree, through a relation `rep`
between representations and sets, with the operations on sets: the source alone,
the closure at the cursor, the successors over a code point, membership of the
target.

A simulation that tracks the automaton is a matcher for it
(`Simulation.Tracks.exists_runRecording`).  It answers with the outcome that runs
determine, and that outcome is unique (`Automaton.IsOutcome.unique`), so two
simulations that track one automaton cannot be told apart from outside.

## Looking inside a match

`Simulation.run` forgets the sets it went through.  `Simulation.runRecording` is
the same matcher but also lists them, one for each closure, and
`Simulation.run_eq_map_runRecording` says that nothing else is different.  It is
for statements about two simulations side by side.
-/

namespace GuardedAutomata

/-! ## The outcome that runs determine -/

/-- What a match of an automaton has to come to: the cursor at the end, accepted
if a run accepts, and a record if all runs end early, which says after how many
code points the last of them did. -/
structure Automaton.IsOutcome (a : Automaton) (w : Array UInt32) (o : Outcome) : Prop where
  text : o.text = Text.ofValuesAt w w.size (Nat.le_refl _)
  accepted : o.accepted = true ↔ a.Accepts w
  log : (a.activeAt w w.size).Nonempty ∧ o.log = [] ∨
    ∃ slot < w.size, (a.activeAt w slot).Nonempty ∧ a.activeAt w (slot + 1) = ∅ ∧
      o.log = [.exhausted (slot + 1) w.size]

namespace Automaton

theorem last_active_unique {a : Automaton} {w : Array UInt32} {k l : Nat} (hk : k < w.size)
    (hl : l < w.size) (hka : (a.activeAt w k).Nonempty) (hke : a.activeAt w (k + 1) = ∅)
    (hla : (a.activeAt w l).Nonempty) (hle : a.activeAt w (l + 1) = ∅) : k = l := by
  rcases Nat.lt_trichotomy k l with hlt | heq | hlt
  · exact absurd (a.activeAt_eq_empty_of_le w hlt hl.le hke) hla.ne_empty
  · exact heq
  · exact absurd (a.activeAt_eq_empty_of_le w hlt hk.le hle) hka.ne_empty

/-- Runs determine the outcome. -/
theorem IsOutcome.unique {a : Automaton} {w : Array UInt32} {o o' : Outcome}
    (h : a.IsOutcome w o) (h' : a.IsOutcome w o') : o = o' := by
  obtain ⟨accepted, text, log⟩ := o
  obtain ⟨accepted', text', log'⟩ := o'
  obtain ⟨htext, hacc, hlog⟩ := h
  obtain ⟨htext', hacc', hlog'⟩ := h'
  have haccepted : accepted = accepted' := Bool.eq_iff_iff.mpr (hacc.trans hacc'.symm)
  have hlogs : log = log' := by
    rcases hlog with ⟨hne, hl⟩ | ⟨k, hk, hka, hke, hl⟩ <;>
      rcases hlog' with ⟨hne', hl'⟩ | ⟨k', hk', hka', hke', hl'⟩
    · exact hl.trans hl'.symm
    · exact absurd (a.activeAt_eq_empty_of_le w hk' (Nat.le_refl _) hke') hne.ne_empty
    · exact absurd (a.activeAt_eq_empty_of_le w hk (Nat.le_refl _) hke) hne'.ne_empty
    · have heq := last_active_unique hk hk' hka hke hka' hke'
      subst heq
      exact hl.trans hl'.symm
  subst haccepted hlogs
  exact congrArg (Outcome.mk accepted · log) (htext.trans htext'.symm)

end Automaton

namespace Simulation

variable {σ : Type}

/-! ## Matching with a record of the sets -/

/-- Consumes the given number of further code points, and lists the active set and
all that follow it. -/
def consumeRecording (sim : Simulation σ) : Nat → Text → σ → Except Fault (Outcome × List σ)
  | 0, t, active => do
      let accepted ← sim.accepts active
      return ({ accepted, text := t, log := [] }, [active])
  | remaining + 1, t, active => do
      let value ← t.get t.cursor
      match ← sim.step value active with
      | none =>
          let text ← t.setCursor t.length
          return ({ accepted := false, text, log := [.exhausted (t.cursor + 1) t.length] },
            [active])
      | some next =>
          let t ← t.setCursor (t.cursor + 1)
          let closed ← sim.close t next
          let (outcome, later) ← sim.consumeRecording remaining t closed
          return (outcome, active :: later)

/-- Matches a whole text, and lists the active sets after the closure at each slot. -/
def runRecording (sim : Simulation σ) (t : Text) : Except Fault (Outcome × List σ) := do
  let t ← t.setCursor 0
  let start ← sim.initial
  let closed ← sim.close t start
  sim.consumeRecording t.length t closed

theorem consume_eq_map_consumeRecording (sim : Simulation σ) (remaining : Nat) (t : Text)
    (active : σ) :
    sim.consume remaining t active = Prod.fst <$> sim.consumeRecording remaining t active := by
  induction remaining generalizing t active with
  | zero =>
    rw [consume, consumeRecording, map_bind]
    rfl
  | succ remaining ih =>
    rw [consume, consumeRecording, map_bind]
    refine bind_congr fun value => ?_
    rw [map_bind]
    refine bind_congr fun next => ?_
    cases next with
    | none =>
      rw [map_bind]
      rfl
    | some next =>
      rw [map_bind]
      refine bind_congr fun moved => ?_
      rw [map_bind]
      refine bind_congr fun closed => ?_
      rw [map_bind, ih, map_eq_pure_bind]
      rfl

/-- The record leaves the outcome as it is. -/
theorem run_eq_map_runRecording (sim : Simulation σ) (t : Text) :
    sim.run t = Prod.fst <$> sim.runRecording t := by
  rw [run, runRecording, map_bind]
  refine bind_congr fun moved => ?_
  rw [map_bind]
  refine bind_congr fun start => ?_
  rw [map_bind]
  refine bind_congr fun closed => ?_
  exact consume_eq_map_consumeRecording sim _ _ _

/-- If one code point is consumed, the record goes on from the next closed set. -/
theorem consumeRecording_succ_cases {sim : Simulation σ} {w : Array UInt32} {remaining slot : Nat}
    (hslot : slot < w.size) {active : σ} {o : Outcome} {seen : List σ}
    (h : sim.consumeRecording (remaining + 1) (Text.ofValuesAt w slot hslot.le) active =
      .ok (o, seen)) :
    seen = [active] ∨ ∃ next closed later, sim.step w[slot] active = .ok (some next) ∧
      sim.close (Text.ofValuesAt w (slot + 1) hslot) next = .ok closed ∧
      sim.consumeRecording remaining (Text.ofValuesAt w (slot + 1) hslot) closed = .ok (o, later) ∧
      seen = active :: later := by
  have hget : (Text.ofValuesAt w slot hslot.le).get slot = .ok w[slot] := Text.get_eq_ok hslot
  have hnext : (Text.ofValuesAt w slot hslot.le).setCursor (slot + 1) =
      .ok (Text.ofValuesAt w (slot + 1) hslot) := Text.setCursor_eq_ok hslot
  rw [consumeRecording, Text.cursor_ofValuesAt, hget] at h
  obtain ⟨value, hvalue, h⟩ := bind_eq_ok_iff.mp h
  obtain rfl := Except.ok.inj hvalue
  obtain ⟨result, hstep, h⟩ := bind_eq_ok_iff.mp h
  cases result with
  | none =>
    obtain ⟨moved, -, h⟩ := bind_eq_ok_iff.mp h
    exact .inl (Prod.mk.inj (Except.ok.inj h)).2.symm
  | some next =>
    obtain ⟨moved, hmoved, h⟩ := bind_eq_ok_iff.mp h
    obtain rfl := Except.ok.inj (hnext.symm.trans hmoved)
    obtain ⟨closed, hclose, h⟩ := bind_eq_ok_iff.mp h
    obtain ⟨⟨o', later⟩, hrest, h⟩ := bind_eq_ok_iff.mp h
    obtain ⟨rfl, rfl⟩ := Prod.mk.inj (Except.ok.inj h)
    exact .inr ⟨next, closed, later, hstep, hclose, hrest, rfl⟩

section

variable {sim : Simulation σ} {t : Text} {P : Nat → σ → Prop}
  (hround : ∀ (slot : Nat) (hslot : slot < t.values.size) (active next closed : σ),
    P slot active → sim.step t.values[slot] active = .ok (some next) →
    sim.close (Text.ofValuesAt t.values (slot + 1) hslot) next = .ok closed →
    P (slot + 1) closed)

include hround

theorem forall_getElem_of_consumeRecording {remaining slot : Nat} (hslot : slot ≤ t.values.size)
    (hrest : slot + remaining = t.values.size) {active : σ} {o : Outcome} {seen : List σ}
    (hactive : P slot active)
    (h : sim.consumeRecording remaining (Text.ofValuesAt t.values slot hslot) active =
      .ok (o, seen)) :
    ∀ (k : Nat) (hk : k < seen.length), P (slot + k) seen[k] := by
  induction remaining generalizing slot active seen with
  | zero =>
    intro k hk
    rw [consumeRecording] at h
    obtain ⟨accepted, -, h⟩ := bind_eq_ok_iff.mp h
    obtain rfl : [active] = seen := (Prod.mk.inj (Except.ok.inj h)).2
    obtain rfl : k = 0 := by simpa using hk
    exact hactive
  | succ remaining ih =>
    intro k hk
    have hlt : slot < t.values.size := by omega
    rcases consumeRecording_succ_cases hlt h with
      rfl | ⟨next, closed, later, hstep, hclose, hlater, rfl⟩
    · obtain rfl : k = 0 := by simpa using hk
      exact hactive
    · cases k with
      | zero => exact hactive
      | succ k =>
        have hclosed := hround slot hlt active next closed hactive hstep hclose
        have hget := ih hlt (by omega) hclosed hlater k (Nat.lt_of_succ_lt_succ hk)
        rw [Nat.succ_add_eq_add_succ] at hget
        exact hget

/-- **What one round preserves holds all through a match.**  A round consumes a code
point and closes the set at the slot behind it. -/
theorem forall_getElem_of_runRecording
    (hstart : ∀ start closed, sim.initial = .ok start →
      sim.close (Text.ofValuesAt t.values 0 (Nat.zero_le _)) start = .ok closed → P 0 closed)
    {o : Outcome} {seen : List σ} (h : sim.runRecording t = .ok (o, seen)) :
    ∀ (k : Nat) (hk : k < seen.length), P k seen[k] := by
  rw [runRecording, Text.setCursor_eq_ok (Nat.zero_le _)] at h
  obtain ⟨moved, hmoved, h⟩ := bind_eq_ok_iff.mp h
  obtain rfl := Except.ok.inj hmoved
  obtain ⟨start, hinitial, h⟩ := bind_eq_ok_iff.mp h
  obtain ⟨closed, hclose, h⟩ := bind_eq_ok_iff.mp h
  intro k hk
  have hget := forall_getElem_of_consumeRecording hround (Nat.zero_le _) (Nat.zero_add _)
    (hstart start closed hinitial hclose) h k hk
  rwa [Nat.zero_add] at hget

end

/-! ## Tracking -/

/-- The operations of a simulation never fault and agree with those on sets of
states, where `rep` says which set a representation stands for. -/
structure Tracks (sim : Simulation σ) (a : Automaton) (rep : σ → Set StateId → Prop) :
    Prop where
  initial : ∃ active, sim.initial = .ok active ∧ rep active {Automaton.source}
  close : ∀ (t : Text) {active : σ} {S : Set StateId}, rep active S →
    ∃ closed, sim.close t active = .ok closed ∧ rep closed (closureOf a.epsilon t S)
  step : ∀ (value : UInt32) {active : σ} {S : Set StateId}, rep active S →
    ∃ next, sim.step value active = .ok next ∧
      (next = none → successorsOf a.alpha value S = ∅) ∧
      ∀ reached, next = some reached → (successorsOf a.alpha value S).Nonempty ∧
        rep reached (successorsOf a.alpha value S)
  accepts : ∀ {active : σ} {S : Set StateId}, rep active S →
    ∃ accepted, sim.accepts active = .ok accepted ∧ (accepted = true ↔ Automaton.target ∈ S)

/-- The list has one entry for each slot from the given one on where a run is left,
and the entry stands for the active states at that slot. -/
structure Lists (a : Automaton) (rep : σ → Set StateId → Prop) (w : Array UInt32) (slot : Nat)
    (seen : List σ) : Prop where
  lt_length_iff : ∀ k, k < seen.length ↔ slot + k ≤ w.size ∧ (a.activeAt w (slot + k)).Nonempty
  rep_getElem : ∀ (k : Nat) (h : k < seen.length), rep seen[k] (a.activeAt w (slot + k))

section

variable {a : Automaton} {rep : σ → Set StateId → Prop} {w : Array UInt32} {slot : Nat} {active : σ}

theorem Lists.singleton (hslot : slot ≤ w.size) (hne : (a.activeAt w slot).Nonempty)
    (hrep : rep active (a.activeAt w slot))
    (hlast : ∀ k, slot < k → k ≤ w.size → a.activeAt w k = ∅) : Lists a rep w slot [active] where
  lt_length_iff k := by
    rcases Nat.eq_zero_or_pos k with rfl | hk
    · simpa using ⟨hslot, hne⟩
    · refine ⟨fun h => absurd h (by simp; omega), fun ⟨hle, hne⟩ => ?_⟩
      exact absurd (hlast (slot + k) (by omega) hle) hne.ne_empty
  rep_getElem k h := by
    obtain rfl : k = 0 := by simpa using h
    simpa using hrep

theorem Lists.cons {later : List σ} (hslot : slot ≤ w.size) (hne : (a.activeAt w slot).Nonempty)
    (hrep : rep active (a.activeAt w slot)) (h : Lists a rep w (slot + 1) later) :
    Lists a rep w slot (active :: later) where
  lt_length_iff k := by
    cases k with
    | zero => simpa using ⟨hslot, hne⟩
    | succ k =>
      rw [List.length_cons, Nat.succ_lt_succ_iff, h.lt_length_iff, Nat.add_right_comm]
      rfl
  rep_getElem k hk := by
    cases k with
    | zero => exact hrep
    | succ k =>
      have hlater := h.rep_getElem k (Nat.lt_of_succ_lt_succ hk)
      rw [Nat.add_right_comm] at hlater
      exact hlater

end

variable {sim : Simulation σ} {a : Automaton} {rep : σ → Set StateId → Prop}

theorem Tracks.exists_consumeRecording (h : sim.Tracks a rep) {w : Array UInt32}
    (remaining : Nat) {slot : Nat} (hslot : slot ≤ w.size) (hrest : slot + remaining = w.size)
    {active : σ} (hne : (a.activeAt w slot).Nonempty) (hrep : rep active (a.activeAt w slot)) :
    ∃ o seen, sim.consumeRecording remaining (Text.ofValuesAt w slot hslot) active = .ok (o, seen) ∧
      a.IsOutcome w o ∧ Lists a rep w slot seen := by
  induction remaining generalizing slot active with
  | zero =>
    obtain rfl : slot = w.size := hrest
    obtain ⟨accepted, haccepts, hiff⟩ := h.accepts hrep
    refine ⟨⟨accepted, Text.ofValuesAt w w.size hslot, []⟩, [active], ?_,
      ⟨rfl, hiff, .inl ⟨hne, rfl⟩⟩, .singleton hslot hne hrep ?_⟩
    · rw [consumeRecording, haccepts]
      rfl
    · intro k hk hle
      omega
  | succ remaining ih =>
    have hlt : slot < w.size := by omega
    have hget : (Text.ofValuesAt w slot hslot).get slot = .ok w[slot] := Text.get_eq_ok hlt
    obtain ⟨next, hstep, hnone, hsome⟩ := h.step w[slot] hrep
    rw [consumeRecording, Text.cursor_ofValuesAt, hget]
    cases next with
    | none =>
      -- no run goes on from here, so none gets to the end
      have hend := (a.activeAt_succ_eq_empty_iff w hlt).mpr (hnone rfl)
      have hdead : ∀ k, slot < k → k ≤ w.size → a.activeAt w k = ∅ := fun k hk hle =>
        a.activeAt_eq_empty_of_le w hk hle hend
      have hreject : (false = true) ↔ a.Accepts w := by
        refine iff_of_false Bool.false_ne_true fun hacc => ?_
        exact Set.eq_empty_iff_forall_notMem.mp (hdead w.size hlt (Nat.le_refl _)) _ hacc
      have hmove : (Text.ofValuesAt w slot hslot).setCursor w.size =
          .ok (Text.ofValuesAt w w.size (Nat.le_refl _)) := Text.setCursor_eq_ok (Nat.le_refl _)
      refine ⟨⟨false, Text.ofValuesAt w w.size (Nat.le_refl _), [.exhausted (slot + 1) w.size]⟩,
        [active], ?_, ⟨rfl, hreject, .inr ⟨slot, hlt, hne, hend, rfl⟩⟩,
        .singleton hslot hne hrep hdead⟩
      simp only [hstep, bind, Except.bind, Text.length_ofValuesAt, hmove]
      rfl
    | some reached =>
      -- what is reached is closed at the next slot, and stands for the states active there
      obtain ⟨hsucc, hreached⟩ := hsome reached rfl
      obtain ⟨closed, hclose, hclosed⟩ := h.close (Text.ofValuesAt w (slot + 1) hlt) hreached
      rw [← a.activeAt_succ w hlt] at hclosed
      have hnext : (a.activeAt w (slot + 1)).Nonempty := by
        rw [Set.nonempty_iff_ne_empty, Ne, a.activeAt_succ_eq_empty_iff w hlt]
        exact hsucc.ne_empty
      obtain ⟨o, seen, hconsume, hout, hseen⟩ := ih hlt (by omega) hnext hclosed
      have hmove : (Text.ofValuesAt w slot hslot).setCursor (slot + 1) =
          .ok (Text.ofValuesAt w (slot + 1) hlt) := Text.setCursor_eq_ok hlt
      refine ⟨o, active :: seen, ?_, hout, hseen.cons hslot hne hrep⟩
      simp only [hstep, hmove, hclose, hconsume, bind, Except.bind]
      rfl

/-- A simulation that tracks an automaton matches texts as its runs say, wherever
the cursor was. -/
theorem Tracks.exists_runRecording (h : sim.Tracks a rep) (t : Text) :
    ∃ o seen, sim.runRecording t = .ok (o, seen) ∧ a.IsOutcome t.values o ∧
      Lists a rep t.values 0 seen := by
  obtain ⟨start, hinitial, hstart⟩ := h.initial
  obtain ⟨closed, hclose, hclosed⟩ :=
    h.close (Text.ofValuesAt t.values 0 (Nat.zero_le _)) hstart
  rw [← a.activeAt_zero t.values] at hclosed
  have hne : (a.activeAt t.values 0).Nonempty := ⟨_, .refl⟩
  obtain ⟨o, seen, hconsume, hout, hseen⟩ :=
    h.exists_consumeRecording t.values.size (Nat.zero_le _) (Nat.zero_add _) hne hclosed
  refine ⟨o, seen, ?_, hout, hseen⟩
  rw [runRecording, Text.setCursor_eq_ok (Nat.zero_le _)]
  simp only [hinitial, hclose, bind, Except.bind]
  exact hconsume

theorem Tracks.exists_run (h : sim.Tracks a rep) (t : Text) :
    ∃ o, sim.run t = .ok o ∧ a.IsOutcome t.values o := by
  obtain ⟨o, seen, hrun, hout, -⟩ := h.exists_runRecording t
  exact ⟨o, by rw [run_eq_map_runRecording, hrun]; rfl, hout⟩

end Simulation
end GuardedAutomata
