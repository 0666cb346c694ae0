import GuardedAutomata.Proofs.Matching
import Mathlib.Data.List.Forall2

/-!
# Masks and rank tables in lockstep

An automaton with at most 64 states can be simulated both ways.  Since both
simulations track the active states, they come to one outcome, and after the
closure at each slot a bit is set exactly where the table has a rank
(`RankTable.lockstep`).

## What the table holds in between

Ranks are handed on, never made, and a match starts with the one rank `0`; so `0`
and `inactive` should be all that is ever written.  To say so of *every* moment of
a match and not only of the slots, `RankTable.Moment` lists what the table can hold:
at the start, after any part of a sweep, after any part of filling the spare row,
and after the rows change places.  `RankTable.Moment.intact` is the invariant, and
`RankTable.moment_getElem_of_runRecording` says that the tables of a recorded match
are moments.
-/

namespace GuardedAutomata
namespace RankTable

/-- Every entry of the row is `0` or `inactive`. -/
def Flat (row : Array UInt32) : Prop := ∀ rank ∈ row, rank = 0 ∨ rank = inactive

theorem flat_iff {row : Array UInt32} :
    Flat row ↔ ∀ s, entry row s = 0 ∨ entry row s = inactive := by
  constructor
  · intro h s
    rw [entry]
    cases hs : row[s]? with
    | none => exact .inr rfl
    | some rank => exact h rank (Array.mem_of_getElem? hs)
  · intro h rank hrank
    obtain ⟨s, hs⟩ := Array.getElem?_of_mem hrank
    have hentry := h s
    rwa [entry, hs] at hentry

theorem Flat.handedOn {row filled : Array UInt32} (h : Flat row)
    (hfrom : ∀ q, ∃ s, entry row s = entry filled q) : Flat filled := by
  refine flat_iff.mpr fun q => ?_
  obtain ⟨s, hs⟩ := hfrom q
  rw [← hs]
  exact flat_iff.mp h s

/-- What the table can hold while a text is matched, by the number of code points that
were consumed. -/
inductive Moment (a : Automaton) (w : Array UInt32) : Nat → RankTable → Prop where
  /-- Before the first closure. -/
  | start {table : RankTable} (h : (simulation a).initial = .ok table) : Moment a w 0 table
  /-- After a sweep has visited some of the epsilon edges. -/
  | closing {slot : Nat} {table : RankTable} {edges : List EpsilonEdge} {row : Array UInt32}
      {changed changed' : Bool} (h : Moment a w slot table) (hslot : slot ≤ w.size)
      (hedges : edges <+: a.epsilon)
      (hsweep : sweep (Text.ofValuesAt w slot hslot) edges table.active changed =
        .ok (row, changed')) : Moment a w slot { table with active := row }
  /-- After some of the alpha edges have been used to fill the spare row. -/
  | filling {slot : Nat} {table : RankTable} {edges : List AlphaEdge} {row : Array UInt32}
      {reached : Bool} (h : Moment a w slot table) (hslot : slot < w.size)
      (hedges : edges <+: a.alpha)
      (hspread : spread w[slot] table.active edges (table.spare.map fun _ => inactive) false =
        .ok (row, reached)) : Moment a w slot { table with spare := row }
  /-- After the rows have changed places. -/
  | exchange {slot : Nat} {table table' : RankTable} (h : Moment a w slot table)
      (hslot : slot < w.size) (hstep : step a.alpha w[slot] table = .ok (some table')) :
      Moment a w (slot + 1) table'

/-- What holds of the table at every moment: its rows have an entry for each state, and
all entries are `0` or `inactive`. -/
structure Intact (a : Automaton) (table : RankTable) : Prop where
  active_size : table.active.size = a.stateCount
  spare_size : table.spare.size = a.stateCount
  active_flat : Flat table.active
  spare_flat : Flat table.spare

variable {a : Automaton} {w : Array UInt32}

theorem flat_map_inactive (row : Array UInt32) : Flat (row.map fun _ => inactive) :=
  flat_iff.mpr fun s => .inr (entry_map_inactive row s)

/-- A sweep hands on what is there. -/
theorem flat_of_sweep {t : Text} {edges : List EpsilonEdge} {row swept : Array UInt32}
    {changed changed' : Bool} (h : ∀ e ∈ edges, e.source < row.size ∧ e.target < row.size)
    (hsweep : sweep t edges row changed = .ok (swept, changed')) (hrow : Flat row) :
    swept.size = row.size ∧ Flat swept := by
  obtain ⟨swept', last, hok, hsize, -, hfrom, -⟩ := exists_sweep t row changed h
  rw [hsweep] at hok
  cases hok
  refine ⟨hsize, hrow.handedOn fun q => ?_⟩
  obtain ⟨s, -, hs⟩ := hfrom q
  exact ⟨s, hs⟩

theorem flat_of_spread {value : UInt32} {edges : List AlphaEdge} {row next filled : Array UInt32}
    {reached reached' : Bool} (h : ∀ e ∈ edges, e.source < row.size ∧ e.target < next.size)
    (hspread : spread value row edges next reached = .ok (filled, reached')) (hrow : Flat row)
    (hnext : Flat next) : filled.size = next.size ∧ Flat filled := by
  obtain ⟨filled', last, hok, hsize, -, -, hfrom, -⟩ := exists_spread value row next reached h
  rw [hspread] at hok
  cases hok
  refine ⟨hsize, flat_iff.mpr fun q => ?_⟩
  rcases hfrom q with hq | ⟨e, -, -, -, hq⟩
  · rw [hq]
    exact flat_iff.mp hnext q
  · rw [← hq]
    exact flat_iff.mp hrow e.source

theorem Intact.spread {table : RankTable} (h : Intact a table) (ha : a.WellFormed)
    {edges : List AlphaEdge} (hedges : edges ⊆ a.alpha) {value : UInt32} {row : Array UInt32}
    {reached : Bool}
    (hspread : spread value table.active edges (table.spare.map fun _ => inactive) false =
      .ok (row, reached)) : row.size = a.stateCount ∧ Flat row := by
  have hcleared : (table.spare.map fun _ => inactive).size = a.stateCount :=
    Array.size_map.trans h.spare_size
  have hbound : ∀ e ∈ edges, e.source < table.active.size ∧
      e.target < (table.spare.map fun _ => inactive).size := by
    rw [h.active_size, hcleared]
    exact fun e he => ha.alpha_lt e (hedges he)
  obtain ⟨hsize, hflat⟩ := flat_of_spread hbound hspread h.active_flat (flat_map_inactive _)
  exact ⟨hsize.trans hcleared, hflat⟩

theorem exists_spread_of_step {edges : List AlphaEdge} {value : UInt32} {table table' : RankTable}
    (h : step edges value table = .ok (some table')) :
    ∃ row reached,
      RankTable.spread value table.active edges (table.spare.map fun _ => inactive) false =
        .ok (row, reached) ∧ table' = ⟨row, table.active⟩ := by
  unfold step at h
  obtain ⟨⟨row, reached⟩, hspread, h⟩ := bind_eq_ok_iff.mp h
  refine ⟨row, reached, hspread, ?_⟩
  cases reached with
  | false => cases h
  | true => exact (Option.some.inj (Except.ok.inj h)).symm

/-- **At every moment the table is intact.** -/
theorem Moment.intact (ha : a.WellFormed) {slot : Nat} {table : RankTable}
    (h : Moment a w slot table) : Intact a table := by
  induction h with
  | start h =>
    obtain ⟨active, hok, hstart⟩ := exists_initial ha
    rw [h] at hok
    cases hok
    refine ⟨hstart.active_size, hstart.spare_size, flat_iff.mpr fun s => ?_,
      flat_iff.mpr fun s => .inr (entry_replicate _ s)⟩
    by_cases hs : s ∈ ({Automaton.source} : Set StateId)
    · exact .inl (hstart.entry_of_mem hs)
    · exact .inr (hstart.entry_of_notMem hs)
  | @closing slot table edges row changed changed' _ hslot hedges hsweep ih =>
    obtain ⟨hsize, hflat⟩ := flat_of_sweep (fun e he =>
      ih.active_size ▸ ha.epsilon_lt e (hedges.subset he)) hsweep ih.active_flat
    exact ⟨hsize.trans ih.active_size, ih.spare_size, hflat, ih.spare_flat⟩
  | filling _ _ hedges hspread ih =>
    obtain ⟨hsize, hflat⟩ := ih.spread ha hedges.subset hspread
    exact ⟨ih.active_size, hsize, ih.active_flat, hflat⟩
  | exchange _ _ hstep ih =>
    obtain ⟨row, reached, hspread, rfl⟩ := exists_spread_of_step hstep
    obtain ⟨hsize, hflat⟩ := ih.spread ha (List.Subset.refl _) hspread
    exact ⟨hsize, ih.active_size, hflat, ih.active_flat⟩

/-- Closing the active row is a number of sweeps. -/
theorem Moment.close {slot : Nat} {table : RankTable} (h : Moment a w slot table)
    (hslot : slot ≤ w.size) {row : Array UInt32}
    (hclose : close a.epsilon (Text.ofValuesAt w slot hslot) table.active = .ok row) :
    Moment a w slot { table with active := row } := by
  suffices hsweeps : ∀ start, Moment a w slot { table with active := start } →
      RankTable.close a.epsilon (Text.ofValuesAt w slot hslot) start = .ok row →
      Moment a w slot { table with active := row } from hsweeps _ h hclose
  intro start hstart hclose
  induction start using close.induct a.epsilon (Text.ofValuesAt w slot hslot) with
  | case1 start fault hsweep =>
    rw [RankTable.close, hsweep] at hclose
    cases hclose
  | case2 start swept hsweep =>
    rw [RankTable.close, hsweep] at hclose
    obtain rfl := Except.ok.inj hclose
    exact hstart.closing hslot (List.prefix_refl _) hsweep
  | case3 start swept hsweep ih =>
    rw [RankTable.close, hsweep] at hclose
    exact ih (hstart.closing hslot (List.prefix_refl _) hsweep) hclose

/-- The tables of a recorded match are moments of it. -/
theorem moment_getElem_of_runRecording {t : Text} {o : Outcome} {tables : List RankTable}
    (h : (simulation a).runRecording t = .ok (o, tables)) :
    ∀ (k : Nat) (hk : k < tables.length), Moment a t.values k tables[k] := by
  have hclosed : ∀ {slot : Nat} (hslot : slot ≤ t.values.size) {table closed : RankTable},
      Moment a t.values slot table →
      (simulation a).close (Text.ofValuesAt t.values slot hslot) table = .ok closed →
      Moment a t.values slot closed := by
    intro slot hslot table closed htable hclose
    obtain ⟨row, hrow, hclose⟩ := bind_eq_ok_iff.mp hclose
    obtain rfl := Except.ok.inj hclose
    exact htable.close hslot hrow
  refine Simulation.forall_getElem_of_runRecording ?_ ?_ h
  · exact fun slot hslot active next closed hactive hstep hclose =>
      hclosed hslot (hactive.exchange hslot hstep) hclose
  · exact fun start closed hinitial hclose => hclosed (Nat.zero_le _) (.start hinitial) hclose

/-- The bit of each state is set exactly where the table has a rank for it. -/
def Agrees (mask : UInt64) (table : RankTable) : Prop :=
  ∀ s, mask.toNat.testBit s = true ↔ ∃ rank, table.active[s]? = some rank ∧ rank ≠ inactive

theorem StandsFor.agrees {mask : UInt64} {table : RankTable} {S : Set StateId}
    (hmask : Mask.bits mask = S) (htable : StandsFor a table S) : Agrees mask table := by
  subst hmask
  intro s
  refine htable.mem_iff.trans ?_
  rw [entry]
  cases table.active[s]? with
  | none => simp
  | some rank => simp

/-- **The two simulations run in lockstep.**  They come to one outcome; both record the
closure at every slot up to the last with a run, and there the bits of the mask are the
states with a rank; and at every moment all entries of both rows are `0` or `inactive`. -/
theorem lockstep (ha : a.WellFormed) (hlimit : a.stateCount ≤ Automaton.maskLimit) (t : Text) :
    ∃ o masks tables,
      (Mask.simulation a).run t = .ok o ∧ (simulation a).run t = .ok o ∧
      (Mask.simulation a).runRecording t = .ok (o, masks) ∧
      (simulation a).runRecording t = .ok (o, tables) ∧
      (∀ k, k < masks.length ↔ k ≤ t.values.size ∧ (a.activeAt t.values k).Nonempty) ∧
      (∀ k, k < tables.length ↔ k ≤ t.values.size ∧ (a.activeAt t.values k).Nonempty) ∧
      List.Forall₂ Agrees masks tables ∧
      (∀ (k : Nat) (hk : k < tables.length), Moment a t.values k tables[k]) ∧
      ∀ (k : Nat) (table : RankTable), Moment a t.values k table →
        Flat table.active ∧ Flat table.spare := by
  obtain ⟨o, masks, hmask, hout, hmasks⟩ := (Mask.tracks ha hlimit).exists_runRecording t
  obtain ⟨o', tables, htable, hout', htables⟩ := (tracks ha).exists_runRecording t
  obtain rfl := hout.unique hout'
  have hmaskSlots := hmasks.lt_length_iff
  have htableSlots := htables.lt_length_iff
  simp only [Nat.zero_add] at hmaskSlots htableSlots
  have hlength : masks.length = tables.length :=
    eq_of_forall_lt_iff fun k => (hmaskSlots k).trans (htableSlots k).symm
  refine ⟨o, masks, tables, ?_, ?_, hmask, htable, hmaskSlots, htableSlots, ?_,
    moment_getElem_of_runRecording htable, ?_⟩
  · rw [Simulation.run_eq_map_runRecording, hmask]
    rfl
  · rw [Simulation.run_eq_map_runRecording, htable]
    rfl
  · refine List.forall₂_iff_get.mpr ⟨hlength, fun k hm ht => ?_⟩
    exact (htables.rep_getElem k ht).agrees (hmasks.rep_getElem k hm)
  · exact fun k table h => ⟨(h.intact ha).active_flat, (h.intact ha).spare_flat⟩

/-- An automaton that uses the greatest state that has a bit. -/
def topState : Automaton where
  epsilon := [{ source := 63, target := 1 }, { source := 0, target := 0 }]
  alpha := [.literal 0 63 'x']
  stateCount := 64

theorem wellFormed_topState : topState.WellFormed where
  two_le_stateCount := by decide
  epsilon_lt := by simp [topState]
  alpha_lt := by simp [topState, AlphaEdge.literal]

theorem lt_two_iff_topState (k : Nat) :
    k < 2 ↔ k ≤ (Text.ofString "x").values.size ∧
      (topState.activeAt (Text.ofString "x").values k).Nonempty := by
  have hsize : (Text.ofString "x").values.size = 1 := rfl
  constructor
  · intro hk
    refine ⟨by omega, ?_⟩
    match k, hk with
    | 0, _ => exact ⟨Automaton.source, .refl⟩
    | 1, _ => exact ⟨63, .single (.consume List.mem_cons_self (by omega) rfl)⟩
  · rintro ⟨hk, -⟩
    omega

/-- The simulations of that automaton run in lockstep, and both record two closures. -/
theorem lockstep_topState :
    (topState.WellFormed ∧ topState.stateCount ≤ Automaton.maskLimit) ∧
      ∃ o masks tables,
        (Mask.simulation topState).runRecording (.ofString "x") = .ok (o, masks) ∧
        (simulation topState).runRecording (.ofString "x") = .ok (o, tables) ∧
        masks.length = 2 ∧ tables.length = 2 ∧
        List.Forall₂ Agrees masks tables := by
  have hlimit : topState.stateCount ≤ Automaton.maskLimit := by decide
  obtain ⟨o, masks, tables, -, -, hmask, htable, hmaskSlots, htableSlots, hagree, -⟩ :=
    lockstep wellFormed_topState hlimit (.ofString "x")
  have hmasks : masks.length = 2 :=
    eq_of_forall_lt_iff fun k => (hmaskSlots k).trans (lt_two_iff_topState k).symm
  have htables : tables.length = 2 :=
    eq_of_forall_lt_iff fun k => (htableSlots k).trans (lt_two_iff_topState k).symm
  exact ⟨⟨wellFormed_topState, hlimit⟩, o, masks, tables, hmask, htable, hmasks, htables, hagree⟩

end RankTable
end GuardedAutomata
