import GuardedAutomata.Automaton.RankTable
import GuardedAutomata.Proofs.Tracking
import Mathlib.Order.Bounds.Basic

/-!
# Rank tables track the active states

A row is read as the function `RankTable.entry` from states to ranks, with
`inactive` --- which is above every rank --- outside of it.  A visit of an edge
hands the entry of its source on to its target if that is smaller, and a sweep is
a list of visits.

* `RankTable.exists_close`: whatever the row was, the closure leaves each state with
  the least entry among the states that it can be reached from.  A sweep only ever
  hands entries on along open edges, so no entry becomes smaller than that; and a
  sweep that changes nothing has found every open edge non-increasing, so no entry
  stays greater.
* `RankTable.tracks`: a row that holds `0` at the states of a set and `inactive`
  elsewhere stands for the set.  Least entries are then `0` on the closure and
  `inactive` outside it, so the table carries reachability and nothing else.
-/

namespace GuardedAutomata
namespace RankTable

/-! ## Rows as functions -/

/-- The entry of a state in a row, and `inactive` outside the row. -/
def entry (row : Array UInt32) (s : StateId) : UInt32 := row[s]?.getD inactive

theorem le_inactive (rank : UInt32) : rank ≤ inactive := by
  rw [UInt32.le_iff_toNat_le]
  exact Nat.le_of_lt_succ rank.toNat_lt

theorem entry_eq_getElem {row : Array UInt32} {s : StateId} (h : s < row.size) :
    entry row s = row[s] := by
  rw [entry, Array.getElem?_eq_getElem h]
  rfl

theorem eq_of_entry {row row' : Array UInt32} (hsize : row.size = row'.size)
    (h : ∀ s, entry row s = entry row' s) : row = row' := by
  refine Array.ext hsize fun s hs hs' => ?_
  rw [← entry_eq_getElem hs, ← entry_eq_getElem hs', h]

theorem read_eq_ok {row : Array UInt32} {s : StateId} (h : s < row.size) :
    read row s = .ok (entry row s) := by
  rw [read, entry_eq_getElem h, Array.getElem?_eq_getElem h]

theorem exists_write {row : Array UInt32} {s : StateId} (rank : UInt32) (h : s < row.size) :
    ∃ written, write row s rank = .ok written ∧ written.size = row.size ∧
      ∀ q, entry written q = if q = s then rank else entry row q := by
  refine ⟨row.set s rank h, dif_pos h, Array.size_set h, fun q => ?_⟩
  rw [entry, Array.getElem?_set]
  by_cases hq : q = s
  · rw [if_pos hq.symm, if_pos hq]
    rfl
  · rw [if_neg (Ne.symm hq), if_neg hq]
    rfl

theorem entry_replicate (n : Nat) (s : StateId) :
    entry (.replicate n inactive) s = inactive := by
  rw [entry, Array.getElem?_replicate]
  split <;> rfl

theorem entry_map_inactive (row : Array UInt32) (s : StateId) :
    entry (row.map fun _ => inactive) s = inactive := by
  rw [entry, Array.getElem?_map]
  cases row[s]? <;> rfl

/-- Handing a rank on to a state, which is what both loops do at an edge: if the edge
admits it and the rank is smaller than the entry, it replaces the entry and the flag
is set. -/
theorem exists_handOn {α : Type} (loop : Array UInt32 → Bool → Except Fault α)
    {row : Array UInt32} {s : StateId} (rank : UInt32) (admits changed : Bool)
    (h : s < row.size) :
    ∃ row' changed',
      (if rank = inactive then loop row changed
        else if (rank < entry row s && admits) = true then do
          let row ← write row s rank
          loop row true
        else loop row changed) = loop row' changed' ∧
      row'.size = row.size ∧
      (changed' = true ↔ changed = true ∨ admits = true ∧ rank < entry row s) ∧
      (¬(admits = true ∧ rank < entry row s) → row' = row) ∧
      ∀ q, entry row' q =
        if admits = true ∧ q = s ∧ rank < entry row q then rank else entry row q := by
  by_cases hc : admits = true ∧ rank < entry row s
  · obtain ⟨hadmits, hlt⟩ := hc
    obtain ⟨written, hwrite, hsize, hentry⟩ := exists_write rank h
    have hactive : ¬rank = inactive := fun hr => UInt32.not_le.mpr (hr ▸ hlt) (le_inactive _)
    refine ⟨written, true, ?_, hsize, iff_of_true rfl (.inr ⟨hadmits, hlt⟩),
      fun hno => absurd ⟨hadmits, hlt⟩ hno, fun q => ?_⟩
    · rw [if_neg hactive, if_pos (by simp [hlt, hadmits]), hwrite]
      rfl
    · rw [hentry]
      by_cases hq : q = s
      · subst hq
        rw [if_pos rfl, if_pos ⟨hadmits, rfl, hlt⟩]
      · rw [if_neg hq, if_neg fun h => hq h.2.1]
  · refine ⟨row, changed, ?_, rfl, ⟨.inl, fun h => h.resolve_right hc⟩, fun _ => rfl, fun q => ?_⟩
    · split
      · rfl
      · rw [if_neg]
        rw [Bool.and_eq_true, decide_eq_true_eq]
        exact fun h => hc ⟨h.2, h.1⟩
    · rw [if_neg]
      intro hmem
      obtain ⟨hadmits, rfl, hlt⟩ := hmem
      exact hc ⟨hadmits, hlt⟩

/-! ## Closing a row -/

/-- Each entry after a sweep was handed on along an open path and is not greater than
before, and a sweep that changes nothing has found no edge to lower its target. -/
theorem exists_sweep (t : Text) {edges : List EpsilonEdge} (row : Array UInt32) (changed : Bool)
    (h : ∀ e ∈ edges, e.source < row.size ∧ e.target < row.size) :
    ∃ swept changed', sweep t edges row changed = .ok (swept, changed') ∧
      swept.size = row.size ∧
      (∀ q, entry swept q ≤ entry row q) ∧
      (∀ q, ∃ s, OpenPath edges t s q ∧ entry row s = entry swept q) ∧
      (changed' = false → changed = false ∧ swept = row ∧
        ∀ e ∈ edges, e.isOpen t = true → entry row e.target ≤ entry row e.source) := by
  induction edges generalizing row changed with
  | nil =>
    exact ⟨row, changed, rfl, rfl, fun _ => UInt32.le_refl _, fun q => ⟨q, .refl, rfl⟩,
      fun h => ⟨h, rfl, fun _ he => absurd he List.not_mem_nil⟩⟩
  | cons e rest ih =>
    have he := h e List.mem_cons_self
    obtain ⟨row', changed', hcons, hsize, hflag, hsame, hentry⟩ :=
      exists_handOn (sweep t rest) (entry row e.source) (e.isOpen t) changed he.2
    obtain ⟨swept, last, hsweep, hsize', hle, hfrom, hstill⟩ := ih row' changed' fun e' he' =>
      hsize ▸ h e' (List.mem_cons_of_mem _ he')
    -- one visit lowers entries only, and to ranks that come over the edge
    have hvisit : ∀ q, entry row' q ≤ entry row q ∧
        ∃ s, OpenPath (e :: rest) t s q ∧ entry row s = entry row' q := by
      intro q
      rw [hentry]
      split
      · next hc =>
        obtain ⟨hopen, rfl, hlt⟩ := hc
        exact ⟨UInt32.le_of_lt hlt, e.source,
          .single ⟨e, List.mem_cons_self, hopen, rfl, rfl⟩, rfl⟩
      · exact ⟨UInt32.le_refl _, q, .refl, rfl⟩
    refine ⟨swept, last, ?_, hsize'.trans hsize,
      fun q => UInt32.le_trans (hle q) (hvisit q).1, fun q => ?_, fun hlast => ?_⟩
    · rw [sweep, read_eq_ok he.1, read_eq_ok he.2]
      exact hcons.trans hsweep
    · obtain ⟨p, hpq, hp⟩ := hfrom q
      obtain ⟨-, s, hsp, hs⟩ := hvisit p
      exact ⟨s, hsp.trans (hpq.mono (List.subset_cons_self e rest)), hs.trans hp⟩
    · obtain ⟨hlast', rfl, hrest⟩ := hstill hlast
      rw [← Bool.not_eq_true, hflag, not_or, Bool.not_eq_true] at hlast'
      obtain ⟨hchanged, hno⟩ := hlast'
      obtain rfl := hsame hno
      refine ⟨hchanged, rfl, fun e' he' hopen => ?_⟩
      rcases List.mem_cons.mp he' with rfl | he'
      · exact UInt32.not_lt.mp fun hlt => hno ⟨hopen, hlt⟩
      · exact hrest e' he' hopen

/-- Closing a row leaves each state with the least entry among the states that it can
be reached from. -/
theorem exists_close (t : Text) {edges : List EpsilonEdge} (row : Array UInt32)
    (h : ∀ e ∈ edges, e.source < row.size ∧ e.target < row.size) :
    ∃ closed, close edges t row = .ok closed ∧ closed.size = row.size ∧
      ∀ q, IsLeast {rank | ∃ s, OpenPath edges t s q ∧ entry row s = rank} (entry closed q) := by
  induction row using close.induct edges t with
  | case1 row fault hsweep =>
    obtain ⟨swept, changed, hok, -⟩ := exists_sweep t row false h
    rw [hsweep] at hok
    cases hok
  | case2 row swept hsweep =>
    obtain ⟨swept', changed, hok, hsize, -, -, hstill⟩ := exists_sweep t row false h
    rw [hsweep] at hok
    cases hok
    -- nothing was lowered, so no entry rises along an open path
    obtain ⟨-, rfl, hdown⟩ := hstill rfl
    refine ⟨swept, ?_, rfl, fun q => ⟨⟨q, .refl, rfl⟩, ?_⟩⟩
    · rw [close, hsweep]
    · intro rank hmem
      obtain ⟨s, hsq, rfl⟩ := hmem
      induction hsq with
      | refl => exact UInt32.le_refl _
      | tail _ hstep ih =>
        obtain ⟨e, he, hopen, rfl, rfl⟩ := hstep
        exact UInt32.le_trans (hdown e he hopen) ih
  | case3 row swept hsweep ih =>
    obtain ⟨swept', changed, hok, hsize, hle, hfrom, -⟩ := exists_sweep t row false h
    rw [hsweep] at hok
    cases hok
    obtain ⟨closed, hclose, hsize', hleast⟩ := ih fun e he => hsize.symm ▸ h e he
    refine ⟨closed, ?_, hsize'.trans hsize, fun q => ⟨?_, ?_⟩⟩
    · rw [close, hsweep]
      exact hclose
    · obtain ⟨p, hpq, hp⟩ := (hleast q).1
      obtain ⟨s, hsp, hs⟩ := hfrom p
      exact ⟨s, hsp.trans hpq, hs.trans hp⟩
    · intro rank hmem
      obtain ⟨s, hsq, rfl⟩ := hmem
      exact UInt32.le_trans ((hleast q).2 ⟨s, hsq, rfl⟩) (hle s)

/-! ## Consuming a code point -/

/-- The row that is filled holds at each state the least of its entry before and the
entries of the accepting edges' sources, and the flag says whether one of these was
smaller. -/
theorem exists_spread (value : UInt32) (row : Array UInt32) {edges : List AlphaEdge}
    (next : Array UInt32) (reached : Bool)
    (h : ∀ e ∈ edges, e.source < row.size ∧ e.target < next.size) :
    ∃ filled reached', spread value row edges next reached = .ok (filled, reached') ∧
      filled.size = next.size ∧
      (∀ q, entry filled q ≤ entry next q) ∧
      (∀ e ∈ edges, e.accepts value = true → entry filled e.target ≤ entry row e.source) ∧
      (∀ q, entry filled q = entry next q ∨
        ∃ e ∈ edges, e.accepts value = true ∧ e.target = q ∧ entry row e.source = entry filled q) ∧
      (reached' = true ↔ reached = true ∨
        ∃ e ∈ edges, e.accepts value = true ∧ entry row e.source < entry next e.target) := by
  induction edges generalizing next reached with
  | nil =>
    refine ⟨next, reached, rfl, rfl, fun _ => UInt32.le_refl _, ?_, fun _ => .inl rfl, ?_⟩
    · exact fun _ he => absurd he List.not_mem_nil
    · exact ⟨.inl, fun h => h.resolve_right fun ⟨_, he, _⟩ => List.not_mem_nil he⟩
  | cons e rest ih =>
    have he := h e List.mem_cons_self
    obtain ⟨next', reached', hcons, hsize, hflag, hsame, hentry⟩ :=
      exists_handOn (spread value row rest) (entry row e.source) (e.accepts value) reached he.2
    obtain ⟨filled, last, hspread, hsize', hle, hdown, hfrom, hlast⟩ := ih next' reached'
      fun e' he' => hsize ▸ h e' (List.mem_cons_of_mem _ he')
    have hvisit : ∀ q, entry next' q ≤ entry next q := by
      intro q
      rw [hentry]
      split
      · next hc => exact UInt32.le_of_lt hc.2.2
      · exact UInt32.le_refl _
    refine ⟨filled, last, ?_, hsize'.trans hsize, fun q => UInt32.le_trans (hle q) (hvisit q),
      fun e' he' hacc => ?_, fun q => ?_, hlast.trans ⟨?_, ?_⟩⟩
    · rw [spread, read_eq_ok he.1, read_eq_ok he.2]
      exact hcons.trans hspread
    · rcases List.mem_cons.mp he' with rfl | he'
      · refine UInt32.le_trans (hle _) ?_
        rw [hentry]
        split
        · exact UInt32.le_refl _
        · next hno => exact UInt32.not_lt.mp fun hlt => hno ⟨hacc, rfl, hlt⟩
      · exact hdown e' he' hacc
    · rcases hfrom q with hq | ⟨e', he', hrest⟩
      · rw [hentry] at hq
        split at hq
        · next hc =>
          exact .inr ⟨e, List.mem_cons_self, hc.1, hc.2.1.symm, hq.symm⟩
        · exact .inl hq
      · exact .inr ⟨e', List.mem_cons_of_mem _ he', hrest⟩
    · intro hmem
      rcases hmem with hr | ⟨e', he', hacc, hlt⟩
      · rcases hflag.mp hr with hr | ⟨hacc, hlt⟩
        · exact .inl hr
        · exact .inr ⟨e, List.mem_cons_self, hacc, hlt⟩
      · refine .inr ⟨e', List.mem_cons_of_mem _ he', hacc, UInt32.lt_of_lt_of_le hlt (hvisit _)⟩
    · intro hmem
      rcases hmem with hr | ⟨e', he', hacc, hlt⟩
      · exact .inl (hflag.mpr (.inl hr))
      · by_cases hc : e.accepts value = true ∧ entry row e.source < entry next e.target
        · exact .inl (hflag.mpr (.inr hc))
        -- this edge has changed nothing, so a later one has to be the one
        · obtain rfl := hsame hc
          rcases List.mem_cons.mp he' with rfl | he'
          · exact absurd ⟨hacc, hlt⟩ hc
          · exact .inr ⟨e', he', hacc, hlt⟩

/-! ## The matcher -/

/-- The table stands for a set of states: the active row holds `0` at its members and
`inactive` elsewhere. -/
structure StandsFor (a : Automaton) (table : RankTable) (S : Set StateId) : Prop where
  active_size : table.active.size = a.stateCount
  spare_size : table.spare.size = a.stateCount
  entry_of_mem : ∀ {q}, q ∈ S → entry table.active q = 0
  entry_of_notMem : ∀ {q}, q ∉ S → entry table.active q = inactive

theorem StandsFor.mem_iff {a : Automaton} {table : RankTable} {S : Set StateId}
    (h : StandsFor a table S) {q : StateId} : q ∈ S ↔ entry table.active q ≠ inactive := by
  constructor
  · intro hq
    rw [h.entry_of_mem hq]
    decide
  · intro hne
    by_contra hq
    exact hne (h.entry_of_notMem hq)

theorem exists_initial {a : Automaton} (ha : a.WellFormed) :
    ∃ active, (simulation a).initial = .ok ⟨active, .replicate a.stateCount inactive⟩ ∧
      StandsFor a ⟨active, .replicate a.stateCount inactive⟩ {Automaton.source} := by
  have hsource : Automaton.source < (Array.replicate a.stateCount inactive).size := by
    rw [Array.size_replicate]
    exact Nat.lt_of_lt_of_le (by decide) ha.two_le_stateCount
  obtain ⟨active, hwrite, hsize, hentry⟩ := exists_write 0 hsource
  refine ⟨active, ?_, hsize.trans Array.size_replicate, Array.size_replicate, ?_, ?_⟩
  · simp only [simulation, hwrite]
    rfl
  · rintro q rfl
    rw [hentry, if_pos rfl]
  · intro q hq
    rw [hentry, if_neg (show ¬q = Automaton.source from hq), entry_replicate]

theorem StandsFor.exists_close {a : Automaton} (ha : a.WellFormed) {table : RankTable}
    {S : Set StateId} (hS : StandsFor a table S) (t : Text) :
    ∃ closed, (simulation a).close t table = .ok closed ∧
      StandsFor a closed (closureOf a.epsilon t S) := by
  obtain ⟨row, hclose, hsize, hleast⟩ := RankTable.exists_close t table.active fun e he =>
    hS.active_size ▸ ha.epsilon_lt e he
  refine ⟨{ table with active := row }, ?_, ⟨hsize.trans hS.active_size, hS.spare_size, ?_, ?_⟩⟩
  · simp only [simulation, hclose]
    rfl
  · intro q hmem
    obtain ⟨s, hs, hsq⟩ := hmem
    have hle := (hleast q).2 ⟨s, hsq, hS.entry_of_mem hs⟩
    exact UInt32.le_antisymm hle UInt32.zero_le
  · intro q hq
    obtain ⟨s, hsq, hs⟩ := (hleast q).1
    exact hs.symm.trans (hS.entry_of_notMem fun hmem => hq ⟨s, hmem, hsq⟩)

/-- Filling the spare row from a set yields its successors, and the flag says whether
there are any. -/
theorem StandsFor.exists_spread {a : Automaton} (ha : a.WellFormed) {table : RankTable}
    {S : Set StateId} (hS : StandsFor a table S) (value : UInt32) :
    ∃ filled reached,
      spread value table.active a.alpha (table.spare.map fun _ => inactive) false =
        .ok (filled, reached) ∧
      (reached = true ↔ (successorsOf a.alpha value S).Nonempty) ∧
      StandsFor a ⟨filled, table.active⟩ (successorsOf a.alpha value S) := by
  have hcleared : (table.spare.map fun _ => inactive).size = a.stateCount :=
    Array.size_map.trans hS.spare_size
  have hbound : ∀ e ∈ a.alpha, e.source < table.active.size ∧
      e.target < (table.spare.map fun _ => inactive).size := by
    rw [hS.active_size, hcleared]
    exact ha.alpha_lt
  obtain ⟨filled, reached, hspread, hsize, -, hdown, hfrom, hreached⟩ :=
    RankTable.exists_spread value table.active _ false hbound
  refine ⟨filled, reached, hspread, ?_, ⟨hsize.trans hcleared, hS.active_size, ?_, ?_⟩⟩
  · rw [hreached]
    constructor
    · intro hsmaller
      rcases hsmaller with hfalse | ⟨e, he, hacc, hlt⟩
      · cases hfalse
      · rw [entry_map_inactive] at hlt
        have hs : e.source ∈ S :=
          hS.mem_iff.mpr fun heq => absurd (heq ▸ hlt) (UInt32.lt_irrefl _)
        exact ⟨e.target, e, he, hs, hacc, rfl⟩
    · intro hne
      obtain ⟨q, e, he, hs, hacc, rfl⟩ := hne
      refine .inr ⟨e, he, hacc, ?_⟩
      rw [entry_map_inactive, hS.entry_of_mem hs]
      decide
  · intro q hmem
    obtain ⟨e, he, hs, hacc, rfl⟩ := hmem
    have hle := hdown e he hacc
    rw [hS.entry_of_mem hs] at hle
    exact UInt32.le_antisymm hle UInt32.zero_le
  · intro q hq
    rcases hfrom q with hcase | ⟨e, he, hacc, rfl, hs⟩
    · rw [hcase, entry_map_inactive]
    · exact hs.symm.trans (hS.entry_of_notMem fun hmem => hq ⟨e, he, hmem, hacc, rfl⟩)

/-- Rank tables track every well-formed automaton. -/
theorem tracks {a : Automaton} (ha : a.WellFormed) : (simulation a).Tracks a (StandsFor a) where
  initial := by
    obtain ⟨active, hinitial, hstart⟩ := exists_initial ha
    exact ⟨_, hinitial, hstart⟩
  close t _ _ hS := hS.exists_close ha t
  step value table S hS := by
    obtain ⟨filled, reached, hspread, hiff, hfilled⟩ := hS.exists_spread ha value
    have hstep : (simulation a).step value table =
        .ok (if reached = true then some ⟨filled, table.active⟩ else none) := by
      simp only [simulation, step, hspread]
      rfl
    by_cases hr : reached = true
    · refine ⟨some _, hstep.trans (congrArg _ (if_pos hr)), fun h => (nomatch h), ?_⟩
      rintro _ ⟨⟩
      exact ⟨hiff.mp hr, hfilled⟩
    · refine ⟨none, hstep.trans (congrArg _ (if_neg hr)), fun _ => ?_, fun _ h => (nomatch h)⟩
      exact Set.not_nonempty_iff_eq_empty.mp fun hne => hr (hiff.mpr hne)
  accepts {table S} hS := by
    have htarget : Automaton.target < table.active.size :=
      hS.active_size ▸ Nat.lt_of_lt_of_le (by decide) ha.two_le_stateCount
    refine ⟨entry table.active Automaton.target != inactive, ?_, ?_⟩
    · simp only [simulation, read_eq_ok htarget]
      rfl
    · rw [bne_iff_ne, hS.mem_iff]

end RankTable
end GuardedAutomata
