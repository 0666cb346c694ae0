import GuardedAutomata.Proofs.Lockstep
import Mathlib.Data.ENat.Basic

/-!
# Closing a row of arbitrary ranks

A match only ever closes rows that hold `0` and `inactive`.  `RankTable.close` is more
than that asks for: whatever the row holds, it leaves each state with the least entry
among the states that it can be reached from, where `inactive` counts as infinite
(`RankTable.height`).

An entry can be lowered more than once on the way, and a sweep reads entries that it
changed itself, so nothing about a single sweep is independent of the order of the edges.
The result is, because least entries are determined by the row alone:
`RankTable.Settled` says what a closed row has to be, there is one such row
(`Settled.unique`), and it is the one that closing returns
(`RankTable.close_eq_ok_iff`).  The rest are properties of `Settled`.
-/

namespace GuardedAutomata
namespace RankTable

/-! ## Ranks as numbers -/

/-- A rank as a number, and infinity for a state that is not active. -/
def height (rank : UInt32) : ℕ∞ := if rank = inactive then ⊤ else rank.toNat

@[simp] theorem height_inactive : height inactive = ⊤ := if_pos rfl

theorem height_of_ne {rank : UInt32} (h : rank ≠ inactive) : height rank = rank.toNat := if_neg h

/-- The entry of an inactive state is above every other. -/
theorem height_le_height_iff {a b : UInt32} : height a ≤ height b ↔ a ≤ b := by
  by_cases hb : b = inactive
  · subst hb
    rw [height_inactive]
    exact iff_of_true le_top (le_inactive a)
  · by_cases ha : a = inactive
    · subst ha
      rw [height_inactive, height_of_ne hb]
      refine iff_of_false (by simp) fun hle => hb (UInt32.le_antisymm (le_inactive b) hle)
    · rw [height_of_ne ha, height_of_ne hb, Nat.cast_le, UInt32.le_iff_toNat_le]

/-! ## Settled rows -/

/-- What closing a row has to come to: at each state, the least entry of the states that it
can be reached from. -/
structure Settled (edges : List EpsilonEdge) (t : Text) (row closed : Array UInt32) : Prop where
  size_eq : closed.size = row.size
  isLeast : ∀ q, IsLeast {rank | ∃ s, OpenPath edges t s q ∧ entry row s = rank} (entry closed q)

namespace Settled

variable {edges others : List EpsilonEdge} {t : Text} {row closed closed' : Array UInt32}

theorem unique (h : Settled edges t row closed) (h' : Settled edges t row closed') :
    closed = closed' :=
  eq_of_entry (h.size_eq.trans h'.size_eq.symm) fun q =>
    UInt32.le_antisymm ((h.isLeast q).2 (h'.isLeast q).1) ((h'.isLeast q).2 (h.isLeast q).1)

theorem congr (hsame : ∀ e, e ∈ edges ↔ e ∈ others) (h : Settled edges t row closed) :
    Settled others t row closed where
  size_eq := h.size_eq
  isLeast q := by
    simp only [← OpenPath.congr hsame]
    exact h.isLeast q

/-- The entries of a settled row do not rise along open paths, so it is settled by itself. -/
theorem again (h : Settled edges t row closed) : Settled edges t closed closed where
  size_eq := rfl
  isLeast q := by
    refine ⟨⟨q, .refl, rfl⟩, ?_⟩
    rintro _ ⟨p, hpq, rfl⟩
    obtain ⟨s, hsp, hs⟩ := (h.isLeast p).1
    rw [← hs]
    exact (h.isLeast q).2 ⟨s, hsp.trans hpq, rfl⟩

theorem flat (h : Settled edges t row closed) (hrow : Flat row) : Flat closed := by
  refine hrow.handedOn fun q => ?_
  obtain ⟨s, -, hs⟩ := (h.isLeast q).1
  exact ⟨s, hs⟩

/-- If the edges start in the row, only states of the row are handed on to states of it. -/
theorem isLeast_height (h : Settled edges t row closed)
    (hsource : ∀ e ∈ edges, e.source < row.size) {q : StateId} (hq : q < closed.size) :
    IsLeast {n | ∃ (s : StateId) (hs : s < row.size), OpenPath edges t s q ∧ height row[s] = n}
      (height closed[q]) := by
  have hinside : ∀ s, OpenPath edges t s q → s < row.size := by
    intro s hsq
    -- a path stays where it is, or it begins at the source of an edge
    rcases hsq.cases_head with rfl | ⟨p, ⟨e, he, -, rfl, -⟩, -⟩
    · exact h.size_eq ▸ hq
    · exact hsource e he
  obtain ⟨⟨s, hsq, hs⟩, hlower⟩ := h.isLeast q
  rw [← entry_eq_getElem hq]
  refine ⟨⟨s, hinside s hsq, hsq, ?_⟩, ?_⟩
  · rw [← hs, entry_eq_getElem (hinside s hsq)]
  · rintro _ ⟨p, hp, hpq, rfl⟩
    rw [height_le_height_iff, ← entry_eq_getElem hp]
    exact hlower ⟨p, hpq, rfl⟩

end Settled

/-! ## Closing a row -/

variable {edges : List EpsilonEdge}

theorem close_eq_ok_iff (t : Text) {row closed : Array UInt32}
    (h : ∀ e ∈ edges, e.source < row.size ∧ e.target < row.size) :
    close edges t row = .ok closed ↔ Settled edges t row closed := by
  obtain ⟨found, hclose, hsize, hleast⟩ := exists_close t row h
  have hfound : Settled edges t row found := ⟨hsize, hleast⟩
  rw [hclose]
  constructor
  · intro heq
    exact Except.ok.inj heq ▸ hfound
  · intro hsettled
    rw [hfound.unique hsettled]

/-- **Closing a row finds least ranks.**  It always comes to an end, and then the entry of
each state is the least among the entries that the states had from which an open path leads
to it, with `inactive` as infinity.  Neither the order of the edges nor their repetition
matters, closing a second time changes nothing, and a row that holds only `0` and `inactive`
keeps only those. -/
theorem close_leastRanks (t : Text) (row : Array UInt32)
    (h : ∀ e ∈ edges, e.source < row.size ∧ e.target < row.size) :
    ∃ closed, close edges t row = .ok closed ∧ closed.size = row.size ∧
      (∀ (q : StateId) (hq : q < closed.size),
        IsLeast {n | ∃ (s : StateId) (hs : s < row.size),
          OpenPath edges t s q ∧ height row[s] = n} (height closed[q])) ∧
      (∀ others, (∀ e, e ∈ others ↔ e ∈ edges) → close others t row = .ok closed) ∧
      close edges t closed = .ok closed ∧
      (Flat row → Flat closed) := by
  obtain ⟨closed, hclose, -⟩ := exists_close t row h
  have hsettled : Settled edges t row closed := (close_eq_ok_iff t h).mp hclose
  have hsize : closed.size = row.size := hsettled.size_eq
  refine ⟨closed, hclose, hsize, fun q hq => hsettled.isLeast_height (fun e he => (h e he).1) hq,
    fun others hsame => ?_, ?_, hsettled.flat⟩
  · have hothers : ∀ e ∈ others, e.source < row.size ∧ e.target < row.size :=
      fun e he => h e ((hsame e).mp he)
    exact (close_eq_ok_iff t hothers).mpr (hsettled.congr fun e => (hsame e).symm)
  · exact (close_eq_ok_iff t fun e he => hsize.symm ▸ h e he).mpr hsettled.again

/-- A cycle through three states, listed against its direction and with one edge twice, and
two edges out of it: one that is open at slot `3` only, and one to a state of lower rank. -/
def cyclic : List EpsilonEdge :=
  [⟨2, 0, .always⟩, ⟨1, 2, .index 0⟩, ⟨0, 1, .always⟩, ⟨1, 2, .index 0⟩, ⟨1, 4, .index 3⟩,
    ⟨2, 3, .custom fun t => t.cursor == 0⟩]

/-- Rank `4` goes round the cycle and takes the place of `9` and of no rank, but not of `1`
and not behind the closed edge.  The order of the edges and a second closure change nothing. -/
theorem close_leastRanks_cyclic :
    (∀ e ∈ cyclic, e.source < 5 ∧ e.target < 5) ∧
      close cyclic .empty #[9, inactive, 4, 1, inactive] = .ok #[4, 4, 4, 1, inactive] ∧
      close cyclic.reverse .empty #[9, inactive, 4, 1, inactive] = .ok #[4, 4, 4, 1, inactive] ∧
      close cyclic .empty #[4, 4, 4, 1, inactive] = .ok #[4, 4, 4, 1, inactive] ∧
      IsLeast {n | ∃ (s : StateId) (hs : s < 5), OpenPath cyclic .empty s 4 ∧
        height #[9, inactive, 4, 1, inactive][s] = n} ⊤ := by
  have hbound : ∀ e ∈ cyclic, e.source < 5 ∧ e.target < 5 := by decide
  obtain ⟨closed, hclose, -, hleast, hsame, hagain, -⟩ :=
    close_leastRanks .empty #[9, inactive, 4, 1, inactive] hbound
  have hvalue : close cyclic .empty #[9, inactive, 4, 1, inactive] =
      .ok #[4, 4, 4, 1, inactive] := by cbv
  obtain rfl : closed = #[4, 4, 4, 1, inactive] := Except.ok.inj (hclose.symm.trans hvalue)
  exact ⟨hbound, hvalue, hsame _ fun _ => List.mem_reverse, hagain, hleast 4 (by decide)⟩

end RankTable
end GuardedAutomata
