import GuardedAutomata.Text.RangeSet
import Mathlib.Tactic.Common

/-!
# Looking values up in ranges

`CodeRange.canonical` brings ranges into a form in which every range has a member and
at least one value is missing between two of them (`CodeRange.Separated`), and it
covers the same values as before (`CodeRange.canonical_spec`).  Bisection
decides membership in every separated array (`RangeSet.search_iff`).  Together: a
class accepts exactly the values in one of the ranges it was written with
(`CodeClass.accepts_iff`).  Nothing of this depends on the way values are looked up:
separated ranges are in order for every value, and a search by comparison cannot miss
(`RangeSet.contains_ofList_iff`).

The scan is followed with `current` as the range that still grows.  What comes after
starts no earlier, because the ranges are sorted; so a range that starts at most one
behind the end of `current` extends it without a gap, and one that starts later is
missed by everything that is still to come.
-/

namespace GuardedAutomata
namespace CodeRange

/-- The value lies in one of the ranges. -/
def Covers (ranges : List CodeRange) (v : UInt32) : Prop :=
  ∃ r ∈ ranges, r.first ≤ v ∧ v ≤ r.last

instance (ranges : List CodeRange) (v : UInt32) : Decidable (Covers ranges v) :=
  inferInstanceAs (Decidable (∃ r ∈ ranges, r.first ≤ v ∧ v ≤ r.last))

/-- Every range has a member, and between two ranges a value is missing. -/
structure Separated (ranges : List CodeRange) : Prop where
  inhabited : ∀ r ∈ ranges, r.first ≤ r.last
  gap : ranges.Pairwise fun r s => r.last.toNat + 1 < s.first.toNat

theorem covers_cons {r : CodeRange} {rest : List CodeRange} {v : UInt32} :
    Covers (r :: rest) v ↔ (r.first ≤ v ∧ v ≤ r.last) ∨ Covers rest v := by
  constructor
  · intro hcov
    obtain ⟨s, hs, hv⟩ := hcov
    rcases List.mem_cons.mp hs with rfl | hs
    · exact .inl hv
    · exact .inr ⟨s, hs, hv⟩
  · intro hcov
    rcases hcov with hv | ⟨s, hs, hv⟩
    · exact ⟨r, List.mem_cons_self, hv⟩
    · exact ⟨s, List.mem_cons_of_mem _ hs, hv⟩

theorem le_successor_iff {a b : UInt32} : a ≤ successor b ↔ a.toNat ≤ b.toNat + 1 := by
  have ha := a.toNat_lt
  unfold successor
  split
  · next htop =>
    subst htop
    rw [UInt32.le_iff_toNat_le]
    have hb : (0xFFFFFFFF : UInt32).toNat = 2 ^ 32 - 1 := by decide
    omega
  · next htop =>
    have hb : b.toNat ≠ 2 ^ 32 - 1 := fun h => htop (UInt32.toNat_inj.mp h)
    have hlt := b.toNat_lt
    rw [UInt32.le_iff_toNat_le, UInt32.toNat_add, UInt32.toNat_one]
    omega

theorem toNat_max (a b : UInt32) : (max a b).toNat = max a.toNat b.toNat := by
  show (if a ≤ b then b else a).toNat = _
  split
  · next hle => rw [Nat.max_eq_right (UInt32.le_iff_toNat_le.mp hle)]
  · next hle =>
    rw [UInt32.le_iff_toNat_le] at hle
    omega

/-- Sorted by first member. -/
def Ascending (ranges : List CodeRange) : Prop := ranges.Pairwise fun r s => r.first ≤ s.first

/-- Extending a range by one that does not leave a gap. -/
theorem covers_extend {current r : CodeRange} {rest : List CodeRange} {v : UInt32}
    (hle : current.first ≤ r.first)
    (hjoin : r.first ≤ successor current.last) :
    Covers (⟨current.first, max current.last r.last⟩ :: rest) v ↔
      Covers (current :: r :: rest) v := by
  rw [covers_cons, covers_cons, covers_cons, ← or_assoc]
  refine or_congr_left ?_
  rw [le_successor_iff] at hjoin
  simp only [UInt32.le_iff_toNat_le, toNat_max] at *
  omega

/-- The scan covers the same values, leaves separated ranges, and starts no earlier. -/
theorem absorb_spec {current : CodeRange} {rest : List CodeRange}
    (hinhabited : ∀ r ∈ current :: rest, r.first ≤ r.last) (hasc : Ascending (current :: rest)) :
    (∀ v, Covers (absorb current rest) v ↔ Covers (current :: rest) v) ∧
      Separated (absorb current rest) ∧ ∀ r ∈ absorb current rest, current.first ≤ r.first := by
  induction rest generalizing current with
  | nil =>
    refine ⟨fun v => Iff.rfl, ⟨hinhabited, List.pairwise_singleton _ _⟩, fun r hr => ?_⟩
    rw [List.mem_singleton.mp hr]
    exact UInt32.le_refl _
  | cons r rest ih =>
    obtain ⟨hfirst, hasc'⟩ := List.pairwise_cons.mp hasc
    have hcr : current.first ≤ r.first := hfirst r List.mem_cons_self
    have hr : r.first ≤ r.last := hinhabited r (by simp)
    rw [absorb]
    split
    · next hjoin =>
      have hgrown : ∀ s ∈ (⟨current.first, max current.last r.last⟩ : CodeRange) :: rest,
          s.first ≤ s.last := by
        intro s hs
        rcases List.mem_cons.mp hs with rfl | hs
        · simp only [UInt32.le_iff_toNat_le, toNat_max] at hcr hr ⊢
          omega
        · exact hinhabited s (by simp [hs])
      have hgrownAsc : Ascending (⟨current.first, max current.last r.last⟩ :: rest) :=
        List.pairwise_cons.mpr ⟨fun s hs => hfirst s (List.mem_cons_of_mem _ hs),
          (List.pairwise_cons.mp hasc').2⟩
      obtain ⟨hcovers, hsep, hstart⟩ := ih hgrown hgrownAsc
      exact ⟨fun v => (hcovers v).trans (covers_extend hcr hjoin), hsep, hstart⟩
    · next hjoin =>
      -- a value is left out, and no later range starts before `r` does
      rw [le_successor_iff] at hjoin
      obtain ⟨hcovers, hsep, hstart⟩ := ih
        (fun s hs => hinhabited s (List.mem_cons_of_mem _ hs)) hasc'
      refine ⟨fun v => ?_, ⟨fun s hs => ?_, List.pairwise_cons.mpr ⟨fun s hs => ?_, hsep.gap⟩⟩,
        fun s hs => ?_⟩
      · rw [covers_cons, hcovers, ← covers_cons]
      · rcases List.mem_cons.mp hs with rfl | hs
        · exact hinhabited s List.mem_cons_self
        · exact hsep.inhabited s hs
      · have hrs := UInt32.le_iff_toNat_le.mp (hstart s hs)
        omega
      · rcases List.mem_cons.mp hs with rfl | hs
        · exact UInt32.le_refl _
        · exact UInt32.le_trans hcr (hstart s hs)

theorem precedes_iff {r s : CodeRange} : r.precedes s = true ↔
    r.first.toNat < s.first.toNat ∨
      r.first.toNat = s.first.toNat ∧ r.last.toNat ≤ s.last.toNat := by
  simp only [precedes, Bool.or_eq_true, Bool.and_eq_true, decide_eq_true_eq, beq_iff_eq,
    UInt32.lt_iff_toNat_lt, UInt32.le_iff_toNat_le, UInt32.toNat_inj]

/-- Sorting leaves the inhabited ranges in ascending order. -/
theorem ascending_mergeSort (ranges : List CodeRange) : Ascending (ranges.mergeSort precedes) := by
  have htrans : ∀ r s t : CodeRange,
      r.precedes s = true → s.precedes t = true → r.precedes t = true := by
    intro r s t
    simp only [precedes_iff]
    omega
  have htotal : ∀ r s : CodeRange, (r.precedes s || s.precedes r) = true := by
    intro r s
    simp only [Bool.or_eq_true, precedes_iff]
    omega
  refine (List.pairwise_mergeSort htrans htotal ranges).imp fun {r s} h => ?_
  rw [UInt32.le_iff_toNat_le]
  have h := precedes_iff.mp h
  omega

theorem canonical_spec (ranges : List CodeRange) :
    (∀ v, Covers (canonical ranges) v ↔ Covers ranges v) ∧ Separated (canonical ranges) := by
  have hmem : ∀ r, r ∈ (ranges.filter isInhabited).mergeSort precedes ↔
      r ∈ ranges ∧ r.first ≤ r.last := by
    intro r
    rw [List.mem_mergeSort, List.mem_filter, isInhabited, decide_eq_true_eq]
  have hsame : ∀ v,
      Covers ((ranges.filter isInhabited).mergeSort precedes) v ↔ Covers ranges v := by
    intro v
    constructor
    · intro hcov
      obtain ⟨r, hr, hv⟩ := hcov
      exact ⟨r, ((hmem r).mp hr).1, hv⟩
    · intro hcov
      obtain ⟨r, hr, hv⟩ := hcov
      exact ⟨r, (hmem r).mpr ⟨hr, UInt32.le_trans hv.1 hv.2⟩, hv⟩
  have hasc := ascending_mergeSort (ranges.filter isInhabited)
  have hinhabited : ∀ r ∈ (ranges.filter isInhabited).mergeSort precedes, r.first ≤ r.last :=
    fun r hr => ((hmem r).mp hr).2
  unfold canonical
  cases hsorted : (ranges.filter isInhabited).mergeSort precedes with
  | nil =>
    rw [hsorted] at hsame
    exact ⟨hsame, ⟨fun _ hr => absurd hr List.not_mem_nil, List.Pairwise.nil⟩⟩
  | cons r rest =>
    rw [hsorted] at hsame hasc hinhabited
    obtain ⟨hcovers, hsep, -⟩ := absorb_spec hinhabited hasc
    exact ⟨fun v => (hcovers v).trans (hsame v), hsep⟩

end CodeRange

namespace RangeSet

open CodeRange

theorem search_step {ranges : Array CodeRange} {v : UInt32} {low high : Nat} {r : CodeRange}
    (hlt : low < high) (hr : ranges[low + (high - low) / 2]? = some r) :
    search ranges v low high =
      if r.last < v then search ranges v (low + (high - low) / 2 + 1) high
      else if v < r.first then search ranges v low (low + (high - low) / 2)
      else true := by
  rw [search, if_pos hlt]
  simp only [hr]

section

variable {ranges : Array CodeRange} (hsep : Separated ranges.toList)

include hsep

theorem last_lt_first {i j : Nat} (hi : i < ranges.size) (hj : j < ranges.size) (hij : i < j) :
    ranges[i].last.toNat + 1 < ranges[j].first.toNat := by
  have hpair := List.pairwise_iff_getElem.mp hsep.gap i j (by simpa using hi) (by simpa using hj)
    hij
  simpa using hpair

theorem first_le_last {i : Nat} (hi : i < ranges.size) :
    ranges[i].first.toNat ≤ ranges[i].last.toNat :=
  UInt32.le_iff_toNat_le.mp (hsep.inhabited _ (by simp))

theorem last_le_last {i j : Nat} (hi : i < ranges.size) (hj : j < ranges.size) (hij : i ≤ j) :
    ranges[i].last.toNat ≤ ranges[j].last.toNat := by
  rcases Nat.lt_or_eq_of_le hij with hlt | rfl
  · have hgap := last_lt_first hsep hi hj hlt
    have hle := first_le_last hsep hj
    omega
  · exact Nat.le_refl _

theorem first_le_first {i j : Nat} (hi : i < ranges.size) (hj : j < ranges.size) (hij : i ≤ j) :
    ranges[i].first.toNat ≤ ranges[j].first.toNat := by
  rcases Nat.lt_or_eq_of_le hij with hlt | rfl
  · have hgap := last_lt_first hsep hi hj hlt
    have hle := first_le_last hsep hi
    omega
  · exact Nat.le_refl _

/-- In separated ranges, everything before a range that ends too early ends too early,
and everything after one that starts too late starts too late. -/
theorem search_iff (v : UInt32) (low high : Nat) (hhigh : high ≤ ranges.size) :
    search ranges v low high = true ↔
      ∃ (i : Nat) (h : i < ranges.size), low ≤ i ∧ i < high ∧
        ranges[i].first ≤ v ∧ v ≤ ranges[i].last := by
  have hbounds : ∀ {low high : Nat}, low < high →
      low ≤ low + (high - low) / 2 ∧ low + (high - low) / 2 < high := fun h => by omega
  induction low, high using search.induct ranges v with
  | case1 low high hlt middle hnone =>
    have hsize : ranges.size ≤ middle := Array.getElem?_eq_none_iff.mp hnone
    have hmiddle := (hbounds hlt).2
    omega
  | case2 low high hlt middle r hsome hlast ih =>
    rw [search_step hlt hsome, if_pos hlast]
    obtain ⟨hm, rfl⟩ := Array.getElem?_eq_some_iff.mp hsome
    refine Iff.trans (ih hhigh) ?_
    constructor
    · intro hfound
      obtain ⟨i, h, hlow, hi, hv⟩ := hfound
      exact ⟨i, h, by omega, hi, hv⟩
    · intro hfound
      obtain ⟨i, h, hlow, hi, hv⟩ := hfound
      refine ⟨i, h, ?_, hi, hv⟩
      -- a range up to the middle ends before the value
      by_contra hle
      have hend := last_le_last hsep h hm (Nat.le_of_lt_succ (Nat.not_le.mp hle))
      have hbefore := UInt32.lt_iff_toNat_lt.mp hlast
      have hv := UInt32.le_iff_toNat_le.mp hv.2
      omega
  | case3 low high hlt middle r hsome hlast hfirst ih =>
    rw [search_step hlt hsome, if_neg hlast, if_pos hfirst]
    obtain ⟨hm, rfl⟩ := Array.getElem?_eq_some_iff.mp hsome
    have hmiddle := (hbounds hlt).2
    refine Iff.trans (ih (Nat.le_of_lt hm)) ?_
    constructor
    · intro hfound
      obtain ⟨i, h, hlow, hi, hv⟩ := hfound
      exact ⟨i, h, hlow, by omega, hv⟩
    · intro hfound
      obtain ⟨i, h, hlow, hi, hv⟩ := hfound
      refine ⟨i, h, hlow, ?_, hv⟩
      -- a range from the middle on starts behind the value
      by_contra hle
      have hstart := first_le_first hsep hm h (Nat.not_lt.mp hle)
      have hbehind := UInt32.lt_iff_toNat_lt.mp hfirst
      have hv := UInt32.le_iff_toNat_le.mp hv.1
      omega
  | case4 low high hlt middle r hsome hlast hfirst =>
    rw [search_step hlt hsome, if_neg hlast, if_neg hfirst]
    obtain ⟨hm, rfl⟩ := Array.getElem?_eq_some_iff.mp hsome
    exact iff_of_true rfl ⟨middle, hm, (hbounds hlt).1, (hbounds hlt).2,
      UInt32.not_lt.mp hfirst, UInt32.not_lt.mp hlast⟩
  | case5 low high hlt =>
    rw [search, if_neg hlt]
    refine iff_of_false Bool.false_ne_true ?_
    rintro ⟨i, -, hlow, hi, -⟩
    omega

end

end RangeSet

/-- **A class accepts the values in its ranges.** -/
theorem CodeClass.accepts_iff {c : CodeClass} {v : UInt32} :
    c.accepts v = true ↔ ∃ r ∈ c.ranges, r.first ≤ v ∧ v ≤ r.last := by
  obtain ⟨hcovers, hsep⟩ := CodeRange.canonical_spec c.ranges
  have hset : c.set.ranges = (CodeRange.canonical c.ranges).toArray := by
    rw [c.set_eq]
    rfl
  rw [accepts, RangeSet.contains, hset, RangeSet.search_iff (by simpa using hsep) _ _ _
    (Nat.le_refl _)]
  refine Iff.trans ?_ (hcovers v)
  constructor
  · intro hcov
    obtain ⟨i, h, -, -, hv⟩ := hcov
    exact ⟨_, List.getElem_mem (by simpa using h), by simpa using hv⟩
  · intro hcov
    obtain ⟨r, hr, hv⟩ := hcov
    obtain ⟨i, h, rfl⟩ := List.getElem_of_mem hr
    exact ⟨i, by simpa using h, Nat.zero_le _, by simpa using h, by simpa using hv⟩

/-! ## Whatever search is used -/

namespace CodeRange

/-- Where a range lies, seen from a value: before it, behind it, or around it. -/
def side (v : UInt32) (r : CodeRange) : Ordering :=
  if r.last < v then .lt else if v < r.first then .gt else .eq

theorem side_eq_lt_iff {v : UInt32} {r : CodeRange} : side v r = .lt ↔ r.last < v := by
  unfold side
  split_ifs with hlast hfirst
  · simp [hlast]
  · simp [hlast]
  · simp [hlast]

theorem side_eq_gt_iff {v : UInt32} {r : CodeRange} :
    side v r = .gt ↔ ¬r.last < v ∧ v < r.first := by
  unfold side
  split_ifs with hlast hfirst
  · simp [hlast]
  · simp [hlast, hfirst]
  · simp [hfirst]

theorem side_eq_eq_iff {v : UInt32} {r : CodeRange} :
    side v r = .eq ↔ r.first ≤ v ∧ v ≤ r.last := by
  rw [← UInt32.not_lt, ← UInt32.not_lt]
  unfold side
  split_ifs with hlast hfirst
  · simp [hlast]
  · simp [hfirst]
  · simp [hlast, hfirst]

/-- The ranges that lie before what is looked up come first, and those behind it last. -/
def OrderedBy (side : CodeRange → Ordering) (ranges : List CodeRange) : Prop :=
  ranges.Pairwise fun r s => (side s = .lt → side r = .lt) ∧ (side r = .gt → side s = .gt)

theorem Separated.orderedBy {ranges : List CodeRange} (h : Separated ranges) (v : UInt32) :
    OrderedBy (side v) ranges := by
  refine h.gap.imp_of_mem fun {r s} hr hs hgap => ?_
  have hfirst := UInt32.le_iff_toNat_le.mp (h.inhabited r hr)
  have hlast := UInt32.le_iff_toNat_le.mp (h.inhabited s hs)
  simp only [side_eq_lt_iff, side_eq_gt_iff, UInt32.lt_iff_toNat_lt]
  omega

/-- What a search by comparison answers about ranges that are in order: the index of one that
is neither before nor behind, if there is one. -/
structure Searches (find : (CodeRange → Ordering) → List CodeRange → Option Nat) : Prop where
  found : ∀ {side ranges i}, OrderedBy side ranges → find side ranges = some i →
    ∃ r, ranges[i]? = some r ∧ side r = .eq
  complete : ∀ {side ranges r}, OrderedBy side ranges → r ∈ ranges → side r = .eq →
    (find side ranges).isSome = true

/-- A search by comparison decides what separated ranges cover. -/
theorem Searches.isSome_iff {find : (CodeRange → Ordering) → List CodeRange → Option Nat}
    (hfind : Searches find) {ranges : List CodeRange} (h : Separated ranges) (v : UInt32) :
    (find (side v) ranges).isSome = true ↔ Covers ranges v := by
  constructor
  · intro hsome
    obtain ⟨i, hi⟩ := Option.isSome_iff_exists.mp hsome
    obtain ⟨r, hr, hside⟩ := hfind.found (h.orderedBy v) hi
    exact ⟨r, List.mem_of_getElem? hr, side_eq_eq_iff.mp hside⟩
  · rintro ⟨r, hr, hv⟩
    exact hfind.complete (h.orderedBy v) hr (side_eq_eq_iff.mpr hv)

/-- Looking at one range after the other is a search by comparison. -/
theorem searches_findIdx? : Searches fun side ranges => ranges.findIdx? (side · == .eq) where
  found _ hi := by
    obtain ⟨hlt, hside, -⟩ := List.findIdx?_eq_some_iff_getElem.mp hi
    exact ⟨_, List.getElem?_eq_getElem hlt, by simpa using hside⟩
  complete _ hr hside := by
    rw [List.findIdx?_isSome, List.any_eq_true]
    exact ⟨_, hr, by simpa using hside⟩

end CodeRange

/-- **Membership in a set of ranges** is membership in one of the ranges it was made from, in
whatever order they were given and however they overlap, touch, repeat or are empty.  The
canonical form is what matters, and not how values are looked up in it: every search by
comparison gives the same answer as the bisection. -/
theorem RangeSet.contains_ofList_iff (ranges : List CodeRange) (v : UInt32) :
    ((RangeSet.ofList ranges).contains v = true ↔ ∃ r ∈ ranges, r.first ≤ v ∧ v ≤ r.last) ∧
    ∀ find, CodeRange.Searches find →
      ((find (CodeRange.side v) (CodeRange.canonical ranges)).isSome = true ↔
        ∃ r ∈ ranges, r.first ≤ v ∧ v ≤ r.last) := by
  obtain ⟨hcovers, hsep⟩ := CodeRange.canonical_spec ranges
  refine ⟨(CodeClass.ofRanges ranges).accepts_iff, fun find hfind => ?_⟩
  exact (hfind.isSome_iff hsep v).trans (hcovers v)

/-- Ranges out of order that touch, one without members, and one at the top. -/
def CodeRange.touching : List CodeRange :=
  [⟨5, 9⟩, ⟨1, 3⟩, ⟨4, 4⟩, ⟨20, 10⟩, ⟨0xFFFFFFF0, 0xFFFFFFFF⟩]

/-- The greatest value is in that set, and the value between the ends of the empty range is
not, also for somebody who looks at one range after the other. -/
theorem RangeSet.contains_touching :
    let find := fun (side : CodeRange → Ordering) (ranges : List CodeRange) =>
      ranges.findIdx? (side · == .eq)
    CodeRange.Searches find ∧
      ((RangeSet.ofList CodeRange.touching).contains 0xFFFFFFFF = true ∧
        (find (CodeRange.side 0xFFFFFFFF) (CodeRange.canonical CodeRange.touching)).isSome =
          true) ∧
      ¬(RangeSet.ofList CodeRange.touching).contains 15 = true ∧
        ¬(find (CodeRange.side 15) (CodeRange.canonical CodeRange.touching)).isSome = true := by
  intro find
  have hin : ∃ r ∈ CodeRange.touching, r.first ≤ 0xFFFFFFFF ∧ (0xFFFFFFFF : UInt32) ≤ r.last := by
    decide
  have hout : ¬∃ r ∈ CodeRange.touching, r.first ≤ 15 ∧ (15 : UInt32) ≤ r.last := by decide
  obtain ⟨hset, hfind⟩ := RangeSet.contains_ofList_iff CodeRange.touching 0xFFFFFFFF
  obtain ⟨hset', hfind'⟩ := RangeSet.contains_ofList_iff CodeRange.touching 15
  have hsearches : CodeRange.Searches find := CodeRange.searches_findIdx?
  exact ⟨hsearches, ⟨hset.mpr hin, (hfind find hsearches).mpr hin⟩, fun h => hout (hset'.mp h),
    fun h => hout ((hfind' find hsearches).mp h)⟩

end GuardedAutomata
