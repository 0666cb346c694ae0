import GuardedAutomata.Proofs.AssertionSlots
import Mathlib.Data.List.Pairwise
import Mathlib.Data.List.Sort

/-!
# Words and word assertions

A word of a text is a maximal run of consecutive word characters.  `wordRuns words unicode w` lists
them from left to right, each by the slot where it starts and the slot where it stops.

A word assertion knows nothing of words.  It asks of the two neighbours of a slot whether they are
word characters, and each form combines the two answers in its own way.  Nevertheless the forms fit
together (`Assertion.word_slots`): `wordStart` holds exactly where a word starts, `wordEnd` exactly
where one stops, `wordBoundary` at both and its negation everywhere else, and the two halves hold
outside of the words, with one end of each word left in or out.

## What is needed of the runs

The positions of word characters are a set of numbers, and two properties tie a list of runs to it
(`WordRun.Decompose`): every position of the set is in one of the runs and no other position is,
and the runs stand in order, with a position that is in none of them between any two.  How the list
was computed plays no part after that.  From the two properties it follows

* that the runs are the maximal ones (`Decompose.mem_iff_maximal`), so that the list is determined;
* that a run starts at a slot exactly if the position after it is in the set and the position before
  it is not, and stops where it is the other way round (`Decompose.mem_starts_iff`,
  `Decompose.mem_stops_iff`), which is how the assertions decide it;
* that starts and stops, read run by run, are in ascending order (`Decompose.pairwise_ends`), so
  that they alternate.

The runs are computed from the right: one more value in front moves every run by one, and if it is
a word character it extends the first run or is a run of its own (`WordRun.consMark`).
-/

namespace GuardedAutomata

/-! ## Runs of positions -/

/-- A run of consecutive positions of a text, from the slot where it starts to the slot where it
stops. -/
structure WordRun where
  start : Nat
  stop : Nat
  start_lt_stop : start < stop := by omega
  deriving DecidableEq

namespace WordRun

/-- The position is in the run. -/
def Contains (r : WordRun) (i : Nat) : Prop := r.start ≤ i ∧ i < r.stop

/-- The run is one of positions of a set, and neither the position before it nor the one after it
is in the set. -/
structure Maximal (P : Nat → Prop) (r : WordRun) : Prop where
  within : ∀ i, r.Contains i → P i
  not_before : ∀ i, i + 1 = r.start → ¬P i
  not_after : ¬P r.stop

/-- The run with one more position to its left. -/
def shift (r : WordRun) : WordRun where
  start := r.start + 1
  stop := r.stop + 1
  start_lt_stop := Nat.succ_lt_succ r.start_lt_stop

/-- Where the given runs start. -/
def starts (rs : List WordRun) : List Nat := rs.map start

/-- Where the given runs stop. -/
def stops (rs : List WordRun) : List Nat := rs.map stop

/-- Where the given runs start and stop, run by run. -/
def ends (rs : List WordRun) : List Nat := rs.flatMap fun r => [r.start, r.stop]

theorem mem_starts {rs : List WordRun} {c : Nat} : c ∈ starts rs ↔ ∃ r ∈ rs, r.start = c :=
  List.mem_map

theorem mem_stops {rs : List WordRun} {c : Nat} : c ∈ stops rs ↔ ∃ r ∈ rs, r.stop = c :=
  List.mem_map

theorem mem_ends {rs : List WordRun} {c : Nat} : c ∈ ends rs ↔ c ∈ starts rs ∨ c ∈ stops rs := by
  simp only [ends, List.mem_flatMap, List.mem_pair, mem_starts, mem_stops]
  grind

theorem starts_sublist (rs : List WordRun) : (starts rs).Sublist (ends rs) := by
  induction rs with
  | nil => exact .slnil
  | cons r rest ih => exact (ih.cons r.stop).cons_cons r.start

theorem stops_sublist (rs : List WordRun) : (stops rs).Sublist (ends rs) := by
  induction rs with
  | nil => exact .slnil
  | cons r rest ih => exact (ih.cons_cons r.stop).cons r.start

/-- The runs are apart and in order, and a position is in one of them if and only if it is in the
set. -/
structure Decompose (P : Nat → Prop) (rs : List WordRun) : Prop where
  separated : rs.Pairwise fun r r' => r.stop < r'.start
  covers : ∀ i, P i ↔ ∃ r ∈ rs, r.Contains i

namespace Decompose

variable {P : Nat → Prop} {rs : List WordRun} {r r' : WordRun} {c : Nat}

theorem apart (h : Decompose P rs) (hr : r ∈ rs) (hr' : r' ∈ rs) (hne : r ≠ r') :
    r.stop < r'.start ∨ r'.stop < r.start := by
  have hsymm : Std.Symm fun r r' : WordRun => r.stop < r'.start ∨ r'.stop < r.start :=
    ⟨fun _ _ => Or.symm⟩
  have hpairs : rs.Pairwise fun r r' => r.stop < r'.start ∨ r'.stop < r.start :=
    h.separated.imp Or.inl
  exact hpairs.forall hr hr' hne

/-- The positions before and after a run are not in the set. -/
theorem not_beside (h : Decompose P rs) (hr : r ∈ rs) {i : Nat}
    (hi : i + 1 = r.start ∨ i = r.stop) : ¬P i := by
  intro hP
  obtain ⟨r', hr', hstart, hstop⟩ := (h.covers i).mp hP
  have hlt := r.start_lt_stop
  have hne : r ≠ r' := by
    rintro rfl
    omega
  have hapart := h.apart hr hr' hne
  omega

/-- The runs are the maximal ones. -/
theorem mem_iff_maximal (h : Decompose P rs) : r ∈ rs ↔ r.Maximal P := by
  constructor
  · intro hr
    exact ⟨fun i hi => (h.covers i).mpr ⟨r, hr, hi⟩, fun i hi => h.not_beside hr (.inl hi),
      h.not_beside hr (.inr rfl)⟩
  · intro hmax
    have hlt := r.start_lt_stop
    obtain ⟨r', hr', hstart, hstop⟩ :=
      (h.covers r.start).mp (hmax.within r.start ⟨Nat.le_refl _, hlt⟩)
    -- the run through the start of `r` does not begin before `r`, and stops where `r` does
    have hstarts : r'.start = r.start := by
      refine Nat.le_antisymm hstart (Nat.not_lt.mp fun hbefore => ?_)
      refine hmax.not_before (r.start - 1) (by omega) ((h.covers _).mpr ⟨r', hr', ?_⟩)
      exact ⟨by omega, by omega⟩
    have hstops : r'.stop = r.stop := by
      refine Nat.le_antisymm (Nat.not_lt.mp fun hafter => ?_) (Nat.not_lt.mp fun hafter => ?_)
      · exact hmax.not_after ((h.covers _).mpr ⟨r', hr', by omega, hafter⟩)
      · exact h.not_beside hr' (.inr rfl) (hmax.within _ ⟨by omega, hafter⟩)
    obtain ⟨start, stop, hr₁⟩ := r
    obtain ⟨start', stop', hr₂⟩ := r'
    obtain rfl : start' = start := hstarts
    obtain rfl : stop' = stop := hstops
    exact hr'

/-- A run starts in front of a position of the set, unless the position before that is in it. -/
theorem mem_starts_iff (h : Decompose P rs) :
    c ∈ starts rs ↔ P c ∧ ¬∃ i, i + 1 = c ∧ P i := by
  rw [mem_starts]
  constructor
  · rintro ⟨r, hr, rfl⟩
    refine ⟨(h.covers _).mpr ⟨r, hr, Nat.le_refl _, r.start_lt_stop⟩, ?_⟩
    rintro ⟨i, hi, hP⟩
    exact h.not_beside hr (.inl hi) hP
  · rintro ⟨hP, hbefore⟩
    obtain ⟨r, hr, hstart, hstop⟩ := (h.covers c).mp hP
    refine ⟨r, hr, Nat.le_antisymm hstart (Nat.not_lt.mp fun hlt => hbefore ?_)⟩
    exact ⟨c - 1, by omega, (h.covers _).mpr ⟨r, hr, by omega, by omega⟩⟩

/-- A run stops behind a position of the set, unless the position after that is in it. -/
theorem mem_stops_iff (h : Decompose P rs) :
    c ∈ stops rs ↔ (∃ i, i + 1 = c ∧ P i) ∧ ¬P c := by
  rw [mem_stops]
  constructor
  · rintro ⟨r, hr, rfl⟩
    have hlt := r.start_lt_stop
    refine ⟨⟨r.stop - 1, by omega, (h.covers _).mpr ⟨r, hr, by omega, by omega⟩⟩,
      h.not_beside hr (.inr rfl)⟩
  · rintro ⟨⟨i, rfl, hP⟩, hafter⟩
    obtain ⟨r, hr, hstart, hstop⟩ := (h.covers i).mp hP
    refine ⟨r, hr, Nat.le_antisymm (Nat.not_lt.mp fun hlt => hafter ?_) hstop⟩
    exact (h.covers _).mpr ⟨r, hr, by omega, hlt⟩

/-- A position of the set stands before a slot if and only if the slot is in a run or at the stop
of one. -/
theorem exists_before_iff (h : Decompose P rs) :
    (∃ i, i + 1 = c ∧ P i) ↔ ∃ r ∈ rs, r.start < c ∧ c ≤ r.stop := by
  constructor
  · rintro ⟨i, rfl, hP⟩
    obtain ⟨r, hr, hstart, hstop⟩ := (h.covers i).mp hP
    exact ⟨r, hr, Nat.lt_succ_of_le hstart, hstop⟩
  · rintro ⟨r, hr, hstart, hstop⟩
    exact ⟨c - 1, by omega, (h.covers _).mpr ⟨r, hr, by omega, by omega⟩⟩

/-- Starts and stops alternate: run by run, they are in ascending order. -/
theorem pairwise_ends (h : Decompose P rs) : (ends rs).Pairwise (· < ·) := by
  refine List.pairwise_flatMap.mpr ⟨fun r _ => ?_, h.separated.imp fun {r r'} hlt => ?_⟩
  · exact List.pairwise_pair.mpr r.start_lt_stop
  · intro x hx y hy
    have hr := r.start_lt_stop
    have hr' := r'.start_lt_stop
    rw [List.mem_pair] at hx hy
    omega

end Decompose

/-! ## Finding the runs -/

/-- The runs of a text with one more value in front, of which it is said whether it is a word
character. -/
def consMark : Bool → List WordRun → List WordRun
  | false, rs => rs.map shift
  | true, [] => [{ start := 0, stop := 1 }]
  | true, r :: rest =>
      if r.start = 0 then { start := 0, stop := r.stop + 1 } :: rest.map shift
      else { start := 0, stop := 1 } :: (r :: rest).map shift

/-- The runs of the marked positions of a list. -/
def ofMarks : List Bool → List WordRun
  | [] => []
  | mark :: rest => consMark mark (ofMarks rest)

/-- The same set of positions behind one more, of which it is said whether it belongs to the set. -/
def consPosition (mark : Bool) (P : Nat → Prop) : Nat → Prop
  | 0 => mark = true
  | i + 1 => P i

variable {P : Nat → Prop} {rs : List WordRun}

theorem contains_shift {r : WordRun} {i : Nat} : r.shift.Contains (i + 1) ↔ r.Contains i := by
  simp only [Contains, shift]
  omega

theorem not_contains_shift_zero {r : WordRun} : ¬r.shift.Contains 0 := by
  simp only [Contains, shift]
  omega

/-- Runs with one more position to their left are as far apart as before. -/
theorem separated_shift (h : rs.Pairwise fun r r' => r.stop < r'.start) :
    (rs.map shift).Pairwise fun r r' => r.stop < r'.start :=
  List.pairwise_map.mpr (h.imp Nat.succ_lt_succ)

theorem exists_shift_contains_succ {i : Nat} :
    (∃ r ∈ rs.map shift, r.Contains (i + 1)) ↔ ∃ r ∈ rs, r.Contains i := by
  simp only [List.mem_map, exists_exists_and_eq_and, contains_shift]

theorem not_exists_shift_contains_zero : ¬∃ r ∈ rs.map shift, r.Contains 0 := by
  simp only [List.mem_map, exists_exists_and_eq_and, not_contains_shift_zero, and_false,
    exists_false, not_false_iff]

/-- A value in front that is no word character moves the runs. -/
theorem Decompose.consMark_false (h : Decompose P rs) :
    Decompose (consPosition false P) (consMark false rs) where
  separated := separated_shift h.separated
  covers i := by
    cases i with
    | zero => exact iff_of_false Bool.false_ne_true not_exists_shift_contains_zero
    | succ i => exact (h.covers i).trans exists_shift_contains_succ.symm

/-- A word character in front of a position that is none is a run of its own. -/
theorem Decompose.consMark_apart (h : Decompose P rs) (hfirst : ¬P 0) :
    Decompose (consPosition true P) ({ start := 0, stop := 1 } :: rs.map shift) where
  separated := by
    refine List.pairwise_cons.mpr ⟨fun r hr => ?_, separated_shift h.separated⟩
    obtain ⟨r, hmem, rfl⟩ := List.mem_map.mp hr
    have hlt := r.start_lt_stop
    have hstart : r.start ≠ 0 := fun hzero =>
      hfirst ((h.covers 0).mpr ⟨r, hmem, hzero.le, by omega⟩)
    exact Nat.succ_lt_succ (Nat.pos_of_ne_zero hstart)
  covers i := by
    rw [List.exists_mem_cons_iff]
    cases i with
    | zero => exact iff_of_true rfl (.inl ⟨Nat.le_refl _, Nat.zero_lt_one⟩)
    | succ i =>
      have houtside : ¬Contains { start := 0, stop := 1 } (i + 1) := by
        simp only [Contains]
        omega
      rw [exists_shift_contains_succ, or_iff_right houtside]
      exact h.covers i

/-- A word character in front of a run extends it. -/
theorem Decompose.consMark_extend {r : WordRun} (h : Decompose P (r :: rs)) (hfirst : r.start = 0) :
    Decompose (consPosition true P) ({ start := 0, stop := r.stop + 1 } :: rs.map shift) where
  separated := by
    obtain ⟨hr, hrest⟩ := List.pairwise_cons.mp h.separated
    refine List.pairwise_cons.mpr ⟨fun r' hr' => ?_, separated_shift hrest⟩
    obtain ⟨r', hmem, rfl⟩ := List.mem_map.mp hr'
    exact Nat.succ_lt_succ (hr r' hmem)
  covers i := by
    rw [List.exists_mem_cons_iff]
    cases i with
    | zero => exact iff_of_true rfl (.inl ⟨Nat.le_refl _, Nat.succ_pos _⟩)
    | succ i =>
      have hextended : Contains { start := 0, stop := r.stop + 1 } (i + 1) ↔ r.Contains i := by
        simp only [Contains, hfirst]
        omega
      rw [exists_shift_contains_succ, hextended]
      exact (h.covers i).trans (List.exists_mem_cons_iff _ _ _)

theorem Decompose.not_zero {r : WordRun} (h : Decompose P (r :: rs)) (hfirst : r.start ≠ 0) :
    ¬P 0 := by
  intro hP
  obtain ⟨r', hr', hstart, hstop⟩ := (h.covers 0).mp hP
  rcases List.mem_cons.mp hr' with rfl | hmem
  · omega
  · have hlater := List.rel_of_pairwise_cons h.separated hmem
    omega

/-- **One more value in front.** -/
theorem Decompose.consMark (h : Decompose P rs) (mark : Bool) :
    Decompose (consPosition mark P) (consMark mark rs) := by
  cases mark with
  | false => exact h.consMark_false
  | true =>
    cases rs with
    | nil => exact h.consMark_apart fun hP => by simpa using (h.covers 0).mp hP
    | cons r rest =>
      rw [WordRun.consMark]
      split
      · next hfirst => exact h.consMark_extend hfirst
      · next hfirst => exact h.consMark_apart (h.not_zero hfirst)

theorem decompose_ofMarks (marks : List Bool) :
    Decompose (fun i => marks[i]? = some true) (ofMarks marks) := by
  induction marks with
  | nil => exact ⟨.nil, fun i => by simp [ofMarks]⟩
  | cons mark rest ih =>
    have hset : (fun i => (mark :: rest)[i]? = some true) =
        consPosition mark fun i => rest[i]? = some true := by
      funext i
      cases i with
      | zero => simp [consPosition]
      | succ i => simp [consPosition]
    rw [hset]
    exact ih.consMark mark

end WordRun

/-! ## The words of a text -/

namespace WordData

variable (words : WordData) (unicode : Bool) (w : Array UInt32)

/-- A word character stands at a position of a text. -/
def WordAt (i : Nat) : Prop := ∃ c : Char, w[i]? = some c.val ∧ words.isWordChar unicode c = true

theorem char?_eq_some_iff {v : UInt32} {c : Char} : char? v = some c ↔ v = c.val := by
  unfold char?
  split
  · rw [Option.some.injEq, ← Char.val_inj]
  · next hv =>
    refine iff_of_false (Option.some_ne_none c).symm ?_
    rintro rfl
    exact hv c.valid

/-- A value that is no character is no word character, and neither is the outside of a text. -/
theorem isWord_eq_true_iff {neighbour : Option UInt32} :
    words.isWord unicode neighbour = true ↔
      ∃ c : Char, neighbour = some c.val ∧ words.isWordChar unicode c = true := by
  have hany : words.isWord unicode neighbour =
      (neighbour.bind char?).any (words.isWordChar unicode) := by
    rw [isWord]
    cases neighbour.bind char? with
    | none => rfl
    | some c => rfl
  simp only [hany, Option.any_eq_true, Option.bind_eq_some_iff, char?_eq_some_iff]
  exact exists_congr fun c => and_congr_left fun _ => exists_eq_right

/-- The maximal runs of consecutive word characters of a text, from left to right. -/
def wordRuns : List WordRun :=
  WordRun.ofMarks (w.toList.map fun v => words.isWord unicode (some v))

theorem decompose_wordRuns :
    WordRun.Decompose (words.WordAt unicode w) (words.wordRuns unicode w) := by
  have hset : words.WordAt unicode w = fun i =>
      (w.toList.map fun v => words.isWord unicode (some v))[i]? = some true := by
    funext i
    rw [WordAt, ← isWord_eq_true_iff, List.getElem?_map, Array.getElem?_toList]
    cases w[i]? with
    | none => simp
    | some v => simp
  rw [hset]
  exact WordRun.decompose_ofMarks _

theorem le_of_mem_ends {c : Nat} (hc : c ∈ WordRun.ends (words.wordRuns unicode w)) :
    c ≤ w.size := by
  have hruns := words.decompose_wordRuns unicode w
  rw [WordRun.mem_ends, hruns.mem_starts_iff, hruns.mem_stops_iff] at hc
  rcases hc with ⟨⟨v, hv, -⟩, -⟩ | ⟨⟨i, rfl, v, hv, -⟩, -⟩
  · exact (Array.getElem?_eq_some_iff.mp hv).1.le
  · exact (Array.getElem?_eq_some_iff.mp hv).1

end WordData

/-! ## Assertions and words -/

namespace Assertion

open WordRun WordData

section

variable {words : WordData} {unicode : Bool} {w : Array UInt32} {c : Nat}

theorem isWord_before_iff (h : c ≤ w.size) :
    words.isWord unicode (Text.ofValuesAt w c h).before? = true ↔
      ∃ i, i + 1 = c ∧ words.WordAt unicode w i := by
  cases c with
  | zero => exact iff_of_false Bool.false_ne_true fun ⟨i, hi, _⟩ => Nat.succ_ne_zero i hi
  | succ i =>
    simp only [Nat.add_right_cancel_iff, exists_eq_left]
    exact isWord_eq_true_iff words unicode

theorem isWord_after_iff (h : c ≤ w.size) :
    words.isWord unicode (Text.ofValuesAt w c h).after? = true ↔ words.WordAt unicode w c :=
  isWord_eq_true_iff words unicode

end

variable (words : WordData) (unicode : Bool) {w : Array UInt32} {c : Nat}

theorem holds_wordStart_iff (h : c ≤ w.size) :
    (wordStart unicode).holds words (.ofValuesAt w c h) = true ↔
      c ∈ starts (words.wordRuns unicode w) := by
  rw [(words.decompose_wordRuns unicode w).mem_starts_iff, ← isWord_after_iff h,
    ← isWord_before_iff h, Bool.not_eq_true, and_comm, ← Bool.not_eq_true', ← Bool.and_eq_true]
  rfl

theorem holds_wordEnd_iff (h : c ≤ w.size) :
    (wordEnd unicode).holds words (.ofValuesAt w c h) = true ↔
      c ∈ stops (words.wordRuns unicode w) := by
  rw [(words.decompose_wordRuns unicode w).mem_stops_iff, ← isWord_after_iff h,
    ← isWord_before_iff h, Bool.not_eq_true, ← Bool.not_eq_true', ← Bool.and_eq_true]
  rfl

/-- A word starts or stops where its two neighbours differ. -/
theorem holdsBetween_wordBoundary (before after : Option UInt32) :
    (wordBoundary unicode false).holdsBetween words before after =
      ((wordStart unicode).holdsBetween words before after ||
        (wordEnd unicode).holdsBetween words before after) := by
  simp only [holdsBetween]
  cases words.isWord unicode before with
  | false => cases words.isWord unicode after with
    | false => rfl
    | true => rfl
  | true => cases words.isWord unicode after with
    | false => rfl
    | true => rfl

theorem holds_wordBoundary_iff (h : c ≤ w.size) :
    (wordBoundary unicode false).holds words (.ofValuesAt w c h) = true ↔
      c ∈ ends (words.wordRuns unicode w) := by
  rw [mem_ends, ← holds_wordStart_iff words unicode h, ← holds_wordEnd_iff words unicode h,
    ← Bool.or_eq_true, holds, holdsBetween_wordBoundary]
  rfl

theorem holds_wordBoundary_negate_iff (h : c ≤ w.size) :
    (wordBoundary unicode true).holds words (.ofValuesAt w c h) = true ↔
      c ∉ ends (words.wordRuns unicode w) := by
  rw [← holds_wordBoundary_iff words unicode h, Bool.not_eq_true, holds, holds, holdsBetween,
    holdsBetween, Bool.bne_true, Bool.bne_false, Bool.not_eq_true']

theorem holds_wordStartHalf_iff (h : c ≤ w.size) :
    (wordStartHalf unicode).holds words (.ofValuesAt w c h) = true ↔
      ∀ r ∈ words.wordRuns unicode w, ¬(r.start < c ∧ c ≤ r.stop) := by
  have hbefore := (words.decompose_wordRuns unicode w).exists_before_iff (c := c)
  rw [← isWord_before_iff h] at hbefore
  rw [holds, holdsBetween, Bool.not_eq_true', ← Bool.not_eq_true, hbefore]
  simp only [not_exists, not_and]

theorem holds_wordEndHalf_iff (h : c ≤ w.size) :
    (wordEndHalf unicode).holds words (.ofValuesAt w c h) = true ↔
      ∀ r ∈ words.wordRuns unicode w, ¬(r.start ≤ c ∧ c < r.stop) := by
  have hafter := (words.decompose_wordRuns unicode w).covers c
  rw [← isWord_after_iff h] at hafter
  rw [holds, holdsBetween, Bool.not_eq_true', ← Bool.not_eq_true, hafter]
  simp only [Contains, not_exists, not_and]

/-- The slots at which an assertion holds are known from any list of them in ascending order. -/
theorem slots_eq_of_pairwise {words : WordData} {a : Assertion} {l : List Nat}
    (hsorted : l.Pairwise (· < ·)) (hle : ∀ c ∈ l, c ≤ w.size)
    (hl : ∀ (c : Nat) (h : c ≤ w.size), a.holds words (.ofValuesAt w c h) = true ↔ c ∈ l) :
    a.slots words w = l := by
  refine (pairwise_slots words a w).sortedLT.eq_of_mem_iff hsorted.sortedLT fun c => ?_
  constructor
  · intro hc
    exact (hl c (le_of_mem_slots hc)).mp ((mem_slots _).mp hc)
  · intro hc
    exact (mem_slots (hle c hc)).mpr ((hl c (hle c hc)).mpr hc)

theorem slots_wordStart (w : Array UInt32) :
    (wordStart unicode).slots words w = starts (words.wordRuns unicode w) := by
  refine slots_eq_of_pairwise ?_ (fun c hc => ?_) fun c h => holds_wordStart_iff words unicode h
  · exact (words.decompose_wordRuns unicode w).pairwise_ends.sublist (starts_sublist _)
  · exact words.le_of_mem_ends unicode w (mem_ends.mpr (.inl hc))

theorem slots_wordEnd (w : Array UInt32) :
    (wordEnd unicode).slots words w = stops (words.wordRuns unicode w) := by
  refine slots_eq_of_pairwise ?_ (fun c hc => ?_) fun c h => holds_wordEnd_iff words unicode h
  · exact (words.decompose_wordRuns unicode w).pairwise_ends.sublist (stops_sublist _)
  · exact words.le_of_mem_ends unicode w (mem_ends.mpr (.inr hc))

/-- Read from left to right, the word boundaries are a start, the stop of the same word, and so
on. -/
theorem slots_wordBoundary (w : Array UInt32) :
    (wordBoundary unicode false).slots words w = ends (words.wordRuns unicode w) :=
  slots_eq_of_pairwise (words.decompose_wordRuns unicode w).pairwise_ends
    (fun _ hc => words.le_of_mem_ends unicode w hc) fun _ h =>
      holds_wordBoundary_iff words unicode h

/-- **The word assertions agree with the words of the text.**  The words are the maximal runs of
word characters, and their starts and stops are in ascending order, start before stop.  In every
text, `wordStart` holds where words start and at no other slot, `wordEnd` where words stop,
`wordBoundary` at both, and its negation at all other slots; `wordStartHalf` fails behind the start
of a word up to its stop, and `wordEndHalf` from the start of a word up to before its stop.  So from
left to right starts and stops alternate, and there are equally many. -/
theorem word_slots (words : WordData) (unicode : Bool) (w : Array UInt32) :
    (∀ r, r ∈ words.wordRuns unicode w ↔ r.Maximal (words.WordAt unicode w)) ∧
    (ends (words.wordRuns unicode w)).Pairwise (· < ·) ∧
    (∀ (c : Nat) (h : c ≤ w.size),
      ((wordStart unicode).holds words (.ofValuesAt w c h) = true ↔
        c ∈ starts (words.wordRuns unicode w)) ∧
      ((wordEnd unicode).holds words (.ofValuesAt w c h) = true ↔
        c ∈ stops (words.wordRuns unicode w)) ∧
      ((wordBoundary unicode false).holds words (.ofValuesAt w c h) = true ↔
        c ∈ ends (words.wordRuns unicode w)) ∧
      ((wordBoundary unicode true).holds words (.ofValuesAt w c h) = true ↔
        c ∉ ends (words.wordRuns unicode w)) ∧
      ((wordStartHalf unicode).holds words (.ofValuesAt w c h) = true ↔
        ∀ r ∈ words.wordRuns unicode w, ¬(r.start < c ∧ c ≤ r.stop)) ∧
      ((wordEndHalf unicode).holds words (.ofValuesAt w c h) = true ↔
        ∀ r ∈ words.wordRuns unicode w, ¬(r.start ≤ c ∧ c < r.stop))) ∧
    (wordBoundary unicode false).slots words w = ends (words.wordRuns unicode w) ∧
    ((wordStart unicode).slots words w).length = ((wordEnd unicode).slots words w).length := by
  refine ⟨fun r => (words.decompose_wordRuns unicode w).mem_iff_maximal,
    (words.decompose_wordRuns unicode w).pairwise_ends, fun c h => ?_,
    slots_wordBoundary words unicode w, ?_⟩
  · exact ⟨holds_wordStart_iff words unicode h, holds_wordEnd_iff words unicode h,
      holds_wordBoundary_iff words unicode h, holds_wordBoundary_negate_iff words unicode h,
      holds_wordStartHalf_iff words unicode h, holds_wordEndHalf_iff words unicode h⟩
  · rw [slots_wordStart, slots_wordEnd, starts, stops, List.length_map, List.length_map]

/-- The text `"é-ab"` with an unpaired surrogate behind it, and then the letter `c`. -/
def mixedWords : Array UInt32 :=
  #['é'.val, '-'.val, 'a'.val, 'b'.val, 0xD800, 'c'.val]

/-- The Unicode word characters are the letters of ASCII and `é`. -/
def accentedLetters : WordData :=
  { WordData.missing with unicode := some fun c => c.isAlpha || c == 'é' }

/-- With Unicode words, the accented letter is a word of its own, and the surrogate stands between
two words. -/
theorem word_slots_mixed :
    (accentedLetters.wordRuns true mixedWords =
      [{ start := 0, stop := 1 }, { start := 2, stop := 4 }, { start := 5, stop := 6 }]) ∧
    (wordStart true).holds accentedLetters (.ofValuesAt mixedWords 0 (by decide)) = true ∧
    (wordBoundary true false).holds accentedLetters (.ofValuesAt mixedWords 4 (by decide)) = true ∧
    (wordStartHalf true).holds accentedLetters (.ofValuesAt mixedWords 2 (by decide)) = true := by
  obtain ⟨-, -, hslots, -⟩ := word_slots accentedLetters true mixedWords
  obtain ⟨hstart, -⟩ := hslots 0 (by decide)
  obtain ⟨-, -, hboundary, -⟩ := hslots 4 (by decide)
  obtain ⟨-, -, -, -, hhalf, -⟩ := hslots 2 (by decide)
  exact ⟨by decide, hstart.mpr (by decide), hboundary.mpr (by decide), hhalf.mpr (by decide)⟩

end Assertion
end GuardedAutomata
