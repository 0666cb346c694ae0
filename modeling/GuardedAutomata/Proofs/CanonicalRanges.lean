import GuardedAutomata.Proofs.RangeSets

/-!
# The canonical form of a list of ranges

`CodeRange.canonical_spec` says what the canonical form is: separated ranges that cover
the same values.  Here it is shown that this determines it.  Two separated lists of
ranges that cover the same values are one list (`CodeRange.Separated.ext`), so

* two lists of ranges have one canonical form exactly if they cover the same values
  (`CodeRange.canonical_eq_canonical_iff`);
* ranges that are separated already are their own canonical form
  (`CodeRange.Separated.canonical_eq`).

Everything else that one expects of a canonical form follows from these two and is
collected in `CodeRange.canonical_form`.

## Why separated ranges are determined

The first range of a separated list can be read off the values that are covered.  It
begins at the least of them (`Separated.first_le`), and it ends where the first value is
missing: up to its last value everything is covered, and the value behind it is not,
because the next range begins later still (`Separated.succ_last_lt`).  Touching ranges
would spoil the second half, and it is the reason why they are joined.  What the
other ranges cover is then what is left above the first (`Separated.covers_tail_iff`).
-/

namespace GuardedAutomata
namespace CodeRange

/-! ## Separated ranges -/

section

variable {r : CodeRange} {rest : List CodeRange} {v : UInt32}

theorem Separated.tail (h : Separated (r :: rest)) : Separated rest where
  inhabited s hs := h.inhabited s (List.mem_cons_of_mem _ hs)
  gap := h.gap.of_cons

theorem Separated.head_inhabited (h : Separated (r :: rest)) : r.first.toNat ≤ r.last.toNat :=
  UInt32.le_iff_toNat_le.mp (h.inhabited r List.mem_cons_self)

/-- The later ranges cover nothing up to the value behind the first range. -/
theorem Separated.succ_last_lt (h : Separated (r :: rest)) (hv : Covers rest v) :
    r.last.toNat + 1 < v.toNat := by
  obtain ⟨s, hs, hfirst, -⟩ := hv
  have hgap := (List.pairwise_cons.mp h.gap).1 s hs
  have hle := UInt32.le_iff_toNat_le.mp hfirst
  omega

theorem Separated.first_le (h : Separated (r :: rest)) (hv : Covers (r :: rest) v) :
    r.first.toNat ≤ v.toNat := by
  rcases covers_cons.mp hv with hhead | hrest
  · exact UInt32.le_iff_toNat_le.mp hhead.1
  · have hinhabited := h.head_inhabited
    have hbehind := h.succ_last_lt hrest
    omega

theorem Separated.ne_succ_last (h : Separated (r :: rest)) (hv : Covers (r :: rest) v) :
    v.toNat ≠ r.last.toNat + 1 := by
  rcases covers_cons.mp hv with hhead | hrest
  · have hle := UInt32.le_iff_toNat_le.mp hhead.2
    omega
  · exact Nat.ne_of_gt (h.succ_last_lt hrest)

theorem Separated.covers_tail_iff (h : Separated (r :: rest)) :
    Covers rest v ↔ Covers (r :: rest) v ∧ r.last.toNat < v.toNat := by
  rw [covers_cons]
  constructor
  · intro hrest
    exact ⟨.inr hrest, Nat.lt_of_succ_lt (h.succ_last_lt hrest)⟩
  · rintro ⟨hhead | hrest, hlt⟩
    · exact absurd (UInt32.le_iff_toNat_le.mp hhead.2) (Nat.not_le.mpr hlt)
    · exact hrest

theorem Separated.covers_first (h : Separated (r :: rest)) : Covers (r :: rest) r.first :=
  ⟨r, List.mem_cons_self, UInt32.le_refl _, h.inhabited r List.mem_cons_self⟩

end

theorem not_covers_nil (v : UInt32) : ¬Covers [] v :=
  fun ⟨_, hr, _⟩ => List.not_mem_nil hr

/-! ## The first range of a separated list -/

section

variable {r s : CodeRange} {rest others : List CodeRange}

theorem Separated.head_first_le (hr : Separated (r :: rest)) (hs : Separated (s :: others))
    (h : ∀ v, Covers (r :: rest) v → Covers (s :: others) v) : s.first.toNat ≤ r.first.toNat :=
  hs.first_le (h _ hr.covers_first)

/-- If the first ranges begin together, that of a separated list ends no earlier than that
of a list that covers less: otherwise the value behind it would be covered. -/
theorem Separated.head_last_le (hs : Separated (s :: others))
    (hfirst : r.first.toNat = s.first.toNat)
    (h : ∀ v, Covers (r :: rest) v → Covers (s :: others) v) : r.last.toNat ≤ s.last.toNat := by
  by_contra hlt
  -- then there is a value behind `s`, and `r` covers it
  have hbound := r.last.toNat_lt_size
  have hinhabited := hs.head_inhabited
  have hnext : (UInt32.ofNat (s.last.toNat + 1)).toNat = s.last.toNat + 1 :=
    UInt32.toNat_ofNat_of_lt (by omega)
  have hcovered : Covers (r :: rest) (UInt32.ofNat (s.last.toNat + 1)) := by
    refine ⟨r, List.mem_cons_self, ?_, ?_⟩
    · rw [UInt32.le_iff_toNat_le, hnext]
      omega
    · rw [UInt32.le_iff_toNat_le, hnext]
      omega
  exact hs.ne_succ_last (h _ hcovered) hnext

theorem Separated.head_eq (hr : Separated (r :: rest)) (hs : Separated (s :: others))
    (h : ∀ v, Covers (r :: rest) v ↔ Covers (s :: others) v) : r = s := by
  have hfirst : r.first.toNat = s.first.toNat :=
    Nat.le_antisymm (hs.head_first_le hr fun v => (h v).mpr)
      (hr.head_first_le hs fun v => (h v).mp)
  have hlast : r.last.toNat = s.last.toNat :=
    Nat.le_antisymm (hs.head_last_le hfirst fun v => (h v).mp)
      (hr.head_last_le hfirst.symm fun v => (h v).mpr)
  calc r = ⟨r.first, r.last⟩ := rfl
    _ = ⟨s.first, s.last⟩ := by rw [UInt32.toNat_inj.mp hfirst, UInt32.toNat_inj.mp hlast]

end

/-- **Separated ranges are determined by the values they cover.** -/
theorem Separated.ext {ranges others : List CodeRange} (hr : Separated ranges)
    (ho : Separated others) (h : ∀ v, Covers ranges v ↔ Covers others v) : ranges = others := by
  induction ranges generalizing others with
  | nil =>
    cases others with
    | nil => rfl
    | cons s others => exact absurd ((h _).mpr ho.covers_first) (not_covers_nil _)
  | cons r rest ih =>
    cases others with
    | nil => exact absurd ((h _).mp hr.covers_first) (not_covers_nil _)
    | cons s others =>
      obtain rfl := hr.head_eq ho h
      have htail : ∀ v, Covers rest v ↔ Covers others v := by
        intro v
        rw [hr.covers_tail_iff, ho.covers_tail_iff, h]
      rw [ih hr.tail ho.tail htail]

theorem Separated.pairwise_first_lt {ranges : List CodeRange} (h : Separated ranges) :
    ranges.Pairwise fun r s => r.first < s.first := by
  refine h.gap.imp_of_mem fun {r s} hr _ hgap => ?_
  have hinhabited := UInt32.le_iff_toNat_le.mp (h.inhabited r hr)
  rw [UInt32.lt_iff_toNat_lt]
  omega

/-! ## The canonical form -/

/-- Ranges have one canonical form exactly if they cover the same values. -/
theorem canonical_eq_canonical_iff (ranges others : List CodeRange) :
    canonical ranges = canonical others ↔ ∀ v, Covers ranges v ↔ Covers others v := by
  obtain ⟨hcovers, hsep⟩ := canonical_spec ranges
  obtain ⟨hcovers', hsep'⟩ := canonical_spec others
  constructor
  · intro heq v
    rw [← hcovers, ← hcovers', heq]
  · intro h
    refine hsep.ext hsep' fun v => ?_
    rw [hcovers, hcovers', h]

theorem Separated.canonical_eq {ranges : List CodeRange} (h : Separated ranges) :
    canonical ranges = ranges :=
  (canonical_spec ranges).2.ext h (canonical_spec ranges).1

/-- What is covered depends on which ranges there are, not on their order or number. -/
theorem covers_congr {ranges others : List CodeRange} (h : ∀ r, r ∈ ranges ↔ r ∈ others)
    (v : UInt32) : Covers ranges v ↔ Covers others v := by
  unfold Covers
  simp only [h]

/-- **The canonical form.**  Its ranges have members, ascend, leave a value out between
any two, and cover the values that were covered before.  Therefore two lists have one
canonical form exactly if they denote the same set of values, a canonical form is its own
canonical form, and neither the order of the given ranges nor their repetition matters. -/
theorem canonical_form (ranges : List CodeRange) :
    ((∀ r ∈ canonical ranges, r.first ≤ r.last) ∧
      ((canonical ranges).Pairwise fun r s =>
        r.first < s.first ∧ r.last.toNat + 1 < s.first.toNat) ∧
      ∀ v, Covers (canonical ranges) v ↔ Covers ranges v) ∧
    (∀ others, canonical others = canonical ranges ↔ ∀ v, Covers others v ↔ Covers ranges v) ∧
    canonical (canonical ranges) = canonical ranges ∧
    (∀ others, others.Perm ranges → canonical others = canonical ranges) ∧
    ∀ others, (∀ r, r ∈ others ↔ r ∈ ranges) → canonical others = canonical ranges := by
  obtain ⟨hcovers, hsep⟩ := canonical_spec ranges
  have hsame : ∀ others, (∀ r, r ∈ others ↔ r ∈ ranges) → canonical others = canonical ranges :=
    fun others h => (canonical_eq_canonical_iff others ranges).mpr (covers_congr h)
  exact ⟨⟨hsep.inhabited, hsep.pairwise_first_lt.and hsep.gap, hcovers⟩,
    fun others => canonical_eq_canonical_iff others ranges, hsep.canonical_eq,
    fun others h => hsame others fun _ => h.mem_iff, hsame⟩

/-- The ranges of `touching` in another order, one of them twice. -/
def touchingAgain : List CodeRange :=
  [⟨4, 4⟩, ⟨0xFFFFFFF0, 0xFFFFFFFF⟩, ⟨20, 10⟩, ⟨5, 9⟩, ⟨4, 4⟩, ⟨1, 3⟩]

/-- The same values in two separated ranges. -/
def touchingJoined : List CodeRange := [⟨1, 9⟩, ⟨0xFFFFFFF0, 0xFFFFFFFF⟩]

theorem covers_touchingJoined (v : UInt32) : Covers touchingJoined v ↔ Covers touching v := by
  simp only [touchingJoined, touching, covers_cons, iff_false_intro (not_covers_nil v),
    or_false, UInt32.le_iff_toNat_le, UInt32.reduceToNat]
  omega

/-- All three spellings have the canonical form of two ranges, and one that leaves out the
value `4` has another. -/
theorem canonical_form_touching :
    (∀ r, r ∈ touchingAgain ↔ r ∈ touching) ∧ canonical touchingAgain = canonical touching ∧
      canonical touching = touchingJoined ∧ canonical touchingJoined = touchingJoined ∧
      canonical [⟨5, 9⟩, ⟨1, 3⟩, ⟨0xFFFFFFF0, 0xFFFFFFFF⟩] ≠ canonical touching := by
  obtain ⟨-, hiff, hidem, -, hsame⟩ := canonical_form touching
  have hmem : ∀ r, r ∈ touchingAgain ↔ r ∈ touching := by
    intro r
    simp only [touchingAgain, touching, List.mem_cons, List.not_mem_nil]
    tauto
  have hseparated : Separated touchingJoined := ⟨by decide, by decide⟩
  have hcanonical : canonical touching = touchingJoined :=
    ((hiff touchingJoined).mpr covers_touchingJoined).symm.trans hseparated.canonical_eq
  refine ⟨hmem, hsame _ hmem, hcanonical, ?_, fun heq => ?_⟩
  · rw [← hcanonical]
    exact hidem
  · have hmissing : ¬Covers [⟨5, 9⟩, ⟨1, 3⟩, ⟨0xFFFFFFF0, 0xFFFFFFFF⟩] 4 := by decide
    have hcovered : Covers touching 4 := by decide
    exact hmissing (((hiff _).mp heq 4).mpr hcovered)

end CodeRange
end GuardedAutomata
