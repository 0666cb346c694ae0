import GuardedAutomata.Automaton.Mask
import GuardedAutomata.Proofs.Tracking

/-!
# Bit masks track the active states

A mask is read as the set `Mask.bits` of the states whose bit is set, and every
operation on masks is described by what it does to that set.  One visit of an edge
in a sweep (`Mask.exists_sweep_cons`) adds the target of an edge that is open and
starts in the set; everything about sweeps follows from that by induction on the
edges.

A sweep that returns its mask unchanged has passed every open edge, so the set is
closed; and no sweep adds a state that is not on an open path.  Together these make
the mask at the end of `Mask.close` the closure.
-/

namespace GuardedAutomata
namespace Mask

/-! ## Masks as sets of states -/

/-- The states whose bit is set. -/
def bits (mask : UInt64) : Set StateId := {s | mask.toNat.testBit s = true}

theorem bits_injective {m n : UInt64} (h : bits m = bits n) : m = n := by
  refine UInt64.toNat_inj.mp (Nat.eq_of_testBit_eq fun s => ?_)
  rw [Bool.eq_iff_iff]
  exact Set.ext_iff.mp h s

@[simp] theorem bits_zero : bits 0 = ∅ := by
  ext s
  simp [bits]

@[simp] theorem bits_or (m n : UInt64) : bits (m ||| n) = bits m ∪ bits n := by
  ext s
  simp [bits]

@[simp] theorem bits_and (m n : UInt64) : bits (m &&& n) = bits m ∩ bits n := by
  ext s
  simp [bits]

theorem bits_eq_empty_iff {m : UInt64} : bits m = ∅ ↔ m = 0 := by
  constructor
  · exact fun h => bits_injective (h.trans bits_zero.symm)
  · rintro rfl
    exact bits_zero

/-- Every state below 64 has a mask of its own. -/
theorem exists_bit {s : StateId} (h : s < 64) : ∃ m, bit s = .ok m ∧ bits m = {s} := by
  refine ⟨_, if_pos h, ?_⟩
  have hshift : (UInt64.ofNat s).toNat % 64 = s := by
    rw [UInt64.toNat_ofNat', Nat.mod_eq_of_lt (Nat.lt_trans h (by decide)), Nat.mod_eq_of_lt h]
  have hpow : ((1 : UInt64) <<< UInt64.ofNat s).toNat = 2 ^ s := by
    rw [UInt64.toNat_shiftLeft, hshift, UInt64.toNat_one, Nat.one_shiftLeft]
    exact Nat.mod_eq_of_lt (Nat.pow_lt_pow_right (by decide) h)
  ext q
  show Nat.testBit _ q = true ↔ q ∈ {s}
  rw [hpow, Nat.testBit_two_pow, decide_eq_true_eq, Set.mem_singleton_iff, eq_comm]

theorem and_ne_zero_iff {mask m : UInt64} {s : StateId} (hm : bits m = {s}) :
    (mask &&& m != 0) = true ↔ s ∈ bits mask := by
  rw [bne_iff_ne, Ne, ← bits_eq_empty_iff, bits_and, hm, Set.inter_singleton_eq_empty, not_not]

/-! ## Closing a mask -/

/-- Visiting an edge adds its target if the edge is open and starts in the mask. -/
theorem exists_sweep_cons (t : Text) {e : EpsilonEdge} (rest : List EpsilonEdge) (mask : UInt64)
    (he : e.source < 64 ∧ e.target < 64) :
    ∃ next, sweep t (e :: rest) mask = sweep t rest next ∧
      bits next = bits mask ∪ {q | e.isOpen t = true ∧ e.source ∈ bits mask ∧ q = e.target} := by
  obtain ⟨source, hsource, hs⟩ := exists_bit he.1
  obtain ⟨target, htarget, ht⟩ := exists_bit he.2
  have hunfold : sweep t (e :: rest) mask =
      if (mask &&& source != 0 && mask &&& target == 0 && e.isOpen t) = true then
        sweep t rest (mask ||| target)
      else sweep t rest mask := by
    rw [sweep, hsource, htarget]
    rfl
  have htest : (mask &&& source != 0 && mask &&& target == 0 && e.isOpen t) = true ↔
      (e.source ∈ bits mask ∧ e.target ∉ bits mask) ∧ e.isOpen t = true := by
    rw [Bool.and_eq_true, Bool.and_eq_true, and_ne_zero_iff hs, ← and_ne_zero_iff ht, bne,
      Bool.not_eq_true', Bool.not_eq_false]
  rw [hunfold]
  by_cases hc : (mask &&& source != 0 && mask &&& target == 0 && e.isOpen t) = true
  · obtain ⟨⟨hmem, -⟩, hopen⟩ := htest.mp hc
    refine ⟨mask ||| target, if_pos hc, ?_⟩
    rw [bits_or, ht]
    ext q
    simp [hmem, hopen]
  · refine ⟨mask, if_neg hc, (Set.union_eq_left.mpr ?_).symm⟩
    rintro q ⟨hopen, hmem, rfl⟩
    by_contra htarget
    exact hc (htest.mpr ⟨⟨hmem, htarget⟩, hopen⟩)

/-- A sweep adds states on open paths only, and one that adds nothing has found the
mask closed. -/
theorem exists_sweep (t : Text) {edges : List EpsilonEdge} (mask : UInt64)
    (h : ∀ e ∈ edges, e.source < 64 ∧ e.target < 64) :
    ∃ swept, sweep t edges mask = .ok swept ∧ bits mask ⊆ bits swept ∧
      bits swept ⊆ closureOf edges t (bits mask) ∧
      (swept = mask → ClosedUnder edges t (bits mask)) := by
  induction edges generalizing mask with
  | nil =>
    exact ⟨mask, rfl, subset_rfl, subset_closureOf _ _ _, fun _ _ he => absurd he List.not_mem_nil⟩
  | cons e rest ih =>
    obtain ⟨next, hcons, hnext⟩ := exists_sweep_cons t rest mask (h e List.mem_cons_self)
    obtain ⟨swept, hsweep, hle, hsub, hclosed⟩ :=
      ih next fun e' he' => h e' (List.mem_cons_of_mem _ he')
    have hmask : bits mask ⊆ bits next := hnext ▸ Set.subset_union_left
    have hstep : bits next ⊆ closureOf (e :: rest) t (bits mask) := by
      rw [hnext]
      refine Set.union_subset (subset_closureOf _ _ _) ?_
      rintro q ⟨hopen, hmem, rfl⟩
      exact target_mem_closureOf List.mem_cons_self hopen (subset_closureOf _ _ _ hmem)
    refine ⟨swept, hcons.trans hsweep, hmask.trans hle, ?_, ?_⟩
    · refine hsub.trans ?_
      rw [← closureOf_closureOf (e :: rest)]
      exact closureOf_mono (List.subset_cons_self e rest) t hstep
    · rintro rfl e' he' hopen hmem
      -- masks only grow, so one that comes back unchanged was unchanged after the first edge
      have hsame : next = swept := bits_injective (hle.antisymm hmask)
      rcases List.mem_cons.mp he' with rfl | he'
      · exact hle (hnext ▸ Set.mem_union_right _ ⟨hopen, hmem, rfl⟩)
      · subst hsame
        exact hclosed rfl e' he' hopen hmem

theorem exists_close (t : Text) {edges : List EpsilonEdge} (mask : UInt64)
    (h : ∀ e ∈ edges, e.source < 64 ∧ e.target < 64) :
    ∃ closed, close edges t mask = .ok closed ∧ bits closed = closureOf edges t (bits mask) := by
  induction mask using close.induct edges t with
  | case1 mask fault hsweep =>
    obtain ⟨swept, hok, -⟩ := exists_sweep t mask h
    rw [hsweep] at hok
    cases hok
  | case2 swept hsweep =>
    obtain ⟨swept', hok, hle, -, hclosed⟩ := exists_sweep t swept h
    rw [hsweep] at hok
    obtain rfl := Except.ok.inj hok
    refine ⟨swept, ?_, (subset_closureOf _ _ _).antisymm ?_⟩
    · rw [close, hsweep]
      exact if_pos rfl
    · exact closureOf_subset subset_rfl (hclosed rfl)
  | case3 mask swept hsweep hne ih =>
    obtain ⟨swept', hok, hle, hsub, -⟩ := exists_sweep t mask h
    rw [hsweep] at hok
    obtain rfl := Except.ok.inj hok
    obtain ⟨closed, hclose, hbits⟩ := ih
    refine ⟨closed, ?_, hbits.trans (Set.Subset.antisymm ?_ ?_)⟩
    · rw [close, hsweep]
      exact (if_neg hne).trans hclose
    · rw [← closureOf_closureOf edges t (bits mask)]
      exact closureOf_mono (List.Subset.refl _) t hsub
    · exact closureOf_mono (List.Subset.refl _) t hle

/-! ## Consuming a code point -/

theorem exists_spread_cons (value : UInt32) (mask : UInt64) {e : AlphaEdge}
    (rest : List AlphaEdge) (next : UInt64) (he : e.source < 64 ∧ e.target < 64) :
    ∃ next', spread value mask (e :: rest) next = spread value mask rest next' ∧
      bits next' =
        bits next ∪ {q | e.source ∈ bits mask ∧ e.accepts value = true ∧ q = e.target} := by
  obtain ⟨source, hsource, hs⟩ := exists_bit he.1
  obtain ⟨target, htarget, ht⟩ := exists_bit he.2
  have hunfold : spread value mask (e :: rest) next =
      if (mask &&& source != 0 && e.accepts value) = true then
        spread value mask rest (next ||| target)
      else spread value mask rest next := by
    rw [spread, hsource, htarget]
    rfl
  have htest : (mask &&& source != 0 && e.accepts value) = true ↔
      e.source ∈ bits mask ∧ e.accepts value = true := by
    rw [Bool.and_eq_true, and_ne_zero_iff hs]
  rw [hunfold]
  by_cases hc : (mask &&& source != 0 && e.accepts value) = true
  · obtain ⟨hmem, hacc⟩ := htest.mp hc
    refine ⟨next ||| target, if_pos hc, ?_⟩
    rw [bits_or, ht]
    ext q
    simp [hmem, hacc]
  · refine ⟨next, if_neg hc, (Set.union_eq_left.mpr ?_).symm⟩
    rintro q ⟨hmem, hacc, rfl⟩
    exact absurd (htest.mpr ⟨hmem, hacc⟩) hc

/-- The targets of the accepting edges from a mask are added to what is there. -/
theorem exists_spread (value : UInt32) (mask : UInt64) {edges : List AlphaEdge} (next : UInt64)
    (h : ∀ e ∈ edges, e.source < 64 ∧ e.target < 64) :
    ∃ reached, spread value mask edges next = .ok reached ∧
      bits reached = bits next ∪ successorsOf edges value (bits mask) := by
  induction edges generalizing next with
  | nil =>
    refine ⟨next, rfl, ?_⟩
    rw [successorsOf_nil, Set.union_empty]
  | cons e rest ih =>
    obtain ⟨next', hcons, hnext⟩ := exists_spread_cons value mask rest next (h e List.mem_cons_self)
    obtain ⟨reached, hspread, hreached⟩ :=
      ih next' fun e' he' => h e' (List.mem_cons_of_mem _ he')
    refine ⟨reached, hcons.trans hspread, ?_⟩
    rw [hreached, hnext, Set.union_assoc, successorsOf_cons]

/-! ## The matcher -/

/-- Masks track every automaton whose states have bits. -/
theorem tracks {a : Automaton} (ha : a.WellFormed) (hlimit : a.stateCount ≤ Automaton.maskLimit) :
    (simulation a).Tracks a fun mask S => bits mask = S where
  initial := exists_bit (show Automaton.source < 64 by decide)
  close t mask S hS := by
    subst hS
    exact exists_close t mask fun e he =>
      ⟨(ha.epsilon_lt e he).1.trans_le hlimit, (ha.epsilon_lt e he).2.trans_le hlimit⟩
  step value mask S hS := by
    subst hS
    obtain ⟨reached, hspread, hbits⟩ := exists_spread value mask 0 fun e he =>
      ⟨(ha.alpha_lt e he).1.trans_le hlimit, (ha.alpha_lt e he).2.trans_le hlimit⟩
    rw [bits_zero, Set.empty_union] at hbits
    have hunfold : (simulation a).step value mask =
        .ok (if reached = 0 then none else some reached) := by
      simp only [simulation, hspread]
      rfl
    by_cases hzero : reached = 0
    · refine ⟨none, hunfold.trans (congrArg _ (if_pos hzero)), fun _ => ?_, fun _ h => (nomatch h)⟩
      rw [← hbits, bits_eq_empty_iff, hzero]
    · refine ⟨some reached, hunfold.trans (congrArg _ (if_neg hzero)), fun h => (nomatch h), ?_⟩
      rintro _ ⟨⟩
      refine ⟨?_, hbits⟩
      rw [← hbits, Set.nonempty_iff_ne_empty, Ne, bits_eq_empty_iff]
      exact hzero
  accepts {mask S} hS := by
    subst hS
    obtain ⟨target, htarget, ht⟩ := exists_bit (show Automaton.target < 64 by decide)
    refine ⟨_, ?_, and_ne_zero_iff ht⟩
    simp only [simulation, htarget]
    rfl

end Mask
end GuardedAutomata
