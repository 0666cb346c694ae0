import GuardedAutomata.Proofs.MaskTracking

/-!
# Closing a mask is a closure operator

`Mask.close` sweeps over the edges and changes the mask while it does so.  What one sweep
reaches depends on the order of the edges; what all of them reach together does not,
because a mask is the result exactly if its bits are the closure of the bits given
(`Mask.close_eq_ok_iff`).  A word is determined by its bits, so every law of `closureOf`
is a law of `Mask.close`, on words: `Mask.close_leastFixpoint` lists them.
-/

namespace GuardedAutomata
namespace Mask

variable {edges : List EpsilonEdge}

theorem close_eq_ok_iff (t : Text) (h : ∀ e ∈ edges, e.source < 64 ∧ e.target < 64)
    {mask closed : UInt64} :
    close edges t mask = .ok closed ↔ bits closed = closureOf edges t (bits mask) := by
  obtain ⟨found, hclose, hbits⟩ := exists_close t mask h
  rw [hclose, ← hbits]
  constructor
  · intro heq
    rw [Except.ok.inj heq]
  · intro heq
    rw [bits_injective heq]

/-- **Closing a mask finds the least fixpoint.**  It always comes to an end, and with the
smallest superset of the mask that no open edge leaves: smallest even among all sets of
states.  As an operator on words it is extensive, idempotent and monotone, distributes
over unions, and depends neither on the order of the edges nor on their repetition. -/
theorem close_leastFixpoint (t : Text) (h : ∀ e ∈ edges, e.source < 64 ∧ e.target < 64) :
    ∃ f : UInt64 → UInt64,
      (∀ mask, close edges t mask = .ok (f mask)) ∧
      (∀ mask, IsLeast {S | bits mask ⊆ S ∧ ClosedUnder edges t S} (bits (f mask))) ∧
      (∀ mask, bits mask ⊆ bits (f mask)) ∧
      (∀ mask, f (f mask) = f mask) ∧
      (∀ mask wider, bits mask ⊆ bits wider → bits (f mask) ⊆ bits (f wider)) ∧
      (∀ mask other, f (mask ||| other) = f mask ||| f other) ∧
      ∀ others, (∀ e, e ∈ others ↔ e ∈ edges) → ∀ mask, close others t mask = .ok (f mask) := by
  choose f hclose hbits using fun mask => exists_close t mask h
  refine ⟨f, hclose, fun mask => ?_, fun mask => ?_, fun mask => ?_, fun mask wider hle => ?_,
    fun mask other => ?_, fun others hsame mask => ?_⟩
  · rw [hbits]
    exact isLeast_closureOf edges t (bits mask)
  · rw [hbits]
    exact subset_closureOf edges t (bits mask)
  · apply bits_injective
    rw [hbits, hbits, closureOf_closureOf]
  · rw [hbits, hbits]
    exact closureOf_mono (List.Subset.refl _) t hle
  · apply bits_injective
    rw [hbits, bits_or, bits_or, hbits, hbits, closureOf_union]
  · have hothers : ∀ e ∈ others, e.source < 64 ∧ e.target < 64 :=
      fun e he => h e ((hsame e).mp he)
    rw [close_eq_ok_iff t hothers, hbits, closureOf_congr hsame]

/-- A path from `0` to `63` whose edges are listed from its end, one of them twice, with a
way back to `5` and an edge to `40` that is open at slot `7` only. -/
def backwards : List EpsilonEdge :=
  [⟨62, 63, .always⟩, ⟨63, 40, .index 7⟩, ⟨63, 5, .always⟩, ⟨5, 62, .index (-1)⟩,
    ⟨0, 5, .custom fun t => t.cursor == 1⟩, ⟨62, 63, .always⟩]

/-- At the end of a text of one code point the path is open.  The states on it are found in
either direction, and for a mask of two states by closing each state on its own. -/
theorem close_leastFixpoint_backwards :
    let t := Text.ofValuesAt #[0x61] 1 (Nat.le_refl 1)
    (∀ e ∈ backwards, e.source < 64 ∧ e.target < 64) ∧
      close backwards t 0x1 = .ok 0xC000000000000021 ∧
      close backwards.reverse t 0x1 = .ok 0xC000000000000021 ∧
      close backwards t 0x3 = .ok 0xC000000000000023 ∧
      IsLeast {S | bits 0x1 ⊆ S ∧ ClosedUnder backwards t S} (bits 0xC000000000000021) := by
  intro t
  have hbound : ∀ e ∈ backwards, e.source < 64 ∧ e.target < 64 := by decide
  obtain ⟨f, hclose, hleast, -, -, -, hunion, hsame⟩ := close_leastFixpoint t hbound
  have h1 : close backwards t 0x1 = .ok 0xC000000000000021 := by cbv
  have h2 : close backwards t 0x2 = .ok 0x2 := by cbv
  have hf1 : f 0x1 = 0xC000000000000021 := Except.ok.inj ((hclose 0x1).symm.trans h1)
  have hf2 : f 0x2 = 0x2 := Except.ok.inj ((hclose 0x2).symm.trans h2)
  refine ⟨hbound, h1, ?_, ?_, ?_⟩
  · rw [hsame _ fun _ => List.mem_reverse, hf1]
  · rw [show (0x3 : UInt64) = 0x1 ||| 0x2 from rfl, hclose, hunion, hf1, hf2]
    rfl
  · rw [← hf1]
    exact hleast 0x1

end Mask
end GuardedAutomata
