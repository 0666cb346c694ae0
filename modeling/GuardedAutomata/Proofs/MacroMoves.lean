import GuardedAutomata.Automaton.Builder
import GuardedAutomata.Automaton.Reach
import GuardedAutomata.Proofs.SlotAlgebra
import Mathlib.Order.ConditionallyCompleteLattice.Basic

/-!
# Macro moves

A fragment between two states should act like one edge.  That edge is the *macro
move* of a slot relation: it leads from the entry at a slot to the exit at every
slot that the relation relates it to.

What a fragment does inside itself is nobody's business, so relations between
configurations are compared by `AgreeOn`: they have the same paths between the
states below a bound, which are the states that were there before the fragment's
own.  This is an equivalence (`AgreeOn.trans`), it is kept when the same moves
between those states are added to both sides (`AgreeOn.sup`), and it lets fresh
states be removed:

* `agreeOn_middle`: a state that is entered by `R` and left by `S` only makes one
  macro move of the composition;
* `agreeOn_loop`: two states joined by `R` one way and openly the other make one
  macro move of any number of copies of `R`.

In both proofs a path is followed move by move.  As long as it is at an old state,
it has been followed by a path without the fresh states; while it is at a fresh one,
it is remembered from which slot of the entry it came.
-/

namespace GuardedAutomata

open Relation SlotRelation

/-- A relation between configurations. -/
abbrev Moves := Config → Config → Prop

/-- The moves over the edges of a builder. -/
def Builder.moves (b : Builder) (w : Array UInt32) : Moves :=
  Move b.epsilon.toList b.alpha.toList w

/-- The move from an entry to an exit over a slot relation. -/
def MacroMove (w : Array UInt32) (R : SlotRelation) (entry exit : StateId) : Moves := fun c d =>
  c.state = entry ∧ d.state = exit ∧ c.slot ≤ w.size ∧ R c.slot d.slot

/-- The moves stay among the states below a bound. -/
def Within (n : Nat) (m : Moves) : Prop := ∀ c d, m c d → c.state < n ∧ d.state < n

/-- Two relations have the same paths between the states below a bound. -/
def AgreeOn (n : Nat) (r s : Moves) : Prop :=
  ∀ c d, c.state < n → d.state < n → (ReflTransGen r c d ↔ ReflTransGen s c d)

/-! ## Macro moves and edges -/

section

variable {w : Array UInt32} {R S : SlotRelation} {entry exit : StateId} {n : Nat}

theorem within_macroMove (hentry : entry < n) (hexit : exit < n) :
    Within n (MacroMove w R entry exit) := by
  rintro c d ⟨rfl, rfl, -⟩
  exact ⟨hentry, hexit⟩

theorem Within.sup {m m' : Moves} (h : Within n m) (h' : Within n m') : Within n (m ⊔ m') := by
  rintro c d (hcd | hcd)
  · exact h c d hcd
  · exact h' c d hcd

/-- Only the slots of the text matter. -/
theorem macroMove_congr (h : ∀ i j, i ≤ w.size → (R i j ↔ S i j)) :
    MacroMove w R entry exit = MacroMove w S entry exit := by
  ext c d
  constructor
  · rintro ⟨hc, hd, hi, hR⟩
    exact ⟨hc, hd, hi, (h _ _ hi).mp hR⟩
  · rintro ⟨hc, hd, hi, hS⟩
    exact ⟨hc, hd, hi, (h _ _ hi).mpr hS⟩

theorem macroMove_either :
    MacroMove w (either R S) entry exit = MacroMove w R entry exit ⊔ MacroMove w S entry exit := by
  ext c d
  constructor
  · rintro ⟨hc, hd, hi, h | h⟩
    · exact .inl ⟨hc, hd, hi, h⟩
    · exact .inr ⟨hc, hd, hi, h⟩
  · rintro (⟨hc, hd, hi, h⟩ | ⟨hc, hd, hi, h⟩)
    · exact ⟨hc, hd, hi, .inl h⟩
    · exact ⟨hc, hd, hi, .inr h⟩

end

namespace Builder

variable {b : Builder} {w : Array UInt32}

/-- The moves of a well-formed builder join its states. -/
theorem within_moves (h : b.build.WellFormed) : Within b.stateCount (b.moves w) := by
  intro c d hcd
  cases hcd with
  | free he => exact h.epsilon_lt _ he
  | consume he => exact h.alpha_lt _ he

/-- An epsilon edge adds the macro move of its guard. -/
theorem moves_push_epsilon (e : EpsilonEdge) :
    ({ b with epsilon := b.epsilon.push e } : Builder).moves w =
      b.moves w ⊔ MacroMove w (condition w e.isOpen) e.source e.target := by
  ext c d
  constructor
  · intro hcd
    cases hcd with
    | @free e' slot he hslot hopen =>
      rw [Array.toList_push, List.mem_append, List.mem_singleton] at he
      rcases he with he | rfl
      · exact .inl (.free he hslot hopen)
      · exact .inr ⟨rfl, rfl, hslot, rfl, hslot, hopen⟩
    | consume he hslot hacc => exact .inl (.consume he hslot hacc)
  · rintro (hcd | ⟨hc, hd, hslot, heq, hslot', hopen⟩)
    · cases hcd with
      | free he hslot hopen =>
        exact .free (by rw [Array.toList_push]; exact List.mem_append_left _ he) hslot hopen
      | consume he hslot hacc => exact .consume he hslot hacc
    · obtain ⟨cs, ci⟩ := c
      obtain ⟨ds, di⟩ := d
      obtain rfl : cs = e.source := hc
      obtain rfl : ds = e.target := hd
      obtain rfl : ci = di := heq
      exact .free (by simp) hslot' hopen

theorem moves_push_alpha (e : AlphaEdge) :
    ({ b with alpha := b.alpha.push e } : Builder).moves w =
      b.moves w ⊔ MacroMove w (symbol w fun v => e.accepts v = true) e.source e.target := by
  ext c d
  constructor
  · intro hcd
    cases hcd with
    | free he hslot hopen => exact .inl (.free he hslot hopen)
    | @consume e' slot he hslot hacc =>
      rw [Array.toList_push, List.mem_append, List.mem_singleton] at he
      rcases he with he | rfl
      · exact .inl (.consume he hslot hacc)
      · exact .inr ⟨rfl, rfl, hslot.le, rfl, _, Array.getElem?_eq_getElem hslot, hacc⟩
  · rintro (hcd | ⟨hc, hd, -, heq, v, hv, hacc⟩)
    · cases hcd with
      | free he hslot hopen => exact .free he hslot hopen
      | consume he hslot hacc =>
        exact .consume (by rw [Array.toList_push]; exact List.mem_append_left _ he) hslot hacc
    · obtain ⟨cs, ci⟩ := c
      obtain ⟨ds, di⟩ := d
      obtain rfl : cs = e.source := hc
      obtain rfl : ds = e.target := hd
      obtain rfl : di = ci + 1 := heq
      obtain ⟨hslot, rfl⟩ := Array.getElem?_eq_some_iff.mp hv
      exact .consume (by simp) hslot hacc

end Builder

theorem Builder.moves_empty (w : Array UInt32) : Builder.empty.moves w = ⊥ := by
  funext c d
  refine eq_false ?_
  rintro (⟨he, -, -⟩ | ⟨he, -, -⟩)
  · exact List.not_mem_nil he
  · exact List.not_mem_nil he

/-- With different ends, a path over the macro move alone is one such move. -/
theorem reflTransGen_macroMove {w : Array UInt32} {R : SlotRelation} {entry exit : StateId}
    (hne : entry ≠ exit) {i j : Nat} :
    ReflTransGen (MacroMove w R entry exit) ⟨entry, i⟩ ⟨exit, j⟩ ↔ i ≤ w.size ∧ R i j := by
  constructor
  · intro hpath
    rcases ReflTransGen.cases_head hpath with heq | ⟨c, ⟨-, hc, hi, hij⟩, hrest⟩
    · exact absurd (congrArg Config.state heq) hne
    · -- nothing leads out of the exit
      rcases ReflTransGen.cases_head hrest with rfl | ⟨d, ⟨hc', -⟩, -⟩
      · exact ⟨hi, hij⟩
      · exact absurd (hc'.symm.trans hc) hne
  · exact fun h => .single ⟨rfl, rfl, h⟩

/-! ## The same paths between old states -/

namespace AgreeOn

variable {n : Nat} {r s t : Moves}

theorem refl (n : Nat) (r : Moves) : AgreeOn n r r := fun _ _ _ _ => Iff.rfl

theorem symm (h : AgreeOn n r s) : AgreeOn n s r := fun c d hc hd => (h c d hc hd).symm

theorem trans (h : AgreeOn n r s) (h' : AgreeOn n s t) : AgreeOn n r t :=
  fun c d hc hd => (h c d hc hd).trans (h' c d hc hd)

theorem mono (h : AgreeOn n r s) {k : Nat} (hle : k ≤ n) : AgreeOn k r s :=
  fun c d hc hd => h c d (hc.trans_le hle) (hd.trans_le hle)

/-- One half of `AgreeOn.sup`: between two of the added moves, a path is one of `r`
between states below the bound. -/
theorem reflTransGen_sup (h : AgreeOn n r s) {m : Moves} (hm : Within n m) {c d : Config}
    (hc : c.state < n) (hd : d.state < n) (hcd : ReflTransGen (r ⊔ m) c d) :
    ReflTransGen (s ⊔ m) c d := by
  have hsup : ∀ {x y}, ReflTransGen s x y → ReflTransGen (s ⊔ m) x y := fun hxy =>
    ReflTransGen.mono (fun _ _ h => Or.inl h) _ _ hxy
  -- the last configuration below the bound before which everything has been translated
  have hlast : ∃ e, e.state < n ∧ ReflTransGen (s ⊔ m) c e ∧ ReflTransGen r e d := by
    clear hd
    induction hcd with
    | refl => exact ⟨c, hc, .refl, .refl⟩
    | tail _ hstep ih =>
      obtain ⟨e, he, hce, hed⟩ := ih
      rcases hstep with hr | hmove
      · exact ⟨e, he, hce, hed.tail hr⟩
      · obtain ⟨hx, hy⟩ := hm _ _ hmove
        exact ⟨_, hy, (hce.trans (hsup ((h _ _ he hx).mp hed))).tail (.inr hmove), .refl⟩
  obtain ⟨e, he, hce, hed⟩ := hlast
  exact hce.trans (hsup ((h e d he hd).mp hed))

/-- The same moves between states below the bound may be added on both sides. -/
theorem sup (h : AgreeOn n r s) {m : Moves} (hm : Within n m) : AgreeOn n (r ⊔ m) (s ⊔ m) :=
  fun _ _ hc hd => ⟨h.reflTransGen_sup hm hc hd, h.symm.reflTransGen_sup hm hc hd⟩

end AgreeOn

/-! ## Removing fresh states -/

section

variable {w : Array UInt32} {R S : SlotRelation} {entry exit : StateId} {n : Nat} {r : Moves}

/-- A fresh state that is entered by `R` and left by `S` only. -/
theorem agreeOn_middle {middle : StateId} (hr : Within n r) (hentry : entry < n) (hexit : exit < n)
    (hmiddle : n ≤ middle) (hR : Bounded w R) :
    AgreeOn n (r ⊔ MacroMove w R entry middle ⊔ MacroMove w S middle exit)
      (r ⊔ MacroMove w (andThen R S) entry exit) := by
  have hfresh : ∀ {x : StateId}, x = middle → ¬x < n := fun hx => hx ▸ hmiddle.not_gt
  intro c d hc hd
  constructor
  · intro hcd
    -- a path that ends in the fresh state has come there from the entry, over `R`
    suffices h : (d.state < n →
          ReflTransGen (r ⊔ MacroMove w (andThen R S) entry exit) c d) ∧
        (d.state = middle → ∃ i ≤ w.size, R i d.slot ∧
          ReflTransGen (r ⊔ MacroMove w (andThen R S) entry exit) c ⟨entry, i⟩) from h.1 hd
    clear hd
    induction hcd with
    | refl => exact ⟨fun _ => .refl, fun heq => absurd hc (hfresh heq)⟩
    | @tail x y _ hstep ih =>
      rcases hstep with (hold | ⟨hx, hy, hi, hij⟩) | ⟨hx, hy, -, hjk⟩
      · obtain ⟨hxn, hyn⟩ := hr _ _ hold
        exact ⟨fun _ => (ih.1 hxn).tail (.inl hold), fun heq => absurd hyn (hfresh heq)⟩
      · refine ⟨fun hyn => absurd hyn (hfresh hy), fun _ => ⟨x.slot, hi, hij, ?_⟩⟩
        obtain ⟨xs, xi⟩ := x
        obtain rfl : xs = entry := hx
        exact ih.1 hentry
      · obtain ⟨i, hi, hij, hpath⟩ := ih.2 hx
        refine ⟨fun _ => hpath.tail (.inr ⟨rfl, hy, hi, _, hij, hjk⟩), fun heq => ?_⟩
        exact absurd (hy ▸ hexit) (hfresh heq)
  · refine fun hcd => reflTransGen_closed ?_ _ _ hcd
    rintro x y (hold | ⟨hx, hy, hi, j, hij, hjk⟩)
    · exact .single (.inl (.inl hold))
    · have henter : MacroMove w R entry middle x ⟨middle, j⟩ := ⟨hx, rfl, hi, hij⟩
      have hleave : MacroMove w S middle exit ⟨middle, j⟩ y := ⟨rfl, hy, hR _ _ hi hij, hjk⟩
      exact (ReflTransGen.single (.inl (.inr henter))).tail (.inr hleave)

/-- The moves of a loop: openly to its top, over `R` to its bottom and openly back, and
openly from the top to the exit. -/
def loopMoves (w : Array UInt32) (R : SlotRelation) (entry exit top bottom : StateId) : Moves :=
  MacroMove w stay entry top ⊔ MacroMove w R top bottom ⊔ MacroMove w stay bottom top ⊔
    MacroMove w stay top exit

theorem reflTransGen_loopMoves (entry exit top bottom : StateId) (hR : Bounded w R) {i j k : Nat}
    (hi : i ≤ w.size) (h : copies R k i j) :
    ReflTransGen (loopMoves w R entry exit top bottom) ⟨top, i⟩ ⟨top, j⟩ := by
  induction k generalizing i with
  | zero =>
    obtain rfl : i = j := h
    exact .refl
  | succ k ih =>
    obtain ⟨m, him, hmj⟩ := h
    have hm : m ≤ w.size := hR _ _ hi him
    have hdown : loopMoves w R entry exit top bottom ⟨top, i⟩ ⟨bottom, m⟩ :=
      .inl (.inl (.inr ⟨rfl, rfl, hi, him⟩))
    have hup : loopMoves w R entry exit top bottom ⟨bottom, m⟩ ⟨top, m⟩ :=
      .inl (.inr ⟨rfl, rfl, hm, rfl⟩)
    exact .head hdown (.head hup (ih hm hmj))

/-- Two fresh states that make a loop. -/
theorem agreeOn_loop {top bottom : StateId} (hr : Within n r) (hentry : entry < n)
    (hexit : exit < n) (htop : n ≤ top) (hbottom : n ≤ bottom)
    (hR : Bounded w R) :
    AgreeOn n (r ⊔ loopMoves w R entry exit top bottom)
      (r ⊔ MacroMove w (anyNumber R) entry exit) := by
  have hfresh : ∀ {x : StateId}, x = top ∨ x = bottom → ¬x < n := by
    rintro x (rfl | rfl)
    · exact htop.not_gt
    · exact hbottom.not_gt
  intro c d hc hd
  constructor
  · intro hcd
    -- a path that ends inside the loop has left the entry at some slot and gone round since
    suffices h : (d.state < n →
          ReflTransGen (r ⊔ MacroMove w (anyNumber R) entry exit) c d) ∧
        (d.state = top ∨ d.state = bottom → ∃ i ≤ w.size, anyNumber R i d.slot ∧
          ReflTransGen (r ⊔ MacroMove w (anyNumber R) entry exit) c ⟨entry, i⟩) from h.1 hd
    clear hd
    induction hcd with
    | refl => exact ⟨fun _ => .refl, fun heq => absurd hc (hfresh heq)⟩
    | @tail x y _ hstep ih =>
      rcases hstep with hold | ((⟨hx, hy, hi, hij⟩ | ⟨hx, hy, -, hij⟩) | ⟨hx, hy, -, hij⟩) |
        ⟨hx, hy, -, hij⟩
      · obtain ⟨hxn, hyn⟩ := hr _ _ hold
        exact ⟨fun _ => (ih.1 hxn).tail (.inl hold), fun heq => absurd hyn (hfresh heq)⟩
      · refine ⟨fun hyn => absurd hyn (hfresh (.inl hy)), fun _ => ⟨x.slot, hi, ⟨0, hij⟩, ?_⟩⟩
        obtain ⟨xs, xi⟩ := x
        obtain rfl : xs = entry := hx
        exact ih.1 hentry
      · obtain ⟨i, hi, ⟨k, hk⟩, hpath⟩ := ih.2 (.inl hx)
        refine ⟨fun hyn => absurd hyn (hfresh (.inr hy)), fun _ => ⟨i, hi, ⟨k + 1, ?_⟩, hpath⟩⟩
        rw [copies_succ_eq]
        exact ⟨x.slot, hk, hij⟩
      · obtain ⟨i, hi, hk, hpath⟩ := ih.2 (.inr hx)
        obtain hij : x.slot = y.slot := hij
        exact ⟨fun hyn => absurd hyn (hfresh (.inl hy)), fun _ => ⟨i, hi, hij ▸ hk, hpath⟩⟩
      · obtain ⟨i, hi, hk, hpath⟩ := ih.2 (.inl hx)
        obtain hij : x.slot = y.slot := hij
        refine ⟨fun _ => hpath.tail (.inr ⟨rfl, hy, hi, hij ▸ hk⟩), fun heq => ?_⟩
        exact absurd (hy ▸ hexit) (hfresh heq)
  · refine fun hcd => reflTransGen_closed ?_ _ _ hcd
    rintro x y (hold | ⟨hx, hy, hi, k, hk⟩)
    · exact .single (.inl hold)
    · obtain ⟨xs, xi⟩ := x
      obtain ⟨ys, yj⟩ := y
      obtain rfl : xs = entry := hx
      obtain rfl : ys = exit := hy
      have henter : loopMoves w R xs ys top bottom ⟨xs, xi⟩ ⟨top, xi⟩ :=
        .inl (.inl (.inl ⟨rfl, rfl, hi, rfl⟩))
      have hround := reflTransGen_loopMoves xs ys top bottom hR hi hk
      have hleave : loopMoves w R xs ys top bottom ⟨top, yj⟩ ⟨ys, yj⟩ :=
        .inr ⟨rfl, rfl, hR.copies k _ _ hi hk, rfl⟩
      have hpath := (ReflTransGen.head henter hround).tail hleave
      exact ReflTransGen.mono (fun _ _ h => Or.inr h) _ _ hpath

end
end GuardedAutomata
