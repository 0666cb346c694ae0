import GuardedAutomata.Automaton.Fragment
import GuardedAutomata.Proofs.Building
import GuardedAutomata.Proofs.MacroMoves

/-!
# Fragments as macro moves

A builder `b'` *gains* moves over `b` if it is a well-formed builder with at least the
states of `b`, and between these it has the same paths as `b` together with the gained
moves (`Builder.Gains`).  What a fragment adds is described in these terms alone.
A fragment *realizes* a relation if from every well-formed builder, between any two of
its states, it succeeds and the builder gains exactly the macro move of the relation
(`Fragment.Realizes`).

Nothing is assumed about the edges that are there already, or about entry and exit
being different.  So the statement about a fragment can be used in the middle of any
other: each combinator of fragments runs its parts one after the other, the gains add
up (`Builder.Gains.trans`), and what the combinator's own fresh states contribute is
removed by `agreeOn_middle` or `agreeOn_loop`.
-/

namespace GuardedAutomata

open SlotRelation

/-! ## What a builder gains -/

/-- The builder is well formed, has no fewer states, and has gained the given moves as
far as the states from before can tell. -/
structure Builder.Gains (b b' : Builder) (gain : Array UInt32 → Moves) : Prop where
  wellFormed : b'.build.WellFormed
  stateCount_le : b.stateCount ≤ b'.stateCount
  agreeOn : ∀ w, AgreeOn b.stateCount (b'.moves w) (b.moves w ⊔ gain w)

namespace Builder

variable {b b' b'' : Builder} {gain gain' : Array UInt32 → Moves}

/-- Gains add up, if the later ones are between states from the beginning. -/
theorem Gains.trans (h : b.Gains b' gain) (h' : b'.Gains b'' gain')
    (hwithin : ∀ w, Within b.stateCount (gain' w)) :
    b.Gains b'' fun w => gain w ⊔ gain' w where
  wellFormed := h'.wellFormed
  stateCount_le := h.stateCount_le.trans h'.stateCount_le
  agreeOn w := by
    have hfirst := (h.agreeOn w).sup (hwithin w)
    rw [sup_assoc] at hfirst
    exact ((h'.agreeOn w).mono h.stateCount_le).trans hfirst

/-- The gains of a builder with fresh states are gains of the builder before them, if
the fresh states can be removed. -/
theorem Gains.of_fresh {n : Nat} (hn : b.stateCount ≤ n)
    (h : Gains { b with stateCount := n } b' gain)
    (hremove : ∀ w, AgreeOn b.stateCount (b.moves w ⊔ gain w) (b.moves w ⊔ gain' w)) :
    b.Gains b' gain' where
  wellFormed := h.wellFormed
  stateCount_le := hn.trans h.stateCount_le
  agreeOn w := ((h.agreeOn w).mono hn).trans (hremove w)

theorem Gains.congr (h : b.Gains b' gain) (heq : ∀ w, gain w = gain' w) : b.Gains b' gain' :=
  funext heq ▸ h

theorem gains_epsilon (h : b.build.WellFormed) {e : EpsilonEdge}
    (he : e.source < b.stateCount ∧ e.target < b.stateCount) :
    b.Gains { b with epsilon := b.epsilon.push e }
      fun w => MacroMove w (condition w e.isOpen) e.source e.target where
  wellFormed := wellFormed_addEpsilon h he
  stateCount_le := Nat.le_refl _
  agreeOn w := by
    rw [moves_push_epsilon]
    exact AgreeOn.refl _ _

theorem gains_alpha (h : b.build.WellFormed) {e : AlphaEdge}
    (he : e.source < b.stateCount ∧ e.target < b.stateCount) :
    b.Gains { b with alpha := b.alpha.push e }
      fun w => MacroMove w (symbol w fun v => e.accepts v = true) e.source e.target where
  wellFormed := wellFormed_addAlpha h he
  stateCount_le := Nat.le_refl _
  agreeOn w := by
    rw [moves_push_alpha]
    exact AgreeOn.refl _ _

end Builder

/-- An operation that goes on after a success goes on from the builder it left. -/
theorem Build.bind_eq {α β : Type} {op : Build α} {next : α → Build β} {b b' : Builder} {x : α}
    (h : op b = .ok x b') : (op >>= next) b = next x b' := by
  show EStateM.bind op next b = _
  rw [EStateM.bind, h]

/-! ## Realizing a relation -/

namespace Fragment

/-- From every well-formed builder and between any two of its states, the fragment
succeeds, and the builder gains the macro move of the relation. -/
def Realizes (F : Fragment) (R : Array UInt32 → SlotRelation) : Prop :=
  ∀ (b : Builder) (entry exit : StateId), b.build.WellFormed → entry < b.stateCount →
    exit < b.stateCount →
    ∃ b', F entry exit b = .ok () b' ∧ b.Gains b' fun w => MacroMove w (R w) entry exit

variable {F G : Fragment} {R S : Array UInt32 → SlotRelation}

theorem Realizes.congr (h : F.Realizes R) (heq : ∀ w i j, i ≤ w.size → (R w i j ↔ S w i j)) :
    F.Realizes S := by
  intro b entry exit hb hentry hexit
  obtain ⟨b', hF, hgain⟩ := h b entry exit hb hentry hexit
  exact ⟨b', hF, hgain.congr fun w => macroMove_congr (heq w)⟩

theorem realizes_guarded (g : Guard) :
    (guarded g).Realizes fun w => condition w g.holds := by
  intro b entry exit hb hentry hexit
  exact ⟨_, Build.addEpsilon_eq_ok (Builder.hasStates_iff.mpr ⟨hentry, hexit⟩),
    Builder.gains_epsilon hb ⟨hentry, hexit⟩⟩

theorem realizes_empty : empty.Realizes fun _ => stay := by
  refine (realizes_guarded .always).congr fun w i j hi => ?_
  constructor
  · exact fun h => h.1
  · exact fun h => ⟨h, hi, rfl⟩

theorem realizes_symbol (c : CodeClass) :
    (symbol c).Realizes fun w => SlotRelation.symbol w fun v => c.accepts v = true := by
  intro b entry exit hb hentry hexit
  exact ⟨_, Build.addAlpha_eq_ok (Builder.hasStates_iff.mpr ⟨hentry, hexit⟩),
    Builder.gains_alpha hb ⟨hentry, hexit⟩⟩

/-- One fragment and then the other, over a fresh state between them. -/
theorem Realizes.andThen (hF : F.Realizes R) (hG : G.Realizes S) (hR : ∀ w, Bounded w (R w)) :
    Realizes (fun entry exit => do
      let middle ← Build.freshState
      F entry middle
      G middle exit) fun w => SlotRelation.andThen (R w) (S w) := by
  intro b entry exit hb hentry hexit
  obtain ⟨b₁, hF₁, hgain₁⟩ := hF _ entry b.stateCount (Builder.wellFormed_freshState hb)
    (Nat.lt_succ_of_lt hentry) (Nat.lt_succ_self _)
  obtain ⟨b₂, hG₂, hgain₂⟩ := hG b₁ b.stateCount exit hgain₁.wellFormed
    (hgain₁.stateCount_le) ((Nat.lt_succ_of_lt hexit).trans_le hgain₁.stateCount_le)
  refine ⟨b₂, ?_, ?_⟩
  · exact (Build.bind_eq (Build.freshState_eq b)).trans ((Build.bind_eq hF₁).trans hG₂)
  · have hsum := hgain₁.trans hgain₂ fun w =>
      within_macroMove (Nat.lt_succ_self _) (Nat.lt_succ_of_lt hexit)
    refine hsum.of_fresh (Nat.le_succ _) fun w => ?_
    rw [← sup_assoc]
    exact agreeOn_middle (Builder.within_moves hb) hentry hexit (Nat.le_refl _) (hR w)

theorem Realizes.either (hF : F.Realizes R) (hG : G.Realizes S) :
    Realizes (fun entry exit => do
      F entry exit
      G entry exit) fun w => SlotRelation.either (R w) (S w) := by
  intro b entry exit hb hentry hexit
  obtain ⟨b₁, hF₁, hgain₁⟩ := hF b entry exit hb hentry hexit
  obtain ⟨b₂, hG₂, hgain₂⟩ := hG b₁ entry exit hgain₁.wellFormed
    (hentry.trans_le hgain₁.stateCount_le) (hexit.trans_le hgain₁.stateCount_le)
  refine ⟨b₂, ?_, ?_⟩
  · exact (Build.bind_eq hF₁).trans hG₂
  · exact (hgain₁.trans hgain₂ fun w => within_macroMove hentry hexit).congr fun w =>
      macroMove_either.symm

theorem Realizes.copies (hF : F.Realizes R) (hR : ∀ w, Bounded w (R w)) (hG : G.Realizes S)
    (n : Nat) :
    Realizes (fun entry exit => do
      let last ← copies F n entry
      G last exit) fun w => SlotRelation.andThen (SlotRelation.copies (R w) n) (S w) := by
  induction n with
  | zero =>
    simp only [copies_zero, stay_andThen]
    exact hG
  | succ n ih =>
    simp only [copies_succ, andThen_assoc, Fragment.copies, bind_assoc]
    exact hF.andThen ih hR

/-- Copies of a fragment, each of which may be left out with those after it. -/
theorem Realizes.optionalCopies (hF : F.Realizes R) (hR : ∀ w, Bounded w (R w)) (n : Nat) :
    Realizes (fun entry exit => do
      let last ← optionalCopies F exit n entry
      Build.epsilon last exit) fun w => upTo (R w) n := by
  induction n with
  | zero =>
    simp only [upTo_zero]
    exact realizes_empty
  | succ n ih =>
    intro b entry exit hb hentry hexit
    have hentry' : entry < b.stateCount + 1 := Nat.lt_succ_of_lt hentry
    have hexit' : exit < b.stateCount + 1 := Nat.lt_succ_of_lt hexit
    -- past the end, one copy, and the copies after it
    obtain ⟨b₁, hskip, hgain₁⟩ :=
      realizes_empty _ entry exit (Builder.wellFormed_freshState hb) hentry' hexit'
    obtain ⟨b₂, hcopy, hgain₂⟩ := hF b₁ entry b.stateCount hgain₁.wellFormed
      (hentry'.trans_le hgain₁.stateCount_le)
      ((Nat.lt_succ_self _).trans_le hgain₁.stateCount_le)
    have hgain := hgain₁.trans hgain₂ fun w => within_macroMove hentry' (Nat.lt_succ_self _)
    obtain ⟨b₃, hrest, hgain₃⟩ := ih b₂ b.stateCount exit hgain₂.wellFormed
      ((Nat.lt_succ_self _).trans_le hgain.stateCount_le) (hexit'.trans_le hgain.stateCount_le)
    refine ⟨b₃, ?_, ?_⟩
    · simp only [Fragment.optionalCopies, bind_assoc]
      exact (Build.bind_eq (Build.freshState_eq b)).trans
        ((Build.bind_eq hskip).trans ((Build.bind_eq hcopy).trans hrest))
    · have hsum := hgain.trans hgain₃ fun w => within_macroMove (Nat.lt_succ_self _) hexit'
      refine hsum.of_fresh (Nat.le_succ _) fun w => ?_
      simp only [upTo_succ, macroMove_either, ← sup_assoc]
      exact agreeOn_middle ((Builder.within_moves hb).sup (within_macroMove hentry hexit)) hentry
        hexit (Nat.le_refl _) (hR w)

theorem Realizes.loop (hF : F.Realizes R) (hR : ∀ w, Bounded w (R w)) :
    (loop F).Realizes fun w => anyNumber (R w) := by
  intro b entry exit hb hentry hexit
  -- the first fresh state is the top of the loop, the second its bottom
  have hentry' : entry < b.stateCount + 2 := Nat.lt_add_right 2 hentry
  have hexit' : exit < b.stateCount + 2 := Nat.lt_add_right 2 hexit
  have htop : b.stateCount < b.stateCount + 2 := by omega
  have hbottom : b.stateCount + 1 < b.stateCount + 2 := by omega
  have hwf := Builder.wellFormed_freshState (Builder.wellFormed_freshState hb)
  obtain ⟨b₁, henter, hgain₁⟩ := realizes_empty _ entry b.stateCount hwf hentry' htop
  obtain ⟨b₂, hbody, hgain₂⟩ := hF b₁ b.stateCount (b.stateCount + 1) hgain₁.wellFormed
    (htop.trans_le hgain₁.stateCount_le) (hbottom.trans_le hgain₁.stateCount_le)
  have hdown := hgain₁.trans hgain₂ fun w => within_macroMove htop hbottom
  obtain ⟨b₃, hback, hgain₃⟩ := realizes_empty b₂ (b.stateCount + 1) b.stateCount
    hgain₂.wellFormed (hbottom.trans_le hdown.stateCount_le) (htop.trans_le hdown.stateCount_le)
  have hround := hdown.trans hgain₃ fun w => within_macroMove hbottom htop
  obtain ⟨b₄, hleave, hgain₄⟩ := realizes_empty b₃ b.stateCount exit hgain₃.wellFormed
    (htop.trans_le hround.stateCount_le) (hexit'.trans_le hround.stateCount_le)
  have hsum := hround.trans hgain₄ fun w => within_macroMove htop hexit'
  refine ⟨b₄, ?_, hsum.of_fresh (Nat.le_add_right _ 2) fun w => ?_⟩
  · exact (Build.bind_eq (Build.freshState_eq b)).trans
      ((Build.bind_eq (Build.freshState_eq _)).trans ((Build.bind_eq henter).trans
        ((Build.bind_eq hbody).trans ((Build.bind_eq hback).trans hleave))))
  · exact agreeOn_loop (Builder.within_moves hb) hentry hexit (Nat.le_refl _) (Nat.le_succ _)
      (hR w)

/-- A repetition is its mandatory copies and then a loop or the optional copies. -/
theorem Realizes.repetition (hF : F.Realizes R) (hR : ∀ w, Bounded w (R w)) (min : Nat)
    (max : Option Nat) :
    (repetition F min max).Realizes fun w => SlotRelation.repetition (R w) min max := by
  cases max with
  | none =>
    simp only [← andThen_copies_anyNumber]
    exact hF.copies hR (hF.loop hR) min
  | some max =>
    simp only [← andThen_copies_upTo]
    exact hF.copies hR (hF.optionalCopies hR (max - min)) min

/-! ## Lists of fragments -/

section

variable {ι : Type} {child : ι → Fragment} {rel : ι → Array UInt32 → SlotRelation}

theorem Realizes.chain {cs : List ι} (h : ∀ c ∈ cs, (child c).Realizes (rel c))
    (hR : ∀ c ∈ cs, ∀ w, Bounded w (rel c w)) :
    (chain (cs.map child)).Realizes fun w => inOrder (cs.map (rel · w)) := by
  induction cs with
  | nil => exact realizes_empty
  | cons c rest ih =>
    have hrest := ih (fun c' hc' => h c' (List.mem_cons_of_mem _ hc'))
      fun c' hc' => hR c' (List.mem_cons_of_mem _ hc')
    have hc := h c List.mem_cons_self
    cases rest with
    | nil =>
      simp only [List.map_cons, List.map_nil, inOrder_singleton]
      exact hc
    | cons c' rest => exact hc.andThen hrest (hR c List.mem_cons_self)

theorem Realizes.branch {cs : List ι} (h : ∀ c ∈ cs, (child c).Realizes (rel c)) :
    (branch (cs.map child)).Realizes fun w => oneOf (cs.map (rel · w)) := by
  induction cs with
  | nil =>
    intro b entry exit hb _ _
    refine ⟨b, rfl, hb, Nat.le_refl _, fun w => ?_⟩
    have hnone : MacroMove w (oneOf []) entry exit = ⊥ := by
      funext c d
      exact eq_false fun hcd => not_oneOf_nil _ _ hcd.2.2.2
    show AgreeOn _ _ (_ ⊔ MacroMove w (oneOf []) entry exit)
    rw [hnone, sup_bot_eq]
    exact AgreeOn.refl _ _
  | cons c rest ih =>
    simp only [List.map_cons, oneOf_cons]
    exact (h c List.mem_cons_self).either (ih fun c' hc' => h c' (List.mem_cons_of_mem _ hc'))

end

end Fragment
end GuardedAutomata
