import GuardedAutomata.Proofs.CycleCheck
import GuardedAutomata.Proofs.Fragments

/-!
# Slots without a body

The cycle check has nothing to say about slots: that a slot has no body shows when it is
emitted.  So it is a fault exactly if emission comes to it, and emission comes to every child
of every node but one: a repetition of no copies, at least and at most zero of them, is a
single open edge, and its body is not looked at.

`Grammar.Emits` is the relation of a node to the children that are emitted for it.
`Grammar.compile_ok_iff_boundInUse` says that a root which passes the cycle check has an
automaton if no slot without a body is reached along this relation, and faults for an unbound
slot otherwise.  A root that depends on an unbound slot only below a repetition of no copies
has an automaton all the same (`Grammar.compile_unusedSlot`).

That a fragment succeeds under a condition, and faults for an unbound slot if the condition
does not hold, is one statement (`Fragment.DecidedBy`).  The conditions of fragments that are
put together are joined by `∧`, so each combinator says once which of its parts decide.
-/

namespace GuardedAutomata

/-! ## Decided operations -/

namespace Build

/-- The result of an operation, if the condition decides about it: a success with at least
`n` states, or the fault for an unbound slot. -/
inductive Decided (n : Nat) (p : Prop) : EStateM.Result Fault Builder Unit → Prop where
  | succeeded {b : Builder} (hp : p) (hn : n ≤ b.stateCount) : Decided n p (.ok () b)
  | unbound {b : Builder} (hp : ¬p) : Decided n p (.error .unboundSlot b)

variable {n m : Nat} {p q : Prop} {r : EStateM.Result Fault Builder Unit} {b b' : Builder}

theorem Decided.congr (h : Decided n p r) (hpq : p ↔ q) : Decided n q r := by
  cases h with
  | succeeded hp hn => exact .succeeded (hpq.mp hp) hn
  | unbound hp => exact .unbound (mt hpq.mpr hp)

theorem Decided.mono (h : Decided n p r) (hmn : m ≤ n) : Decided m p r := by
  cases h with
  | succeeded hp hn => exact .succeeded hp (hmn.trans hn)
  | unbound hp => exact .unbound hp

theorem Decided.bind {op : Build Unit} {next : Unit → Build Unit} (hop : Decided n p (op b))
    (hnext : ∀ b', n ≤ b'.stateCount → Decided b'.stateCount q (next () b')) :
    Decided n (p ∧ q) ((op >>= next) b) := by
  cases hr : op b with
  | ok x b' =>
    rw [hr] at hop
    cases hop with
    | succeeded hp hn =>
      rw [bind_eq hr]
      exact ((hnext b' hn).mono hn).congr (and_iff_right hp).symm
  | error fault b' =>
    rw [hr] at hop
    cases hop with
    | unbound hp =>
      change Decided n (p ∧ q) (EStateM.bind op next b)
      rw [EStateM.bind, hr]
      exact .unbound fun h => hp h.1

/-- An operation that succeeds anyway leaves the decision to what follows. -/
theorem Decided.after {α : Type} {op : Build α} {next : α → Build Unit} {x : α}
    (hop : op b = .ok x b') (hn : n ≤ b'.stateCount) (hnext : Decided b'.stateCount q (next x b')) :
    Decided n q ((op >>= next) b) := by
  rw [bind_eq hop]
  exact hnext.mono hn

end Build

/-! ## Decided fragments -/

namespace Fragment

open Build

/-- Between allocated states, the condition decides about the fragment. -/
def DecidedBy (F : Fragment) (p : Prop) : Prop :=
  ∀ (b : Builder) (entry exit : StateId), entry < b.stateCount → exit < b.stateCount →
    Decided b.stateCount p (F entry exit b)

variable {F G : Fragment} {p q : Prop}

theorem DecidedBy.congr (h : F.DecidedBy p) (hpq : p ↔ q) : F.DecidedBy q :=
  fun b entry exit hentry hexit => (h b entry exit hentry hexit).congr hpq

theorem decidedBy_guarded (g : Guard) : (guarded g).DecidedBy True := by
  intro b entry exit hentry hexit
  have hadd := addEpsilon_eq_ok (e := { source := entry, target := exit, guard := g })
    (Builder.hasStates_iff.mpr ⟨hentry, hexit⟩)
  rw [guarded, hadd]
  exact .succeeded trivial (Nat.le_refl _)

theorem decidedBy_empty : empty.DecidedBy True := decidedBy_guarded .always

theorem decidedBy_symbol (c : CodeClass) : (symbol c).DecidedBy True := by
  intro b entry exit hentry hexit
  have hadd := addAlpha_eq_ok (e := .ofClass entry exit c)
    (Builder.hasStates_iff.mpr ⟨hentry, hexit⟩)
  rw [symbol, hadd]
  exact .succeeded trivial (Nat.le_refl _)

theorem decidedBy_unboundSlot : (fault .unboundSlot).DecidedBy False :=
  fun _ _ _ _ _ => .unbound not_false

theorem DecidedBy.andThen (hF : F.DecidedBy p) (hG : G.DecidedBy q) :
    DecidedBy (fun entry exit => do
      let middle ← freshState
      F entry middle
      G middle exit) (p ∧ q) := by
  intro b entry exit hentry hexit
  have hexit' : exit < b.stateCount + 1 := Nat.lt_succ_of_lt hexit
  have hmiddle : b.stateCount < b.stateCount + 1 := Nat.lt_succ_self _
  refine .after (freshState_eq b) (Nat.le_succ _) ?_
  refine (hF _ entry b.stateCount (Nat.lt_succ_of_lt hentry) hmiddle).bind fun b' hb' => ?_
  exact hG b' b.stateCount exit (hmiddle.trans_le hb') (hexit'.trans_le hb')

theorem DecidedBy.either (hF : F.DecidedBy p) (hG : G.DecidedBy q) :
    DecidedBy (fun entry exit => do
      F entry exit
      G entry exit) (p ∧ q) := by
  intro b entry exit hentry hexit
  refine (hF b entry exit hentry hexit).bind fun b' hb' => ?_
  exact hG b' entry exit (hentry.trans_le hb') (hexit.trans_le hb')

/-- Copies of a fragment in a row and then another: the first decides only if it is copied. -/
theorem DecidedBy.copies (hF : F.DecidedBy p) (hG : G.DecidedBy q) (n : Nat) :
    DecidedBy (fun entry exit => do
      let last ← copies F n entry
      G last exit) ((n = 0 ∨ p) ∧ q) := by
  induction n with
  | zero => exact hG.congr (by simp)
  | succ n ih =>
    simp only [Fragment.copies, bind_assoc]
    exact (hF.andThen ih).congr (by simp; tauto)

/-- Copies that may be left out are emitted all the same. -/
theorem DecidedBy.optionalCopies (hF : F.DecidedBy p) (n : Nat) :
    DecidedBy (fun entry exit => do
      let last ← optionalCopies F exit n entry
      epsilon last exit) (n = 0 ∨ p) := by
  induction n with
  | zero => exact decidedBy_empty.congr (by simp)
  | succ n ih =>
    intro b entry exit hentry hexit
    have hentry' : entry < b.stateCount + 1 := Nat.lt_succ_of_lt hentry
    have hexit' : exit < b.stateCount + 1 := Nat.lt_succ_of_lt hexit
    have hnext : b.stateCount < b.stateCount + 1 := Nat.lt_succ_self _
    simp only [Fragment.optionalCopies, bind_assoc]
    -- the fresh state and the edge past the copy succeed; the copy and the rest decide
    refine .after (freshState_eq b) (Nat.le_succ _) ?_
    refine .after (addEpsilon_eq_ok (Builder.hasStates_iff.mpr ⟨hentry', hexit'⟩))
      (Nat.le_refl _) ?_
    refine .congr (p := p ∧ (n = 0 ∨ p)) ?_ (by simp; tauto)
    refine (hF _ entry b.stateCount hentry' hnext).bind fun b' hb' => ?_
    exact ih b' b.stateCount exit (hnext.trans_le hb') (hexit'.trans_le hb')

theorem DecidedBy.loop (hF : F.DecidedBy p) : (loop F).DecidedBy p := by
  intro b entry exit hentry hexit
  have htop : b.stateCount < b.stateCount + 2 := by omega
  have hbottom : b.stateCount + 1 < b.stateCount + 2 := by omega
  refine .after (freshState_eq b) (Nat.le_succ _) ?_
  refine .after (freshState_eq _) (Nat.le_succ _) ?_
  refine .after (addEpsilon_eq_ok (Builder.hasStates_iff.mpr ⟨Nat.lt_add_right 2 hentry, htop⟩))
    (Nat.le_refl _) ?_
  refine .congr (p := p ∧ True ∧ True) ?_ (by simp)
  refine (hF _ _ _ htop hbottom).bind fun b' hb' => ?_
  refine (decidedBy_empty b' _ _ (hbottom.trans_le hb') (htop.trans_le hb')).bind fun b'' hb'' => ?_
  exact decidedBy_empty b'' _ exit (htop.trans_le (hb'.trans hb''))
    ((Nat.lt_add_right 2 hexit).trans_le (hb'.trans hb''))

/-- A repetition is decided by its body, unless it is one of no copies. -/
theorem DecidedBy.repetition (hF : F.DecidedBy p) (min : Nat) (max : Option Nat) :
    (repetition F min max).DecidedBy ((min = 0 ∧ max = some 0) ∨ p) := by
  cases max with
  | none => exact (hF.copies hF.loop min).congr (by simp; tauto)
  | some max =>
    refine (hF.copies (hF.optionalCopies (max - min)) min).congr ?_
    have hnone : min = 0 ∧ max - min = 0 ↔ min = 0 ∧ some max = some 0 := by
      rw [Option.some.injEq]
      omega
    rw [← hnone, and_or_right]

variable {ι : Type} {cs : List ι} {child : ι → Fragment} {P : ι → Prop}

theorem DecidedBy.chain (h : ∀ c ∈ cs, (child c).DecidedBy (P c)) :
    (chain (cs.map child)).DecidedBy (∀ c ∈ cs, P c) := by
  induction cs with
  | nil => exact decidedBy_empty.congr (by simp)
  | cons c rest ih =>
    have hc := h c List.mem_cons_self
    have hrest := ih fun c' hc' => h c' (List.mem_cons_of_mem _ hc')
    cases rest with
    | nil => exact hc.congr (by simp)
    | cons c' rest => exact (hc.andThen hrest).congr List.forall_mem_cons.symm

/-- All branches decide, also those that no run would take. -/
theorem DecidedBy.branch (h : ∀ c ∈ cs, (child c).DecidedBy (P c)) :
    (branch (cs.map child)).DecidedBy (∀ c ∈ cs, P c) := by
  induction cs with
  | nil => exact fun b _ _ _ _ => .succeeded (by simp) (Nat.le_refl _)
  | cons c rest ih =>
    have hrest := ih fun c' hc' => h c' (List.mem_cons_of_mem _ hc')
    exact ((h c List.mem_cons_self).either hrest).congr List.forall_mem_cons.symm

end Fragment

/-! ## What is emitted for a node -/

/-- The children that are emitted for a node: all, but none for a repetition of no copies. -/
def Node.emittedChildren : Node → List NodeId
  | .repetition _ 0 (some 0) => []
  | n => n.children

theorem Node.decidedBy {words : WordData} {n : Node} {child : NodeId → Fragment}
    {P : NodeId → Prop} (h : ∀ c ∈ n.children, (child c).DecidedBy (P c)) :
    (n.fragment words child).DecidedBy (n ≠ .slot none ∧ ∀ c ∈ n.emittedChildren, P c) := by
  cases n with
  | empty => exact Fragment.decidedBy_empty.congr (by simp [emittedChildren, children])
  | slot body =>
    cases body with
    | none => exact Fragment.decidedBy_unboundSlot.congr (by simp)
    | some body =>
      exact (h body (by simp [children])).congr (by simp [emittedChildren, children])
  | concat cs => exact (Fragment.DecidedBy.chain h).congr (by simp [emittedChildren, children])
  | alternation cs =>
    exact (Fragment.DecidedBy.branch h).congr (by simp [emittedChildren, children])
  | codeClass members =>
    exact (Fragment.decidedBy_symbol members).congr (by simp [emittedChildren, children])
  | assertion condition =>
    exact (Fragment.decidedBy_guarded (condition.guard words)).congr
      (by simp [emittedChildren, children])
  | repetition body min max =>
    refine ((h body (by simp [children])).repetition min max).congr ?_
    -- the one node that is emitted without its child
    by_cases hnone : min = 0 ∧ max = some 0
    · obtain ⟨rfl, rfl⟩ := hnone
      simp [emittedChildren]
    · have hemitted : (Node.repetition body min max).emittedChildren = [body] := by
        unfold emittedChildren
        split
        · next heq =>
          cases heq
          exact absurd ⟨rfl, rfl⟩ hnone
        · rfl
      simp [hemitted, hnone]

namespace Grammar

open Relation

variable {g : Grammar} {root id child : NodeId} {words : WordData}

/-- The second node is emitted for the first. -/
def Emits (g : Grammar) (parent child : NodeId) : Prop :=
  ∃ n, g.nodes[parent]? = some n ∧ child ∈ n.emittedChildren

/-- No slot that emission comes to from the root is without a body. -/
def BoundInUse (g : Grammar) (root : NodeId) : Prop :=
  ∀ id, ReflTransGen g.Emits root id → g.nodes[id]? ≠ some (.slot none)

/-- Whether all slots are bound shows at the node and below what is emitted for it. -/
theorem boundInUse_iff {n : Node} (hnode : g.nodes[id]? = some n) :
    g.BoundInUse id ↔ n ≠ .slot none ∧ ∀ c ∈ n.emittedChildren, g.BoundInUse c := by
  constructor
  · intro h
    refine ⟨fun hn => h id .refl (hn ▸ hnode), fun c hc x hx => ?_⟩
    exact h x (.head ⟨n, hnode, hc⟩ hx)
  · rintro ⟨hn, hchildren⟩ x hx
    rcases ReflTransGen.cases_head hx with rfl | ⟨c, ⟨n', hnode', hc⟩, hx⟩
    · rw [hnode]
      exact fun heq => hn (Option.some.inj heq)
    · obtain rfl : n = n' := Option.some.inj (hnode.symm.trans hnode')
      exact hchildren c hc x hx

theorem Sound.of_hasChild (h : g.Sound id) (hchild : g.HasChild id child) : g.Sound child where
  complete x hx := h.complete x (hx.of_hasChild hchild)
  acyclic := h.acyclic.of_hasChild hchild

/-- What is emitted for a node without cycles is decided by the slots that emission comes to. -/
theorem Sound.decidedBy_emit (h : g.Sound id) (words : WordData) :
    (g.emit words id).DecidedBy (g.BoundInUse id) := by
  refine h.acyclic.induction ?_ h
  intro id hacyclic ih h
  have hid : id < g.nodes.size := h.complete id .refl
  have hnode : g.nodes[id]? = some g.nodes[id] := Array.getElem?_eq_getElem hid
  rw [hacyclic.emit_eq words hnode]
  refine (Node.decidedBy fun c hc => ?_).congr (boundInUse_iff hnode).symm
  have hchild := (hasChild_iff hnode).mpr hc
  exact ih c hchild (h.of_hasChild hchild)

/-- Without repetitions of no copies, emission comes to everything that can be reached. -/
theorem emits_of_reachable
    (hcopies : ∀ id body, g.Reachable root id → g.nodes[id]? ≠ some (.repetition body 0 (some 0)))
    (h : g.Reachable root id) : ReflTransGen g.Emits root id := by
  induction h with
  | refl => exact .refl
  | @tail parent child hparent hchild ih =>
    refine ih.tail ?_
    cases hnode : g.nodes[parent]? with
    | none =>
      rw [HasChild, childrenOf, hnode] at hchild
      exact absurd hchild List.not_mem_nil
    | some n =>
      refine ⟨n, hnode, ?_⟩
      have hmem := (hasChild_iff hnode).mp hchild
      -- the one kind of node with a child that is not emitted is excluded
      unfold Node.emittedChildren
      split
      · next body => exact absurd hnode (hcopies parent body hparent)
      · exact hmem

/-! ## Main result -/

theorem Sound.compile_cases (h : g.Sound root) (words : WordData) :
    (g.BoundInUse root ∧ ∃ a, g.compile words root = .ok a) ∨
      (¬g.BoundInUse root ∧ g.compile words root = .error .unboundSlot) := by
  have hvalid : g.validate root = .ok () := validate_eq_ok_iff_sound.mpr h
  have hdecided := h.decidedBy_emit words Builder.empty Automaton.source Automaton.target
    (by decide) (by decide)
  unfold compile
  rw [hvalid]
  generalize g.emit words root Automaton.source Automaton.target Builder.empty = r at hdecided ⊢
  cases hdecided with
  | succeeded hp hn => exact .inl ⟨hp, _, rfl⟩
  | unbound hp => exact .inr ⟨hp, rfl⟩

/-- A root that is not sound has the fault of the cycle check, which is not about slots. -/
theorem compile_of_not_sound (h : ¬g.Sound root) (words : WordData) :
    ∃ fault, fault ≠ .unboundSlot ∧ g.compile words root = .error fault := by
  have hverdict := g.verdict_validate root
  cases hvalid : g.validate root with
  | ok x => exact absurd (validate_eq_ok_iff_sound.mp hvalid) h
  | error fault =>
    refine ⟨fault, ?_, ?_⟩
    · rintro rfl
      rw [hvalid] at hverdict
      nomatch hverdict
    · unfold compile
      rw [hvalid]
      rfl

/-- **When a slot without a body is a fault.**  A root has an automaton if and only if
everything it depends on exists, nothing is below itself, and emission comes to no slot
without a body.  The fault for an unbound slot is what happens if only the last of these
fails.  So if the root depends on an unbound slot, and on no repetition of no copies, there
is no automaton. -/
theorem compile_ok_iff_boundInUse (words : WordData) (g : Grammar) (root : NodeId) :
    ((∃ a, g.compile words root = .ok a) ↔
      g.Complete root ∧ g.Acyclic root ∧ g.BoundInUse root) ∧
    (g.compile words root = .error .unboundSlot ↔
      g.Complete root ∧ g.Acyclic root ∧ ¬g.BoundInUse root) ∧
    ((∀ id body, g.Reachable root id → g.nodes[id]? ≠ some (.repetition body 0 (some 0))) →
      ¬g.Bound root → ∀ a, g.compile words root ≠ .ok a) := by
  by_cases hsound : g.Sound root
  · have hcomplete := hsound.complete
    have hacyclic := hsound.acyclic
    rcases hsound.compile_cases words with ⟨hbound, a, ha⟩ | ⟨hbound, hfault⟩
    · refine ⟨by simp [ha, hcomplete, hacyclic, hbound], by simp [ha, hbound], ?_⟩
      intro hcopies hunbound
      exact absurd (fun id hid => hbound id (emits_of_reachable hcopies hid)) hunbound
    · exact ⟨by simp [hfault, hbound], by simp [hfault, hcomplete, hacyclic, hbound],
        by simp [hfault]⟩
  · obtain ⟨fault, hfault, hcompile⟩ := compile_of_not_sound hsound words
    have hchecked : ¬(g.Complete root ∧ g.Acyclic root) := fun h => hsound ⟨h.1, h.2⟩
    rw [hcompile]
    exact ⟨by simp; tauto, by simp [hfault]; tauto, by simp⟩

/-- A slot without a body, and no copies of it. -/
def unusedSlot : Grammar := ⟨#[.slot none, .repetition 0 0 (some 0)]⟩

/-- No copies of an unbound slot: the slot is reachable, and the automaton is one open edge. -/
theorem compile_unusedSlot :
    (unusedSlot.Reachable 1 0 ∧ unusedSlot.nodes[0]? = some (.slot none)) ∧
      unusedSlot.compile .missing 1 =
        .ok ⟨[{ source := Automaton.source, target := Automaton.target }], [], 2⟩ := by
  have hchild : unusedSlot.HasChild 1 0 := List.mem_singleton.mpr rfl
  have hvalid : unusedSlot.validate 1 = .ok () := by cbv
  refine ⟨⟨.single hchild, rfl⟩, ?_⟩
  rw [compile, hvalid]
  rfl

end Grammar
end GuardedAutomata
