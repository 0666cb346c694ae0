import GuardedAutomata.Proofs.Compilation
import GuardedAutomata.Proofs.Sessions

/-!
# The discipline of emission

The alternatives of a node share their entry and their exit, and a node shares both with
whatever else is in the builder.  That is sound because of what no emission does: it adds no
edge into its entry and none out of its exit.  Nothing checks this; every node keeps to it
by itself.

## What is promised

An emission between two states only appends to a builder, and each edge that it appends
leaves the entry or a state that was allocated on the way, and enters the exit or such a
state (`Builder.EmittedBetween`).  The promise does not depend on how the emission ends:
one that comes to a missing node or to a slot without a body stops half-way, and what it has
appended by then is as it should be.

## Why it holds

The states that an emission may leave are its entry and the new ones, and the states that
it may enter are its exit and the new ones.  Between the parts of a node there are only fresh
states, which are both, so the promise goes from the children of a node to the node by
`Build.ClosedBetween`; all that is left is one edge between such states
(`Builder.closedBetween_emittedBetween`).

If entry and exit are different allocated states, the entry is none of the states that may be
entered, and the exit none of those that may be left.  An automaton is emitted from the
source to the target of the empty builder, so all its edges are of this kind
(`Grammar.emission_discipline`).
-/

namespace GuardedAutomata

/-! ## What an emission leaves behind -/

namespace Builder

/-- The epsilon edges behind those of another builder. -/
def newEpsilon (b' b : Builder) : List EpsilonEdge := b'.epsilon.toList.drop b.epsilon.size

/-- The alpha edges behind those of another builder. -/
def newAlpha (b' b : Builder) : List AlphaEdge := b'.alpha.toList.drop b.alpha.size

/-- The state was allocated on the way from one builder to another. -/
def HasNew (b' b : Builder) (s : StateId) : Prop := b.stateCount ≤ s ∧ s < b'.stateCount

/-- The ends of an edge that leaves the entry or a new state, and enters the exit or a new
state. -/
structure OwnEnds (b' b : Builder) (entry exit source target : StateId) : Prop where
  source : source = entry ∨ b'.HasNew b source
  target : target = exit ∨ b'.HasNew b target

/-- The builder extends another, and the edges that it has more are those of an emission
between the given states. -/
structure EmittedBetween (b' b : Builder) (entry exit : StateId) : Prop
    extends b'.Extends b where
  epsilon : ∀ e ∈ b'.newEpsilon b, b'.OwnEnds b entry exit e.source e.target
  alpha : ∀ e ∈ b'.newAlpha b, b'.OwnEnds b entry exit e.source e.target

variable {b b' : Builder} {entry exit : StateId}

/-- What stands behind the first entries, after one more is put at the end. -/
theorem mem_drop_push_iff {α : Type} {xs : Array α} {n : Nat} (hn : n ≤ xs.toList.length)
    {x y : α} : y ∈ (xs.push x).toList.drop n ↔ y ∈ xs.toList.drop n ∨ y = x := by
  rw [Array.toList_push, List.drop_append_of_le_length hn, List.mem_append, List.mem_singleton]

theorem mem_newEpsilon_push (h : b'.Extends b) {e e' : EpsilonEdge} :
    e' ∈ ({ b' with epsilon := b'.epsilon.push e } : Builder).newEpsilon b ↔
      e' ∈ b'.newEpsilon b ∨ e' = e :=
  mem_drop_push_iff h.epsilon_prefix.length_le

theorem mem_newAlpha_push (h : b'.Extends b) {e e' : AlphaEdge} :
    e' ∈ ({ b' with alpha := b'.alpha.push e } : Builder).newAlpha b ↔
      e' ∈ b'.newAlpha b ∨ e' = e :=
  mem_drop_push_iff h.alpha_prefix.length_le

theorem OwnEnds.mono {b'' : Builder} {source target : StateId}
    (h : b'.OwnEnds b entry exit source target) (hle : b'.stateCount ≤ b''.stateCount) :
    b''.OwnEnds b entry exit source target where
  source := h.source.imp_right fun hnew => ⟨hnew.1, Nat.lt_of_lt_of_le hnew.2 hle⟩
  target := h.target.imp_right fun hnew => ⟨hnew.1, Nat.lt_of_lt_of_le hnew.2 hle⟩

theorem ownEnds_of_hasStates {source target : StateId}
    (hstates : b'.hasStates source target = true)
    (hsource : source = entry ∨ b.stateCount ≤ source)
    (htarget : target = exit ∨ b.stateCount ≤ target) :
    b'.OwnEnds b entry exit source target := by
  obtain ⟨hs, ht⟩ := hasStates_iff.mp hstates
  exact ⟨hsource.imp_right fun hnew => ⟨hnew, hs⟩, htarget.imp_right fun hnew => ⟨hnew, ht⟩⟩

theorem emittedBetween_refl (b : Builder) (entry exit : StateId) :
    b.EmittedBetween b entry exit where
  toExtends := .refl b
  epsilon e he := by
    have hnone : b.newEpsilon b = [] := List.drop_length
    rw [hnone] at he
    exact absurd he List.not_mem_nil
  alpha e he := by
    have hnone : b.newAlpha b = [] := List.drop_length
    rw [hnone] at he
    exact absurd he List.not_mem_nil

namespace EmittedBetween

theorem freshState (h : b'.EmittedBetween b entry exit) :
    ({ b' with stateCount := b'.stateCount + 1 } : Builder).EmittedBetween b entry exit where
  toExtends := h.toExtends.freshState
  epsilon e he := (h.epsilon e he).mono (Nat.le_succ _)
  alpha e he := (h.alpha e he).mono (Nat.le_succ _)

theorem pushEpsilon (h : b'.EmittedBetween b entry exit) {e : EpsilonEdge}
    (he : b'.OwnEnds b entry exit e.source e.target) :
    ({ b' with epsilon := b'.epsilon.push e } : Builder).EmittedBetween b entry exit where
  toExtends := h.toExtends.pushEpsilon e
  epsilon e' he' := by
    rcases (mem_newEpsilon_push h.toExtends).mp he' with hold | rfl
    · exact (h.epsilon e' hold).mono (Nat.le_refl _)
    · exact he.mono (Nat.le_refl _)
  alpha e' he' := (h.alpha e' he').mono (Nat.le_refl _)

theorem pushAlpha (h : b'.EmittedBetween b entry exit) {e : AlphaEdge}
    (he : b'.OwnEnds b entry exit e.source e.target) :
    ({ b' with alpha := b'.alpha.push e } : Builder).EmittedBetween b entry exit where
  toExtends := h.toExtends.pushAlpha e
  epsilon e' he' := (h.epsilon e' he').mono (Nat.le_refl _)
  alpha e' he' := by
    rcases (mem_newAlpha_push h.toExtends).mp he' with hold | rfl
    · exact (h.alpha e' hold).mono (Nat.le_refl _)
    · exact he.mono (Nat.le_refl _)

end EmittedBetween

/-- **The discipline is kept by every operation** whose edges leave the entry or a state that
is not of the builder before, and enter the exit or such a state. -/
theorem closedBetween_emittedBetween (b : Builder) (entry exit : StateId) :
    Build.ClosedBetween (fun s => s = entry ∨ b.stateCount ≤ s)
      (fun s => s = exit ∨ b.stateCount ≤ s)
      (Build.Keeps fun b' => b'.EmittedBetween b entry exit) where
  pure _ _ h := h
  bind hop hnext := hop.bind hnext
  freshState_bind hnext b' h := by
    -- what is allocated is beyond all states of the builder before
    have hnew : b.stateCount ≤ b'.stateCount := h.stateCount_le
    exact hnext b'.stateCount (.inr hnew) (.inr hnew) _ h.freshState
  addEpsilon _ hsource htarget := Build.keeps_addEpsilon fun _ hstates h =>
    h.pushEpsilon (ownEnds_of_hasStates hstates hsource htarget)
  addAlpha _ hsource htarget := Build.keeps_addAlpha fun _ hstates h =>
    h.pushAlpha (ownEnds_of_hasStates hstates hsource htarget)

end Builder

/-! ## Emission -/

namespace Grammar

/-- What an emission leaves, however it ends. -/
theorem Acyclic.emittedBetween {g : Grammar} {id : NodeId} (h : g.Acyclic id) (words : WordData)
    (b : Builder) (entry exit : StateId) :
    ((g.emit words id entry exit).leaves b).EmittedBetween b entry exit := by
  have hclosed := Builder.closedBetween_emittedBetween b entry exit
  have hemit : (g.emit words id).HasBetween _ _ _ :=
    hclosed.emit h (fun _ _ hb => hb) (fun _ hb => hb)
  exact hemit entry exit (.inl rfl) (.inl rfl) b (b.emittedBetween_refl entry exit)

end Grammar

/-- No edge enters the source, and none leaves the target. -/
structure Automaton.OneWay (a : Automaton) : Prop where
  epsilon : ∀ e ∈ a.epsilon, e.target ≠ source ∧ e.source ≠ target
  alpha : ∀ e ∈ a.alpha, e.target ≠ source ∧ e.source ≠ target

/-- Between different allocated states, an edge of an emission neither enters its entry nor
leaves its exit. -/
theorem Builder.OwnEnds.ne {b b' : Builder} {entry exit source target : StateId}
    (h : b'.OwnEnds b entry exit source target) (hentry : entry < b.stateCount)
    (hexit : exit < b.stateCount) (hne : entry ≠ exit) : target ≠ entry ∧ source ≠ exit := by
  constructor
  · rintro rfl
    rcases h.target with heq | hnew
    · exact hne heq
    · exact absurd hentry (Nat.not_lt.mpr hnew.1)
  · rintro rfl
    rcases h.source with heq | hnew
    · exact hne heq.symm
    · exact absurd hexit (Nat.not_lt.mpr hnew.1)

theorem Grammar.oneWay_of_compile {words : WordData} {g : Grammar} {root : NodeId}
    {a : Automaton} (h : g.compile words root = .ok a) : a.OneWay := by
  obtain ⟨hvalid, b, hemit, rfl⟩ := compile_eq_ok_iff.mp h
  have hacyclic : g.Acyclic root := (validate_eq_ok_iff.mp hvalid).2
  have hemitted := hacyclic.emittedBetween words Builder.empty Automaton.source Automaton.target
  rw [Build.leaves_of_ok hemit] at hemitted
  -- the empty builder has no edges, so that all edges are new
  exact ⟨fun e he => (hemitted.epsilon e he).ne (by decide) (by decide) (by decide),
    fun e he => (hemitted.alpha e he).ne (by decide) (by decide) (by decide)⟩

/-- **The discipline of emission.**  Emitting a node that is not below itself, with whatever
fault that may end, takes no state and no edge from the builder and appends only edges from
the entry or a new state to the exit or a new state.  So between different states no edge is
appended that enters the entry or leaves the exit, and in every automaton of a grammar or of
a pattern no edge enters the source and none leaves the target. -/
theorem Grammar.emission_discipline (words : WordData) :
    (∀ (g : Grammar) (id : NodeId), g.Acyclic id →
      ∀ (b : Builder) (entry exit : StateId), entry < b.stateCount → exit < b.stateCount →
        let b' := (g.emit words id entry exit).leaves b
        b'.EmittedBetween b entry exit ∧
          (entry ≠ exit →
            (∀ e ∈ b'.newEpsilon b, e.target ≠ entry ∧ e.source ≠ exit) ∧
              ∀ e ∈ b'.newAlpha b, e.target ≠ entry ∧ e.source ≠ exit)) ∧
    (∀ (g : Grammar) (root : NodeId) (a : Automaton), g.compile words root = .ok a → a.OneWay) ∧
    ∀ (p : Pattern) (settings : Settings) (a : Automaton), p.compile words settings = .ok a →
      a.OneWay := by
  refine ⟨fun g id hid b entry exit hentry hexit => ?_, fun g root a h => oneWay_of_compile h,
    fun p settings a h => ?_⟩
  · have hemitted := hid.emittedBetween words b entry exit
    exact ⟨hemitted, fun hne => ⟨fun e he => (hemitted.epsilon e he).ne hentry hexit hne,
      fun e he => (hemitted.alpha e he).ne hentry hexit hne⟩⟩
  · obtain ⟨root, g, -, hcompile⟩ := Pattern.exists_grammar_of_compile h
    exact oneWay_of_compile hcompile

/-- A code point and then a missing node, emitted between two states of the cyclic builder:
the edge for the code point leaves the entry, and is appended before the fault.  A loop of
letters, compiled: no edge enters the source or leaves the target. -/
theorem Grammar.emission_discipline_unfinished :
    (∃ b', unfinished.emit .missing 1 2 0 Builder.cyclic =
        .error (.indexOutOfBounds 2 9) b' ∧ b'.EmittedBetween Builder.cyclic 2 0 ∧
          (b'.newAlpha Builder.cyclic).map (fun e => (e.source, e.target)) = [(2, 3)] ∧
            ∀ e ∈ b'.newAlpha Builder.cyclic, e.target ≠ 2 ∧ e.source ≠ 0) ∧
      ∃ a, Pattern.looping.compile .missing {} = .ok a ∧ a.OneWay := by
  obtain ⟨hemission, -, hpatterns⟩ := emission_discipline .missing
  obtain ⟨hbetween, hends⟩ := hemission unfinished 1 acyclic_unfinished Builder.cyclic 2 0
    (by decide) (by decide)
  obtain ⟨a, ha⟩ := Pattern.exists_compile_looping
  exact ⟨⟨_, rfl, hbetween, rfl, (hends (by decide)).2⟩, a, ha, hpatterns _ _ a ha⟩

end GuardedAutomata
