import GuardedAutomata.Proofs.Matching

/-!
# Renaming states

The numbers of states decide a good deal inside a match: which bit or entry belongs to a
state, in which order a sweep meets the edges, and --- by the number of all states --- which
of the simulations is used.  Nothing of this can be seen from outside.

A `Renaming` is a map between the states of two automata that keeps the source, the target
and the difference of states, and under which the two have the same edges.  It does not ask
for the order in which edges are listed or how often, and the second automaton may have any
number of states that no edge touches.

A move of the one automaton is a move of the other (`Renaming.move`, `Renaming.of_move`), so
at each slot the active states of the second are the images of those of the first
(`Renaming.activeAt_eq`).  The outcome of a match is determined by which slots have an
active state and whether the target is one at the last, so it is the same
(`Builder.Constructed.exists_run_of_renaming`).
-/

namespace GuardedAutomata

/-! ## Edges and configurations -/

/-- The second edge joins the images of the states of the first, and is open where that is. -/
structure EpsilonEdge.RenamedTo (f : StateId → StateId) (e e' : EpsilonEdge) : Prop where
  source_eq : e'.source = f e.source
  target_eq : e'.target = f e.target
  isOpen_eq : ∀ t, e'.isOpen t = e.isOpen t

/-- The second edge joins the images of the states of the first, and accepts what that
accepts. -/
structure AlphaEdge.RenamedTo (f : StateId → StateId) (e e' : AlphaEdge) : Prop where
  source_eq : e'.source = f e.source
  target_eq : e'.target = f e.target
  accepts_eq : ∀ v, e'.accepts v = e.accepts v

/-- The image of the state at the same slot. -/
def Config.rename (f : StateId → StateId) (c : Config) : Config := ⟨f c.state, c.slot⟩

namespace Automaton

/-- The map keeps the source and the target, tells all states of the first automaton apart,
and turns its edges into the edges of the second. -/
structure Renaming (a b : Automaton) (f : StateId → StateId) : Prop where
  source_eq : f source = source
  target_eq : f target = target
  injOn : Set.InjOn f {s | s < a.stateCount}
  epsilon : ∀ e ∈ a.epsilon, ∃ e' ∈ b.epsilon, e.RenamedTo f e'
  of_epsilon : ∀ e' ∈ b.epsilon, ∃ e ∈ a.epsilon, e.RenamedTo f e'
  alpha : ∀ e ∈ a.alpha, ∃ e' ∈ b.alpha, e.RenamedTo f e'
  of_alpha : ∀ e' ∈ b.alpha, ∃ e ∈ a.alpha, e.RenamedTo f e'

variable {a b : Automaton} {f : StateId → StateId} {w : Array UInt32}

/-! ## Moves and runs -/

theorem WellFormed.lt_of_move (ha : a.WellFormed) {c d : Config}
    (hmove : Move a.epsilon a.alpha w c d) : d.state < a.stateCount := by
  cases hmove with
  | free mem _ _ => exact (ha.epsilon_lt _ mem).2
  | consume mem _ _ => exact (ha.alpha_lt _ mem).2

theorem WellFormed.lt_of_reaches (ha : a.WellFormed) {c d : Config} (hc : c.state < a.stateCount)
    (hrun : a.Reaches w c d) : d.state < a.stateCount := by
  cases hrun with
  | refl => exact hc
  | tail _ hmove => exact ha.lt_of_move hmove

theorem WellFormed.source_lt (ha : a.WellFormed) : source < a.stateCount :=
  Nat.lt_of_lt_of_le Nat.zero_lt_two ha.two_le_stateCount

theorem WellFormed.target_lt (ha : a.WellFormed) : target < a.stateCount :=
  Nat.lt_of_lt_of_le Nat.one_lt_two ha.two_le_stateCount

namespace Renaming

theorem move (h : a.Renaming b f) {c d : Config} (hmove : Move a.epsilon a.alpha w c d) :
    Move b.epsilon b.alpha w (c.rename f) (d.rename f) := by
  cases hmove with
  | free mem hslot isOpen =>
    obtain ⟨e', mem', he⟩ := h.epsilon _ mem
    rw [Config.rename, Config.rename, ← he.source_eq, ← he.target_eq]
    exact .free mem' hslot ((he.isOpen_eq _).trans isOpen)
  | consume mem hslot accepts =>
    obtain ⟨e', mem', he⟩ := h.alpha _ mem
    rw [Config.rename, Config.rename, ← he.source_eq, ← he.target_eq]
    exact .consume mem' hslot ((he.accepts_eq _).trans accepts)

/-- A move from the image of a state is a move of that state. -/
theorem of_move (h : a.Renaming b f) (ha : a.WellFormed) {c d' : Config}
    (hc : c.state < a.stateCount) (hmove : Move b.epsilon b.alpha w (c.rename f) d') :
    ∃ d, d.rename f = d' ∧ Move a.epsilon a.alpha w c d := by
  obtain ⟨state, slot⟩ := c
  generalize hstart : Config.rename f ⟨state, slot⟩ = c' at hmove
  cases hmove with
  | free mem' hslot isOpen =>
    obtain ⟨e, mem, he⟩ := h.of_epsilon _ mem'
    obtain ⟨himage, rfl⟩ := Config.mk.inj hstart
    obtain rfl : state = e.source :=
      h.injOn hc (ha.epsilon_lt e mem).1 (himage.trans he.source_eq)
    refine ⟨⟨e.target, slot⟩, ?_, .free mem hslot ((he.isOpen_eq _).symm.trans isOpen)⟩
    rw [Config.rename, he.target_eq]
  | consume mem' hslot accepts =>
    obtain ⟨e, mem, he⟩ := h.of_alpha _ mem'
    obtain ⟨himage, rfl⟩ := Config.mk.inj hstart
    obtain rfl : state = e.source := h.injOn hc (ha.alpha_lt e mem).1 (himage.trans he.source_eq)
    refine ⟨⟨e.target, slot + 1⟩, ?_, .consume mem hslot ((he.accepts_eq _).symm.trans accepts)⟩
    rw [Config.rename, he.target_eq]

theorem reaches (h : a.Renaming b f) {c d : Config} (hrun : a.Reaches w c d) :
    b.Reaches w (c.rename f) (d.rename f) := by
  induction hrun with
  | refl => exact .refl
  | tail _ hmove ih => exact ih.tail (h.move hmove)

theorem of_reaches (h : a.Renaming b f) (ha : a.WellFormed) {c d' : Config}
    (hc : c.state < a.stateCount) (hrun : b.Reaches w (c.rename f) d') :
    ∃ d, d.rename f = d' ∧ a.Reaches w c d := by
  induction hrun with
  | refl => exact ⟨c, rfl, .refl⟩
  | tail _ hmove ih =>
    obtain ⟨d, rfl, hrun⟩ := ih
    obtain ⟨d', rfl, hstep⟩ := h.of_move ha (ha.lt_of_reaches hc hrun) hmove
    exact ⟨d', rfl, hrun.tail hstep⟩

/-! ## Active states and outcomes -/

/-- At each slot, the active states are the images of the active states. -/
theorem activeAt_eq (h : a.Renaming b f) (ha : a.WellFormed) (slot : Nat) :
    b.activeAt w slot = f '' a.activeAt w slot := by
  have hstart : Config.rename f ⟨source, 0⟩ = ⟨source, 0⟩ := by
    rw [Config.rename, h.source_eq]
  ext q'
  constructor
  · intro hq'
    have himage : b.Reaches w (Config.rename f ⟨source, 0⟩) ⟨q', slot⟩ := by
      rw [hstart]
      exact hq'
    obtain ⟨⟨q, _⟩, heq, hrun⟩ := h.of_reaches ha ha.source_lt himage
    obtain ⟨hstate, rfl⟩ := Config.mk.inj heq
    exact ⟨q, hrun, hstate⟩
  · rintro ⟨q, hq, rfl⟩
    have hrun := h.reaches hq
    rwa [hstart] at hrun

theorem accepts_iff (h : a.Renaming b f) (ha : a.WellFormed) : b.Accepts w ↔ a.Accepts w := by
  change target ∈ b.activeAt w w.size ↔ target ∈ a.activeAt w w.size
  rw [h.activeAt_eq ha]
  constructor
  · rintro ⟨q, hq, heq⟩
    have hlt : q < a.stateCount := ha.lt_of_reaches ha.source_lt hq
    rwa [h.injOn hlt ha.target_lt (heq.trans h.target_eq.symm)] at hq
  · exact fun htarget => ⟨target, htarget, h.target_eq⟩

/-- What a match of the first comes to, a match of the second comes to. -/
theorem isOutcome (h : a.Renaming b f) (ha : a.WellFormed) {o : Outcome}
    (ho : a.IsOutcome w o) : b.IsOutcome w o where
  text := ho.text
  accepted := ho.accepted.trans (h.accepts_iff ha).symm
  log := by
    rcases ho.log with ⟨hne, hlog⟩ | ⟨slot, hslot, hne, hend, hlog⟩
    · rw [h.activeAt_eq ha]
      exact .inl ⟨hne.image f, hlog⟩
    · refine .inr ⟨slot, hslot, ?_, ?_, hlog⟩
      · rw [h.activeAt_eq ha]
        exact hne.image f
      · rw [h.activeAt_eq ha, hend, Set.image_empty]

end Renaming
end Automaton

/-! ## Main result -/

/-- **A match depends on the edges alone.**  If the states of one automaton can be renamed
so that it has the edges of another, then over every text the two come to the same outcome:
both accept or both reject, with the cursor at the same slot and with the same record or
none.  The order and the number of the edges do not matter, nor states without edges, which
may make the difference between the two simulations. -/
theorem Builder.Constructed.exists_run_of_renaming {b b' : Builder} {f : StateId → StateId}
    (hb : b.Constructed) (hb' : b'.Constructed) (h : b.build.Renaming b'.build f) (t : Text) :
    ∃ o, b.build.run t = .ok o ∧ b'.build.run t = .ok o := by
  obtain ⟨o, ho, hrun, -⟩ := Automaton.exists_outcome hb.wellFormed t
  obtain ⟨o', ho', hrun', -⟩ := Automaton.exists_outcome hb'.wellFormed t
  obtain rfl : o = o' := (h.isOutcome hb.wellFormed ho).unique ho'
  exact ⟨o, hrun, hrun'⟩

/-- Further states keep a builder constructed. -/
theorem Builder.Constructed.pad {b : Builder} (hb : b.Constructed) (n : Nat) :
    Constructed { b with stateCount := b.stateCount + n } := by
  induction n with
  | zero => exact hb
  | succ n ih => exact ih.freshState rfl

/-- The edges of `Builder.cyclic` in another order, one of them twice, with another number
for the third state and far more states than a word has bits. -/
def Builder.scattered : Builder where
  epsilon := #[{ source := 69, target := 1, guard := .custom fun t => t.cursor == t.length },
    { source := 0, target := 69 },
    { source := 69, target := 0, guard := .custom fun t => t.after?.isSome },
    { source := 0, target := 69 }]
  alpha := #[.literal 0 69 'a']
  stateCount := 70

theorem Builder.constructed_scattered : Builder.scattered.Constructed := by
  have hstates := Constructed.empty.pad 68
  have hend := Constructed.addEpsilon
    (e := { source := 69, target := 1, guard := .custom fun t => t.cursor == t.length }) hstates rfl
  have hforth := Constructed.addEpsilon (e := { source := 0, target := 69 }) hend rfl
  have hback := Constructed.addEpsilon
    (e := { source := 69, target := 0, guard := .custom fun t => t.after?.isSome }) hforth rfl
  have hagain := Constructed.addEpsilon (e := { source := 0, target := 69 }) hback rfl
  exact .addAlpha (e := .literal 0 69 'a') hagain rfl

/-- The third state gets that number, and the source and the target keep theirs. -/
def Builder.scatter (s : StateId) : StateId := if s = 2 then 69 else s

theorem Builder.renaming_scattered : cyclic.build.Renaming scattered.build scatter := by
  have hforth : EpsilonEdge.RenamedTo scatter { source := 0, target := 2 }
      { source := 0, target := 69 } := ⟨rfl, rfl, fun _ => rfl⟩
  have hback : EpsilonEdge.RenamedTo scatter
      { source := 2, target := 0, guard := .custom fun t => t.after?.isSome }
      { source := 69, target := 0, guard := .custom fun t => t.after?.isSome } :=
    ⟨rfl, rfl, fun _ => rfl⟩
  have hend : EpsilonEdge.RenamedTo scatter { source := 2, target := 1, guard := .index (-1) }
      { source := 69, target := 1, guard := .custom fun t => t.cursor == t.length } := by
    refine ⟨rfl, rfl, fun t => ?_⟩
    rw [EpsilonEdge.isOpen, EpsilonEdge.isOpen, Guard.holds_custom, Guard.holds_index,
      Bool.eq_iff_iff, beq_iff_eq, Anchor.names_of_neg (by decide)]
    omega
  have hletter : AlphaEdge.RenamedTo scatter (.literal 0 2 'a') (.literal 0 69 'a') :=
    ⟨rfl, rfl, fun _ => rfl⟩
  have hapart : ∀ s < 3, ∀ s' < 3, scatter s = scatter s' → s = s' := by decide
  exact {
    source_eq := rfl
    target_eq := rfl
    injOn := fun s hs s' hs' heq => hapart s hs s' hs' heq
    epsilon := by
      simp only [cyclic, scattered, build, List.forall_mem_cons]
      exact ⟨⟨_, by simp, hforth⟩, ⟨_, by simp, hback⟩, ⟨_, by simp, hend⟩, List.forall_mem_nil _⟩
    of_epsilon := by
      simp only [cyclic, scattered, build, List.forall_mem_cons]
      exact ⟨⟨_, by simp, hend⟩, ⟨_, by simp, hforth⟩, ⟨_, by simp, hback⟩,
        ⟨_, by simp, hforth⟩, List.forall_mem_nil _⟩
    alpha := by
      simp only [cyclic, scattered, build, List.forall_mem_cons]
      exact ⟨⟨_, by simp, hletter⟩, List.forall_mem_nil _⟩
    of_alpha := by
      simp only [cyclic, scattered, build, List.forall_mem_cons]
      exact ⟨⟨_, by simp, hletter⟩, List.forall_mem_nil _⟩ }

/-- The two come to the same outcome, the one with a mask and the other with a table. -/
theorem Builder.exists_run_scattered :
    (cyclic.Constructed ∧ scattered.Constructed ∧ cyclic.build.Renaming scattered.build scatter) ∧
      (cyclic.build.strategy = .mask ∧ scattered.build.strategy = .table) ∧
      ∃ o, cyclic.build.run (.ofString "aa") = .ok o ∧
        scattered.build.run (.ofString "aa") = .ok o :=
  ⟨⟨constructed_cyclic, constructed_scattered, renaming_scattered⟩, ⟨rfl, rfl⟩,
    constructed_cyclic.exists_run_of_renaming constructed_scattered renaming_scattered _⟩

end GuardedAutomata
