import GuardedAutomata.Automaton.Reach
import Mathlib.Data.Set.Insert
import Mathlib.Order.Bounds.Basic

/-!
# The states that runs are in

Runs are followed slot by slot.  At a slot, epsilon edges close the set of states
that runs are in, with guards decided *at that slot*; between two slots, alpha
edges carry the set over one code point.

* `closureOf` --- the states on open paths from a set of states.  It is the least
  superset that no open edge leaves (`isLeast_closureOf`).
* `successorsOf` --- the states behind the alpha edges that accept a code point.
* `Automaton.activeAt` --- the states in which runs from the source are at a slot.

`Automaton.activeAt_zero` and `Automaton.activeAt_succ` are the recursion that any
representation of the active states has to follow.  They say that nothing is lost
by closing the set at each slot once, after the code point before it: an epsilon
path never leaves its slot, so in a run the moves of one slot stand together.
-/

namespace GuardedAutomata

/-! ## Paths at one slot -/

/-- An epsilon edge that is open at the cursor leads from the first state to the second. -/
def OpenStep (edges : List EpsilonEdge) (t : Text) (p q : StateId) : Prop :=
  ∃ e ∈ edges, e.isOpen t = true ∧ e.source = p ∧ e.target = q

/-- Epsilon edges that are open at the cursor lead from the first state to the second. -/
def OpenPath (edges : List EpsilonEdge) (t : Text) : StateId → StateId → Prop :=
  Relation.ReflTransGen (OpenStep edges t)

theorem OpenPath.mono {edges more : List EpsilonEdge} (hsub : edges ⊆ more) {t : Text}
    {p q : StateId} (h : OpenPath edges t p q) : OpenPath more t p q := by
  refine Relation.ReflTransGen.mono ?_ _ _ h
  rintro _ _ ⟨e, he, hstep⟩
  exact ⟨e, hsub he, hstep⟩

/-- The paths depend on which edges there are, not on their order or number. -/
theorem OpenPath.congr {edges others : List EpsilonEdge} (h : ∀ e, e ∈ edges ↔ e ∈ others)
    {t : Text} {p q : StateId} : OpenPath edges t p q ↔ OpenPath others t p q :=
  ⟨OpenPath.mono fun e => (h e).mp, OpenPath.mono fun e => (h e).mpr⟩

/-- The states on open paths from a set of states. -/
def closureOf (edges : List EpsilonEdge) (t : Text) (S : Set StateId) : Set StateId :=
  {q | ∃ p ∈ S, OpenPath edges t p q}

theorem subset_closureOf (edges : List EpsilonEdge) (t : Text) (S : Set StateId) :
    S ⊆ closureOf edges t S :=
  fun q hq => ⟨q, hq, .refl⟩

theorem closureOf_mono {edges more : List EpsilonEdge} (hsub : edges ⊆ more) (t : Text)
    {S T : Set StateId} (hST : S ⊆ T) : closureOf edges t S ⊆ closureOf more t T := by
  intro q hmem
  obtain ⟨p, hp, hpq⟩ := hmem
  exact ⟨p, hST hp, hpq.mono hsub⟩

theorem closureOf_closureOf (edges : List EpsilonEdge) (t : Text) (S : Set StateId) :
    closureOf edges t (closureOf edges t S) = closureOf edges t S := by
  refine Set.Subset.antisymm ?_ (subset_closureOf _ _ _)
  intro q hmem
  obtain ⟨p, ⟨s, hs, hsp⟩, hpq⟩ := hmem
  exact ⟨s, hs, hsp.trans hpq⟩

theorem target_mem_closureOf {edges : List EpsilonEdge} {t : Text} {S : Set StateId}
    {e : EpsilonEdge} (he : e ∈ edges) (hopen : e.isOpen t = true)
    (hs : e.source ∈ closureOf edges t S) : e.target ∈ closureOf edges t S := by
  obtain ⟨p, hp, hpe⟩ := hs
  exact ⟨p, hp, hpe.tail ⟨e, he, hopen, rfl, rfl⟩⟩

/-- No open edge leaves the set. -/
def ClosedUnder (edges : List EpsilonEdge) (t : Text) (S : Set StateId) : Prop :=
  ∀ e ∈ edges, e.isOpen t = true → e.source ∈ S → e.target ∈ S

theorem closureOf_subset {edges : List EpsilonEdge} {t : Text} {S T : Set StateId} (hST : S ⊆ T)
    (hT : ClosedUnder edges t T) : closureOf edges t S ⊆ T := by
  intro q hmem
  obtain ⟨p, hp, hpq⟩ := hmem
  induction hpq with
  | refl => exact hST hp
  | tail _ hstep ih =>
    obtain ⟨e, he, hopen, rfl, rfl⟩ := hstep
    exact hT e he hopen ih

/-- The closure is the least superset that no open edge leaves. -/
theorem isLeast_closureOf (edges : List EpsilonEdge) (t : Text) (S : Set StateId) :
    IsLeast {T | S ⊆ T ∧ ClosedUnder edges t T} (closureOf edges t S) :=
  ⟨⟨subset_closureOf edges t S, fun _ he hopen hs => target_mem_closureOf he hopen hs⟩,
    fun _ hT => closureOf_subset hT.1 hT.2⟩

/-- An open path starts in one state, so the closure of a union is found part by part. -/
theorem closureOf_union (edges : List EpsilonEdge) (t : Text) (S T : Set StateId) :
    closureOf edges t (S ∪ T) = closureOf edges t S ∪ closureOf edges t T := by
  refine Set.Subset.antisymm ?_ (Set.union_subset ?_ ?_)
  · rintro q ⟨p, hp | hp, hpq⟩
    · exact .inl ⟨p, hp, hpq⟩
    · exact .inr ⟨p, hp, hpq⟩
  · exact closureOf_mono (List.Subset.refl _) t Set.subset_union_left
  · exact closureOf_mono (List.Subset.refl _) t Set.subset_union_right

theorem closureOf_congr {edges others : List EpsilonEdge} (h : ∀ e, e ∈ edges ↔ e ∈ others)
    (t : Text) (S : Set StateId) : closureOf edges t S = closureOf others t S :=
  Set.Subset.antisymm (closureOf_mono (fun e => (h e).mp) t subset_rfl)
    (closureOf_mono (fun e => (h e).mpr) t subset_rfl)

@[simp] theorem closureOf_empty (edges : List EpsilonEdge) (t : Text) :
    closureOf edges t ∅ = ∅ := by
  refine Set.eq_empty_of_forall_notMem ?_
  intro q hmem
  obtain ⟨p, hp, -⟩ := hmem
  exact hp

/-! ## Between two slots -/

/-- The states behind the alpha edges from a set of states that accept a code point. -/
def successorsOf (edges : List AlphaEdge) (value : UInt32) (S : Set StateId) : Set StateId :=
  {q | ∃ e ∈ edges, e.source ∈ S ∧ e.accepts value = true ∧ e.target = q}

@[simp] theorem successorsOf_empty (edges : List AlphaEdge) (value : UInt32) :
    successorsOf edges value ∅ = ∅ := by
  refine Set.eq_empty_of_forall_notMem ?_
  intro q hmem
  obtain ⟨e, -, he, -⟩ := hmem
  exact he

@[simp] theorem successorsOf_nil (value : UInt32) (S : Set StateId) :
    successorsOf [] value S = ∅ := by
  refine Set.eq_empty_of_forall_notMem ?_
  intro q hmem
  obtain ⟨e, he, -⟩ := hmem
  exact List.not_mem_nil he

theorem successorsOf_cons (e : AlphaEdge) (rest : List AlphaEdge) (value : UInt32)
    (S : Set StateId) :
    successorsOf (e :: rest) value S =
      {q | e.source ∈ S ∧ e.accepts value = true ∧ q = e.target} ∪ successorsOf rest value S := by
  refine Set.Subset.antisymm ?_ (Set.union_subset ?_ ?_)
  · intro q hmem
    obtain ⟨e', he', hs, hacc, rfl⟩ := hmem
    rcases List.mem_cons.mp he' with rfl | he'
    · exact .inl ⟨hs, hacc, rfl⟩
    · exact .inr ⟨e', he', hs, hacc, rfl⟩
  · intro q hmem
    obtain ⟨hs, hacc, rfl⟩ := hmem
    exact ⟨e, List.mem_cons_self, hs, hacc, rfl⟩
  · intro q hmem
    obtain ⟨e', he', hs, hacc, rfl⟩ := hmem
    exact ⟨e', List.mem_cons_of_mem _ he', hs, hacc, rfl⟩

/-! ## Runs from the source -/

namespace Automaton

variable (a : Automaton) (w : Array UInt32)

/-- The states in which runs from the source before the text are at a slot. -/
def activeAt (slot : Nat) : Set StateId := {q | a.Reaches w ⟨source, 0⟩ ⟨q, slot⟩}

theorem reaches_of_openPath {slot : Nat} (h : slot ≤ w.size) {p q : StateId}
    (hpq : OpenPath a.epsilon (Text.ofValuesAt w slot h) p q) :
    a.Reaches w ⟨p, slot⟩ ⟨q, slot⟩ := by
  induction hpq with
  | refl => exact .refl
  | tail _ hstep ih =>
    obtain ⟨e, he, hopen, rfl, rfl⟩ := hstep
    exact ih.tail (.free he h hopen)

/-- At the first slot runs have taken open paths from the source, and nothing else. -/
theorem activeAt_zero :
    a.activeAt w 0 = closureOf a.epsilon (Text.ofValuesAt w 0 (Nat.zero_le _)) {source} := by
  refine Set.Subset.antisymm ?_ ?_
  · intro q hq
    -- along the run, every configuration at slot `0` is in the closure
    suffices h : ∀ d, a.Reaches w ⟨source, 0⟩ d → d.slot = 0 →
        d.state ∈ closureOf a.epsilon (Text.ofValuesAt w 0 (Nat.zero_le _)) {source} from
      h _ hq rfl
    intro d hd
    induction hd with
    | refl => exact fun _ => subset_closureOf _ _ _ rfl
    | tail _ hmove ih =>
      intro hslot
      cases hmove with
      | free he h hopen =>
        subst hslot
        exact target_mem_closureOf he hopen (ih rfl)
      | consume => exact absurd hslot (Nat.succ_ne_zero _)
  · intro q hmem
    obtain ⟨p, rfl, hpq⟩ := hmem
    exact a.reaches_of_openPath w _ hpq

/-- A run at a later slot has consumed the code point before it and then taken an open path. -/
theorem activeAt_succ {slot : Nat} (h : slot < w.size) :
    a.activeAt w (slot + 1) =
      closureOf a.epsilon (Text.ofValuesAt w (slot + 1) h)
        (successorsOf a.alpha w[slot] (a.activeAt w slot)) := by
  refine Set.Subset.antisymm ?_ ?_
  · intro q hq
    suffices hrun : ∀ d, a.Reaches w ⟨source, 0⟩ d → d.slot = slot + 1 →
        d.state ∈ closureOf a.epsilon (Text.ofValuesAt w (slot + 1) h)
          (successorsOf a.alpha w[slot] (a.activeAt w slot)) from
      hrun _ hq rfl
    intro d hd
    induction hd with
    | refl => exact fun h0 => absurd h0.symm (Nat.succ_ne_zero _)
    | tail hrun hmove ih =>
      intro hslot
      cases hmove with
      | free he _ hopen =>
        subst hslot
        exact target_mem_closureOf he hopen (ih rfl)
      | consume he _ hacc =>
        obtain rfl := Nat.succ.inj hslot
        exact subset_closureOf _ _ _ ⟨_, he, hrun, hacc, rfl⟩
  · intro q hmem
    obtain ⟨p, ⟨e, he, hs, hacc, rfl⟩, hpq⟩ := hmem
    exact (Relation.ReflTransGen.tail hs (.consume he h hacc)).trans
      (a.reaches_of_openPath w h hpq)

/-- Once no run is left, none comes back. -/
theorem activeAt_eq_empty_of_le {slot later : Nat} (hle : slot ≤ later) (hlater : later ≤ w.size)
    (hempty : a.activeAt w slot = ∅) : a.activeAt w later = ∅ := by
  induction later, hle using Nat.le_induction with
  | base => exact hempty
  | succ later _ ih =>
    rw [activeAt_succ a w hlater, ih (Nat.le_of_succ_le hlater), successorsOf_empty,
      closureOf_empty]

/-- No state is active at a slot exactly if none was reached over the code point before it. -/
theorem activeAt_succ_eq_empty_iff {slot : Nat} (h : slot < w.size) :
    a.activeAt w (slot + 1) = ∅ ↔ successorsOf a.alpha w[slot] (a.activeAt w slot) = ∅ := by
  rw [activeAt_succ a w h]
  constructor
  · exact fun hempty => Set.subset_eq_empty (subset_closureOf _ _ _) hempty
  · intro hempty
    rw [hempty, closureOf_empty]

end Automaton
end GuardedAutomata
