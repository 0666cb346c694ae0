import GuardedAutomata.Proofs.Emission
import GuardedAutomata.Proofs.Operations

/-!
# Emission by template

A node is emitted once for every use, into a builder that holds other things already, between
states that differ from use to use.  What it adds is the same each time.  There is a *template*
for it: edges between places, which are the entry, the exit and the fresh states in the order of
their allocation.  Emitting the node pastes the template: the entry and the exit are read as the
states at hand, and the `k`-th fresh state as the state `k` places beyond those that the builder
had (`Grammar.Usable.emit_pastes_template`).

## Where the template comes from

From one emission, the one from the source to the target of the empty builder.  There the entry
is the state `0`, the exit the state `1`, and the `k`-th fresh state the state `k + 2`.  Every
other emission makes the same calls on other numbers, so the two are run side by side.  What is
kept is that the second builder has, behind the edges it began with, those of the first one,
relabelled (`Builder.CopyOf`).

A call that succeeds on the first builder succeeds on the second (`Build.Follows`), and that goes
through every way to put fragments together.  Nothing is said of calls that fault: the emission
of a usable node into the empty builder does not fault, and so no other emission of it does.
-/

namespace GuardedAutomata

/-! ## Templates -/

/-- A place of a template with `m` fresh states. -/
inductive Place (m : Nat) where
  /-- The state in which the fragment is entered. -/
  | entry
  /-- The state in which it is left. -/
  | exit
  /-- The fresh state that is allocated after `k` others. -/
  | fresh (k : Fin m)

namespace Place

/-- The state of a place, if there were `first` states before. -/
def state {m : Nat} (first : Nat) (entry exit : StateId) : Place m → StateId
  | .entry => entry
  | .exit => exit
  | .fresh k => first + k

/-- The place of a state of the emission into the empty builder. -/
def ofState (m : Nat) : StateId → Place m
  | 0 => .entry
  | 1 => .exit
  | k + 2 => if h : k < m then .fresh ⟨k, h⟩ else .exit

end Place

/-- The edges between places, in order, and the number of fresh states. -/
structure Template where
  freshStates : Nat
  epsilon : Array (Place freshStates × Place freshStates × Guard)
  alpha : Array (Place freshStates × Place freshStates × (UInt32 → Bool))

/-- The edge between the images of its states. -/
def EpsilonEdge.mapStates (f : StateId → StateId) (e : EpsilonEdge) : EpsilonEdge where
  source := f e.source
  target := f e.target
  guard := e.guard

/-- The same of an edge that consumes a code point. -/
def AlphaEdge.mapStates (f : StateId → StateId) (e : AlphaEdge) : AlphaEdge where
  source := f e.source
  target := f e.target
  accepts := e.accepts

namespace Builder

/-- The builder with the states and the edges of a template behind its own. -/
def paste (b : Builder) (T : Template) (entry exit : StateId) : Builder where
  epsilon := b.epsilon ++ T.epsilon.map fun e =>
    ⟨e.1.state b.stateCount entry exit, e.2.1.state b.stateCount entry exit, e.2.2⟩
  alpha := b.alpha ++ T.alpha.map fun e =>
    ⟨e.1.state b.stateCount entry exit, e.2.1.state b.stateCount entry exit, e.2.2⟩
  stateCount := b.stateCount + T.freshStates

/-- The template of what is in a builder, if that was emitted from the source to the target of
the empty one. -/
def template (s : Builder) : Template where
  freshStates := s.stateCount - 2
  epsilon := s.epsilon.map fun e => (.ofState _ e.source, .ofState _ e.target, e.guard)
  alpha := s.alpha.map fun e => (.ofState _ e.source, .ofState _ e.target, e.accepts)

/-! ## Side by side -/

/-- The state that stands for a state of the emission into the empty builder. -/
def relabel (b : Builder) (entry exit : StateId) : StateId → StateId
  | 0 => entry
  | 1 => exit
  | k + 2 => b.stateCount + k

/-- The builder `t` has, behind what is in `b`, what is in `s`, relabelled. -/
structure CopyOf (b : Builder) (entry exit : StateId) (s t : Builder) : Prop where
  two_le : 2 ≤ s.stateCount
  stateCount : t.stateCount + 2 = b.stateCount + s.stateCount
  epsilon : t.epsilon =
    b.epsilon ++ s.epsilon.map (EpsilonEdge.mapStates (b.relabel entry exit))
  alpha : t.alpha = b.alpha ++ s.alpha.map (AlphaEdge.mapStates (b.relabel entry exit))

variable {b s t : Builder} {entry exit : StateId}

/-- Before anything is emitted, the copy is the builder itself. -/
theorem copyOf_empty (b : Builder) (entry exit : StateId) : CopyOf b entry exit empty b where
  two_le := Nat.le_refl 2
  stateCount := rfl
  epsilon := by simp [empty]
  alpha := by simp [empty]

namespace CopyOf

/-- The next states to be allocated stand for each other. -/
theorem relabel_stateCount (h : CopyOf b entry exit s t) :
    b.relabel entry exit s.stateCount = t.stateCount := by
  obtain ⟨k, hk⟩ := Nat.exists_eq_add_of_le' h.two_le
  have hcount := h.stateCount
  rw [hk] at hcount ⊢
  exact (Nat.add_right_cancel (m := 2) hcount).symm

/-- Allocated states stand for allocated states. -/
theorem relabel_lt (h : CopyOf b entry exit s t) (hentry : entry < b.stateCount)
    (hexit : exit < b.stateCount) {x : StateId} (hx : x < s.stateCount) :
    b.relabel entry exit x < t.stateCount := by
  have htwo := h.two_le
  have hcount := h.stateCount
  have hle : b.stateCount ≤ t.stateCount := by omega
  match x with
  | 0 => exact Nat.lt_of_lt_of_le hentry hle
  | 1 => exact Nat.lt_of_lt_of_le hexit hle
  | k + 2 =>
    have hfresh (k : Nat) (hk : k + 2 < s.stateCount) : b.stateCount + k < t.stateCount := by omega
    exact hfresh k hx

theorem hasStates (h : CopyOf b entry exit s t) (hentry : entry < b.stateCount)
    (hexit : exit < b.stateCount) {x y : StateId} (hxy : s.hasStates x y = true) :
    t.hasStates (b.relabel entry exit x) (b.relabel entry exit y) = true := by
  obtain ⟨hx, hy⟩ := hasStates_iff.mp hxy
  exact hasStates_iff.mpr ⟨h.relabel_lt hentry hexit hx, h.relabel_lt hentry hexit hy⟩

theorem freshState (h : CopyOf b entry exit s t) :
    CopyOf b entry exit { s with stateCount := s.stateCount + 1 }
      { t with stateCount := t.stateCount + 1 } where
  two_le := Nat.le_succ_of_le h.two_le
  stateCount := by
    have hcount := h.stateCount
    show t.stateCount + 1 + 2 = b.stateCount + (s.stateCount + 1)
    omega
  epsilon := h.epsilon
  alpha := h.alpha

theorem pushEpsilon (h : CopyOf b entry exit s t) (e : EpsilonEdge) :
    CopyOf b entry exit { s with epsilon := s.epsilon.push e }
      { t with epsilon := t.epsilon.push (e.mapStates (b.relabel entry exit)) } where
  two_le := h.two_le
  stateCount := h.stateCount
  epsilon := by rw [h.epsilon, Array.map_push, Array.append_push]
  alpha := h.alpha

theorem pushAlpha (h : CopyOf b entry exit s t) (e : AlphaEdge) :
    CopyOf b entry exit { s with alpha := s.alpha.push e }
      { t with alpha := t.alpha.push (e.mapStates (b.relabel entry exit)) } where
  two_le := h.two_le
  stateCount := h.stateCount
  epsilon := h.epsilon
  alpha := by rw [h.alpha, Array.map_push, Array.append_push]

end CopyOf

end Builder

/-! ## Operations -/

namespace Build

variable {α β γ δ : Type} {b : Builder} {entry exit : StateId}

/-- Where the first operation succeeds, the second one succeeds on the copy and makes the copy
of the result. -/
def Follows (b : Builder) (entry exit : StateId) (f : α → β) (op : Build α) (op' : Build β) :
    Prop :=
  ∀ s t, Builder.CopyOf b entry exit s t → ∀ x s', op s = .ok x s' →
    ∃ t', op' t = .ok (f x) t' ∧ Builder.CopyOf b entry exit s' t'

theorem follows_pure (f : α → β) (x : α) :
    Follows b entry exit f (pure x : Build α) (pure (f x)) := by
  intro s t hcopy y s' h
  cases h
  exact ⟨t, rfl, hcopy⟩

theorem follows_throw (f : α → β) (fault : Fault) :
    Follows b entry exit f (throw fault : Build α) (throw fault) :=
  fun _ _ _ _ _ h => nomatch h

/-- Operations in a row, of which the later ones are given what stands for a result. -/
theorem Follows.bind {f : α → β} {f' : γ → δ} {op : Build α} {op' : Build β}
    {next : α → Build γ} {next' : β → Build δ} (hop : Follows b entry exit f op op')
    (hnext : ∀ x, Follows b entry exit f' (next x) (next' (f x))) :
    Follows b entry exit f' (op >>= next) (op' >>= next') := by
  intro s t hcopy y s' h
  obtain ⟨x, s₁, hx, hy⟩ := exists_of_bind_eq_ok h
  obtain ⟨t₁, hx', hcopy₁⟩ := hop s t hcopy x s₁ hx
  obtain ⟨t', hy', hcopy'⟩ := hnext x s₁ t₁ hcopy₁ y s' hy
  exact ⟨t', by rw [bind_eq hx', hy'], hcopy'⟩

theorem follows_freshState :
    Follows b entry exit (b.relabel entry exit) freshState freshState := by
  intro s t hcopy x s' h
  cases h
  exact ⟨_, by rw [hcopy.relabel_stateCount, freshState_eq], hcopy.freshState⟩

section

variable (hentry : entry < b.stateCount) (hexit : exit < b.stateCount)
include hentry hexit

theorem follows_addEpsilon (e : EpsilonEdge) :
    Follows b entry exit id (addEpsilon e)
      (addEpsilon (e.mapStates (b.relabel entry exit))) := by
  intro s t hcopy x s' h
  obtain ⟨hstates, rfl⟩ := of_addEpsilon_eq_ok h
  exact ⟨_, addEpsilon_eq_ok (hcopy.hasStates hentry hexit hstates), hcopy.pushEpsilon e⟩

theorem follows_addAlpha (e : AlphaEdge) :
    Follows b entry exit id (addAlpha e)
      (addAlpha (e.mapStates (b.relabel entry exit))) := by
  intro s t hcopy x s' h
  obtain ⟨hstates, rfl⟩ := of_addAlpha_eq_ok h
  exact ⟨_, addAlpha_eq_ok (hcopy.hasStates hentry hexit hstates), hcopy.pushAlpha e⟩

end

end Build

/-! ## Fragments -/

namespace Fragment

open Build

variable {b : Builder} {entry exit : StateId} {F G : Fragment}

/-- Between any states of the one emission and those that stand for them in the other, the
fragment makes the same calls. -/
def Relabels (b : Builder) (entry exit : StateId) (F : Fragment) : Prop :=
  ∀ source target, Follows b entry exit id (F source target)
    (F (b.relabel entry exit source) (b.relabel entry exit target))

theorem relabels_fault (f : Fault) : (fault f).Relabels b entry exit :=
  fun _ _ => follows_throw id f

section

variable (hentry : entry < b.stateCount) (hexit : exit < b.stateCount)
include hentry hexit

theorem relabels_guarded (g : Guard) : (guarded g).Relabels b entry exit :=
  fun source target => follows_addEpsilon hentry hexit ⟨source, target, g⟩

theorem relabels_empty : empty.Relabels b entry exit := relabels_guarded hentry hexit .always

theorem relabels_symbol (c : CodeClass) : (symbol c).Relabels b entry exit :=
  fun source target => follows_addAlpha hentry hexit (.ofClass source target c)

theorem relabels_chain {parts : List Fragment} (h : ∀ F ∈ parts, F.Relabels b entry exit) :
    (chain parts).Relabels b entry exit := by
  induction parts with
  | nil => exact relabels_empty hentry hexit
  | cons first rest ih =>
    obtain ⟨hfirst, hrest⟩ := List.forall_mem_cons.mp h
    cases rest with
    | nil => exact hfirst
    | cons second rest =>
      intro source target
      refine follows_freshState.bind fun middle => ?_
      exact (hfirst source middle).bind fun _ => ih hrest middle target

omit hentry hexit in
theorem relabels_branch {parts : List Fragment} (h : ∀ F ∈ parts, F.Relabels b entry exit) :
    (branch parts).Relabels b entry exit := by
  induction parts with
  | nil => exact fun _ _ => follows_pure id ()
  | cons first rest ih =>
    obtain ⟨hfirst, hrest⟩ := List.forall_mem_cons.mp h
    exact fun source target => (hfirst source target).bind fun _ => ih hrest source target

omit hentry hexit in
theorem Relabels.copies (hF : F.Relabels b entry exit) (n : Nat) :
    ∀ source, Follows b entry exit (b.relabel entry exit) (copies F n source)
      (copies F n (b.relabel entry exit source)) := by
  induction n with
  | zero => exact fun source => follows_pure _ source
  | succ n ih =>
    intro source
    refine follows_freshState.bind fun next => ?_
    exact (hF source next).bind fun _ => ih next

theorem Relabels.optionalCopies (hF : F.Relabels b entry exit) (target : StateId) (n : Nat) :
    ∀ source, Follows b entry exit (b.relabel entry exit) (optionalCopies F target n source)
      (optionalCopies F (b.relabel entry exit target) n (b.relabel entry exit source)) := by
  induction n with
  | zero => exact fun source => follows_pure _ source
  | succ n ih =>
    intro source
    refine follows_freshState.bind fun next => ?_
    refine (relabels_empty hentry hexit source target).bind fun _ => ?_
    exact (hF source next).bind fun _ => ih next

theorem Relabels.loop (hF : F.Relabels b entry exit) : (loop F).Relabels b entry exit := by
  intro source target
  have hedge := relabels_empty hentry hexit
  refine follows_freshState.bind fun top => follows_freshState.bind fun bottom => ?_
  refine (hedge source top).bind fun _ => (hF top bottom).bind fun _ => ?_
  exact (hedge bottom top).bind fun _ => hedge top target

theorem Relabels.repetition (hF : F.Relabels b entry exit) (min : Nat) (max : Option Nat) :
    (repetition F min max).Relabels b entry exit := by
  intro source target
  refine (hF.copies min source).bind fun last => ?_
  cases max with
  | none => exact hF.loop hentry hexit last target
  | some max =>
    refine (hF.optionalCopies hentry hexit target (max - min) last).bind fun last => ?_
    exact relabels_empty hentry hexit last target

end

end Fragment

/-! ## Nodes -/

section

variable {b : Builder} {entry exit : StateId} {words : WordData}
variable (hentry : entry < b.stateCount) (hexit : exit < b.stateCount)
include hentry hexit

/-- One node makes the same calls, if its children do. -/
theorem Node.relabels {n : Node} {child : NodeId → Fragment}
    (h : ∀ c ∈ n.children, (child c).Relabels b entry exit) :
    (n.fragment words child).Relabels b entry exit := by
  cases n with
  | empty => exact Fragment.relabels_empty hentry hexit
  | slot body =>
    cases body with
    | none => exact Fragment.relabels_fault .unboundSlot
    | some body => exact h body (by simp [children])
  | concat cs => exact Fragment.relabels_chain hentry hexit (List.forall_mem_map.mpr h)
  | alternation cs => exact Fragment.relabels_branch (List.forall_mem_map.mpr h)
  | codeClass members => exact Fragment.relabels_symbol hentry hexit members
  | assertion condition => exact Fragment.relabels_guarded hentry hexit (condition.guard words)
  | repetition body min max =>
    exact (h body (by simp [children])).repetition hentry hexit min max

/-- **What is emitted for a node makes the same calls everywhere.** -/
theorem Grammar.Acyclic.relabels_emit {g : Grammar} {id : NodeId} (h : g.Acyclic id) :
    (g.emit words id).Relabels b entry exit := by
  refine h.induction fun id h ih => ?_
  cases hnode : g.nodes[id]? with
  | none =>
    rw [Grammar.emit_eq_fault words hnode]
    exact Fragment.relabels_fault _
  | some n =>
    rw [h.emit_eq words hnode]
    exact Node.relabels hentry hexit fun c hc => ih c ((Grammar.hasChild_iff hnode).mpr hc)

end

/-! ## The template of a node -/

/-- A place is read as what stands for its state. -/
theorem Place.state_ofState (b : Builder) (entry exit : StateId) {m : Nat} {x : StateId}
    (hx : x < m + 2) : (ofState m x).state b.stateCount entry exit = b.relabel entry exit x := by
  match x with
  | 0 => rfl
  | 1 => rfl
  | k + 2 =>
    have hk : k < m := Nat.lt_of_add_lt_add_right hx
    rw [ofState, dif_pos hk]
    rfl

/-- The copy of what is in a builder is made by pasting its template. -/
theorem Builder.CopyOf.eq_paste {b s t : Builder} {entry exit : StateId}
    (h : CopyOf b entry exit s t) (hs : s.build.WellFormed) :
    t = b.paste s.template entry exit := by
  have hfresh : s.template.freshStates + 2 = s.stateCount := Nat.sub_add_cancel h.two_le
  have hplace : ∀ x < s.stateCount, (Place.ofState s.template.freshStates x).state b.stateCount
      entry exit = b.relabel entry exit x :=
    fun x hx => Place.state_ofState b entry exit (hfresh.symm ▸ hx)
  have hcount : t.stateCount = b.stateCount + s.template.freshStates := by
    have hcopy := h.stateCount
    omega
  have hepsilon : t.epsilon = (b.paste s.template entry exit).epsilon := by
    refine h.epsilon.trans (congrArg (b.epsilon ++ ·) ?_)
    refine .trans (Array.map_congr_left fun e he => ?_) Array.map_map.symm
    obtain ⟨hsource, htarget⟩ := hs.epsilon_lt e (Array.mem_toList_iff.mpr he)
    exact congrArg₂ (EpsilonEdge.mk · · e.guard) (hplace _ hsource).symm (hplace _ htarget).symm
  have halpha : t.alpha = (b.paste s.template entry exit).alpha := by
    refine h.alpha.trans (congrArg (b.alpha ++ ·) ?_)
    refine .trans (Array.map_congr_left fun e he => ?_) Array.map_map.symm
    obtain ⟨hsource, htarget⟩ := hs.alpha_lt e (Array.mem_toList_iff.mpr he)
    exact congrArg₂ (AlphaEdge.mk · · e.accepts) (hplace _ hsource).symm (hplace _ htarget).symm
  obtain ⟨epsilon, alpha, stateCount⟩ := t
  exact (Builder.mk.injEq ..).mpr ⟨hepsilon, halpha, hcount⟩

namespace Grammar

/-- **Emission by template.**  For a usable node there is one template --- a number of fresh
states, and edges between the entry, the exit and these --- such that the node, emitted into any
builder between any of its states, succeeds, allocates that many states and appends exactly those
edges in their order, with the `k`-th fresh state read as the `k`-th one behind the states of the
builder. -/
theorem Usable.emit_pastes_template {g : Grammar} {id : NodeId} (h : g.Usable id)
    (words : WordData) :
    ∃ T : Template, ∀ (b : Builder) (entry exit : StateId),
      entry < b.stateCount → exit < b.stateCount →
        g.emit words id entry exit b = .ok () (b.paste T entry exit) := by
  obtain ⟨s, hemit, hgain⟩ := h.realizes words Builder.empty Automaton.source
    Automaton.target Builder.wellFormed_empty (by decide) (by decide)
  refine ⟨s.template, fun b entry exit hentry hexit => ?_⟩
  have hrelabels : (g.emit words id).Relabels b entry exit :=
    h.acyclic.relabels_emit hentry hexit
  obtain ⟨t, ht, hcopy⟩ := hrelabels Automaton.source Automaton.target Builder.empty b
    (Builder.copyOf_empty b entry exit) () s hemit
  rw [hcopy.eq_paste hgain.wellFormed] at ht
  exact ht

/-- The loop over a slot takes two fresh states, in the empty builder and from a state to itself
in the cyclic one. -/
theorem Usable.emit_pastes_template_sharedSlot :
    (sharedSlot.Usable 2 ∧ 2 < Builder.cyclic.stateCount) ∧
      ∃ T : Template, T.freshStates = 2 ∧
        sharedSlot.emit .missing 2 0 1 Builder.empty = .ok () (Builder.empty.paste T 0 1) ∧
        sharedSlot.emit .missing 2 2 2 Builder.cyclic = .ok () (Builder.cyclic.paste T 2 2) := by
  have hloop : sharedSlot.HasChild 3 2 := List.mem_cons_self
  have husable : sharedSlot.Usable 2 := usable_sharedSlot.of_hasChild hloop
  have hstate : 2 < Builder.cyclic.stateCount := by decide
  obtain ⟨T, hT⟩ := husable.emit_pastes_template .missing
  have hempty := hT Builder.empty 0 1 (by decide) (by decide)
  have hfresh : 2 + T.freshStates = 4 := by
    obtain ⟨b, hemit, hcount⟩ : ∃ b, sharedSlot.emit .missing 2 0 1 Builder.empty = .ok () b ∧
        b.stateCount = 4 := ⟨_, rfl, rfl⟩
    rw [hempty] at hemit
    cases hemit
    exact hcount
  exact ⟨⟨husable, hstate⟩, T, by omega, hempty, hT Builder.cyclic 2 2 hstate hstate⟩

end Grammar
end GuardedAutomata
