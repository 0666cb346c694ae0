import GuardedAutomata.Proofs.Unfolding

/-!
# What holds of every operation

An operation on a builder is put together from three calls --- a fresh state, an epsilon
edge, an alpha edge --- by running one operation after the other.  How an operation in a
row can end is said once for all states that are handed on (`exists_of_bind_eq_ok`,
`of_bind_eq_error`), and how a call can end once for each call.

So a property that holds of the calls and is kept by sequencing is `Build.Closed`, and it
holds of every fragment whose parts have it.  Some properties hold of an edge only between
certain states.  `Build.ClosedBetween` says which states may be left and which may be
entered; a fresh state may be both, and that is all a fragment needs to know of the states
between its parts.  Along the children of a node the property goes up to whatever is
emitted for the node (`Build.ClosedBetween.emit`, `Build.Closed.emit`).  Two faults that no
call makes have to be looked at apart: emission can come to a node that does not exist, and
to a slot without a body.  No cycle is reached below an acyclic node, so the depth of the
emission is no third one.
-/

namespace GuardedAutomata

/-! ## One operation after another -/

section

variable {ε σ α β : Type} {op : EStateM ε σ α} {next : α → EStateM ε σ β} {s s' : σ}

/-- Two operations succeed in a row only if both do. -/
theorem exists_of_bind_eq_ok {y : β} (h : (op >>= next) s = .ok y s') :
    ∃ x s₁, op s = .ok x s₁ ∧ next x s₁ = .ok y s' := by
  change EStateM.bind op next s = _ at h
  rw [EStateM.bind] at h
  cases hop : op s with
  | ok x s₁ =>
    rw [hop] at h
    exact ⟨x, s₁, rfl, h⟩
  | error e s₁ =>
    rw [hop] at h
    nomatch h

theorem of_bind_eq_error {e : ε} (h : (op >>= next) s = .error e s') :
    op s = .error e s' ∨ ∃ x s₁, op s = .ok x s₁ ∧ next x s₁ = .error e s' := by
  change EStateM.bind op next s = _ at h
  rw [EStateM.bind] at h
  cases hop : op s with
  | ok x s₁ =>
    rw [hop] at h
    exact .inr ⟨x, s₁, rfl, h⟩
  | error e' s₁ =>
    rw [hop] at h
    cases h
    exact .inl rfl

end

/-! ## Calls -/

namespace Build

variable {b b' : Builder} {x : Unit} {fault : Fault}

/-- An epsilon edge is added only between allocated states, behind those that are there. -/
theorem of_addEpsilon_eq_ok {e : EpsilonEdge} (h : addEpsilon e b = .ok x b') :
    b.hasStates e.source e.target = true ∧ { b with epsilon := b.epsilon.push e } = b' := by
  by_cases he : b.hasStates e.source e.target = true
  · rw [addEpsilon_eq_ok he] at h
    cases h
    exact ⟨he, rfl⟩
  · rw [addEpsilon_eq_error he] at h
    nomatch h

/-- An epsilon edge is rejected for a state that is not allocated, and leaves the builder as
it was. -/
theorem of_addEpsilon_eq_error {e : EpsilonEdge} (h : addEpsilon e b = .error fault b') :
    ¬b.hasStates e.source e.target = true ∧
      .unallocatedState e.source e.target b.stateCount = fault ∧ b = b' := by
  by_cases he : b.hasStates e.source e.target = true
  · rw [addEpsilon_eq_ok he] at h
    nomatch h
  · rw [addEpsilon_eq_error he] at h
    cases h
    exact ⟨he, rfl, rfl⟩

theorem of_addAlpha_eq_ok {e : AlphaEdge} (h : addAlpha e b = .ok x b') :
    b.hasStates e.source e.target = true ∧ { b with alpha := b.alpha.push e } = b' := by
  by_cases he : b.hasStates e.source e.target = true
  · rw [addAlpha_eq_ok he] at h
    cases h
    exact ⟨he, rfl⟩
  · rw [addAlpha_eq_error he] at h
    nomatch h

theorem of_addAlpha_eq_error {e : AlphaEdge} (h : addAlpha e b = .error fault b') :
    ¬b.hasStates e.source e.target = true ∧
      .unallocatedState e.source e.target b.stateCount = fault ∧ b = b' := by
  by_cases he : b.hasStates e.source e.target = true
  · rw [addAlpha_eq_ok he] at h
    nomatch h
  · rw [addAlpha_eq_error he] at h
    cases h
    exact ⟨he, rfl, rfl⟩

end Build

/-! ## Closed properties -/

/-- The property holds of every call on a builder, and of one operation after another if
it holds of both. -/
structure Build.Closed (P : ∀ {α : Type}, Build α → Prop) : Prop where
  pure : ∀ {α : Type} (x : α), P (pure x : Build α)
  bind : ∀ {α β : Type} {op : Build α} {next : α → Build β}, P op → (∀ x, P (next x)) →
    P (op >>= next)
  freshState : P Build.freshState
  addEpsilon : ∀ e, P (Build.addEpsilon e)
  addAlpha : ∀ e, P (Build.addAlpha e)

/-- The same of edges that leave states with `S` and enter states with `T`, where a fresh
state may be left and entered. -/
structure Build.ClosedBetween (S T : StateId → Prop) (P : ∀ {α : Type}, Build α → Prop) :
    Prop where
  pure : ∀ {α : Type} (x : α), P (pure x : Build α)
  bind : ∀ {α β : Type} {op : Build α} {next : α → Build β}, P op → (∀ x, P (next x)) →
    P (op >>= next)
  freshState_bind : ∀ {α : Type} {next : StateId → Build α}, (∀ s, S s → T s → P (next s)) →
    P (Build.freshState >>= next)
  addEpsilon : ∀ e : EpsilonEdge, S e.source → T e.target → P (Build.addEpsilon e)
  addAlpha : ∀ e : AlphaEdge, S e.source → T e.target → P (Build.addAlpha e)

/-- The property holds of the fragment from every state with `S` to every state with `T`. -/
def Fragment.HasBetween (S T : StateId → Prop) (P : ∀ {α : Type}, Build α → Prop)
    (F : Fragment) : Prop :=
  ∀ entry exit, S entry → T exit → P (F entry exit)

namespace Build.ClosedBetween

variable {S T : StateId → Prop} {P : ∀ {α : Type}, Build α → Prop} {body : Fragment}
  {words : WordData} {α : Type}

theorem empty (hP : ClosedBetween S T P) : Fragment.empty.HasBetween S T P :=
  fun _ _ hentry hexit => hP.addEpsilon _ hentry hexit

theorem chain (hP : ClosedBetween S T P) {parts : List Fragment}
    (h : ∀ F ∈ parts, F.HasBetween S T P) : (Fragment.chain parts).HasBetween S T P := by
  induction parts with
  | nil => exact hP.empty
  | cons first rest ih =>
    have hfirst := h first List.mem_cons_self
    have hrest := ih fun F hF => h F (List.mem_cons_of_mem _ hF)
    cases rest with
    | nil => exact hfirst
    | cons second rest =>
      intro entry exit hentry hexit
      refine hP.freshState_bind fun middle hleave henter => ?_
      exact hP.bind (hfirst entry middle hentry henter) fun _ => hrest middle exit hleave hexit

theorem branch (hP : ClosedBetween S T P) {parts : List Fragment}
    (h : ∀ F ∈ parts, F.HasBetween S T P) : (Fragment.branch parts).HasBetween S T P := by
  induction parts with
  | nil => exact fun _ _ _ _ => hP.pure ()
  | cons first rest ih =>
    have hfirst := h first List.mem_cons_self
    have hrest := ih fun F hF => h F (List.mem_cons_of_mem _ hF)
    intro entry exit hentry hexit
    exact hP.bind (hfirst entry exit hentry hexit) fun _ => hrest entry exit hentry hexit

/-- What comes after copies goes on from a state that may be left. -/
theorem copies_bind (hP : ClosedBetween S T P) (h : body.HasBetween S T P) (n : Nat)
    {next : StateId → Build α} (hnext : ∀ last, S last → P (next last)) :
    ∀ entry, S entry → P (Fragment.copies body n entry >>= next) := by
  induction n with
  | zero => exact hnext
  | succ n ih =>
    intro entry hentry
    simp only [Fragment.copies, bind_assoc]
    refine hP.freshState_bind fun s hleave henter => ?_
    exact hP.bind (h entry s hentry henter) fun _ => ih s hleave

theorem optionalCopies_bind (hP : ClosedBetween S T P) (h : body.HasBetween S T P)
    {exit : StateId} (hexit : T exit) (n : Nat) {next : StateId → Build α}
    (hnext : ∀ last, S last → P (next last)) :
    ∀ entry, S entry → P (Fragment.optionalCopies body exit n entry >>= next) := by
  induction n with
  | zero => exact hnext
  | succ n ih =>
    intro entry hentry
    simp only [Fragment.optionalCopies, bind_assoc]
    refine hP.freshState_bind fun s hleave henter => ?_
    refine hP.bind (hP.empty entry exit hentry hexit) fun _ => ?_
    exact hP.bind (h entry s hentry henter) fun _ => ih s hleave

theorem loop (hP : ClosedBetween S T P) (h : body.HasBetween S T P) :
    (Fragment.loop body).HasBetween S T P := by
  intro entry exit hentry hexit
  refine hP.freshState_bind fun top hleaveTop henterTop => ?_
  refine hP.freshState_bind fun bottom hleaveBottom henterBottom => ?_
  refine hP.bind (hP.empty entry top hentry henterTop) fun _ => ?_
  refine hP.bind (h top bottom hleaveTop henterBottom) fun _ => ?_
  refine hP.bind (hP.empty bottom top hleaveBottom henterTop) fun _ => ?_
  exact hP.empty top exit hleaveTop hexit

theorem repetition (hP : ClosedBetween S T P) (h : body.HasBetween S T P) (min : Nat)
    (max : Option Nat) : (Fragment.repetition body min max).HasBetween S T P := by
  intro entry exit hentry hexit
  refine hP.copies_bind h min (fun last hlast => ?_) entry hentry
  cases max with
  | none => exact hP.loop h last exit hlast hexit
  | some max =>
    refine hP.optionalCopies_bind h hexit (max - min) (fun last hlast => ?_) last hlast
    exact hP.empty last exit hlast hexit

/-- The property goes up from the children of a node to the node. -/
theorem fragment (hP : ClosedBetween S T P) (hunbound : P (throw Fault.unboundSlot : Build Unit))
    {n : Node} {child : NodeId → Fragment} (h : ∀ c ∈ n.children, (child c).HasBetween S T P) :
    (n.fragment words child).HasBetween S T P := by
  cases n with
  | empty => exact hP.empty
  | slot body =>
    cases body with
    | none => exact fun _ _ _ _ => hunbound
    | some body => exact h body (by simp [Node.children])
  | concat cs => exact hP.chain (List.forall_mem_map.mpr h)
  | alternation cs => exact hP.branch (List.forall_mem_map.mpr h)
  | codeClass members => exact fun _ _ hentry hexit => hP.addAlpha _ hentry hexit
  | assertion condition => exact fun _ _ hentry hexit => hP.addEpsilon _ hentry hexit
  | repetition body min max => exact hP.repetition (h body (by simp [Node.children])) min max

theorem emit (hP : ClosedBetween S T P) {g : Grammar} {id : NodeId} (hacyclic : g.Acyclic id)
    (hmissing : ∀ id, P (throw (Fault.indexOutOfBounds g.size id) : Build Unit))
    (hunbound : P (throw Fault.unboundSlot : Build Unit)) :
    (g.emit words id).HasBetween S T P := by
  refine hacyclic.induction fun id hid ih => ?_
  cases hnode : g.nodes[id]? with
  | none =>
    rw [Grammar.emit_eq_fault words hnode]
    exact fun _ _ _ _ => hmissing id
  | some n =>
    rw [hid.emit_eq words hnode]
    exact hP.fragment hunbound fun c hc => ih c ((Grammar.hasChild_iff hnode).mpr hc)

end Build.ClosedBetween

namespace Build.Closed

variable {P : ∀ {α : Type}, Build α → Prop} {words : WordData}

/-- A property of all edges is one of the edges between any states. -/
theorem between (hP : Closed P) : ClosedBetween (fun _ => True) (fun _ => True) P where
  pure := hP.pure
  bind := hP.bind
  freshState_bind hnext := hP.bind hP.freshState fun s => hnext s trivial trivial
  addEpsilon e _ _ := hP.addEpsilon e
  addAlpha e _ _ := hP.addAlpha e

/-- The property holds of what is emitted for a node that has no cycle below it. -/
theorem emit (hP : Closed P) {g : Grammar} {id : NodeId} (hacyclic : g.Acyclic id)
    (hmissing : ∀ id, P (throw (Fault.indexOutOfBounds g.size id) : Build Unit))
    (hunbound : P (throw Fault.unboundSlot : Build Unit)) :
    ∀ entry exit, P (g.emit words id entry exit) :=
  fun entry exit => hP.between.emit hacyclic hmissing hunbound entry exit trivial trivial

end Build.Closed
end GuardedAutomata
