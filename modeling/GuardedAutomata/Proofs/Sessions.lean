import GuardedAutomata.Proofs.CycleCheck
import GuardedAutomata.Proofs.Matching

/-!
# Builders that outlive faults

A call that faults leaves a builder behind, and the builder can be used further.  A single
rejected edge leaves no trace, but a node is emitted piece by piece, and a fault in the
middle leaves the pieces before it: fresh states, edges, some of them on no way to the
exit.  A *session* is any number of calls in a row, each of which goes on from the builder
that the one before left, in whatever way that one ended.

What holds all through a session is what one operation keeps (`Build.Keeps`), and that is a
question about three calls only:

* a property of builders that is kept by a fresh state and by an edge between allocated
  states is kept by every operation that is put together from these, however it ends
  (`Build.closed_keeps`);
* being `Builder.Constructed` is such a property, and so is extending a given builder ---
  no fewer states, and its edges in front, in their order.

So a session only ever leads to constructed builders, each of which extends all before it,
and the automaton of a constructed builder can be matched against every text
(`Builder.session_invariant`).
-/

namespace GuardedAutomata

/-! ## What an operation leaves behind -/

namespace Build

variable {α β : Type} {b b' : Builder}

/-- The builder that an operation leaves, whether it succeeds or faults. -/
def leaves (op : Build α) (b : Builder) : Builder :=
  match op b with
  | .ok _ b' => b'
  | .error _ b' => b'

theorem leaves_of_ok {op : Build α} {x : α} (h : op b = .ok x b') : op.leaves b = b' := by
  rw [leaves, h]

theorem leaves_of_error {op : Build α} {fault : Fault} (h : op b = .error fault b') :
    op.leaves b = b' := by
  rw [leaves, h]

/-- The operation keeps a property of builders, however it ends. -/
def Keeps (I : Builder → Prop) (op : Build α) : Prop := ∀ b, I b → I (op.leaves b)

/-- Operations in a row keep what each of them keeps. -/
theorem Keeps.bind {I : Builder → Prop} {op : Build α} {next : α → Build β} (hop : op.Keeps I)
    (hnext : ∀ x, (next x).Keeps I) : (op >>= next).Keeps I := by
  intro b hb
  have hfirst := hop b hb
  cases h : (op >>= next) b with
  | ok y b' =>
    obtain ⟨x, b₁, hx, hy⟩ := exists_of_bind_eq_ok h
    rw [leaves_of_ok hx] at hfirst
    have hrest := hnext x b₁ hfirst
    rw [leaves_of_ok hy] at hrest
    rwa [leaves_of_ok h]
  | error fault b' =>
    rw [leaves_of_error h]
    rcases of_bind_eq_error h with hfault | ⟨x, b₁, hx, hfault⟩
    · rwa [leaves_of_error hfault] at hfirst
    · rw [leaves_of_ok hx] at hfirst
      have hrest := hnext x b₁ hfirst
      rwa [leaves_of_error hfault] at hrest

theorem keeps_addEpsilon {I : Builder → Prop} {e : EpsilonEdge}
    (h : ∀ b, b.hasStates e.source e.target = true → I b →
      I { b with epsilon := b.epsilon.push e }) : (addEpsilon e).Keeps I := by
  intro b hb
  by_cases he : b.hasStates e.source e.target = true
  · rw [leaves_of_ok (addEpsilon_eq_ok he)]
    exact h b he hb
  · rwa [leaves_of_error (addEpsilon_eq_error he)]

theorem keeps_addAlpha {I : Builder → Prop} {e : AlphaEdge}
    (h : ∀ b, b.hasStates e.source e.target = true → I b →
      I { b with alpha := b.alpha.push e }) : (addAlpha e).Keeps I := by
  intro b hb
  by_cases he : b.hasStates e.source e.target = true
  · rw [leaves_of_ok (addAlpha_eq_ok he)]
    exact h b he hb
  · rwa [leaves_of_error (addAlpha_eq_error he)]

/-- What a fresh state and an edge between allocated states keep, every operation keeps. -/
theorem closed_keeps {I : Builder → Prop}
    (hstate : ∀ b, I b → I { b with stateCount := b.stateCount + 1 })
    (hepsilon : ∀ b e, b.hasStates e.source e.target = true → I b →
      I { b with epsilon := b.epsilon.push e })
    (halpha : ∀ b e, b.hasStates e.source e.target = true → I b →
      I { b with alpha := b.alpha.push e }) : Closed (Keeps I) where
  pure _ _ hb := hb
  bind hop hnext := hop.bind hnext
  freshState b hb := hstate b hb
  addEpsilon e := keeps_addEpsilon fun b => hepsilon b e
  addAlpha e := keeps_addAlpha fun b => halpha b e

end Build

namespace Builder

/-- The builder has no fewer states than another, and the edges of that one in front of its
own. -/
structure Extends (b' b : Builder) : Prop where
  stateCount_le : b.stateCount ≤ b'.stateCount
  epsilon_prefix : b.epsilon.toList <+: b'.epsilon.toList
  alpha_prefix : b.alpha.toList <+: b'.alpha.toList

namespace Extends

variable {b b' : Builder}

theorem refl (b : Builder) : b.Extends b where
  stateCount_le := Nat.le_refl _
  epsilon_prefix := List.prefix_rfl
  alpha_prefix := List.prefix_rfl

theorem freshState (h : b'.Extends b) :
    ({ b' with stateCount := b'.stateCount + 1 } : Builder).Extends b :=
  ⟨Nat.le_succ_of_le h.stateCount_le, h.epsilon_prefix, h.alpha_prefix⟩

theorem pushEpsilon (h : b'.Extends b) (e : EpsilonEdge) :
    ({ b' with epsilon := b'.epsilon.push e } : Builder).Extends b := by
  refine ⟨h.stateCount_le, ?_, h.alpha_prefix⟩
  rw [Array.toList_push]
  exact h.epsilon_prefix.trans (List.prefix_append _ _)

theorem pushAlpha (h : b'.Extends b) (e : AlphaEdge) :
    ({ b' with alpha := b'.alpha.push e } : Builder).Extends b := by
  refine ⟨h.stateCount_le, h.epsilon_prefix, ?_⟩
  rw [Array.toList_push]
  exact h.alpha_prefix.trans (List.prefix_append _ _)

end Extends

theorem closed_constructed : Build.Closed (Build.Keeps Constructed) :=
  Build.closed_keeps (fun _ hb => hb.freshState rfl)
    (fun _ _ he hb => hb.addEpsilon (Build.addEpsilon_eq_ok he))
    (fun _ _ he hb => hb.addAlpha (Build.addAlpha_eq_ok he))

theorem closed_extends (b : Builder) : Build.Closed (Build.Keeps fun b' => b'.Extends b) :=
  Build.closed_keeps (fun _ h => h.freshState) (fun _ e _ h => h.pushEpsilon e)
    (fun _ e _ h => h.pushAlpha e)

end Builder

/-! ## Calls -/

/-- A call on a builder.  Endpoints may be any numbers, and a node may depend on nodes that
do not exist and on slots without a body, but not on itself. -/
inductive Call where
  | freshState
  | epsilon (source target : StateId)
  | anchor (source target : StateId) (index : Int)
  | guard (source target : StateId) (predicate : Text → Bool)
  | literal (source target : StateId) (c : Char)
  | alpha (source target : StateId) (accepts : UInt32 → Bool)
  | addEpsilon (e : EpsilonEdge)
  | addAlpha (e : AlphaEdge)
  | emit (words : WordData) (g : Grammar) (id : NodeId) (acyclic : g.Acyclic id)
      (entry exit : StateId)

namespace Call

/-- What a call does. -/
def operation : Call → Build Unit
  | .freshState => do
      let _ ← Build.freshState
      return ()
  | .epsilon source target => Build.epsilon source target
  | .anchor source target index => Build.anchor source target index
  | .guard source target predicate => Build.guard source target predicate
  | .literal source target c => Build.literal source target c
  | .alpha source target accepts => Build.alpha source target accepts
  | .addEpsilon e => Build.addEpsilon e
  | .addAlpha e => Build.addAlpha e
  | .emit words g id _ entry exit => g.emit words id entry exit

/-- The states that a call is to join, if it is a call for a single edge. -/
def ends? : Call → Option (StateId × StateId)
  | .freshState | .emit .. => none
  | .epsilon source target | .anchor source target _ | .guard source target _
  | .literal source target _ | .alpha source target _ => some (source, target)
  | .addEpsilon e => some (e.source, e.target)
  | .addAlpha e => some (e.source, e.target)

/-- What holds of every call, and of the two faults that emission has of its own, holds of
whatever a call does. -/
theorem operation_of_closed {P : ∀ {α : Type}, Build α → Prop} (hP : Build.Closed P)
    (hmissing : ∀ size id, P (throw (Fault.indexOutOfBounds size id) : Build Unit))
    (hunbound : P (throw Fault.unboundSlot : Build Unit)) (call : Call) : P call.operation := by
  cases call with
  | freshState => exact hP.bind hP.freshState fun _ => hP.pure ()
  | epsilon | anchor | guard | addEpsilon => exact hP.addEpsilon _
  | literal | alpha | addAlpha => exact hP.addAlpha _
  | emit words g id acyclic entry exit =>
    exact hP.emit acyclic (hmissing g.size) hunbound entry exit

/-- A call keeps what operations keep. -/
theorem keeps_operation {I : Builder → Prop} (h : Build.Closed (Build.Keeps I)) (call : Call) :
    call.operation.Keeps I :=
  call.operation_of_closed h (fun _ _ _ hb => hb) (fun _ hb => hb)

/-- An edge between allocated states is added, and any other is rejected without a trace. -/
theorem operation_of_ends {call : Call} {source target : StateId}
    (hends : call.ends? = some (source, target)) (b : Builder) :
    (b.hasStates source target = true → ∃ b', call.operation b = .ok () b') ∧
      (¬b.hasStates source target = true →
        call.operation b = .error (.unallocatedState source target b.stateCount) b) := by
  cases call with
  | freshState | emit => nomatch hends
  | epsilon | anchor | guard | addEpsilon =>
    cases hends
    exact ⟨fun he => ⟨_, Build.addEpsilon_eq_ok he⟩, fun he => Build.addEpsilon_eq_error he⟩
  | literal | alpha | addAlpha =>
    cases hends
    exact ⟨fun he => ⟨_, Build.addAlpha_eq_ok he⟩, fun he => Build.addAlpha_eq_error he⟩

end Call

/-- The fault is one that a caller brings about: an edge to a state that is not allocated,
a node that does not exist, or a slot without a body. -/
inductive Fault.OfCaller : Fault → Prop where
  | unallocatedState (source target stateCount : Nat) :
      OfCaller (.unallocatedState source target stateCount)
  | missingNode (size id : Nat) : OfCaller (.indexOutOfBounds size id)
  | unboundSlot : OfCaller .unboundSlot

theorem Build.closed_ofCaller :
    Closed fun op => ∀ b fault b', op b = .error fault b' → fault.OfCaller where
  pure _ _ _ _ h := nomatch h
  bind hop hnext b fault b' h := by
    rcases of_bind_eq_error h with hfirst | ⟨x, b₁, -, hrest⟩
    · exact hop b fault b' hfirst
    · exact hnext x b₁ fault b' hrest
  freshState _ _ _ h := nomatch h
  addEpsilon _ _ _ _ h := by
    obtain ⟨-, rfl, -⟩ := of_addEpsilon_eq_error h
    exact .unallocatedState _ _ _
  addAlpha _ _ _ _ h := by
    obtain ⟨-, rfl, -⟩ := of_addAlpha_eq_error h
    exact .unallocatedState _ _ _

theorem Call.fault_ofCaller (call : Call) {b b' : Builder} {fault : Fault}
    (h : call.operation b = .error fault b') : fault.OfCaller := by
  refine call.operation_of_closed Build.closed_ofCaller ?_ ?_ b fault b' h
  · rintro size id _ _ _ ⟨⟩
    exact .missingNode size id
  · rintro _ _ _ ⟨⟩
    exact .unboundSlot

/-! ## Sessions -/

namespace Builder

/-- The builder after a number of calls in a row, none of which stops the others. -/
def session (b : Builder) : List Call → Builder
  | [] => b
  | call :: later => (call.operation.leaves b).session later

@[simp] theorem session_nil (b : Builder) : b.session [] = b := rfl

@[simp] theorem session_cons (b : Builder) (call : Call) (later : List Call) :
    b.session (call :: later) = (call.operation.leaves b).session later := rfl

/-- A session keeps what operations keep. -/
theorem session_keeps {I : Builder → Prop} (h : Build.Closed (Build.Keeps I)) {b : Builder}
    (hb : I b) (calls : List Call) : I (b.session calls) := by
  induction calls generalizing b with
  | nil => exact hb
  | cons call later ih => exact ih (call.keeps_operation h b hb)

/-- **What holds all through a session.**  After any calls, in whatever way they ended,
there are at least the source and the target, and every edge joins allocated states.  Later
calls take away no state, and keep the edges where they are.  A call for a single edge adds
it or, exactly if one of its states is not allocated, faults and leaves the builder as it
was; and no call faults for anything but its own endpoints and nodes.  The automaton can be
matched against every text without a fault: the match reads no entry outside a table, asks
for no bit beyond the word, reads nothing behind the text and does not move the cursor out
of it. -/
theorem session_invariant (earlier later : List Call) :
    let b := empty.session earlier
    b.build.WellFormed ∧ (b.session later).Extends b ∧
      (∀ (call : Call) (source target : StateId), call.ends? = some (source, target) →
        (source < b.stateCount ∧ target < b.stateCount → ∃ b', call.operation b = .ok () b') ∧
          (¬(source < b.stateCount ∧ target < b.stateCount) →
            call.operation b = .error (.unallocatedState source target b.stateCount) b)) ∧
      (∀ (call : Call) (fault : Fault) (b' : Builder), call.operation b = .error fault b' →
        fault.OfCaller) ∧
      ∀ t, ∃ o, b.build.run t = .ok o ∧ o.text.values = t.values ∧ o.text.cursor = t.length := by
  intro b
  have hwell : b.build.WellFormed := (session_keeps closed_constructed .empty earlier).wellFormed
  have hextends : (b.session later).Extends b := session_keeps (closed_extends b) (.refl b) later
  refine ⟨hwell, hextends, fun call source target hends => ?_,
    fun call fault b' h => call.fault_ofCaller h, fun t => ?_⟩
  · rw [← hasStates_iff]
    exact call.operation_of_ends hends b
  · obtain ⟨o, hout, hrun, -⟩ := Automaton.exists_outcome hwell t
    refine ⟨o, hrun, ?_, ?_⟩
    · rw [hout.text]
      rfl
    · rw [hout.text]
      rfl

end Builder

/-- A code point, and then a node that does not exist. -/
def Grammar.unfinished : Grammar := ⟨#[.codeClass .any, .concat [0, 9]]⟩

theorem Grammar.of_hasChild_unfinished {id child : NodeId} (h : unfinished.HasChild id child) :
    id = 1 ∧ child ∈ [0, 9] :=
  match id with
  | 0 => nomatch h
  | 1 => ⟨rfl, h⟩
  | id + 2 => by
    rw [HasChild, childrenOf_of_size_le (Nat.le_add_left 2 id)] at h
    exact absurd h List.not_mem_nil

theorem Grammar.acyclic_unfinished : unfinished.Acyclic 1 := by
  intro id _ hbelow
  obtain ⟨child, hfirst, hback⟩ := Relation.TransGen.head'_iff.mp hbelow
  obtain ⟨rfl, hchild⟩ := of_hasChild_unfinished hfirst
  have hne : child ≠ 1 := by
    rintro rfl
    exact absurd hchild (by decide)
  rcases Relation.ReflTransGen.cases_head hback with heq | ⟨_, hnext, -⟩
  · exact hne heq
  · exact hne (of_hasChild_unfinished hnext).1

/-- The call that emits it from the source to the target, and faults half-way. -/
def Call.emitUnfinished : Call := .emit .missing .unfinished 1 Grammar.acyclic_unfinished 0 1

/-- After that call, an edge to a state that nobody allocated, and then an edge from the state
that the emission left behind. -/
def Call.interrupted : List Call := [emitUnfinished, .epsilon 2 7, .epsilon 2 1]

/-- The session goes on from what the faults left. -/
theorem Builder.session_invariant_interrupted :
    let b := empty.session Call.interrupted
    (b.stateCount = 3 ∧ b.build.WellFormed) ∧
      (¬(2 < b.stateCount ∧ 7 < b.stateCount) ∧
        (Call.epsilon 2 7).operation b = .error (.unallocatedState 2 7 3) b) ∧
      (∃ b', Call.emitUnfinished.operation b = .error (.indexOutOfBounds 2 9) b' ∧
        Fault.OfCaller (.indexOutOfBounds 2 9)) ∧
      ∃ o, b.build.run (.ofString "a") = .ok o := by
  intro b
  obtain ⟨hwell, -, hends, hfaults, hrun⟩ := session_invariant Call.interrupted []
  have hstates : ¬(2 < b.stateCount ∧ 7 < b.stateCount) := by decide
  obtain ⟨o, ho, -⟩ := hrun (.ofString "a")
  exact ⟨⟨rfl, hwell⟩, ⟨hstates, (hends (.epsilon 2 7) 2 7 rfl).2 hstates⟩,
    ⟨_, rfl, hfaults Call.emitUnfinished _ _ rfl⟩, o, ho⟩

end GuardedAutomata
