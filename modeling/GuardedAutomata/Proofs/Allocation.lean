import GuardedAutomata.Proofs.TreeFragments

/-!
# How many states are allocated

Only fresh states count, and how many an operation asks for does not depend on the
builder.  `Build.Allocates` says so of an operation that succeeds; the numbers of
operations in a row add up.  Each way to put fragments together has its own count, and
along the tree of a pattern they make `Pattern.freshStates`.

The result is exact: an automaton has the source, the target, the states of its pattern,
and six more if it is one of a search (`Pattern.stateCount_of_compile`).
-/

namespace GuardedAutomata

/-! ## Operations -/

namespace Build

variable {α β : Type}

/-- If the operation succeeds, it has allocated the given number of states. -/
def Allocates (op : Build α) (n : Nat) : Prop :=
  ∀ b x b', op b = .ok x b' → b'.stateCount = b.stateCount + n

theorem allocates_pure (x : α) : Allocates (pure x : Build α) 0 := by
  intro b y b' h
  cases h
  rfl

theorem allocates_freshState : Allocates freshState 1 := by
  intro b s b' h
  cases h
  rfl

theorem allocates_addEpsilon (e : EpsilonEdge) : Allocates (addEpsilon e) 0 := by
  intro b x b' h
  obtain ⟨-, rfl⟩ := of_addEpsilon_eq_ok h
  rfl

theorem allocates_addAlpha (e : AlphaEdge) : Allocates (addAlpha e) 0 := by
  intro b x b' h
  obtain ⟨-, rfl⟩ := of_addAlpha_eq_ok h
  rfl

/-- Operations in a row allocate the sum. -/
theorem Allocates.bind {op : Build α} {next : α → Build β} {m n : Nat} (hop : op.Allocates m)
    (hnext : ∀ x, (next x).Allocates n) : (op >>= next).Allocates (m + n) := by
  intro b y b' h
  obtain ⟨x, b₁, hb, hb'⟩ := exists_of_bind_eq_ok h
  have hfirst := hop b x b₁ hb
  have hrest := hnext x b₁ y b' hb'
  omega

theorem Allocates.congr {op : Build α} {m n : Nat} (h : op.Allocates m) (heq : m = n) :
    op.Allocates n :=
  heq ▸ h

end Build

/-! ## Fragments -/

namespace Fragment

/-- Between whatever states, the fragment allocates the given number of states. -/
def Allocates (F : Fragment) (n : Nat) : Prop := ∀ entry exit, (F entry exit).Allocates n

/-- The states for copies of a fragment, and for going on from each copy. -/
def repeatedStates (body min : Nat) : Option Nat → Nat
  | none => (body + 1) * min + (body + 2)
  | some max => (body + 1) * (min + (max - min))

variable {F G : Fragment} {m n : Nat}

theorem allocates_empty : Allocates empty 0 := fun _ _ => Build.allocates_addEpsilon _

theorem allocates_guarded (g : Guard) : Allocates (guarded g) 0 :=
  fun _ _ => Build.allocates_addEpsilon _

theorem allocates_symbol (c : CodeClass) : Allocates (symbol c) 0 :=
  fun _ _ => Build.allocates_addAlpha _

/-- A fragment before a chain takes one state to go on from. -/
theorem Allocates.chain_cons {rest : List Fragment} (hF : F.Allocates m)
    (hrest : (chain (G :: rest)).Allocates n) : (chain (F :: G :: rest)).Allocates (m + n + 1) := by
  intro entry exit
  have hboth := fun middle => (hF entry middle).bind fun _ => hrest middle exit
  exact (Build.allocates_freshState.bind hboth).congr (Nat.add_comm _ _)

/-- A chain of fragments without states of their own takes a state between neighbours. -/
theorem allocates_chain_of_zero {parts : List Fragment} (h : ∀ F ∈ parts, F.Allocates 0) :
    (chain parts).Allocates (parts.length - 1) := by
  induction parts with
  | nil => exact allocates_empty
  | cons first rest ih =>
    have hfirst := h first List.mem_cons_self
    have hrest := ih fun F hF => h F (List.mem_cons_of_mem _ hF)
    cases rest with
    | nil => exact hfirst
    | cons second rest =>
      have hchain := hfirst.chain_cons hrest
      simp only [List.length_cons] at hchain ⊢
      exact fun entry exit => (hchain entry exit).congr (by omega)

/-- Branches share their ends. -/
theorem Allocates.branch_cons {rest : List Fragment} (hF : F.Allocates m)
    (hrest : (branch rest).Allocates n) : (branch (F :: rest)).Allocates (m + n) :=
  fun entry exit => (hF entry exit).bind fun _ => hrest entry exit

theorem Allocates.copies (hF : F.Allocates n) (k : Nat) :
    ∀ entry, (copies F k entry).Allocates ((n + 1) * k) := by
  induction k with
  | zero => exact fun entry => Build.allocates_pure entry
  | succ k ih =>
    intro entry
    have hcopy := fun next => (hF entry next).bind fun _ => ih next
    refine (Build.allocates_freshState.bind hcopy).congr ?_
    rw [Nat.mul_succ]
    omega

theorem Allocates.optionalCopies (hF : F.Allocates n) (exit : StateId) (k : Nat) :
    ∀ entry, (optionalCopies F exit k entry).Allocates ((n + 1) * k) := by
  induction k with
  | zero => exact fun entry => Build.allocates_pure entry
  | succ k ih =>
    intro entry
    have hcopy := fun next => (hF entry next).bind fun _ => ih next
    have hskip := fun next => (allocates_empty entry exit).bind fun _ => hcopy next
    refine (Build.allocates_freshState.bind hskip).congr ?_
    rw [Nat.mul_succ]
    omega

theorem Allocates.loop (hF : F.Allocates n) : (loop F).Allocates (n + 2) := by
  intro entry exit
  have hleave := fun bottom top =>
    (allocates_empty bottom top).bind fun _ => allocates_empty top exit
  have hbody := fun top bottom => (hF top bottom).bind fun _ => hleave bottom top
  have henter := fun top bottom => (allocates_empty entry top).bind fun _ => hbody top bottom
  have hstates := fun top => Build.allocates_freshState.bind fun bottom => henter top bottom
  exact (Build.allocates_freshState.bind hstates).congr (by omega)

theorem Allocates.repetition (hF : F.Allocates n) (min : Nat) (max : Option Nat) :
    (repetition F min max).Allocates (repeatedStates n min max) := by
  intro entry exit
  cases max with
  | none => exact (hF.copies min entry).bind fun last => hF.loop last exit
  | some max =>
    have htail := fun last =>
      (hF.optionalCopies exit (max - min) last).bind fun last => allocates_empty last exit
    refine ((hF.copies min entry).bind htail).congr ?_
    exact (Nat.mul_add _ _ _).symm

end Fragment

/-! ## Patterns -/

namespace Pattern

variable {words : WordData}

mutual

/-- The number of states that are allocated for a pattern. -/
def freshStates : Pattern → Nat
  | .empty | .codeClass _ | .look _ => 0
  | .literal bytes => (Utf8.codePoints bytes).length - 1
  | .repetition min max _ sub => Fragment.repeatedStates (freshStates sub) min max
  | .capture _ _ sub => freshStates sub
  | .concat subs => subs.length - 1 + freshStatesAll subs
  | .alternation subs => freshStatesAll subs

/-- The number of states that are allocated for several patterns. -/
def freshStatesAll : List Pattern → Nat
  | [] => 0
  | sub :: rest => freshStates sub + freshStatesAll rest

end

mutual

/-- **The fragment of a pattern allocates the states of the pattern.** -/
theorem allocates_fragment : (p : Pattern) → (p.fragment words).Allocates p.freshStates
  | .empty => Fragment.allocates_empty
  | .literal bytes => by
    have hparts : ∀ F ∈ (Utf8.codePoints bytes).map fun v => Fragment.symbol (.single v),
        F.Allocates 0 := by
      intro F hF
      obtain ⟨v, -, rfl⟩ := List.mem_map.mp hF
      exact Fragment.allocates_symbol _
    have hchain := Fragment.allocates_chain_of_zero hparts
    rwa [List.length_map] at hchain
  | .codeClass _ => Fragment.allocates_symbol _
  | .look _ => Fragment.allocates_guarded _
  | .repetition min max _ sub => (allocates_fragment sub).repetition min max
  | .capture _ _ sub => allocates_fragment sub
  | .concat subs => allocates_chain subs
  | .alternation subs => allocates_branch subs

theorem allocates_chain : (subs : List Pattern) →
    (Fragment.chain (fragmentAll words subs)).Allocates (subs.length - 1 + freshStatesAll subs)
  | [] => Fragment.allocates_empty
  | [sub] => by
    have hsub : (sub.fragment words).Allocates sub.freshStates := allocates_fragment sub
    exact fun entry exit => (hsub entry exit).congr (by simp [freshStatesAll])
  | sub :: second :: rest => by
    have hsub : (sub.fragment words).Allocates sub.freshStates := allocates_fragment sub
    have hchain := hsub.chain_cons (allocates_chain (second :: rest))
    refine fun entry exit => (hchain entry exit).congr ?_
    simp only [List.length_cons, freshStatesAll]
    omega

theorem allocates_branch : (subs : List Pattern) →
    (Fragment.branch (fragmentAll words subs)).Allocates (freshStatesAll subs)
  | [] => fun _ _ => Build.allocates_pure ()
  | sub :: rest => (allocates_fragment sub).branch_cons (allocates_branch rest)

end

/-- The states that are allocated for a pattern, or for a search for it. -/
def freshStatesWhole (unanchored : Bool) (p : Pattern) : Nat :=
  p.freshStates + if unanchored then searchStates else 0

theorem allocates_fragmentWhole (unanchored : Bool) (p : Pattern) :
    (p.fragmentWhole words unanchored).Allocates (p.freshStatesWhole unanchored) := by
  have hp : (p.fragment words).Allocates p.freshStates := allocates_fragment p
  cases unanchored with
  | false => exact hp
  | true =>
    have hskip := (Fragment.allocates_symbol .any).repetition 0 none
    have hlast : (Fragment.chain [.repetition (.symbol .any) 0 none]).Allocates 2 := hskip
    have hchain := hskip.chain_cons (hp.chain_cons hlast)
    refine fun entry exit => (hchain entry exit).congr ?_
    rw [freshStatesWhole, if_pos rfl, searchStates, Fragment.repeatedStates]
    omega

/-- **The number of states of an automaton**: the source, the target, and those that are
allocated for the pattern that was lowered. -/
theorem stateCount_of_lowerWhole {unanchored : Bool} {p : Pattern} {root : NodeId} {g : Grammar}
    {a : Automaton} (hlower : p.lowerWhole words unanchored Grammar.empty = .ok root g)
    (hcompile : g.compile words root = .ok a) :
    a.stateCount = 2 + p.freshStatesWhole unanchored := by
  obtain ⟨b, hbuild, rfl⟩ := exists_fragmentWhole hlower hcompile
  exact allocates_fragmentWhole unanchored p _ _ _ _ _ hbuild

/-- The same of a pattern that was compiled. -/
theorem stateCount_of_compile {settings : Settings} {p : Pattern} {a : Automaton}
    (h : p.compile words settings = .ok a) :
    a.stateCount = 2 + p.freshStatesWhole settings.unanchored := by
  obtain ⟨root, g, hlower, hcompile⟩ := exists_grammar_of_compile h
  exact stateCount_of_lowerWhole hlower hcompile

end Pattern
end GuardedAutomata
