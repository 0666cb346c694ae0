import GuardedAutomata.Pattern.Compile
import GuardedAutomata.Proofs.Emission
import GuardedAutomata.Proofs.Lowering
import GuardedAutomata.Proofs.Matching

/-!
# Compiled patterns accept what they stand for

A pattern goes through a grammar to an automaton, and each part of the way keeps its
meaning:

* lowering, by `Pattern.lowered_lower`;
* emission from the source to the target of the empty builder, by
  `Grammar.Usable.realizes`, so that the runs of the automaton are those over a single
  edge labelled with the meaning of the root (`Grammar.accepts_iff_of_compile`);
* matching, by `Automaton.exists_outcome`.

Put together: if an anchored pattern compiles, its automaton accepts a text exactly if
the pattern matches it (`Pattern.compile_accepts_iff_matches`).
-/

namespace GuardedAutomata

open Relation SlotRelation

variable {words : WordData}

/-- A root has an automaton if the check passes it and its emission succeeds, and then the
automaton is what is emitted from the source to the target of the empty builder. -/
theorem Grammar.compile_eq_ok_iff {g : Grammar} {root : NodeId} {a : Automaton} :
    g.compile words root = .ok a ↔ g.validate root = .ok () ∧
      ∃ b, g.emit words root Automaton.source Automaton.target Builder.empty = .ok () b ∧
        b.build = a := by
  unfold compile
  cases g.validate root with
  | error fault => exact iff_of_false (fun h => nomatch h) (fun h => nomatch h.1)
  | ok =>
    cases g.emit words root Automaton.source Automaton.target Builder.empty with
    | error fault b => exact iff_of_false (fun h => nomatch h) (fun ⟨_, _, h, _⟩ => nomatch h)
    | ok x b =>
      constructor
      · intro h
        exact ⟨rfl, b, rfl, Except.ok.inj h⟩
      · rintro ⟨-, _, ⟨⟩, rfl⟩
        rfl

theorem Grammar.accepts_iff_of_compile {g : Grammar} {root : NodeId} {a : Automaton}
    (hroot : g.Usable root) (h : g.compile words root = .ok a) :
    a.WellFormed ∧ ∀ w, a.Accepts w ↔ g.spans words w root 0 w.size := by
  obtain ⟨b, hemit, hgain⟩ := hroot.realizes words Builder.empty Automaton.source
    Automaton.target Builder.wellFormed_empty (by decide) (by decide)
  obtain ⟨-, b', hemit', rfl⟩ := compile_eq_ok_iff.mp h
  obtain rfl : b = b' := by
    rw [hemit] at hemit'
    cases hemit'
    rfl
  refine ⟨hgain.wellFormed, fun w => ?_⟩
  have hpaths := hgain.agreeOn w ⟨Automaton.source, 0⟩ ⟨Automaton.target, w.size⟩
    Nat.zero_lt_two Nat.one_lt_two
  rw [Builder.moves_empty, bot_sup_eq, reflTransGen_macroMove (by decide)] at hpaths
  exact hpaths.trans (and_iff_right (Nat.zero_le _))

namespace Pattern

variable {settings : Settings} {p : Pattern} {a : Automaton}

theorem exists_grammar_of_compile (h : p.compile words settings = .ok a) :
    ∃ root g, p.lowerWhole words settings.unanchored Grammar.empty = .ok root g ∧
      g.compile words root = .ok a := by
  rw [compile] at h
  split at h
  · nomatch h
  · cases hlower : p.lowerWhole words settings.unanchored Grammar.empty with
    | error e g =>
      rw [hlower] at h
      nomatch h
    | ok root g =>
      rw [hlower] at h
      refine ⟨root, g, rfl, ?_⟩
      cases hcompile : g.compile words root with
      | error fault =>
        simp only [hcompile] at h
        nomatch h
      | ok a' =>
        simp only [hcompile] at h
        exact congrArg Except.ok (Except.ok.inj h)

/-- **An anchored pattern that compiles accepts exactly what it matches**, whichever of
the simulations is used. -/
theorem compile_accepts_iff_matches (hanchored : settings.unanchored = false)
    (h : p.compile words settings = .ok a) (t : Text) :
    ∃ o, a.run t = .ok o ∧ (RankTable.simulation a).run t = .ok o ∧
      (a.stateCount ≤ Automaton.maskLimit → (Mask.simulation a).run t = .ok o) ∧
      (o.accepted = true ↔ p.Matches words t.values) := by
  obtain ⟨root, g, hlower, hcompile⟩ := exists_grammar_of_compile h
  rw [hanchored] at hlower
  obtain ⟨_, _, hlower, hreturn⟩ := exists_of_bind_eq_ok hlower
  cases hreturn
  have hlowered := lowered_lower p Grammar.topological_empty hlower
  have hroot := hlowered.topological.usable (hlowered.lt_size root List.mem_cons_self)
  obtain ⟨ha, haccepts⟩ := Grammar.accepts_iff_of_compile hroot hcompile
  obtain ⟨o, ho, hrun, htable, hmask⟩ := Automaton.exists_outcome ha t
  refine ⟨o, hrun, htable, hmask, ?_⟩
  have hspans : g.spans words t.values root = p.spans words t.values :=
    List.head_eq_of_cons_eq (hlowered.spans_eq t.values)
  rw [ho.accepted, haccepts, hspans, Matches]

/-- The start of the text or a letter, any number of times: a loop whose body takes
nothing at one slot and one code point at the others. -/
def looping : Pattern :=
  .repetition 0 none true (.alternation [.look .start, .codeClass [.single 'a'.val]])

/-- The grammar of that pattern. -/
def loopingGrammar : Grammar :=
  ⟨#[.assertion .textStart, .codeClass (.ofRanges [.single 'a'.val]), .alternation [0, 1],
    .repetition 2 0 none]⟩

theorem validate_loopingGrammar : loopingGrammar.validate 3 = .ok () := by
  simp [loopingGrammar, Grammar.validate, Grammar.walk, Grammar.size, Grammar.childrenOf,
    Node.children]
  rfl

theorem exists_compile_looping : ∃ a, looping.compile .missing {} = .ok a := by
  have hgrammar : ∃ a, loopingGrammar.compile .missing 3 = .ok a := by
    rw [Grammar.compile, validate_loopingGrammar]
    exact ⟨_, rfl⟩
  obtain ⟨a, ha⟩ := hgrammar
  refine ⟨a, ?_⟩
  rw [compile, if_neg (by decide)]
  show (loopingGrammar.compile .missing 3).mapError _ = _
  rw [ha]
  rfl

/-- Twice round the loop, each time over the letter. -/
theorem matches_looping : looping.Matches .missing #['a'.val, 'a'.val] := by
  have hletter : ∀ i, #['a'.val, 'a'.val][i]? = some 'a'.val →
      Pattern.spans .missing #['a'.val, 'a'.val]
        (.alternation [.look .start, .codeClass [.single 'a'.val]]) i (i + 1) := by
    intro i hi
    refine ⟨_, List.mem_cons_of_mem _ List.mem_cons_self, rfl, 'a'.val, hi, ?_⟩
    exact ⟨.single 'a'.val, List.mem_singleton.mpr rfl, by decide, by decide⟩
  exact ⟨2, (allowsCopies_none 0 2).mpr (Nat.zero_le 2), 1, hletter 0 rfl, 2, hletter 1 rfl, rfl⟩

/-- The automaton of that pattern accepts the two letters. -/
theorem exists_run_looping :
    ∃ a, looping.compile .missing {} = .ok a ∧
      ∃ o, a.run (.ofString "aa") = .ok o ∧ o.accepted = true := by
  obtain ⟨a, ha⟩ := exists_compile_looping
  obtain ⟨o, hrun, -, -, hiff⟩ := compile_accepts_iff_matches rfl ha (.ofString "aa")
  exact ⟨a, ha, o, hrun, hiff.mpr matches_looping⟩

end Pattern
end GuardedAutomata
