import GuardedAutomata.Proofs.Compilation
import GuardedAutomata.Proofs.CycleCheck

/-!
# When a pattern is refused

A compilation ends in one of three ways, and which one it is can be read off the
pattern: its estimate exceeds the limit, or else it has a look for which there is no word
data, or else it becomes an automaton (`Pattern.compile_outcome`).

* The looks of a pattern are listed from left to right, whatever they stand in; also a
  look that is repeated zero times is one of them.  Lowering goes through them in this
  order and stops at the first that is refused (`Pattern.refusal_lower`).  What is
  returned is a `Lowering.refusal`, and the refusals of operations in a row are taken in
  order, so that the lemma is one line a constructor.
* No fault of a grammar is ever the reason.  Lowering adds children before parents and
  never a slot, so the root is usable: the cycle check passes it (`validate_eq_ok_iff`),
  and its fragment succeeds between the source and the target (`Usable.realizes`), every
  edge of it between states that are allocated (`Grammar.Usable.exists_compile`).
-/

namespace GuardedAutomata

/-! ## Usable roots -/

theorem Grammar.Usable.exists_compile {g : Grammar} {root : NodeId} (hroot : g.Usable root)
    (words : WordData) : ∃ a, g.compile words root = .ok a ∧ a.WellFormed := by
  have hvalid : g.validate root = .ok () :=
    Grammar.validate_eq_ok_iff.mpr ⟨hroot.complete, hroot.acyclic⟩
  obtain ⟨b, hemit, hgain⟩ := hroot.realizes words Builder.empty Automaton.source
    Automaton.target Builder.wellFormed_empty (by decide) (by decide)
  exact ⟨b.build, Grammar.compile_eq_ok_iff.mpr ⟨hvalid, b, hemit, rfl⟩, hgain.wellFormed⟩

/-! ## Refusals of operations -/

namespace Lowering

variable {α β : Type} {g : Grammar} {r : Option CompileError}

/-- The error that an operation ends in, if it does. -/
def refusal : EStateM.Result CompileError Grammar α → Option CompileError
  | .ok _ _ => none
  | .error e _ => some e

/-- Of two operations in a row the first that is refused decides. -/
theorem refusal_bind {op : Lowering α} {next : α → Lowering β}
    (hnext : ∀ x g, refusal (next x g) = r) :
    refusal ((op >>= next) g) = (refusal (op g)).or r := by
  change refusal (EStateM.bind op next g) = _
  rw [EStateM.bind]
  cases op g with
  | ok x g₁ => exact hnext x g₁
  | error e g₁ => rfl

theorem refusal_bind_none {op : Lowering α} {next : α → Lowering β}
    (hnext : ∀ x g, refusal (next x g) = none) :
    refusal ((op >>= next) g) = refusal (op g) := by
  rw [refusal_bind hnext, Option.or_none]

theorem refusal_addNodes (ns : List Node) (g : Grammar) : refusal (addNodes ns g) = none := by
  induction ns generalizing g with
  | nil => rfl
  | cons n rest ih =>
    rw [addNodes, refusal_bind_none]
    · rfl
    · intro id g₁
      rw [refusal_bind_none fun _ _ => rfl]
      exact ih g₁

theorem refusal_addLiteral (bytes : List UInt8) (g : Grammar) :
    refusal (addLiteral bytes g) = none := by
  rw [addLiteral, refusal_bind_none]
  · exact refusal_addNodes _ g
  · intro ids g₁
    split
    · rfl
    · rfl

theorem refusal_addSearch (root : NodeId) (g : Grammar) : refusal (addSearch root g) = none := by
  rfl

end Lowering

/-! ## The first look that is refused -/

namespace Pattern

open Lowering

mutual

/-- The looks of a pattern, from left to right. -/
def looks : Pattern → List Look
  | .empty | .literal _ | .codeClass _ => []
  | .look l => [l]
  | .repetition _ _ _ sub | .capture _ _ sub => looks sub
  | .concat subs | .alternation subs => looksAll subs

/-- The looks of several patterns, in order. -/
def looksAll : List Pattern → List Look
  | [] => []
  | sub :: rest => looks sub ++ looksAll rest

end

theorem mem_looksAll {l : Look} {subs : List Pattern} :
    l ∈ looksAll subs ↔ ∃ sub ∈ subs, l ∈ sub.looks := by
  induction subs with
  | nil => simp [looksAll]
  | cons sub rest ih =>
    rw [looksAll, List.mem_append, ih]
    simp only [List.mem_cons, exists_eq_or_imp]

/-- The look needs Unicode word characters, and they are not known. -/
def refuses (words : WordData) (l : Look) : Bool := l.needsUnicode && !words.hasUnicode

variable {words : WordData}

mutual

/-- **Lowering is refused for the first look that is.** -/
theorem refusal_lower : (p : Pattern) → (g : Grammar) →
    refusal (p.lower words g) = (p.looks.find? (refuses words)).map .unsupported
  | .empty, _ => rfl
  | .literal bytes, g => refusal_addLiteral bytes g
  | .codeClass _, _ => rfl
  | .look l, g => by
    rw [lower, looks, List.find?_singleton]
    by_cases hl : refuses words l = true
    · rw [if_pos hl, if_pos (show (l.needsUnicode && !words.hasUnicode) = true from hl)]
      rfl
    · rw [if_neg hl, if_neg (show ¬(l.needsUnicode && !words.hasUnicode) = true from hl)]
      rfl
  | .repetition _ _ _ sub, g => by
    rw [lower, refusal_bind_none fun _ _ => rfl]
    exact refusal_lower sub g
  | .capture _ _ sub, g => refusal_lower sub g
  | .concat subs, g => by
    rw [lower, refusal_bind_none fun _ _ => rfl]
    exact refusal_lowerAll subs g
  | .alternation subs, g => by
    rw [lower, refusal_bind_none fun _ _ => rfl]
    exact refusal_lowerAll subs g

theorem refusal_lowerAll : (subs : List Pattern) → (g : Grammar) →
    refusal (lowerAll words subs g) = ((looksAll subs).find? (refuses words)).map .unsupported
  | [], _ => rfl
  | sub :: rest, g => by
    have hrest : ∀ (id : NodeId) (g₁ : Grammar),
        refusal ((do let ids ← lowerAll words rest; return id :: ids : Lowering (List NodeId)) g₁) =
          ((looksAll rest).find? (refuses words)).map .unsupported := by
      intro id g₁
      rw [refusal_bind_none fun _ _ => rfl]
      exact refusal_lowerAll rest g₁
    rw [lowerAll, refusal_bind hrest, refusal_lower sub g, looksAll, List.find?_append]
    cases (looks sub).find? (refuses words) with
    | none => rfl
    | some l => rfl

end

theorem refusal_lowerWhole (words : WordData) (unanchored : Bool) (p : Pattern) (g : Grammar) :
    refusal (p.lowerWhole words unanchored g) =
      (p.looks.find? (refuses words)).map .unsupported := by
  rw [lowerWhole, refusal_bind_none]
  · exact refusal_lower p g
  · intro root g₁
    cases unanchored with
    | false => rfl
    | true => exact refusal_addSearch root g₁

/-! ## How a compilation ends -/

/-- What the results of a compilation say about a pattern. -/
inductive Decision (words : WordData) (settings : Settings) (p : Pattern) :
    Except CompileError Automaton → Prop where
  /-- The estimate exceeds the limit. -/
  | tooComplex (hlimit : settings.sizeLimit < p.estimate settings.unanchored) :
      Decision words settings p
        (.error (.tooComplex (p.estimate settings.unanchored) settings.sizeLimit))
  /-- A look is refused. -/
  | unsupported {l : Look} (hlimit : ¬settings.sizeLimit < p.estimate settings.unanchored)
      (hlook : p.looks.find? (refuses words) = some l) :
      Decision words settings p (.error (.unsupported l))
  /-- The pattern was lowered and the root is usable. -/
  | compiled {root : NodeId} {g : Grammar} {a : Automaton}
      (hlimit : ¬settings.sizeLimit < p.estimate settings.unanchored)
      (hlook : p.looks.find? (refuses words) = none)
      (hlower : p.lowerWhole words settings.unanchored Grammar.empty = .ok root g)
      (hroot : g.Usable root) (hcompile : g.compile words root = .ok a) (ha : a.WellFormed) :
      Decision words settings p (.ok a)

/-- Every compilation ends so. -/
theorem decision_compile (words : WordData) (settings : Settings) (p : Pattern) :
    Decision words settings p (p.compile words settings) := by
  rw [compile]
  by_cases hlimit : settings.sizeLimit < p.estimate settings.unanchored
  · rw [if_pos hlimit]
    exact .tooComplex hlimit
  rw [if_neg hlimit]
  have hrefusal := refusal_lowerWhole words settings.unanchored p Grammar.empty
  cases hlower : p.lowerWhole words settings.unanchored Grammar.empty with
  | error e g =>
    rw [hlower] at hrefusal
    obtain ⟨l, hlook, rfl⟩ := Option.map_eq_some_iff.mp hrefusal.symm
    exact .unsupported hlimit hlook
  | ok root g =>
    rw [hlower] at hrefusal
    have hlowered := lowered_lowerWhole hlower
    have hroot := hlowered.usable List.mem_cons_self
    obtain ⟨a, hcompile, ha⟩ := hroot.exists_compile words
    simp only [hcompile]
    exact .compiled hlimit (Option.map_eq_none_iff.mp hrefusal.symm) hlower hroot hcompile ha

/-- A look is refused only where the Unicode word characters are not known. -/
theorem find?_refuses_eq_some_iff {l : Look} {ls : List Look} :
    ls.find? (refuses words) = some l ↔
      words.hasUnicode = false ∧ ls.find? Look.needsUnicode = some l := by
  cases hwords : words.hasUnicode with
  | false =>
    have heq : refuses words = Look.needsUnicode := by
      funext l
      rw [refuses, hwords, Bool.not_false, Bool.and_true]
    rw [heq, eq_self, true_and]
  | true =>
    have heq : refuses words = fun _ => false := by
      funext l
      rw [refuses, hwords, Bool.not_true, Bool.and_false]
    have hnone : ls.find? (refuses words) = none := by simp [heq]
    rw [hnone]
    simp

theorem find?_refuses_eq_none_iff {ls : List Look} :
    ls.find? (refuses words) = none ↔
      words.hasUnicode = true ∨ ∀ l ∈ ls, l.needsUnicode = false := by
  rw [List.find?_eq_none]
  cases hwords : words.hasUnicode with
  | false => simp [refuses, hwords]
  | true => simp [refuses, hwords]

section

variable {settings : Settings} {p : Pattern}

theorem exists_tooComplex_iff :
    (∃ needed limit, p.compile words settings = .error (.tooComplex needed limit)) ↔
      settings.sizeLimit < p.estimate settings.unanchored := by
  have hdecision := decision_compile words settings p
  constructor
  · rintro ⟨needed, limit, h⟩
    rw [h] at hdecision
    cases hdecision with
    | tooComplex hlimit => exact hlimit
  · intro hlimit
    generalize p.compile words settings = result at hdecision
    cases hdecision with
    | tooComplex => exact ⟨_, _, rfl⟩
    | unsupported hwithin => exact absurd hlimit hwithin
    | compiled hwithin => exact absurd hlimit hwithin

theorem compile_eq_unsupported_iff {l : Look} :
    p.compile words settings = .error (.unsupported l) ↔
      p.estimate settings.unanchored ≤ settings.sizeLimit ∧
        p.looks.find? (refuses words) = some l := by
  have hdecision := decision_compile words settings p
  rw [← UInt64.not_lt]
  constructor
  · intro h
    rw [h] at hdecision
    cases hdecision with
    | unsupported hlimit hlook => exact ⟨hlimit, hlook⟩
  · rintro ⟨hlimit, hlook⟩
    generalize p.compile words settings = result at hdecision
    cases hdecision with
    | tooComplex hexceeds => exact absurd hexceeds hlimit
    | unsupported _ hfirst =>
      obtain rfl : l = _ := Option.some.inj (hlook.symm.trans hfirst)
      rfl
    | compiled _ hnone => nomatch hlook.symm.trans hnone

/-- A pattern compiles if and only if it is small enough and no look is refused. -/
theorem exists_compile_iff :
    (∃ a, p.compile words settings = .ok a) ↔
      p.estimate settings.unanchored ≤ settings.sizeLimit ∧
        p.looks.find? (refuses words) = none := by
  have hdecision := decision_compile words settings p
  rw [← UInt64.not_lt]
  constructor
  · rintro ⟨a, h⟩
    rw [h] at hdecision
    cases hdecision with
    | compiled hlimit hlook => exact ⟨hlimit, hlook⟩
  · rintro ⟨hlimit, hlook⟩
    generalize p.compile words settings = result at hdecision
    cases hdecision with
    | tooComplex hexceeds => exact absurd hexceeds hlimit
    | unsupported _ hfirst => nomatch hlook.symm.trans hfirst
    | @compiled root g a => exact ⟨a, rfl⟩

end

/-- **How a compilation ends.**  It never ends in a fault.  The pattern is refused as too
complex if and only if its estimate exceeds the limit.  Otherwise it is refused for a look
if and only if the Unicode word characters are not known and that look is the first, from
left to right, that needs them.  Otherwise there is an automaton: the pattern was lowered
to a root that the cycle check passes, nothing that the root depends on is missing or
without a body, and all edges join states of the automaton. -/
theorem compile_outcome (words : WordData) (settings : Settings) (p : Pattern) :
    ((∃ needed limit, p.compile words settings = .error (.tooComplex needed limit)) ↔
      settings.sizeLimit < p.estimate settings.unanchored) ∧
    (∀ l, p.compile words settings = .error (.unsupported l) ↔
      p.estimate settings.unanchored ≤ settings.sizeLimit ∧ words.hasUnicode = false ∧
        p.looks.find? Look.needsUnicode = some l) ∧
    ((∃ a, p.compile words settings = .ok a) ↔
      p.estimate settings.unanchored ≤ settings.sizeLimit ∧
        (words.hasUnicode = true ∨ ∀ l ∈ p.looks, l.needsUnicode = false)) ∧
    (∀ e, p.compile words settings = .error e →
      e = .tooComplex (p.estimate settings.unanchored) settings.sizeLimit ∨
        ∃ l, e = .unsupported l) ∧
    (∀ a, p.compile words settings = .ok a → ∃ root g,
      p.lowerWhole words settings.unanchored Grammar.empty = .ok root g ∧
        g.validate root = .ok () ∧ g.Complete root ∧ g.Bound root ∧
        g.compile words root = .ok a ∧ a.WellFormed) := by
  have hdecision := decision_compile words settings p
  refine ⟨exists_tooComplex_iff, fun l => ?_, ?_, fun e h => ?_, fun a h => ?_⟩
  · rw [compile_eq_unsupported_iff, find?_refuses_eq_some_iff]
  · rw [exists_compile_iff, find?_refuses_eq_none_iff]
  · rw [h] at hdecision
    cases hdecision with
    | tooComplex => exact .inl rfl
    | @unsupported l => exact .inr ⟨l, rfl⟩
  · rw [h] at hdecision
    cases hdecision with
    | @compiled root g _ _ _ hlower hroot hcompile ha =>
      have hvalid : g.validate root = .ok () :=
        Grammar.validate_eq_ok_iff.mpr ⟨hroot.complete, hroot.acyclic⟩
      exact ⟨root, g, hlower, hvalid, hroot.complete, hroot.bound, hcompile, ha⟩

/-- A word boundary that is repeated zero times, before three letters. -/
def skippedBoundary : Pattern :=
  .concat [.repetition 0 (some 0) true (.look .wordUnicode), .literal "abc".toUTF8.toList]

/-- That pattern is too complex for a small limit; otherwise it is refused for the word
boundary without word data, and compiles with word data. -/
theorem compile_skippedBoundary :
    (∃ needed limit, skippedBoundary.compile .missing { sizeLimit := 2 } =
      .error (.tooComplex needed limit)) ∧
    skippedBoundary.compile .missing { sizeLimit := 3 } = .error (.unsupported .wordUnicode) ∧
    ∃ a, skippedBoundary.compile { WordData.missing with unicode := some Char.isAlpha }
      { sizeLimit := 3 } = .ok a := by
  have hestimate : skippedBoundary.estimate false = 3 := by decide +kernel
  have hexceeds : (2 : UInt64) < skippedBoundary.estimate false := by
    rw [hestimate]
    decide
  have hwithin : skippedBoundary.estimate false ≤ (3 : UInt64) := by
    rw [hestimate]
    decide
  obtain ⟨hcomplex, -⟩ := compile_outcome .missing { sizeLimit := 2 } skippedBoundary
  obtain ⟨-, hlook, -⟩ := compile_outcome .missing { sizeLimit := 3 } skippedBoundary
  obtain ⟨-, -, hcompiles, -⟩ :=
    compile_outcome { WordData.missing with unicode := some Char.isAlpha } { sizeLimit := 3 }
      skippedBoundary
  exact ⟨hcomplex.mpr hexceeds, (hlook .wordUnicode).mpr ⟨hwithin, rfl, rfl⟩,
    hcompiles.mpr ⟨hwithin, .inl rfl⟩⟩

end Pattern
end GuardedAutomata
