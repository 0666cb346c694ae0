import GuardedAutomata.Proofs.Refusals

/-!
# A search finds a pattern in its place

An unanchored pattern is compiled as the pattern between two skips over any number of
arbitrary code points.  The skips relate every slot of the text to every later one
(`SlotRelation.skipping_iff`), so the automaton accepts a text if the pattern can stand
anywhere in it, and not otherwise: `Pattern.compile_accepts_iff_occurs`.

The slots are those of the whole text throughout.  What is found is not a text that the
pattern matches when it is cut out: an assertion at an end of it looks at the neighbours
beyond that end (`Pattern.exists_run_wordStart`).

A pattern does not go back in the text (`Pattern.spans_le`), so what is found has its
beginning before its end.  A pattern that matches the whole text occurs in it, and hence a
search accepts whatever the anchored pattern accepts.
-/

namespace GuardedAutomata

/-! ## Skipping -/

namespace SlotRelation

variable {w : Array UInt32} {i j : Nat}

theorem copies_symbol_iff {p : UInt32 → Prop} (hp : ∀ v, p v) (k : Nat) :
    copies (symbol w p) k i j ↔ j = i + k ∧ (k = 0 ∨ j ≤ w.size) := by
  induction k generalizing i with
  | zero =>
    rw [copies_zero, stay]
    omega
  | succ k ih =>
    rw [copies_succ]
    constructor
    · rintro ⟨_, ⟨rfl, v, hv, -⟩, hrest⟩
      obtain ⟨hlt, -⟩ := Array.getElem?_eq_some_iff.mp hv
      have hslots := ih.mp hrest
      omega
    · intro hslots
      have hlt : i < w.size := by omega
      refine ⟨i + 1, ⟨rfl, w[i], Array.getElem?_eq_getElem hlt, hp _⟩, ih.mpr ?_⟩
      omega

/-- Skips lead from a slot to itself and to every later slot of the text. -/
theorem skipping_iff : skipping w i j ↔ i = j ∨ (i ≤ j ∧ j ≤ w.size) := by
  have hall : ∀ v, Pattern.InRanges [.all] v := by
    intro v
    have hlast : v ≤ CodeRange.all.last :=
      UInt32.le_iff_toNat_le.mpr (Nat.le_of_lt_succ v.toNat_lt)
    exact ⟨.all, List.mem_singleton.mpr rfl, UInt32.zero_le, hlast⟩
  constructor
  · rintro ⟨k, -, hk⟩
    have hslots := (copies_symbol_iff hall k).mp hk
    omega
  · intro hslots
    refine ⟨j - i, (allowsCopies_none _ _).mpr (Nat.zero_le _), (copies_symbol_iff hall _).mpr ?_⟩
    omega

/-- Between skips over the whole text, a relation has to hold of some two slots of it. -/
theorem skipping_around_iff {R : SlotRelation} (hR : ∀ i j, R i j → i ≤ j) :
    inOrder [skipping w, R, skipping w] 0 w.size ↔ ∃ i j, i ≤ j ∧ j ≤ w.size ∧ R i j := by
  constructor
  · rintro ⟨i, -, j, hij, _, hend, rfl⟩
    have hle := skipping_iff.mp hend
    exact ⟨i, j, hR i j hij, by omega, hij⟩
  · rintro ⟨i, j, hle, hsize, hij⟩
    exact ⟨i, skipping_iff.mpr (by omega), j, hij, w.size, skipping_iff.mpr (by omega), rfl⟩

/-! ## Going forward -/

theorem copies_le {R : SlotRelation} (hR : ∀ i j, R i j → i ≤ j) (k : Nat) :
    ∀ i j, copies R k i j → i ≤ j := by
  induction k with
  | zero => exact fun i j hij => Nat.le_of_eq hij
  | succ k ih =>
    rintro i j ⟨m, him, hmj⟩
    exact (hR i m him).trans (ih m j hmj)

theorem inOrder_le {Rs : List SlotRelation} (h : ∀ R ∈ Rs, ∀ i j, R i j → i ≤ j) :
    ∀ i j, inOrder Rs i j → i ≤ j := by
  induction Rs with
  | nil => exact fun i j hij => Nat.le_of_eq hij
  | cons R rest ih =>
    rintro i j ⟨m, him, hmj⟩
    have hrest := ih fun S hS => h S (List.mem_cons_of_mem _ hS)
    exact (h R List.mem_cons_self i m him).trans (hrest m j hmj)

end SlotRelation

namespace Pattern

open SlotRelation

variable {words : WordData}

mutual

theorem spans_le {w : Array UInt32} : (p : Pattern) → ∀ i j, p.spans words w i j → i ≤ j
  | .empty, _, _, h => Nat.le_of_eq h
  | .literal _, i, _, h => h.1 ▸ Nat.le_add_right i _
  | .codeClass _, i, _, h => h.1 ▸ Nat.le_succ i
  | .look _, _, _, h => Nat.le_of_eq h.1
  | .repetition _ _ _ sub, i, j, h => by
    obtain ⟨k, -, hk⟩ := h
    exact copies_le (spans_le sub) k i j hk
  | .capture _ _ sub, i, j, h => spans_le sub i j h
  | .concat subs, i, j, h => inOrder_le (spansAll_le subs) i j h
  | .alternation subs, i, j, h => by
    obtain ⟨R, hR, hij⟩ := h
    exact spansAll_le subs R hR i j hij

theorem spansAll_le {w : Array UInt32} : (subs : List Pattern) →
    ∀ R ∈ spansAll words w subs, ∀ i j, R i j → i ≤ j
  | [], _, hR => absurd hR List.not_mem_nil
  | sub :: rest, R, hR => by
    rcases List.mem_cons.mp hR with rfl | hR
    · exact spans_le sub
    · exact spansAll_le rest R hR

end

theorem Matches.occurs {p : Pattern} {w : Array UInt32} (h : p.Matches words w) :
    p.Occurs words w :=
  ⟨0, w.size, Nat.zero_le _, Nat.le_refl _, h⟩

/-! ## What compiled patterns accept -/

section

variable {settings : Settings} {p : Pattern} {a : Automaton}

theorem exists_run_of_compile (h : p.compile words settings = .ok a) (t : Text) :
    ∃ o, a.run t = .ok o ∧ (o.accepted = true ↔
      p.spansWhole words settings.unanchored t.values 0 t.values.size) := by
  obtain ⟨root, g, hlower, hcompile⟩ := exists_grammar_of_compile h
  have hlowered := lowered_lowerWhole hlower
  have hroot := hlowered.usable List.mem_cons_self
  obtain ⟨ha, haccepts⟩ := Grammar.accepts_iff_of_compile hroot hcompile
  obtain ⟨o, ho, hrun, -⟩ := Automaton.exists_outcome ha t
  have hspans : g.spans words t.values root = p.spansWhole words settings.unanchored t.values :=
    List.head_eq_of_cons_eq (hlowered.spans_eq t.values)
  exact ⟨o, hrun, by rw [ho.accepted, haccepts, hspans]⟩

theorem spansWhole_true_iff {w : Array UInt32} :
    p.spansWhole words true w 0 w.size ↔ p.Occurs words w :=
  skipping_around_iff (spans_le p)

/-- **A search that compiles accepts exactly the texts in which the pattern occurs**, its
assertions decided in the whole text; and it accepts every text that the anchored pattern
accepts, under whatever limit that was compiled. -/
theorem compile_accepts_iff_occurs (hsearch : settings.unanchored = true)
    (h : p.compile words settings = .ok a) (t : Text) :
    ∃ o, a.run t = .ok o ∧ (o.accepted = true ↔ p.Occurs words t.values) ∧
      ∀ (settings' : Settings) (a' : Automaton), settings'.unanchored = false →
        p.compile words settings' = .ok a' →
          ∃ o', a'.run t = .ok o' ∧ (o'.accepted = true → o.accepted = true) := by
  obtain ⟨o, hrun, ho⟩ := exists_run_of_compile h t
  rw [hsearch, spansWhole_true_iff] at ho
  refine ⟨o, hrun, ho, fun settings' a' hanchored h' => ?_⟩
  obtain ⟨o', hrun', ho'⟩ := exists_run_of_compile h' t
  refine ⟨o', hrun', fun haccepted => ?_⟩
  have hmatches : p.Matches words t.values := by
    have hspans := ho'.mp haccepted
    rwa [hanchored] at hspans
  exact ho.mpr hmatches.occurs

end

/-- The letter `x` at the start of a word. -/
def wordStart : Pattern := .concat [.look .wordStartAscii, .codeClass [.single 'x'.val]]

/-- After a space, the letter starts a word. -/
theorem occurs_wordStart : wordStart.Occurs .missing #['y'.val, ' '.val, 'x'.val] := by
  have hstart : condition #['y'.val, ' '.val, 'x'.val]
      (Look.wordStartAscii.assertion.holds .missing) 2 2 := ⟨rfl, by decide, by decide⟩
  have hletter : symbol #['y'.val, ' '.val, 'x'.val] (InRanges [.single 'x'.val]) 2 3 :=
    ⟨rfl, 'x'.val, rfl, .single 'x'.val, List.mem_singleton.mpr rfl, by decide, by decide⟩
  exact ⟨2, 3, by decide, by decide, 2, hstart, 3, hletter, rfl⟩

/-- After another letter, it does not; cut out of the text, it would. -/
theorem not_occurs_wordStart : ¬wordStart.Occurs .missing #['y'.val, 'x'.val] := by
  rintro ⟨i, _, -, -, _, ⟨rfl, hi, hstart⟩, _, ⟨rfl, v, hv, r, hr, hfirst, hlast⟩, rfl⟩
  obtain rfl : r = .single 'x'.val := List.mem_singleton.mp hr
  obtain rfl : v = 'x'.val := UInt32.le_antisymm hlast hfirst
  obtain ⟨hlt, hget⟩ := Array.getElem?_eq_some_iff.mp hv
  have hslot : i = 0 ∨ i = 1 := by
    simp only [List.size_toArray, List.length_cons, List.length_nil] at hlt
    omega
  have hinside : ¬Look.wordStartAscii.assertion.holds .missing
      (.ofValuesAt #['y'.val, 'x'.val] 1 (by decide)) = true := by decide
  rcases hslot with rfl | rfl
  · exact absurd hget (show 'y'.val ≠ 'x'.val by decide)
  · exact hinside hstart

/-- A search for that letter finds it in the one text and not in the other. -/
theorem exists_run_wordStart :
    ∃ a, wordStart.compile .missing { unanchored := true } = .ok a ∧
      (∃ o, a.run (.ofString "y x") = .ok o ∧ o.accepted = true) ∧
      ∃ o, a.run (.ofString "yx") = .ok o ∧ o.accepted = false := by
  obtain ⟨a, ha⟩ : ∃ a, wordStart.compile .missing { unanchored := true } = .ok a :=
    exists_compile_iff.mpr ⟨by decide +kernel, rfl⟩
  obtain ⟨o, hrun, hiff, -⟩ := compile_accepts_iff_occurs rfl ha (.ofString "y x")
  obtain ⟨o', hrun', hiff', -⟩ := compile_accepts_iff_occurs rfl ha (.ofString "yx")
  have hnot : ¬o'.accepted = true := fun haccepted => not_occurs_wordStart (hiff'.mp haccepted)
  exact ⟨a, ha, ⟨o, hrun, hiff.mpr occurs_wordStart⟩, o', hrun', by simpa using hnot⟩

end Pattern
end GuardedAutomata
