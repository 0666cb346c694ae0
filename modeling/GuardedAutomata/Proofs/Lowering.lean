import GuardedAutomata.Pattern.Lowering
import GuardedAutomata.Pattern.Spans
import GuardedAutomata.Proofs.Operations

/-!
# Lowering keeps the meaning

A successful lowering adds nodes behind those that a grammar has already, children
before parents, and the node that it returns stands for what the pattern stands for
(`Pattern.lowered_lower`).

That is said for several patterns at once, because children are lowered one by one
into a grammar that goes on growing.  `Lowered` is the statement, about the list of
nodes that were returned and the list of relations that they stand for.  It holds of
no node and no relation, it can be continued by one more node (`Lowered.cons`), and
the nodes of a list can be given a common parent (`Lowered.addNode`).  Nothing that is
added later changes what a node stands for, because its descendants are all before it
(`Extends.spans_eq`).

A search for a pattern stands for the pattern between two skips over any number of
arbitrary code points (`Pattern.lowered_lowerWhole`).
-/

namespace GuardedAutomata

open SlotRelation

/-! ## More nodes -/

namespace Grammar

/-- The first grammar has the nodes of the second and perhaps more behind them. -/
structure Extends (g' g : Grammar) : Prop where
  size_le : g.size ≤ g'.size
  node_eq : ∀ id < g.size, g'.nodes[id]? = g.nodes[id]?

namespace Extends

variable {g g' g'' : Grammar}

theorem refl (g : Grammar) : g.Extends g := ⟨Nat.le_refl _, fun _ _ => rfl⟩

theorem trans (h : g''.Extends g') (h' : g'.Extends g) : g''.Extends g where
  size_le := h'.size_le.trans h.size_le
  node_eq id hid := (h.node_eq id (hid.trans_le h'.size_le)).trans (h'.node_eq id hid)

theorem push (g : Grammar) (n : Node) : (g.push n).Extends g where
  size_le := by
    rw [size_push]
    exact Nat.le_succ _
  node_eq id hid := by
    rw [Grammar.push, Array.getElem?_push]
    exact if_neg (Nat.ne_of_lt hid)

/-- Nodes behind a topological grammar do not change what its nodes stand for. -/
theorem spans_eq {words : WordData} {w : Array UInt32} (h : g'.Extends g) (hg : g.Topological)
    {id : NodeId} (hid : id < g.size) : g'.spans words w id = g.spans words w id := by
  have hwithin : ∀ (d : Nat) (id : NodeId), id < g.size →
      g'.spansWithin words w d id = g.spansWithin words w d id := by
    intro d
    induction d with
    | zero => exact fun _ _ => rfl
    | succ d ih =>
      intro id hid
      rw [spansWithin, spansWithin, h.node_eq id hid]
      cases hn : g.nodes[id]? with
      | none => rfl
      | some n =>
        exact Node.spans_congr fun c hc => ih c (((hg id n hn).2 c hc).trans hid)
  funext i j
  simp only [spans, hwithin _ id hid]

end Extends

end Grammar

/-! ## What has been lowered -/

/-- The grammar has gained nodes that stand for the given relations. -/
structure Lowered (words : WordData) (g : Grammar) (ids : List NodeId)
    (Rs : Array UInt32 → List SlotRelation) (g' : Grammar) : Prop where
  topological : g'.Topological
  extension : g'.Extends g
  lt_size : ∀ id ∈ ids, id < g'.size
  spans_eq : ∀ w, ids.map (g'.spans words w) = Rs w

namespace Lowered

variable {words : WordData} {g g₁ g₂ : Grammar} {id : NodeId} {ids : List NodeId}
  {R : Array UInt32 → SlotRelation} {Rs Rs' : Array UInt32 → List SlotRelation}

theorem congr (h : Lowered words g ids Rs g₁) (heq : ∀ w, Rs w = Rs' w) :
    Lowered words g ids Rs' g₁ :=
  funext heq ▸ h

theorem usable (h : Lowered words g ids Rs g₁) (hid : id ∈ ids) : g₁.Usable id :=
  h.topological.usable (h.lt_size id hid)

theorem nil (hg : g.Topological) : Lowered words g [] (fun _ => []) g where
  topological := hg
  extension := .refl g
  lt_size _ hid := absurd hid List.not_mem_nil
  spans_eq _ := rfl

theorem cons (h : Lowered words g [id] (fun w => [R w]) g₁) (h' : Lowered words g₁ ids Rs g₂) :
    Lowered words g (id :: ids) (fun w => R w :: Rs w) g₂ where
  topological := h'.topological
  extension := h'.extension.trans h.extension
  lt_size x hx := by
    rcases List.mem_cons.mp hx with rfl | hx
    · exact (h.lt_size x List.mem_cons_self).trans_le h'.extension.size_le
    · exact h'.lt_size x hx
  spans_eq w := by
    have hid : id < g₁.size := h.lt_size id List.mem_cons_self
    have hhead : g₁.spans words w id = R w := List.head_eq_of_cons_eq (h.spans_eq w)
    rw [List.map_cons, h'.spans_eq w, h'.extension.spans_eq h.topological hid, hhead]

/-- A node whose children are among those that were lowered. -/
theorem addNode (h : Lowered words g ids Rs g₁) {n : Node} (hn : n ≠ .slot none)
    (hchildren : ∀ c ∈ n.children, c ∈ ids) (hadd : Lowering.addNode n g₁ = .ok id g₂) :
    Lowered words g [id] (fun w => [n.spans words w (g₁.spans words w)]) g₂ := by
  obtain ⟨rfl, rfl⟩ : g₁.size = id ∧ g₁.push n = g₂ := by
    cases hadd
    exact ⟨rfl, rfl⟩
  have hsize : g₁.size < (g₁.push n).size := by
    rw [Grammar.size_push]
    exact Nat.lt_succ_self _
  have htop : (g₁.push n).Topological :=
    h.topological.push hn fun c hc => h.lt_size c (hchildren c hc)
  refine ⟨htop, (Grammar.Extends.push g₁ n).trans h.extension, ?_, fun w => ?_⟩
  · intro x hx
    rwa [List.mem_singleton.mp hx]
  · have hnode : (g₁.push n).nodes[g₁.size]? = some n := Array.getElem?_push_size
    rw [List.map_singleton, (htop.usable hsize).acyclic.spans_eq hnode]
    refine congrArg (fun S => [S]) (Node.spans_congr fun c hc => ?_)
    exact (Grammar.Extends.push g₁ n).spans_eq h.topological (h.lt_size c (hchildren c hc))

theorem addLeaf (hg : g.Topological) {n : Node} (hn : n ≠ .slot none) (hleaf : n.children = [])
    (hadd : Lowering.addNode n g = .ok id g₂) :
    Lowered words g [id] (fun w => [n.spans words w (g.spans words w)]) g₂ :=
  (nil hg).addNode hn (fun c hc => by rwa [hleaf] at hc) hadd

theorem addConcat (h : Lowered words g ids Rs g₁)
    (hadd : Lowering.addNode (.concat ids) g₁ = .ok id g₂) :
    Lowered words g [id] (fun w => [inOrder (Rs w)]) g₂ := by
  simp only [← h.spans_eq]
  exact h.addNode (n := .concat ids) (by simp) (fun _ hc => hc) hadd

theorem addAlternation (h : Lowered words g ids Rs g₁)
    (hadd : Lowering.addNode (.alternation ids) g₁ = .ok id g₂) :
    Lowered words g [id] (fun w => [oneOf (Rs w)]) g₂ := by
  simp only [← h.spans_eq]
  exact h.addNode (n := .alternation ids) (by simp) (fun _ hc => hc) hadd

theorem addRepetition {body : NodeId} (h : Lowered words g [body] (fun w => [R w]) g₁) {min : Nat}
    {max : Option Nat} (hadd : Lowering.addNode (.repetition body min max) g₁ = .ok id g₂) :
    Lowered words g [id] (fun w => [repetition (R w) min max]) g₂ := by
  have hbody : ∀ w, g₁.spans words w body = R w := fun w => List.head_eq_of_cons_eq (h.spans_eq w)
  simp only [← hbody]
  exact h.addNode (n := .repetition body min max) (by simp) (fun _ hc => hc) hadd

end Lowered

/-! ## Lowering -/

/-- Any number of arbitrary code points. -/
def SlotRelation.skipping (w : Array UInt32) : SlotRelation :=
  repetition (symbol w (Pattern.InRanges [.all])) 0 none

namespace Lowering

variable {words : WordData} {g g' : Grammar} {id : NodeId} {ids : List NodeId}

/-- The class of one code point is taken by that code point. -/
theorem spans_single (w : Array UInt32) (v : UInt32) (child : NodeId → SlotRelation) :
    (Node.codeClass (.single v)).spans words w child = symbol w (· = v) := by
  have hiff : ∀ u, (∃ r ∈ (CodeClass.single v).ranges, r.first ≤ u ∧ u ≤ r.last) ↔ u = v := by
    intro u
    constructor
    · intro hmem
      obtain ⟨r, hr, hfirst, hlast⟩ := hmem
      obtain rfl : r = .single v := List.mem_singleton.mp hr
      exact UInt32.le_antisymm hlast hfirst
    · rintro rfl
      exact ⟨.single u, List.mem_singleton.mpr rfl, UInt32.le_refl u, UInt32.le_refl u⟩
  simp only [Node.spans, hiff]

theorem lowered_addNodes (hg : g.Topological) (vs : List UInt32)
    (h : addNodes (vs.map fun v => .codeClass (.single v)) g = .ok ids g') :
    Lowered words g ids (fun w => vs.map fun v => symbol w (· = v)) g' := by
  induction vs generalizing g ids with
  | nil =>
    cases h
    exact .nil hg
  | cons v vs ih =>
    rw [List.map_cons, addNodes] at h
    obtain ⟨id, g₁, hfirst, h⟩ := exists_of_bind_eq_ok h
    obtain ⟨rest, g₂, hrest, h⟩ := exists_of_bind_eq_ok h
    cases h
    have hv : Lowered words g [id] (fun w => [symbol w (· = v)]) g₁ :=
      (Lowered.addLeaf hg (by simp) rfl hfirst).congr fun w =>
        congrArg (fun S => [S]) (spans_single w v _)
    exact hv.cons (ih hv.topological hrest)

/-- A byte string stands for its code points, whether there is exactly one or not. -/
theorem lowered_addLiteral (hg : g.Topological) {bytes : List UInt8}
    (h : addLiteral bytes g = .ok id g') :
    Lowered words g [id] (fun w => [word w (Utf8.codePoints bytes)]) g' := by
  obtain ⟨ids, g₁, hnodes, h⟩ := exists_of_bind_eq_ok h
  have hids : Lowered words g ids _ g₁ := lowered_addNodes hg _ hnodes
  simp only [← inOrder_symbols]
  split at h
  · cases h
    refine hids.congr fun w => ?_
    rw [← hids.spans_eq w, List.map_singleton, inOrder_singleton]
  · exact hids.addConcat h

/-- A search stands for what is searched for, between any number of arbitrary code points
before it and after it. -/
theorem lowered_addSearch {root : NodeId} {R : Array UInt32 → SlotRelation} {g₁ : Grammar}
    (hroot : Lowered words g [root] (fun w => [R w]) g₁) (h : addSearch root g₁ = .ok id g') :
    Lowered words g [id] (fun w => [inOrder [skipping w, R w, skipping w]]) g' := by
  obtain ⟨any, g₂, hany, h⟩ := exists_of_bind_eq_ok h
  obtain ⟨skip, g₃, hskip, h⟩ := exists_of_bind_eq_ok h
  have hloop : Lowered words g₁ [skip] (fun w => [skipping w]) g₃ :=
    (Lowered.addLeaf hroot.topological (by simp) rfl hany).addRepetition hskip
  have hboth := hroot.cons hloop
  have hchildren : ∀ c ∈ (Node.concat [skip, root, skip]).children, c ∈ [root, skip] := by
    simp [Node.children]
  refine (hboth.addNode (by simp) hchildren h).congr fun w => ?_
  have hspans : [g₃.spans words w root, g₃.spans words w skip] = [R w, skipping w] :=
    hboth.spans_eq w
  obtain ⟨hR, hS⟩ := List.cons_eq_cons.mp hspans
  simp only [Node.spans, List.map_cons, List.map_nil, hR, List.head_eq_of_cons_eq hS]

end Lowering

namespace Pattern

open Lowering

variable {words : WordData}

mutual

/-- **A pattern that is lowered keeps its meaning.** -/
theorem lowered_lower : (p : Pattern) → {g g' : Grammar} → {id : NodeId} → g.Topological →
    p.lower words g = .ok id g' → Lowered words g [id] (fun w => [p.spans words w]) g'
  | .empty, _, _, _, hg, h => by
    rw [lower] at h
    exact Lowered.addLeaf hg (by simp) rfl h
  | .literal _, _, _, _, hg, h => lowered_addLiteral hg h
  | .codeClass _, _, _, _, hg, h => by
    rw [lower] at h
    exact Lowered.addLeaf hg (by simp) rfl h
  | .look l, _, _, _, hg, h => by
    rw [lower] at h
    split at h
    · nomatch h
    · exact Lowered.addLeaf hg (by simp) rfl h
  | .repetition _ _ _ sub, _, _, _, hg, h => by
    rw [lower] at h
    obtain ⟨body, g₁, hbody, h⟩ := exists_of_bind_eq_ok h
    exact (lowered_lower sub hg hbody).addRepetition h
  | .capture _ _ sub, _, _, _, hg, h => lowered_lower sub hg h
  | .concat subs, _, _, _, hg, h => by
    rw [lower] at h
    obtain ⟨children, g₁, hchildren, h⟩ := exists_of_bind_eq_ok h
    exact (lowered_lowerAll subs hg hchildren).addConcat h
  | .alternation subs, _, _, _, hg, h => by
    rw [lower] at h
    obtain ⟨children, g₁, hchildren, h⟩ := exists_of_bind_eq_ok h
    exact (lowered_lowerAll subs hg hchildren).addAlternation h

theorem lowered_lowerAll : (subs : List Pattern) → {g g' : Grammar} → {ids : List NodeId} →
    g.Topological → lowerAll words subs g = .ok ids g' →
    Lowered words g ids (fun w => spansAll words w subs) g'
  | [], _, _, _, hg, h => by
    cases h
    exact Lowered.nil hg
  | sub :: rest, _, _, _, hg, h => by
    rw [lowerAll] at h
    obtain ⟨id, g₁, hfirst, h⟩ := exists_of_bind_eq_ok h
    obtain ⟨ids, g₂, hrest, h⟩ := exists_of_bind_eq_ok h
    cases h
    have hsub := lowered_lower sub hg hfirst
    exact hsub.cons (lowered_lowerAll rest hsub.topological hrest)

end

/-- The slots between which a pattern, or a search for it, can stand. -/
def spansWhole (words : WordData) (unanchored : Bool) (p : Pattern) (w : Array UInt32) :
    SlotRelation :=
  if unanchored then inOrder [skipping w, p.spans words w, skipping w] else p.spans words w

/-- A pattern that is lowered as a whole keeps its meaning. -/
theorem lowered_lowerWhole {unanchored : Bool} {p : Pattern} {g : Grammar} {root : NodeId}
    (h : p.lowerWhole words unanchored Grammar.empty = .ok root g) :
    Lowered words Grammar.empty [root] (fun w => [p.spansWhole words unanchored w]) g := by
  obtain ⟨inner, g₁, hlower, h⟩ := exists_of_bind_eq_ok h
  have hinner := lowered_lower p Grammar.topological_empty hlower
  cases unanchored with
  | false =>
    cases h
    exact hinner
  | true => exact lowered_addSearch hinner h

end Pattern
end GuardedAutomata
