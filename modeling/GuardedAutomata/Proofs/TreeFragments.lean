import GuardedAutomata.Proofs.Compilation

/-!
# The fragment of a pattern

Between a pattern and its automaton there is a grammar, but what is emitted for a pattern
can be said without one: `Pattern.fragment` puts fragments together along the tree, and
lowering a pattern and emitting the root is the same (`Pattern.emit_lower`).  So whatever
depends on the calls that are made, and not on the numbers of nodes, can be proved along
the tree.

As with the meaning of nodes, nothing that is added to a grammar later changes what is
emitted for the nodes that are there (`Grammar.Extends.emit_eq`).
-/

namespace GuardedAutomata

variable {words : WordData}

/-! ## More nodes -/

/-- Nodes behind a topological grammar do not change what is emitted for its nodes. -/
theorem Grammar.Extends.emit_eq {g g' : Grammar} (h : g'.Extends g) (hg : g.Topological)
    (hg' : g'.Topological) {id : NodeId} (hid : id < g.size) :
    g'.emit words id = g.emit words id := by
  induction id using Nat.strong_induction_on with
  | _ id ih =>
    obtain ⟨n, hnode, -⟩ := (hg.usable hid).exists_node
    have hnode' : g'.nodes[id]? = some n := (h.node_eq id hid).trans hnode
    have hid' : id < g'.size := hid.trans_le h.size_le
    rw [(hg.usable hid).acyclic.emit_eq words hnode, (hg'.usable hid').acyclic.emit_eq words hnode']
    refine Node.fragment_congr fun c hc => ?_
    have hlt : c < id := (hg id n hnode).2 c hc
    exact ih c hlt (hlt.trans hid)

namespace Lowered

variable {g g₁ g₂ : Grammar} {id : NodeId} {ids : List NodeId}
  {R : Array UInt32 → SlotRelation} {Rs : Array UInt32 → List SlotRelation}

theorem emit_cons (h : Lowered words g [id] (fun w => [R w]) g₁)
    (h' : Lowered words g₁ ids Rs g₂) :
    (id :: ids).map (g₂.emit words) = g₁.emit words id :: ids.map (g₂.emit words) := by
  have hid : id < g₁.size := h.lt_size id List.mem_cons_self
  rw [List.map_cons, h'.extension.emit_eq h.topological h'.topological hid]

/-- The fragment of a node that was added, from those of the nodes that were lowered. -/
theorem emit_addNode (h : Lowered words g ids Rs g₁) {n : Node} (hn : n ≠ .slot none)
    (hchildren : ∀ c ∈ n.children, c ∈ ids) (hadd : Lowering.addNode n g₁ = .ok id g₂) :
    g₂.emit words id = n.fragment words (g₁.emit words) := by
  have hlowered := h.addNode hn hchildren hadd
  obtain ⟨rfl, rfl⟩ : g₁.size = id ∧ g₁.push n = g₂ := by
    cases hadd
    exact ⟨rfl, rfl⟩
  have hsize : g₁.size < (g₁.push n).size := hlowered.lt_size _ List.mem_cons_self
  have hnode : (g₁.push n).nodes[g₁.size]? = some n := Array.getElem?_push_size
  rw [(hlowered.topological.usable hsize).acyclic.emit_eq words hnode]
  refine Node.fragment_congr fun c hc => ?_
  exact (Grammar.Extends.push g₁ n).emit_eq h.topological hlowered.topological
    (h.lt_size c (hchildren c hc))

theorem emit_addLeaf (hg : g.Topological) {n : Node} (hn : n ≠ .slot none)
    (hleaf : n.children = []) (hadd : Lowering.addNode n g = .ok id g₂) :
    g₂.emit words id = n.fragment words (g.emit words) :=
  (nil hg).emit_addNode hn (fun c hc => by rwa [hleaf] at hc) hadd

theorem emit_addConcat (h : Lowered words g ids Rs g₁)
    (hadd : Lowering.addNode (.concat ids) g₁ = .ok id g₂) :
    g₂.emit words id = .chain (ids.map (g₁.emit words)) :=
  h.emit_addNode (n := .concat ids) (by simp) (fun _ hc => hc) hadd

theorem emit_addAlternation (h : Lowered words g ids Rs g₁)
    (hadd : Lowering.addNode (.alternation ids) g₁ = .ok id g₂) :
    g₂.emit words id = .branch (ids.map (g₁.emit words)) :=
  h.emit_addNode (n := .alternation ids) (by simp) (fun _ hc => hc) hadd

theorem emit_addRepetition {body : NodeId} (h : Lowered words g [body] Rs g₁) {min : Nat}
    {max : Option Nat} (hadd : Lowering.addNode (.repetition body min max) g₁ = .ok id g₂) :
    g₂.emit words id = .repetition (g₁.emit words body) min max :=
  h.emit_addNode (n := .repetition body min max) (by simp) (fun _ hc => hc) hadd

end Lowered

/-! ## Fragments along the tree -/

namespace Pattern

open Lowering

mutual

/-- The fragment of a pattern. -/
def fragment (words : WordData) : Pattern → Fragment
  | .empty => .empty
  | .literal bytes => .chain ((Utf8.codePoints bytes).map fun v => .symbol (.single v))
  | .codeClass ranges => .symbol (.ofRanges ranges)
  | .look l => .guarded (l.assertion.guard words)
  | .repetition min max _ sub => .repetition (fragment words sub) min max
  | .capture _ _ sub => fragment words sub
  | .concat subs => .chain (fragmentAll words subs)
  | .alternation subs => .branch (fragmentAll words subs)

/-- The fragments of several patterns, in order. -/
def fragmentAll (words : WordData) : List Pattern → List Fragment
  | [] => []
  | sub :: rest => fragment words sub :: fragmentAll words rest

end

/-- The fragment of a pattern, or of a search for it. -/
def fragmentWhole (words : WordData) (unanchored : Bool) (p : Pattern) : Fragment :=
  if unanchored then
    .chain [.repetition (.symbol .any) 0 none, p.fragment words,
      .repetition (.symbol .any) 0 none]
  else p.fragment words

variable {g g' : Grammar} {id : NodeId} {ids : List NodeId}

theorem emit_addNodes (hg : g.Topological) (vs : List UInt32)
    (h : addNodes (vs.map fun v => .codeClass (.single v)) g = .ok ids g') :
    ids.map (g'.emit words) = vs.map fun v => .symbol (.single v) := by
  induction vs generalizing g ids with
  | nil =>
    cases h
    rfl
  | cons v vs ih =>
    rw [List.map_cons, addNodes] at h
    obtain ⟨id, g₁, hfirst, h⟩ := exists_of_bind_eq_ok h
    obtain ⟨rest, g₂, hrest, h⟩ := exists_of_bind_eq_ok h
    cases h
    have hv : Lowered words g [id] _ g₁ := .addLeaf hg (by simp) rfl hfirst
    rw [hv.emit_cons (lowered_addNodes hv.topological vs hrest), ih hv.topological hrest,
      Lowered.emit_addLeaf hg (by simp) rfl hfirst]
    rfl

theorem emit_addLiteral (hg : g.Topological) {bytes : List UInt8}
    (h : addLiteral bytes g = .ok id g') :
    g'.emit words id = (Pattern.literal bytes).fragment words := by
  obtain ⟨ids, g₁, hnodes, h⟩ := exists_of_bind_eq_ok h
  have hemit : ids.map (g₁.emit words) = _ := emit_addNodes hg _ hnodes
  rw [fragment, ← hemit]
  split at h
  · cases h
    rfl
  · exact (lowered_addNodes hg _ hnodes).emit_addConcat h

mutual

/-- **What is emitted for a lowered pattern is the fragment of the pattern.** -/
theorem emit_lower : (p : Pattern) → {g g' : Grammar} → {id : NodeId} → g.Topological →
    p.lower words g = .ok id g' → g'.emit words id = p.fragment words
  | .empty, _, _, _, hg, h => by
    rw [lower] at h
    exact Lowered.emit_addLeaf hg (by simp) rfl h
  | .literal _, _, _, _, hg, h => emit_addLiteral hg h
  | .codeClass _, _, _, _, hg, h => by
    rw [lower] at h
    exact Lowered.emit_addLeaf hg (by simp) rfl h
  | .look l, _, _, _, hg, h => by
    rw [lower] at h
    split at h
    · nomatch h
    · exact Lowered.emit_addLeaf hg (by simp) rfl h
  | .repetition min max _ sub, _, _, _, hg, h => by
    rw [lower] at h
    obtain ⟨body, g₁, hbody, h⟩ := exists_of_bind_eq_ok h
    rw [(lowered_lower sub hg hbody).emit_addRepetition h, emit_lower sub hg hbody, fragment]
  | .capture _ _ sub, _, _, _, hg, h => emit_lower sub hg h
  | .concat subs, _, _, _, hg, h => by
    rw [lower] at h
    obtain ⟨children, g₁, hchildren, h⟩ := exists_of_bind_eq_ok h
    rw [(lowered_lowerAll subs hg hchildren).emit_addConcat h, emit_lowerAll subs hg hchildren,
      fragment]
  | .alternation subs, _, _, _, hg, h => by
    rw [lower] at h
    obtain ⟨children, g₁, hchildren, h⟩ := exists_of_bind_eq_ok h
    rw [(lowered_lowerAll subs hg hchildren).emit_addAlternation h,
      emit_lowerAll subs hg hchildren, fragment]

theorem emit_lowerAll : (subs : List Pattern) → {g g' : Grammar} → {ids : List NodeId} →
    g.Topological → lowerAll words subs g = .ok ids g' →
    ids.map (g'.emit words) = fragmentAll words subs
  | [], _, _, _, _, h => by
    cases h
    rfl
  | sub :: rest, _, _, _, hg, h => by
    rw [lowerAll] at h
    obtain ⟨id, g₁, hfirst, h⟩ := exists_of_bind_eq_ok h
    obtain ⟨ids, g₂, hrest, h⟩ := exists_of_bind_eq_ok h
    cases h
    have hsub := lowered_lower sub hg hfirst
    rw [hsub.emit_cons (lowered_lowerAll rest hsub.topological hrest), fragmentAll,
      emit_lower sub hg hfirst, emit_lowerAll rest hsub.topological hrest]

end

/-- A search emits a skip, what is searched for, and the skip again. -/
theorem emit_addSearch {root : NodeId} {R : Array UInt32 → SlotRelation} {g₁ : Grammar}
    (hroot : Lowered words g [root] (fun w => [R w]) g₁) (h : addSearch root g₁ = .ok id g') :
    g'.emit words id =
      .chain [.repetition (.symbol .any) 0 none, g₁.emit words root,
        .repetition (.symbol .any) 0 none] := by
  obtain ⟨any, g₂, hany, h⟩ := exists_of_bind_eq_ok h
  obtain ⟨skip, g₃, hskip, h⟩ := exists_of_bind_eq_ok h
  have hclass : Lowered words g₁ [any] _ g₂ := .addLeaf hroot.topological (by simp) rfl hany
  have hloop := hclass.addRepetition hskip
  have hboth := hroot.cons hloop
  have hchildren : ∀ c ∈ (Node.concat [skip, root, skip]).children, c ∈ [root, skip] := by
    simp [Node.children]
  have hloopEmit : g₃.emit words skip = .repetition (.symbol .any) 0 none := by
    rw [hclass.emit_addRepetition hskip,
      Lowered.emit_addLeaf hroot.topological (by simp) rfl hany]
    rfl
  have hrootEmit : g₃.emit words root = g₁.emit words root :=
    List.head_eq_of_cons_eq (hroot.emit_cons hloop)
  rw [hboth.emit_addNode (by simp) hchildren h, Node.fragment, List.map_cons, List.map_cons,
    List.map_cons, List.map_nil, hloopEmit, hrootEmit]

theorem emit_lowerWhole {unanchored : Bool} {p : Pattern} {root : NodeId}
    (h : p.lowerWhole words unanchored Grammar.empty = .ok root g) :
    g.emit words root = p.fragmentWhole words unanchored := by
  obtain ⟨inner, g₁, hlower, h⟩ := exists_of_bind_eq_ok h
  have hinner := lowered_lower p Grammar.topological_empty hlower
  have hemit := emit_lower p Grammar.topological_empty hlower
  cases unanchored with
  | false =>
    cases h
    exact hemit
  | true =>
    rw [emit_addSearch hinner h, hemit]
    rfl

/-- The automaton of a pattern that was lowered is what the fragment of the pattern builds. -/
theorem exists_fragmentWhole {unanchored : Bool} {p : Pattern} {root : NodeId} {a : Automaton}
    (hlower : p.lowerWhole words unanchored Grammar.empty = .ok root g)
    (hcompile : g.compile words root = .ok a) :
    ∃ b, p.fragmentWhole words unanchored Automaton.source Automaton.target Builder.empty =
      .ok () b ∧ b.build = a := by
  rw [← emit_lowerWhole hlower]
  exact (Grammar.compile_eq_ok_iff.mp hcompile).2

end Pattern
end GuardedAutomata
