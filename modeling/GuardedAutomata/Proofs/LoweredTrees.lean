import GuardedAutomata.Proofs.Emission
import GuardedAutomata.Proofs.Lowering

/-!
# Lowering adds a tree, at any place of a grammar

A grammar may hold nodes already when a pattern is lowered into it.  They keep their
numbers, and the nodes of the pattern come behind them.  Two things are said about the new
nodes, and neither depends on what was there before.

* They are those of the pattern lowered into the empty grammar, with every number moved up
  by the size of what was there (`Pattern.relocates_lower`).  That holds of refused patterns
  as well: the nodes up to the look that was refused are there, and moved up.
* They form a tree in topological order.  Its root is the last of them, and every other one
  is the child of exactly one node, which comes after it (`Pattern.planted_lower`).

## Relocation

An operation is run into a grammar `added`, and next to it into `added` put behind `g`; from
then on the two runs make the same steps, on numbers that differ by `g.size`.
`Lowering.Relocates` relates two operations in this way and not one operation to itself,
because the second one is given the numbers that were moved.

## Trees

A pattern may be one of several whose common parent is not added yet.  So the induction is
about forests (`Forest`): among the roots and the children of the new nodes together, the
number of each new node occurs once, and no other number occurs.  Putting a forest behind
another one adds up these counts, and a node over all roots of a forest takes them from the
roots to the children.
-/

namespace GuardedAutomata

/-! ## One grammar behind another -/

namespace Grammar

variable {g added : Grammar}

/-- A grammar with the nodes of another behind its own, their children moved up. -/
def append (g added : Grammar) : Grammar :=
  ⟨g.nodes ++ added.nodes.map (Node.mapChildren (· + g.size))⟩

/-- The children of the nodes from a number on, in order. -/
def childrenFrom (g : Grammar) (first : NodeId) : List NodeId :=
  (g.nodes.toList.drop first).flatMap Node.children

@[simp] theorem append_empty (g : Grammar) : g.append empty = g := by
  simp [append, empty]

@[simp] theorem size_append (g added : Grammar) : (g.append added).size = g.size + added.size := by
  simp [append, size]

theorem append_push (g added : Grammar) (n : Node) :
    g.append (added.push n) = (g.append added).push (n.mapChildren (· + g.size)) := by
  simp [append, push]

theorem extends_append (g added : Grammar) : (g.append added).Extends g where
  size_le := by
    rw [size_append]
    exact Nat.le_add_right _ _
  node_eq _ hid := Array.getElem?_append_left hid

end Grammar

/-! ## Relocation -/

namespace Lowering

variable {α β γ δ : Type} {g : Grammar}

/-- What becomes of a result when all that was added is put behind a grammar. -/
def relocate (g : Grammar) (move : α → β) :
    EStateM.Result CompileError Grammar α → EStateM.Result CompileError Grammar β
  | .ok x added => .ok (move x) (g.append added)
  | .error e added => .error e (g.append added)

/-- The grammar that an operation leaves, whether it succeeds or fails. -/
def leaves (op : Lowering α) (g : Grammar) : Grammar :=
  match op g with
  | .ok _ g' => g'
  | .error _ g' => g'

/-- Behind a grammar, the second operation does what the first one does by itself. -/
def Relocates (g : Grammar) (move : α → β) (op : Lowering α) (op' : Lowering β) : Prop :=
  ∀ added, op' (g.append added) = relocate g move (op added)

/-- Into the grammar itself, the second operation does what the first one does into the empty
grammar. -/
theorem Relocates.eq_relocate {move : α → β} {op : Lowering α} {op' : Lowering β}
    (h : Relocates g move op op') : op' g = relocate g move (op Grammar.empty) := by
  have hempty := h Grammar.empty
  rwa [Grammar.append_empty] at hempty

/-- What the second operation leaves is behind the grammar, however it ends. -/
theorem Relocates.extends {move : α → β} {op : Lowering α} {op' : Lowering β}
    (h : Relocates g move op op') : (leaves op' g).Extends g := by
  rw [leaves, h.eq_relocate]
  cases op Grammar.empty with
  | ok x added => exact Grammar.extends_append g added
  | error e added => exact Grammar.extends_append g added

theorem relocates_pure {move : α → β} (x : α) :
    Relocates g move (pure x) (pure (move x)) := fun _ => rfl

/-- Operations in a row, of which the later ones are given what was moved. -/
theorem Relocates.bind {move : α → β} {move' : γ → δ} {op : Lowering α} {op' : Lowering β}
    {next : α → Lowering γ} {next' : β → Lowering δ} (hop : Relocates g move op op')
    (hnext : ∀ x, Relocates g move' (next x) (next' (move x))) :
    Relocates g move' (op >>= next) (op' >>= next') := by
  intro added
  have hfirst := hop added
  change EStateM.bind op' next' _ = relocate g move' (EStateM.bind op next added)
  unfold EStateM.bind
  rw [hfirst]
  cases op added with
  | ok x added₁ => exact hnext x added₁
  | error e added₁ => rfl

theorem relocates_addNode (n : Node) :
    Relocates g (· + g.size) (addNode n) (addNode (n.mapChildren (· + g.size))) := by
  intro added
  rw [addNode, addNode, relocate, Grammar.append_push, Grammar.size_append, Nat.add_comm]

theorem relocates_addNodes {ns : List Node}
    (hleaves : ∀ n ∈ ns, n.mapChildren (· + g.size) = n) :
    Relocates g (List.map (· + g.size)) (addNodes ns) (addNodes ns) := by
  induction ns with
  | nil => exact relocates_pure []
  | cons n ns ih =>
    obtain ⟨hn, hns⟩ := List.forall_mem_cons.mp hleaves
    have hnode := relocates_addNode (g := g) n
    rw [hn] at hnode
    exact hnode.bind fun id => (ih hns).bind fun ids => relocates_pure (id :: ids)

theorem relocates_addLiteral (bytes : List UInt8) :
    Relocates g (· + g.size) (addLiteral bytes) (addLiteral bytes) := by
  have hleaves : ∀ n ∈ (Utf8.codePoints bytes).map fun v => Node.codeClass (.single v),
      n.mapChildren (· + g.size) = n := by
    intro n hn
    obtain ⟨v, -, rfl⟩ := List.mem_map.mp hn
    rfl
  refine (relocates_addNodes hleaves).bind fun ids => ?_
  -- one node stands for itself, and no node or several get a parent
  match ids with
  | [id] => exact relocates_pure id
  | [] => exact relocates_addNode (.concat [])
  | id :: id' :: rest => exact relocates_addNode (.concat (id :: id' :: rest))

end Lowering

namespace Pattern

open Lowering

variable {words : WordData} {g : Grammar}

mutual

/-- **A pattern is lowered in the same way behind any grammar.** -/
theorem relocates_lower : (p : Pattern) →
    Relocates g (· + g.size) (p.lower words) (p.lower words)
  | .empty => relocates_addNode .empty
  | .literal bytes => relocates_addLiteral bytes
  | .codeClass ranges => relocates_addNode (.codeClass (.ofRanges ranges))
  | .look l => by
    rw [lower]
    split
    · exact fun _ => rfl
    · exact relocates_addNode (.assertion l.assertion)
  | .repetition min max _ sub =>
    (relocates_lower sub).bind fun body => relocates_addNode (.repetition body min max)
  | .capture _ _ sub => relocates_lower sub
  | .concat subs =>
    (relocates_lowerAll subs).bind fun children => relocates_addNode (.concat children)
  | .alternation subs =>
    (relocates_lowerAll subs).bind fun children => relocates_addNode (.alternation children)

theorem relocates_lowerAll : (subs : List Pattern) →
    Relocates g (List.map (· + g.size)) (lowerAll words subs) (lowerAll words subs)
  | [] => relocates_pure []
  | sub :: rest =>
    (relocates_lower sub).bind fun id => (relocates_lowerAll rest).bind fun ids =>
      relocates_pure (id :: ids)

end

end Pattern

/-! ## Forests -/

/-- New nodes, numbered from `first` on, that are below the given roots as trees are: every
child is a new node before its parent, and every new node is a root or a child, once. -/
structure Forest (first : Nat) (nodes : List Node) (roots : List Nat) : Prop where
  below : ∀ (i : Nat) (n : Node), nodes[i]? = some n →
    ∀ c : Nat, c ∈ n.children → first ≤ c ∧ c < first + i
  once : ∀ i : Nat, roots.count i + (nodes.flatMap Node.children).count i =
    if first ≤ i ∧ i < first + nodes.length then 1 else 0

namespace Forest

variable {first : Nat} {nodes nodes' : List Node} {roots roots' : List Nat} {n : Node}

theorem nil (first : Nat) : Forest first [] [] where
  below _ _ hn := nomatch hn
  once i := by
    rw [if_neg (by simp only [List.length_nil]; omega)]
    rfl

theorem bounds (h : Forest first nodes roots) {id : Nat} (hid : id ∈ roots) :
    first ≤ id ∧ id < first + nodes.length := by
  by_contra hout
  have honce := h.once id
  have hpos : 0 < roots.count id := List.count_pos_iff.mpr hid
  rw [if_neg hout] at honce
  omega

theorem append (h : Forest first nodes roots)
    (h' : Forest (first + nodes.length) nodes' roots') :
    Forest first (nodes ++ nodes') (roots ++ roots') where
  below i n hn c hc := by
    rw [List.getElem?_append] at hn
    split at hn
    · exact h.below i n hn c hc
    · have hlater := h'.below _ n hn c hc
      omega
  once i := by
    have hfront := h.once i
    have hback := h'.once i
    rw [List.flatMap_append, List.count_append, List.count_append, List.length_append]
    split_ifs at hfront hback ⊢
    all_goals omega

theorem addNode (h : Forest first nodes roots) (hn : n.children = roots) :
    Forest first (nodes ++ [n]) [first + nodes.length] where
  below i m hm c hc := by
    rw [List.getElem?_append] at hm
    split at hm
    · exact h.below i m hm c hc
    · rw [List.getElem?_singleton] at hm
      split at hm
      · cases hm
        have hroot := h.bounds (hn ▸ hc)
        omega
      · nomatch hm
  once i := by
    have honce := h.once i
    rw [List.flatMap_append, List.count_append, List.flatMap_singleton, hn, List.length_append,
      List.length_singleton, List.count_singleton]
    by_cases hi : i = first + nodes.length
    · rw [if_neg (by omega)] at honce
      rw [if_pos (by simp [hi]), if_pos (by omega)]
      omega
    · rw [if_neg (by simpa using Ne.symm hi)]
      split_ifs at honce ⊢
      all_goals omega

theorem root_eq {id : Nat} (h : Forest first nodes [id]) : id + 1 = first + nodes.length := by
  have hid := h.bounds List.mem_cons_self
  -- the last node is above all children, so it is the root
  by_contra hne
  have hlast := h.once (first + nodes.length - 1)
  have hroot : List.count (first + nodes.length - 1) [id] = 0 := by
    rw [List.count_eq_zero, List.mem_singleton]
    omega
  have hchild : (nodes.flatMap Node.children).count (first + nodes.length - 1) = 0 := by
    rw [List.count_eq_zero, List.mem_flatMap]
    rintro ⟨n, hn, hc⟩
    obtain ⟨i, hi⟩ := List.mem_iff_getElem?.mp hn
    have hbelow := h.below i n hi _ hc
    have hlt := (List.getElem?_eq_some_iff.mp hi).1
    omega
  rw [if_pos (by omega)] at hlast
  omega

end Forest

/-! ## What lowering adds -/

/-- The grammar has gained nodes that form a forest with the given roots. -/
def Planted (g : Grammar) (roots : List NodeId) (g' : Grammar) : Prop :=
  ∃ nodes, g'.nodes.toList = g.nodes.toList ++ nodes ∧ Forest g.size nodes roots

namespace Planted

variable {g g₁ g₂ : Grammar} {id : NodeId} {ids : List NodeId} {n : Node}

theorem size_eq {nodes : List Node} (h : g₁.nodes.toList = g.nodes.toList ++ nodes) :
    g₁.size = g.size + nodes.length := by
  simpa [Grammar.size] using congrArg List.length h

theorem nil (g : Grammar) : Planted g [] g := ⟨[], (List.append_nil _).symm, .nil _⟩

theorem cons (h : Planted g [id] g₁) (h' : Planted g₁ ids g₂) : Planted g (id :: ids) g₂ := by
  obtain ⟨nodes, hnodes, hforest⟩ := h
  obtain ⟨nodes', hnodes', hforest'⟩ := h'
  have hsize := size_eq hnodes
  rw [hsize] at hforest'
  exact ⟨nodes ++ nodes', by rw [hnodes', hnodes, List.append_assoc], hforest.append hforest'⟩

theorem addNode (h : Planted g ids g₁) (hchildren : n.children = ids)
    (hadd : Lowering.addNode n g₁ = .ok id g₂) : Planted g [id] g₂ := by
  obtain ⟨nodes, hnodes, hforest⟩ := h
  have hsize := size_eq hnodes
  cases hadd
  rw [hsize]
  refine ⟨nodes ++ [n], ?_, hforest.addNode hchildren⟩
  rw [Grammar.push, Array.toList_push, hnodes, List.append_assoc]

theorem root_eq (h : Planted g [id] g₁) : g.size ≤ id ∧ id + 1 = g₁.size := by
  obtain ⟨nodes, hnodes, hforest⟩ := h
  rw [size_eq hnodes]
  exact ⟨(hforest.bounds List.mem_cons_self).1, hforest.root_eq⟩

/-- The children of a new node are new nodes before it. -/
theorem children_lt (h : Planted g ids g₁) (i : NodeId) (n : Node) (hi : g.size ≤ i)
    (hn : g₁.nodes[i]? = some n) : ∀ c ∈ n.children, g.size ≤ c ∧ c < i := by
  obtain ⟨nodes, hnodes, hforest⟩ := h
  rw [← Array.getElem?_toList, hnodes, List.getElem?_append_right hi] at hn
  intro c hc
  have hbelow := hforest.below _ n hn c hc
  rwa [Array.length_toList, ← Grammar.size, Nat.add_sub_cancel' hi] at hbelow

/-- Every new node but the root is a child, once. -/
theorem count_eq_one (h : Planted g [id] g₁) (i : NodeId) (hi : g.size ≤ i) (hlt : i < id) :
    (g₁.childrenFrom g.size).count i = 1 := by
  obtain ⟨nodes, hnodes, hforest⟩ := h
  have hchildren : g₁.childrenFrom g.size = nodes.flatMap Node.children := by
    rw [Grammar.childrenFrom, hnodes, Grammar.size, ← Array.length_toList, List.drop_left]
  have hnew : g.size ≤ i ∧ i < g.size + nodes.length :=
    ⟨hi, hforest.root_eq ▸ Nat.lt_succ_of_lt hlt⟩
  have hroot : List.count i [id] = 0 :=
    List.count_eq_zero.mpr fun hmem => Nat.ne_of_lt hlt (List.mem_singleton.mp hmem)
  have honce := hforest.once i
  rwa [if_pos hnew, hroot, Nat.zero_add, ← hchildren] at honce

end Planted

namespace Lowering

variable {g g' : Grammar} {id : NodeId} {ids : List NodeId}

theorem planted_addNodes {ns : List Node} (hleaves : ∀ n ∈ ns, n.children = [])
    (h : addNodes ns g = .ok ids g') : Planted g ids g' := by
  induction ns generalizing g ids with
  | nil =>
    cases h
    exact .nil _
  | cons n ns ih =>
    obtain ⟨hn, hns⟩ := List.forall_mem_cons.mp hleaves
    obtain ⟨id, g₁, hfirst, h⟩ := exists_of_bind_eq_ok h
    obtain ⟨rest, g₂, hrest, h⟩ := exists_of_bind_eq_ok h
    cases h
    exact ((Planted.nil g).addNode hn hfirst).cons (ih hns hrest)

theorem planted_addLiteral {bytes : List UInt8} (h : addLiteral bytes g = .ok id g') :
    Planted g [id] g' := by
  obtain ⟨ids, g₁, hnodes, h⟩ := exists_of_bind_eq_ok h
  have hleaves : ∀ n ∈ (Utf8.codePoints bytes).map fun v => Node.codeClass (.single v),
      n.children = [] := by
    intro n hn
    obtain ⟨v, -, rfl⟩ := List.mem_map.mp hn
    rfl
  have hids : Planted g ids g₁ := planted_addNodes hleaves hnodes
  split at h
  · cases h
    exact hids
  · exact hids.addNode rfl h

end Lowering

namespace Pattern

open Lowering

variable {words : WordData}

mutual

/-- **A pattern that is lowered adds a tree.** -/
theorem planted_lower : (p : Pattern) → {g g' : Grammar} → {id : NodeId} →
    p.lower words g = .ok id g' → Planted g [id] g'
  | .empty, g, _, _, h => (Planted.nil g).addNode rfl h
  | .literal _, _, _, _, h => planted_addLiteral h
  | .codeClass _, g, _, _, h => (Planted.nil g).addNode rfl h
  | .look _, g, _, _, h => by
    rw [lower] at h
    split at h
    · nomatch h
    · exact (Planted.nil g).addNode rfl h
  | .repetition _ _ _ sub, _, _, _, h => by
    rw [lower] at h
    obtain ⟨body, g₁, hbody, h⟩ := exists_of_bind_eq_ok h
    exact (planted_lower sub hbody).addNode rfl h
  | .capture _ _ sub, _, _, _, h => planted_lower sub h
  | .concat subs, _, _, _, h => by
    rw [lower] at h
    obtain ⟨children, g₁, hchildren, h⟩ := exists_of_bind_eq_ok h
    exact (planted_lowerAll subs hchildren).addNode rfl h
  | .alternation subs, _, _, _, h => by
    rw [lower] at h
    obtain ⟨children, g₁, hchildren, h⟩ := exists_of_bind_eq_ok h
    exact (planted_lowerAll subs hchildren).addNode rfl h

/-- Several patterns add a forest. -/
theorem planted_lowerAll : (subs : List Pattern) → {g g' : Grammar} → {ids : List NodeId} →
    lowerAll words subs g = .ok ids g' → Planted g ids g'
  | [], _, _, _, h => by
    cases h
    exact .nil _
  | sub :: rest, _, _, _, h => by
    rw [lowerAll] at h
    obtain ⟨id, g₁, hfirst, h⟩ := exists_of_bind_eq_ok h
    obtain ⟨ids, g₂, hrest, h⟩ := exists_of_bind_eq_ok h
    cases h
    exact (planted_lower sub hfirst).cons (planted_lowerAll rest hrest)

end

/-- **Lowering adds a tree, at any place of a grammar.**  Behind a grammar a pattern is lowered
as by itself, with every number moved up by the size of the grammar; a refused one is refused
for the same look, and leaves the same nodes, moved up.  Either way the nodes that were there
stay as they are.  If the pattern is not refused, the node that is returned is the last one, the
children of each new node are new nodes before it, and every new node but the last is among the
children of the new nodes exactly once. -/
theorem lower_adds_tree (words : WordData) (p : Pattern) (g : Grammar) :
    p.lower words g = relocate g (· + g.size) (p.lower words Grammar.empty) ∧
    (leaves (p.lower words) g).Extends g ∧
    ∀ (id : NodeId) (g' : Grammar), p.lower words g = .ok id g' →
      (g.size ≤ id ∧ id + 1 = g'.size) ∧
      (∀ (i : NodeId) (n : Node), g.size ≤ i → g'.nodes[i]? = some n →
        ∀ c ∈ n.children, g.size ≤ c ∧ c < i) ∧
      ∀ i : NodeId, g.size ≤ i → i < id → (g'.childrenFrom g.size).count i = 1 := by
  have hrelocates : Relocates g (· + g.size) (p.lower words) (p.lower words) := relocates_lower p
  refine ⟨hrelocates.eq_relocate, hrelocates.extends, fun id g' h => ?_⟩
  have hplanted := planted_lower p h
  exact ⟨hplanted.root_eq, hplanted.children_lt, hplanted.count_eq_one⟩

/-- A group and a choice with a loop in it, and then a word boundary. -/
def branching : Pattern :=
  .concat [.capture 1 none (.codeClass [.all]),
    .alternation [.empty, .repetition 2 none true (.codeClass [.all])], .look .wordUnicode]

/-- Lowered behind four nodes, it adds seven if the Unicode word characters are known, and the
loop, node `7`, is a child once.  Otherwise it leaves the five that come before the boundary. -/
theorem lower_adds_tree_branching :
    (∃ g', branching.lower { WordData.missing with unicode := some Char.isAlpha }
        Grammar.sharedSlot = .ok 10 g' ∧ g'.size = 11 ∧ (g'.childrenFrom 4).count 7 = 1) ∧
    ∃ added, branching.lower .missing Grammar.empty = .error (.unsupported .wordUnicode) added ∧
      added.size = 5 ∧
      branching.lower .missing Grammar.sharedSlot =
        .error (.unsupported .wordUnicode) (Grammar.sharedSlot.append added) := by
  obtain ⟨-, -, htree⟩ := lower_adds_tree { WordData.missing with unicode := some Char.isAlpha }
    branching Grammar.sharedSlot
  obtain ⟨⟨-, hsize⟩, -, hcount⟩ := htree 10 _ rfl
  obtain ⟨hrelocate, -⟩ := lower_adds_tree .missing branching Grammar.sharedSlot
  exact ⟨⟨_, rfl, hsize.symm, hcount 7 (by decide) (by decide)⟩, _, rfl, rfl, hrelocate⟩

end Pattern
end GuardedAutomata
