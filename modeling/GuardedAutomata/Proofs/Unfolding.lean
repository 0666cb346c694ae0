import GuardedAutomata.Grammar.Emission
import GuardedAutomata.Grammar.Reachable
import GuardedAutomata.Grammar.Spans
import GuardedAutomata.Proofs.SlotAlgebra
import Mathlib.Data.Finset.Card
import Mathlib.Data.Finset.Range

/-!
# Unfolding a node

What is emitted for a node, and what a node stands for, are both defined by following
children to a bounded depth.  Below a node that has no cycle under it the bound is
never reached, and both satisfy the equations that one would like to define them by:

* `Acyclic.emit_eq` --- the fragment of a node from the fragments of its children;
* `Acyclic.spans_eq` --- the meaning of a node from the meanings of its children.

## Why the depth is enough

The *weight* of a node is the number of nodes that it depends on.  A node depends on
whatever its children depend on, and on itself; a child that also depended on it would
be below itself.  So the weight goes down from a node to its children
(`Acyclic.weight_lt`), and it is at most the size of the grammar, which is less than the
depth that emission starts with.

A node is `Usable` if there is nothing wrong with anything that it depends on.  In a
`Topological` grammar every child has a smaller number than its parent, and every node
is usable; this is the form in which grammars come out of patterns.
-/

namespace GuardedAutomata

open SlotRelation

/-! ## One node -/

namespace Node

variable {words : WordData} {n : Node} {w : Array UInt32}

/-- The fragment of a node looks at the children of that node only. -/
theorem fragment_congr {F G : NodeId → Fragment} (h : ∀ c ∈ n.children, F c = G c) :
    n.fragment words F = n.fragment words G := by
  cases n with
  | empty | codeClass | assertion => rfl
  | slot body =>
    cases body with
    | none => rfl
    | some body => exact h body (by simp [children])
  | concat cs => exact congrArg Fragment.chain (List.map_congr_left h)
  | alternation cs => exact congrArg Fragment.branch (List.map_congr_left h)
  | repetition body min max =>
    simp only [fragment, h body (by simp [children])]

theorem spans_mono {R S : NodeId → SlotRelation} (h : ∀ c ∈ n.children, ∀ i j, R c i j → S c i j) :
    ∀ i j, n.spans words w R i j → n.spans words w S i j := by
  cases n with
  | empty | codeClass | assertion => exact fun _ _ hij => hij
  | slot body =>
    cases body with
    | none => exact fun _ _ hij => hij
    | some body => exact h body (by simp [children])
  | concat cs => exact inOrder_mono h
  | alternation cs => exact oneOf_mono h
  | repetition body min max => exact repetition_mono (h body (by simp [children])) min max

theorem spans_congr {R S : NodeId → SlotRelation} (h : ∀ c ∈ n.children, R c = S c) :
    n.spans words w R = n.spans words w S := by
  ext i j
  constructor
  · exact spans_mono (fun c hc i j hij => h c hc ▸ hij) i j
  · exact spans_mono (fun c hc i j hij => h c hc ▸ hij) i j

theorem bounded_spans {R : NodeId → SlotRelation} (h : ∀ c ∈ n.children, Bounded w (R c)) :
    Bounded w (n.spans words w R) := by
  cases n with
  | empty => exact bounded_stay
  | slot body =>
    cases body with
    | none => exact Bounded.oneOf fun _ hS => absurd hS List.not_mem_nil
    | some body => exact h body (by simp [children])
  | concat cs => exact Bounded.inOrder (List.forall_mem_map.mpr h)
  | alternation cs => exact Bounded.oneOf (List.forall_mem_map.mpr h)
  | codeClass members => exact bounded_symbol _
  | assertion condition => exact bounded_condition _
  | repetition body min max => exact (h body (by simp [children])).repetition min max

end Node

namespace Grammar

variable {g : Grammar} {id child : NodeId} {n : Node}

theorem hasChild_iff (hn : g.nodes[id]? = some n) : g.HasChild id child ↔ child ∈ n.children := by
  rw [HasChild, childrenOf, hn]

theorem emit_eq_fault (words : WordData) (hn : g.nodes[id]? = none) :
    g.emit words id = Fragment.fault (.indexOutOfBounds g.size id) := by
  rw [emit, emitWithin, hn]

/-! ## Going down -/

/-- The number of nodes that a node depends on. -/
noncomputable def weight (g : Grammar) (id : NodeId) : Nat :=
  open Classical in ((Finset.range g.size).filter (g.Reachable id)).card

theorem weight_le (g : Grammar) (id : NodeId) : g.weight id ≤ g.size := by
  classical
  have hle := Finset.card_filter_le (Finset.range g.size) (g.Reachable id)
  rwa [Finset.card_range] at hle

namespace Acyclic

theorem of_hasChild (h : g.Acyclic id) (hchild : g.HasChild id child) : g.Acyclic child :=
  fun x hx => h x (hx.of_hasChild hchild)

theorem weight_lt (h : g.Acyclic id) (hchild : g.HasChild id child) :
    g.weight child < g.weight id := by
  classical
  have hid : id < g.size := by
    by_contra hge
    rw [HasChild, childrenOf_of_size_le (Nat.not_lt.mp hge)] at hchild
    exact List.not_mem_nil hchild
  refine Finset.card_lt_card (Finset.ssubset_iff_of_subset ?_ |>.mpr ⟨id, ?_, ?_⟩)
  · intro x hx
    rw [Finset.mem_filter] at hx ⊢
    exact ⟨hx.1, hx.2.of_hasChild hchild⟩
  · exact Finset.mem_filter.mpr ⟨Finset.mem_range.mpr hid, .refl⟩
  · intro hmem
    exact h id .refl (Relation.TransGen.head' hchild (Finset.mem_filter.mp hmem).2)

/-- Induction from the children of a node to the node. -/
@[elab_as_elim]
theorem induction {motive : NodeId → Prop} (h : g.Acyclic id)
    (step : ∀ id, g.Acyclic id → (∀ child, g.HasChild id child → motive child) → motive id) :
    motive id := by
  generalize hk : g.weight id = k
  induction k using Nat.strong_induction_on generalizing id with
  | _ k ih =>
    exact step id h fun child hchild =>
      ih _ (hk ▸ h.weight_lt hchild) (h.of_hasChild hchild) rfl

/-- What follows the children of a node to a bounded depth is the same for every depth
greater than the weight. -/
theorem eq_of_weight_lt {α : Type} {f : Nat → NodeId → α}
    (hstep : ∀ id d e, (∀ child, g.HasChild id child → f d child = f e child) →
      f (d + 1) id = f (e + 1) id) (h : g.Acyclic id) :
    ∀ d e, g.weight id < d → g.weight id < e → f d id = f e id := by
  refine h.induction ?_
  intro id h ih d e hd he
  obtain ⟨d, rfl⟩ := Nat.exists_eq_add_one_of_ne_zero (Nat.ne_zero_of_lt hd)
  obtain ⟨e, rfl⟩ := Nat.exists_eq_add_one_of_ne_zero (Nat.ne_zero_of_lt he)
  refine hstep id d e fun child hchild => ?_
  have hlt := h.weight_lt hchild
  exact ih child hchild d e (by omega) (by omega)

/-! ## Emission -/

/-- Every depth greater than the weight gives the same fragment. -/
theorem emitWithin_eq {words : WordData} (h : g.Acyclic id) {d e : Nat} (hd : g.weight id < d)
    (he : g.weight id < e) : g.emitWithin words d id = g.emitWithin words e id := by
  refine h.eq_of_weight_lt (fun id d e hchildren => ?_) d e hd he
  unfold emitWithin
  cases hn : g.nodes[id]? with
  | none => rfl
  | some n => exact Node.fragment_congr fun c hc => hchildren c ((hasChild_iff hn).mpr hc)

/-- **The fragment of a node**, from the fragments of its children. -/
theorem emit_eq (words : WordData) (h : g.Acyclic id) (hn : g.nodes[id]? = some n) :
    g.emit words id = n.fragment words (g.emit words) := by
  rw [emit, emitWithin, hn]
  refine Node.fragment_congr fun c hc => ?_
  have hchild := (hasChild_iff hn).mpr hc
  have hlt := h.weight_lt hchild
  have hle := g.weight_le id
  exact (h.of_hasChild hchild).emitWithin_eq (by omega) (by omega)

end Acyclic

/-! ## Meaning -/

section

variable {words : WordData} {w : Array UInt32}

theorem spansWithin_succ (d : Nat) : ∀ id i j,
    g.spansWithin words w d id i j → g.spansWithin words w (d + 1) id i j := by
  induction d with
  | zero => exact fun _ i j hij => absurd hij (not_oneOf_nil i j)
  | succ d ih =>
    intro id
    rw [spansWithin, spansWithin]
    cases g.nodes[id]? with
    | none => exact fun _ _ hij => hij
    | some n => exact Node.spans_mono fun c _ => ih c

theorem spansWithin_mono {d e : Nat} (hde : d ≤ e) {i j : Nat}
    (hij : g.spansWithin words w d id i j) : g.spansWithin words w e id i j := by
  induction hde with
  | refl => exact hij
  | step _ ih => exact spansWithin_succ _ _ _ _ ih

theorem bounded_spansWithin (d : Nat) : ∀ id, Bounded w (g.spansWithin words w d id) := by
  induction d with
  | zero => exact fun _ => Bounded.oneOf fun _ hS => absurd hS List.not_mem_nil
  | succ d ih =>
    intro id
    rw [spansWithin]
    cases g.nodes[id]? with
    | none => exact Bounded.oneOf fun _ hS => absurd hS List.not_mem_nil
    | some n => exact Node.bounded_spans fun c _ => ih c

theorem bounded_spans (id : NodeId) : Bounded w (g.spans words w id) := by
  intro i j hi hrel
  obtain ⟨d, hij⟩ := hrel
  exact bounded_spansWithin d id i j hi hij

namespace Acyclic

/-- Every depth greater than the weight finds the same. -/
theorem spansWithin_eq (h : g.Acyclic id) {d e : Nat} (hd : g.weight id < d)
    (he : g.weight id < e) : g.spansWithin words w d id = g.spansWithin words w e id := by
  refine h.eq_of_weight_lt (fun id d e hchildren => ?_) d e hd he
  unfold spansWithin
  cases hn : g.nodes[id]? with
  | none => rfl
  | some n => exact Node.spans_congr fun c hc => hchildren c ((hasChild_iff hn).mpr hc)

/-- Such a depth finds everything. -/
theorem spans_eq_spansWithin (h : g.Acyclic id) {d : Nat} (hd : g.weight id < d) :
    g.spans words w id = g.spansWithin words w d id := by
  ext i j
  constructor
  · intro hrel
    obtain ⟨e, hij⟩ := hrel
    rw [h.spansWithin_eq hd (hd.trans_le (Nat.le_max_left d e))]
    exact spansWithin_mono (Nat.le_max_right d e) hij
  · exact fun hij => ⟨d, hij⟩

/-- **The meaning of a node**, from the meanings of its children. -/
theorem spans_eq (h : g.Acyclic id) (hn : g.nodes[id]? = some n) :
    g.spans words w id = n.spans words w (g.spans words w) := by
  rw [h.spans_eq_spansWithin (Nat.lt_succ_self _), spansWithin, hn]
  refine Node.spans_congr fun c hc => ?_
  have hchild := (hasChild_iff hn).mpr hc
  exact ((h.of_hasChild hchild).spans_eq_spansWithin (h.weight_lt hchild)).symm

end Acyclic

end

/-! ## Nodes that can be used -/

/-- Everything that the node depends on exists, is bound, and is not below itself. -/
structure Usable (g : Grammar) (id : NodeId) : Prop where
  complete : g.Complete id
  acyclic : g.Acyclic id
  bound : g.Bound id

namespace Usable

theorem of_hasChild (h : g.Usable id) (hchild : g.HasChild id child) : g.Usable child where
  complete x hx := h.complete x (hx.of_hasChild hchild)
  acyclic := h.acyclic.of_hasChild hchild
  bound x hx := h.bound x (hx.of_hasChild hchild)

theorem exists_node (h : g.Usable id) : ∃ n, g.nodes[id]? = some n ∧ n ≠ .slot none := by
  have hid : id < g.nodes.size := h.complete id .refl
  refine ⟨_, Array.getElem?_eq_getElem hid, fun hn => h.bound id .refl ?_⟩
  rw [Array.getElem?_eq_getElem hid, hn]

end Usable

/-- Every child comes before its parent, and every slot has a body. -/
def Topological (g : Grammar) : Prop :=
  ∀ (id : NodeId) (n : Node), g.nodes[id]? = some n → n ≠ .slot none ∧ ∀ c ∈ n.children, c < id

theorem topological_empty : empty.Topological :=
  fun _ _ hn => nomatch hn

namespace Topological

theorem push (h : g.Topological) (hn : n ≠ .slot none) (hchildren : ∀ c ∈ n.children, c < g.size) :
    (g.push n).Topological := by
  intro id m hm
  rw [Grammar.push, Array.getElem?_push] at hm
  split at hm
  · next heq =>
    obtain rfl : n = m := Option.some.inj hm
    exact heq ▸ ⟨hn, hchildren⟩
  · exact h id m hm

theorem lt_of_hasChild (h : g.Topological) (hchild : g.HasChild id child) : child < id := by
  cases hn : g.nodes[id]? with
  | none =>
    rw [HasChild, childrenOf, hn] at hchild
    exact absurd hchild List.not_mem_nil
  | some n => exact (h id n hn).2 child ((hasChild_iff hn).mp hchild)

/-- Every node of a topological grammar is usable. -/
theorem usable (h : g.Topological) (hid : id < g.size) : g.Usable id where
  complete x hx := by
    induction hx with
    | refl => exact hid
    | tail _ hchild ih => exact (h.lt_of_hasChild hchild).trans ih
  acyclic x _ hx := by
    have hlt : ∀ {y}, g.Descendant x y → y < x := by
      intro y hy
      induction hy with
      | single hchild => exact h.lt_of_hasChild hchild
      | tail _ hchild ih => exact (h.lt_of_hasChild hchild).trans ih
    exact Nat.lt_irrefl x (hlt hx)
  bound x _ hn := (h x _ hn).1 rfl

end Topological

end Grammar
end GuardedAutomata
