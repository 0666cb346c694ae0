import GuardedAutomata.Proofs.Fragments
import GuardedAutomata.Proofs.Matching
import GuardedAutomata.Proofs.RangeSets
import GuardedAutomata.Proofs.Unfolding

/-!
# A node acts as one edge

The fragment that is emitted for a usable node realizes what the node stands for
(`Grammar.Usable.realizes`).  Read out, this is the promise that nodes make to each
other and to everybody who builds automata by hand: wherever a node is emitted,
whatever edges are there already and whether or not entry and exit are the same state,
the states from before find exactly the paths that one edge labelled with the meaning
of the node would have given them (`Grammar.Usable.emit_acts_as_edge`).

The induction is from the children of a node to the node.  Its step is a lemma about a
single node, and knows nothing of grammars: realize the children, and the node's
fragment realizes the node (`Node.realizes`).
-/

namespace GuardedAutomata

open Relation SlotRelation

/-- **The guard of an assertion** is open exactly where the assertion holds, also for the
two ends of the text, whose guards are slots with an index. -/
theorem Assertion.holds_guard (words : WordData) (condition : Assertion) (t : Text) :
    (condition.guard words).holds t = condition.holds words t := by
  obtain ⟨values, cursor, hcursor⟩ := t
  cases condition with
  | textStart =>
    rw [Bool.eq_iff_iff, guard, Guard.holds_index, Anchor.names_of_nonneg (Int.le_refl 0)]
    cases cursor with
    | zero => exact iff_of_true rfl rfl
    | succ k =>
      have hbefore : (⟨values, k + 1, hcursor⟩ : Text).before? = some values[k] :=
        Array.getElem?_eq_getElem hcursor
      simp only [holds, holdsBetween, hbefore, Option.isNone_some, Bool.false_eq_true, iff_false]
      omega
  | textEnd =>
    rw [Bool.eq_iff_iff, guard, Guard.holds_index, Anchor.names_of_neg (by decide)]
    simp only [holds, holdsBetween, Text.after?, Text.length, Option.isNone_iff_eq_none,
      Array.getElem?_eq_none_iff]
    omega
  | _ => rfl

/-- One node realizes its meaning, if its children do. -/
theorem Node.realizes {words : WordData} {n : Node} {child : NodeId → Fragment}
    {rel : NodeId → Array UInt32 → SlotRelation} (hn : n ≠ .slot none)
    (h : ∀ c ∈ n.children, (child c).Realizes (rel c))
    (hbounded : ∀ c ∈ n.children, ∀ w, Bounded w (rel c w)) :
    (n.fragment words child).Realizes fun w => n.spans words w (rel · w) := by
  cases n with
  | empty => exact Fragment.realizes_empty
  | slot body =>
    cases body with
    | none => exact absurd rfl hn
    | some body => exact h body (by simp [children])
  | concat cs => exact Fragment.Realizes.chain h hbounded
  | alternation cs => exact Fragment.Realizes.branch h
  | codeClass members =>
    refine (Fragment.realizes_symbol members).congr fun w i j _ => ?_
    simp only [spans, SlotRelation.symbol, CodeClass.accepts_iff]
  | assertion condition =>
    refine (Fragment.realizes_guarded (condition.guard words)).congr fun w i j _ => ?_
    simp only [spans, SlotRelation.condition, Assertion.holds_guard]
  | repetition body min max =>
    have hbody : body ∈ (Node.repetition body min max).children := by simp [children]
    exact (h body hbody).repetition (hbounded body hbody) min max

namespace Grammar

variable {g : Grammar} {id : NodeId}

theorem Usable.realizes (h : g.Usable id) (words : WordData) :
    (g.emit words id).Realizes fun w => g.spans words w id := by
  refine h.acyclic.induction ?_ h
  intro id hacyclic ih h
  obtain ⟨n, hnode, hn⟩ := h.exists_node
  rw [hacyclic.emit_eq words hnode]
  simp only [hacyclic.spans_eq hnode]
  refine Node.realizes hn (fun c hc => ?_) fun c _ w => bounded_spans c
  have hchild := (hasChild_iff hnode).mpr hc
  exact ih c hchild (h.of_hasChild hchild)

/-- **A node acts as one edge.**  Emitting a usable node between any two states of any
builder succeeds, and between the states from before there are exactly the paths over
the old edges and one abstract edge from entry to exit, labelled with what the node
stands for. -/
theorem Usable.emit_acts_as_edge (h : g.Usable id) (words : WordData) {b : Builder}
    (hb : b.Constructed) {entry exit : StateId} (hentry : entry < b.stateCount)
    (hexit : exit < b.stateCount) :
    ∃ b', g.emit words id entry exit b = .ok () b' ∧
      ∀ (w : Array UInt32) (c d : Config), c.state < b.stateCount → d.state < b.stateCount →
        (ReflTransGen (b'.moves w) c d ↔
          ReflTransGen (b.moves w ⊔ MacroMove w (g.spans words w id) entry exit) c d) := by
  obtain ⟨b', hemit, hgain⟩ := h.realizes words b entry exit hb.wellFormed hentry hexit
  exact ⟨b', hemit, hgain.agreeOn⟩

/-- One code point under a slot, any number of these, and the slot between two uses of
the loop. -/
def sharedSlot : Grammar :=
  (((empty.push (.codeClass .any)).push (.slot (some 0))).push (.repetition 1 0 none)).push
    (.concat [2, 1, 2])

theorem usable_sharedSlot : sharedSlot.Usable 3 := by
  have hclass := topological_empty.push (n := .codeClass .any) (by simp) (by simp [Node.children])
  have hslot := hclass.push (n := .slot (some 0)) (by simp) (by simp [Node.children])
  have hloop := hslot.push (n := .repetition 1 0 none) (by simp) (by simp [Node.children])
  have hconcat := hloop.push (n := .concat [2, 1, 2]) (by simp) (by simp [Node.children])
  exact hconcat.usable (by decide)

theorem spans_sharedSlot : sharedSlot.spans .missing #['x'.val] 3 0 1 := by
  have hloop : ∀ i, SlotRelation.repetition
      (sharedSlot.spansWithin .missing #['x'.val] 2 1) 0 none i i := fun i =>
    ⟨0, (allowsCopies_none 0 0).mpr (Nat.le_refl 0), rfl⟩
  have hslot : sharedSlot.spansWithin .missing #['x'.val] 3 1 0 1 :=
    ⟨rfl, 'x'.val, rfl, .all, List.mem_singleton.mpr rfl, by decide, by decide⟩
  exact ⟨4, 0, hloop 0, 1, hslot, 1, hloop 1, rfl⟩

/-- Emitted from a state to itself, next to the cycle of another builder, it leads over
the code point. -/
theorem Usable.exists_emit_sharedSlot :
    (sharedSlot.Usable 3 ∧ Builder.cyclic.Constructed ∧ 2 < Builder.cyclic.stateCount) ∧
      ∃ b', sharedSlot.emit .missing 3 2 2 Builder.cyclic = .ok () b' ∧
        ReflTransGen (b'.moves #['x'.val]) ⟨2, 0⟩ ⟨2, 1⟩ := by
  have hstate : 2 < Builder.cyclic.stateCount := by decide
  obtain ⟨b', hemit, hpaths⟩ := usable_sharedSlot.emit_acts_as_edge .missing
    Builder.constructed_cyclic hstate hstate
  refine ⟨⟨usable_sharedSlot, Builder.constructed_cyclic, hstate⟩, b', hemit, ?_⟩
  refine (hpaths #['x'.val] ⟨2, 0⟩ ⟨2, 1⟩ hstate hstate).mpr (.single (.inr ?_))
  exact ⟨rfl, rfl, by decide, spans_sharedSlot⟩

end Grammar
end GuardedAutomata
