import GuardedAutomata.Proofs.Refusals

/-!
# Slots leave no trace

A slot stands for its body, and the body may be a slot again.  So a reference to a slot could as
well be a reference to the node at the end of the chain of slots that begins there.  Replacing
all references of a grammar in this way gives the *resolved* grammar, and the automaton of a
root is the same before and after it, edge by edge and in the same order
(`Grammar.compile_eq_ok_iff_resolved`).

## Chains without an end

Slots may be bound to each other in a cycle, and then there is no node to refer to instead.
Such a reference stays what it is (`Grammar.slotEnd`).  That keeps the comparison free of
conditions: resolving takes no cycle out of a grammar and puts none into it, so the cycle check
passes the same roots (`Grammar.sound_resolved_iff`), and also after slots were bound in ways
that leave no automaton at all.  The induction for that goes along the resolved grammar, where
it ends, and inside each step along one chain of slots.

What a node leads to is decided by one step (`Grammar.slotEnd_cases`): either the reference
stays, or it is one to a slot and has the end of its body.  That is all that is needed to
compare what is emitted (`Grammar.Acyclic.emit_resolved`).  Only that the end is no slot depends
on the number of steps, and below an acyclic node there are always enough of them.
-/

namespace GuardedAutomata

open Relation

/-! ## Nodes with other children -/

theorem Node.fragment_mapChildren (words : WordData) (f : NodeId → NodeId)
    (child : NodeId → Fragment) (n : Node) :
    (n.mapChildren f).fragment words child = n.fragment words fun c => child (f c) := by
  cases n with
  | slot body => cases body <;> rfl
  | concat cs => exact congrArg Fragment.chain List.map_map
  | alternation cs => exact congrArg Fragment.branch List.map_map
  | _ => rfl

namespace Grammar

variable {g : Grammar} {root id child body : NodeId} {words : WordData}

/-! ## Chains of slots -/

/-- The node is a slot, and the second one is its body. -/
def LeadsTo (g : Grammar) (id body : NodeId) : Prop := g.nodes[id]? = some (.slot (some body))

/-- The node in which a chain of slots ends, if it has fewer slots than the given number. -/
def chainEnd? (g : Grammar) : Nat → NodeId → Option NodeId
  | 0, _ => none
  | bound + 1, id =>
      match g.nodes[id]? with
      | some (.slot (some body)) => g.chainEnd? bound body
      | _ => some id

/-- What a reference is replaced with: the end of its chain of slots, and the reference itself
if the chain has no end. -/
def slotEnd (g : Grammar) (id : NodeId) : NodeId := (g.chainEnd? (g.size + 1) id).getD id

/-- The grammar in which every reference is replaced. -/
def resolved (g : Grammar) : Grammar := ⟨g.nodes.map (Node.mapChildren g.slotEnd)⟩

@[simp] theorem size_resolved (g : Grammar) : g.resolved.size = g.size := Array.size_map

theorem getElem?_resolved (g : Grammar) (id : NodeId) :
    g.resolved.nodes[id]? = g.nodes[id]?.map (Node.mapChildren g.slotEnd) := Array.getElem?_map

theorem LeadsTo.hasChild (h : g.LeadsTo id body) : g.HasChild id body := by
  rw [HasChild, childrenOf, h]
  exact List.mem_singleton.mpr rfl

theorem LeadsTo.eq_of_hasChild (h : g.LeadsTo id body) (hchild : g.HasChild id child) :
    child = body := by
  rw [HasChild, childrenOf, h] at hchild
  exact List.mem_singleton.mp hchild

theorem chainEnd?_of_leadsTo (h : g.LeadsTo id body) (bound : Nat) :
    g.chainEnd? (bound + 1) id = g.chainEnd? bound body := by
  rw [chainEnd?, h]

theorem chainEnd?_of_not_leadsTo (h : ∀ body, ¬g.LeadsTo id body) (bound : Nat) :
    g.chainEnd? (bound + 1) id = some id := by
  unfold chainEnd?
  split
  · next body hslot => exact absurd hslot (h body)
  · rfl

/-- A greater bound finds the same end. -/
theorem chainEnd?_succ {bound : Nat} {last : NodeId} (h : g.chainEnd? bound id = some last) :
    g.chainEnd? (bound + 1) id = some last := by
  induction bound generalizing id with
  | zero => nomatch h
  | succ bound ih =>
    by_cases hslot : ∃ body, g.LeadsTo id body
    · obtain ⟨body, hbody⟩ := hslot
      rw [chainEnd?_of_leadsTo hbody] at h ⊢
      exact ih h
    · rw [chainEnd?_of_not_leadsTo (not_exists.mp hslot)] at h ⊢
      exact h

/-- The end is reached along the chain, and no chain goes on from there. -/
theorem chain_of_chainEnd?_eq {bound : Nat} {last : NodeId}
    (h : g.chainEnd? bound id = some last) :
    ReflTransGen g.LeadsTo id last ∧ ∀ body, ¬g.LeadsTo last body := by
  induction bound generalizing id with
  | zero => nomatch h
  | succ bound ih =>
    by_cases hslot : ∃ body, g.LeadsTo id body
    · obtain ⟨body, hbody⟩ := hslot
      rw [chainEnd?_of_leadsTo hbody] at h
      exact ⟨(ih h).1.head hbody, (ih h).2⟩
    · rw [chainEnd?_of_not_leadsTo (not_exists.mp hslot)] at h
      cases h
      exact ⟨.refl, not_exists.mp hslot⟩

/-! ## Where a reference leads -/

/-- A reference stays, or it is one to a slot and leads where the body leads. -/
theorem slotEnd_cases (g : Grammar) (id : NodeId) :
    g.slotEnd id = id ∨ ∃ body, g.LeadsTo id body ∧ g.slotEnd id = g.slotEnd body := by
  by_cases hslot : ∃ body, g.LeadsTo id body
  · obtain ⟨body, hbody⟩ := hslot
    have hstep := chainEnd?_of_leadsTo hbody g.size
    cases hend : g.chainEnd? g.size body with
    | none =>
      left
      rw [slotEnd, hstep, hend, Option.getD_none]
    | some last =>
      right
      refine ⟨body, hbody, ?_⟩
      rw [slotEnd, slotEnd, hstep, hend, chainEnd?_succ hend, Option.getD_some, Option.getD_some]
  · left
    rw [slotEnd, chainEnd?_of_not_leadsTo (not_exists.mp hslot), Option.getD_some]

/-- A reference is replaced along a chain of slots. -/
theorem chain_slotEnd (g : Grammar) (id : NodeId) : ReflTransGen g.LeadsTo id (g.slotEnd id) := by
  unfold slotEnd
  cases hend : g.chainEnd? (g.size + 1) id with
  | none => exact .refl
  | some last => exact (chain_of_chainEnd?_eq hend).1

theorem reachable_slotEnd (g : Grammar) (id : NodeId) : g.Reachable id (g.slotEnd id) :=
  ReflTransGen.mono (fun _ _ => LeadsTo.hasChild) _ _ (g.chain_slotEnd id)

/-- Below an acyclic node, a bound beyond its weight is enough. -/
theorem Acyclic.chainEnd?_ne_none (h : g.Acyclic id) {bound : Nat} (hbound : g.weight id < bound) :
    g.chainEnd? bound id ≠ none := by
  induction bound generalizing id with
  | zero => exact absurd hbound (Nat.not_lt_zero _)
  | succ bound ih =>
    by_cases hslot : ∃ body, g.LeadsTo id body
    · obtain ⟨body, hbody⟩ := hslot
      have hlt := h.weight_lt hbody.hasChild
      rw [chainEnd?_of_leadsTo hbody]
      exact ih (h.of_hasChild hbody.hasChild) (by omega)
    · rw [chainEnd?_of_not_leadsTo (not_exists.mp hslot)]
      exact Option.some_ne_none id

theorem Acyclic.not_leadsTo_slotEnd (h : g.Acyclic id) (body : NodeId) :
    ¬g.LeadsTo (g.slotEnd id) body := by
  have hbound : g.weight id < g.size + 1 := Nat.lt_succ_of_le (g.weight_le id)
  obtain ⟨last, hlast⟩ := Option.ne_none_iff_exists'.mp (h.chainEnd?_ne_none hbound)
  rw [slotEnd, hlast, Option.getD_some]
  exact (chain_of_chainEnd?_eq hlast).2 body

theorem Usable.of_reachable (h : g.Usable root) (hid : g.Reachable root id) : g.Usable id where
  complete x hx := h.complete x (hid.trans hx)
  acyclic x hx := h.acyclic x (hid.trans hx)
  bound x hx := h.bound x (hid.trans hx)

theorem Usable.exists_slotEnd (h : g.Usable id) :
    ∃ n, g.nodes[g.slotEnd id]? = some n ∧ ∀ body, n ≠ .slot body := by
  obtain ⟨n, hnode, hn⟩ := (h.of_reachable (g.reachable_slotEnd id)).exists_node
  refine ⟨n, hnode, ?_⟩
  rintro (_ | body) rfl
  · exact hn rfl
  · exact h.acyclic.not_leadsTo_slotEnd body hnode

/-! ## The resolved grammar -/

theorem hasChild_resolved_iff :
    g.resolved.HasChild id child ↔ ∃ c, g.HasChild id c ∧ g.slotEnd c = child := by
  unfold HasChild childrenOf
  rw [getElem?_resolved]
  cases g.nodes[id]? with
  | none => simp
  | some n => simp [Node.children_mapChildren]

theorem descendant_of_hasChild_resolved (h : g.resolved.HasChild id child) :
    g.Descendant id child := by
  obtain ⟨c, hchild, rfl⟩ := hasChild_resolved_iff.mp h
  exact TransGen.head' hchild (g.reachable_slotEnd c)

theorem reachable_of_resolved (h : g.resolved.Reachable id child) : g.Reachable id child := by
  induction h with
  | refl => exact .refl
  | tail _ hstep ih => exact ih.trans (descendant_of_hasChild_resolved hstep).to_reflTransGen

theorem descendant_of_resolved (h : g.resolved.Descendant id child) : g.Descendant id child := by
  induction h with
  | single hstep => exact descendant_of_hasChild_resolved hstep
  | tail _ hstep ih => exact ih.trans (descendant_of_hasChild_resolved hstep)

/-- What can be reached in the grammar can be reached in the resolved one, up to slots. -/
theorem reachable_resolved (h : g.Reachable root id) :
    g.resolved.Reachable (g.slotEnd root) (g.slotEnd id) := by
  induction h with
  | refl => exact .refl
  | @tail parent child _ hchild ih =>
    obtain hstays | ⟨body, hbody, hleads⟩ := g.slotEnd_cases parent
    · rw [hstays] at ih
      exact ih.tail (hasChild_resolved_iff.mpr ⟨child, hchild, rfl⟩)
    · rw [hbody.eq_of_hasChild hchild, ← hleads]
      exact ih

theorem Usable.ne_slot_of_resolved (h : g.Usable root)
    (hid : g.resolved.Reachable (g.slotEnd root) id) (body : Option NodeId) :
    g.resolved.nodes[id]? ≠ some (.slot body) := by
  obtain ⟨c, hc, rfl⟩ : ∃ c, g.Usable c ∧ g.slotEnd c = id := by
    rcases ReflTransGen.cases_tail hid with rfl | ⟨parent, hparent, hchild⟩
    · exact ⟨root, h, rfl⟩
    · obtain ⟨c, hc, hend⟩ := hasChild_resolved_iff.mp hchild
      have hreach := (g.reachable_slotEnd root).trans (reachable_of_resolved hparent)
      exact ⟨c, (h.of_reachable hreach).of_hasChild hc, hend⟩
  obtain ⟨n, hnode, hn⟩ := hc.exists_slotEnd
  rw [getElem?_resolved, hnode, Option.map_some]
  cases n with
  | slot old => exact absurd rfl (hn old)
  | _ => exact fun heq => nomatch heq

/-! ## The cycle check -/

/-- If going down from a node comes to an end, nothing below it is below itself. -/
theorem acyclic_of_acc (h : Acc (fun child parent => g.HasChild parent child) root) :
    g.Acyclic root := by
  induction h with
  | intro id _ ih =>
    intro x hx hcycle
    -- a node on a cycle is reached from a child of the root, also if it is the root
    have hbelow : g.Descendant id x := TransGen.trans_right hx hcycle
    obtain ⟨c, hchild, hreach⟩ := TransGen.head'_iff.mp hbelow
    exact ih c hchild x hreach hcycle

/-- Each slot of a chain has one child, so going down from it ends if it ends from the last. -/
theorem acc_of_chain {last : NodeId} (hchain : ReflTransGen g.LeadsTo id last)
    (h : Acc (fun child parent => g.HasChild parent child) last) :
    Acc (fun child parent => g.HasChild parent child) id := by
  induction hchain using ReflTransGen.head_induction_on with
  | refl => exact h
  | head hbody _ ih => exact .intro _ fun c hchild => hbody.eq_of_hasChild hchild ▸ ih

theorem acc_of_resolved {last : NodeId}
    (h : Acc (fun child parent => g.resolved.HasChild parent child) last) :
    ∀ id, g.slotEnd id = last → Acc (fun child parent => g.HasChild parent child) id := by
  induction h with
  | intro last _ ih =>
    rintro id rfl
    have hlast : Acc (fun child parent => g.HasChild parent child) (g.slotEnd id) :=
      .intro _ fun c hchild => ih _ (hasChild_resolved_iff.mpr ⟨c, hchild, rfl⟩) c rfl
    exact acc_of_chain (g.chain_slotEnd id) hlast

/-- **The cycle check passes the same roots.** -/
theorem sound_resolved_iff : g.resolved.Sound (g.slotEnd root) ↔ g.Sound root := by
  constructor
  · intro h
    refine ⟨fun id hid => ?_, acyclic_of_acc (acc_of_resolved h.acyclic.acc root rfl)⟩
    -- a slot exists, and whatever else is reached is reached in the resolved grammar
    obtain hstays | ⟨body, hbody, -⟩ := g.slotEnd_cases id
    · have hreach := reachable_resolved hid
      rw [hstays] at hreach
      exact g.size_resolved ▸ h.complete id hreach
    · exact (Array.getElem?_eq_some_iff.mp hbody).1
  · intro h
    have hreach : ∀ {id}, g.resolved.Reachable (g.slotEnd root) id → g.Reachable root id :=
      fun hid => (g.reachable_slotEnd root).trans (reachable_of_resolved hid)
    refine ⟨fun id hid => ?_, fun id hid hcycle => ?_⟩
    · rw [size_resolved]
      exact h.complete id (hreach hid)
    · exact h.acyclic id (hreach hid) (descendant_of_resolved hcycle)

/-! ## Emission -/

theorem Acyclic.resolved (h : g.Acyclic id) : g.resolved.Acyclic (g.slotEnd id) :=
  fun x hx hcycle => h x ((g.reachable_slotEnd id).trans (reachable_of_resolved hx))
    (descendant_of_resolved hcycle)

/-- **The same is emitted for a reference and for what it is replaced with.** -/
theorem Acyclic.emit_resolved (h : g.Acyclic id) (words : WordData) :
    g.resolved.emit words (g.slotEnd id) = g.emit words id := by
  refine h.induction fun id h ih => ?_
  obtain hstays | ⟨body, hbody, hleads⟩ := g.slotEnd_cases id
  · have hresolved := h.resolved
    rw [hstays] at hresolved ⊢
    cases hnode : g.nodes[id]? with
    | none =>
      have hnone : g.resolved.nodes[id]? = none := by
        rw [getElem?_resolved, hnode, Option.map_none]
      rw [emit_eq_fault words hnode, emit_eq_fault words hnone, size_resolved]
    | some n =>
      have hsome : g.resolved.nodes[id]? = some (n.mapChildren g.slotEnd) := by
        rw [getElem?_resolved, hnode, Option.map_some]
      rw [h.emit_eq words hnode, hresolved.emit_eq words hsome, Node.fragment_mapChildren]
      exact Node.fragment_congr fun c hc => ih c ((hasChild_iff hnode).mpr hc)
  · rw [hleads, ih body hbody.hasChild, h.emit_eq words hbody, Node.fragment]

/-- **A root has an automaton exactly if the resolved root has it.** -/
theorem compile_eq_ok_iff_resolved {a : Automaton} :
    g.compile words root = .ok a ↔ g.resolved.compile words (g.slotEnd root) = .ok a := by
  have hvalid : g.validate root = .ok () ↔ g.resolved.validate (g.slotEnd root) = .ok () := by
    rw [validate_eq_ok_iff_sound, validate_eq_ok_iff_sound, sound_resolved_iff]
  rw [compile_eq_ok_iff, compile_eq_ok_iff, ← hvalid]
  refine and_congr_right fun hok => ?_
  rw [(validate_eq_ok_iff_sound.mp hok).acyclic.emit_resolved words]

/-! ## Binding -/

/-- The grammar after several slots were bound, one after the other. -/
def bindAll (g : Grammar) (bindings : List (NodeId × NodeId)) : Except Fault Grammar :=
  bindings.foldlM (fun g binding => g.bind binding.1 binding.2) g

theorem getElem?_of_bind {g' : Grammar} {slot target : NodeId} (h : g.bind slot target = .ok g')
    {n : Node} (hnode : g.nodes[id]? = some n) (hn : ∀ body, n ≠ .slot body) :
    g'.nodes[id]? = some n := by
  have hslot : slot ≠ id → (g.nodes.setIfInBounds slot (.slot (some target)))[id]? = some n := by
    intro hne
    rw [Array.getElem?_setIfInBounds_ne hne, hnode]
  unfold bind node at h
  by_cases htarget : target < g.size
  · rw [if_pos htarget] at h
    cases hold : g.nodes[slot]? with
    | none =>
      rw [hold] at h
      nomatch h
    | some m =>
      rw [hold] at h
      cases m with
      | slot old =>
        cases h
        refine hslot ?_
        rintro rfl
        exact hn old (Option.some.inj (hnode.symm.trans hold))
      | _ => nomatch h
  · rw [if_neg htarget] at h
    nomatch h

theorem getElem?_of_bindAll {g' : Grammar} {bindings : List (NodeId × NodeId)}
    (h : g.bindAll bindings = .ok g') {n : Node} (hnode : g.nodes[id]? = some n)
    (hn : ∀ body, n ≠ .slot body) : g'.nodes[id]? = some n := by
  induction bindings generalizing g with
  | nil =>
    cases h
    exact hnode
  | cons binding later ih =>
    rw [bindAll, List.foldlM_cons] at h
    cases hbind : g.bind binding.1 binding.2 with
    | error fault =>
      rw [hbind] at h
      nomatch h
    | ok g₁ =>
      rw [hbind] at h
      exact ih h (getElem?_of_bind hbind hnode hn)

/-! ## Main result -/

/-- **Slots leave no trace.**  If a root is usable, every reference below it leads along slots
to a node that is no slot, no slot is left below the root of the resolved grammar, and both
grammars have the same automaton: as many states, and the same edges in the same order.  After
slots were bound, whatever to, the references of the other nodes lead where the slots lead now,
and again the root has an automaton exactly if the resolved root has it. -/
theorem slots_leave_no_trace (words : WordData) (g : Grammar) (root : NodeId) :
    (g.Usable root →
      (∀ id, g.Reachable root id → ReflTransGen g.LeadsTo id (g.slotEnd id) ∧
        ∃ n, g.nodes[g.slotEnd id]? = some n ∧ ∀ body, n ≠ .slot body) ∧
      (∀ id body, g.resolved.Reachable (g.slotEnd root) id →
        g.resolved.nodes[id]? ≠ some (.slot body)) ∧
      ∃ a, g.compile words root = .ok a ∧ g.resolved.compile words (g.slotEnd root) = .ok a) ∧
    ∀ (bindings : List (NodeId × NodeId)) (g' : Grammar), g.bindAll bindings = .ok g' →
      (∀ (id : NodeId) (n : Node), g.nodes[id]? = some n → (∀ body, n ≠ .slot body) →
        g'.resolved.nodes[id]? = some (n.mapChildren g'.slotEnd)) ∧
      ∀ a, g'.compile words root = .ok a ↔ g'.resolved.compile words (g'.slotEnd root) = .ok a := by
  refine ⟨fun h => ⟨fun id hid => ?_, fun id body hid => h.ne_slot_of_resolved hid body, ?_⟩,
    fun bindings g' hbind => ⟨fun id n hnode hn => ?_, fun a => compile_eq_ok_iff_resolved⟩⟩
  · exact ⟨g.chain_slotEnd id, (h.of_reachable hid).exists_slotEnd⟩
  · obtain ⟨a, ha, -⟩ := h.exists_compile words
    exact ⟨a, ha, compile_eq_ok_iff_resolved.mp ha⟩
  · rw [getElem?_resolved, getElem?_of_bindAll hbind hnode hn, Option.map_some]

/-- A loop over a slot that is bound to a slot, with the second slot once more behind it. -/
def chained : Grammar :=
  ((((((empty.push (.codeClass .any)).push (.assertion .textEnd)).push (.slot (some 0))).push
    (.slot (some 2))).push (.repetition 3 1 none)).push (.concat [4, 2]))

theorem usable_chained : chained.Usable 5 := by
  have hclass := topological_empty.push (n := .codeClass .any) (by simp) (by simp [Node.children])
  have hassertion := hclass.push (n := .assertion .textEnd) (by simp) (by simp [Node.children])
  have hfirst := hassertion.push (n := .slot (some 0)) (by simp) (by simp [Node.children])
  have hsecond := hfirst.push (n := .slot (some 2)) (by simp) (by simp [Node.children])
  have hloop := hsecond.push (n := .repetition 3 1 none) (by simp) (by simp [Node.children])
  have hconcat := hloop.push (n := .concat [4, 2]) (by simp) (by simp [Node.children])
  exact hconcat.usable (by decide)

/-- The loop leads to the code point, and after the inner slot was bound to the assertion it
leads there. -/
theorem slots_leave_no_trace_rebound :
    (chained.Usable 5 ∧ chained.slotEnd 3 = 0 ∧
      ∃ a, chained.compile .missing 5 = .ok a ∧ chained.resolved.compile .missing 5 = .ok a) ∧
    ∃ g', chained.bindAll [(2, 1)] = .ok g' ∧
      g'.resolved.nodes[4]? = some (.repetition 1 1 none) ∧
      ∀ a, g'.compile .missing 5 = .ok a ↔ g'.resolved.compile .missing 5 = .ok a := by
  obtain ⟨husable, hbindings⟩ := slots_leave_no_trace .missing chained 5
  obtain ⟨-, -, hcompile⟩ := husable usable_chained
  obtain ⟨hnodes, hiff⟩ := hbindings [(2, 1)] _ rfl
  exact ⟨⟨usable_chained, rfl, hcompile⟩, _, rfl, hnodes 4 (.repetition 3 1 none) rfl (by simp),
    hiff⟩

end Grammar
end GuardedAutomata
