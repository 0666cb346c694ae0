import GuardedAutomata.Proofs.Operations
import Mathlib.Algebra.Order.BigOperators.Group.Finset

/-!
# The cycle check is exact and ends

`Grammar.validate` walks over what a root depends on.  Its loop is taken apart into
turns here: a turn leaves a finished node, passes a child that is done with, or enters a
child that was not seen yet, and the loop stops at an empty path or at one of two faults
(`Grammar.Turn`, `Grammar.Stops`).

* **It ends.**  Count for every node on the path the children that are still to be
  visited and the node itself, and for every unseen node all its children and the node.
  Every turn takes at least one from this number, so there are no more turns than nodes
  and references together (`Grammar.exists_turns`).
* **It is right to pass.**  A node is `Sound` if everything it depends on exists and has
  no cycle, which is so if it exists and its children are sound.  Nodes that are done with
  are sound.  The children of a node on the path are still to be visited, or sound, or
  next on the path --- so when nothing is left to be visited below the deepest node, that
  node is sound as well.
* **It is right to fault.**  The path leads from the root down to the node at hand, so a
  child that is on the path is one from which that node is reached.

Both halves are one invariant of the turns, `Grammar.Consistent`.  What it says where the
loop stops is the verdict (`Grammar.verdict_validate`).
-/

namespace GuardedAutomata
namespace Grammar

open Relation

variable {g : Grammar} {root id child : NodeId}

/-! ## Turns of the loop -/

/-- The path and the marks in the middle of the check. -/
structure Search where
  path : SearchPath
  marks : Array Mark

/-- The nodes on the path, the deepest first. -/
def Search.nodes (s : Search) : List NodeId := s.path.map Prod.fst

/-- One turn of the loop that does not stop it. -/
inductive Turn (g : Grammar) : Search → Search → Prop where
  /-- All children were visited. -/
  | leave {id : NodeId} {rest : SearchPath} {marks : Array Mark} :
      Turn g ⟨(id, []) :: rest, marks⟩ ⟨rest, marks.setIfInBounds id .done⟩
  /-- The next child is done with. -/
  | pass {id child : NodeId} {later : List NodeId} {rest : SearchPath} {marks : Array Mark}
      (hmark : marks[child]? = some .done) :
      Turn g ⟨(id, child :: later) :: rest, marks⟩ ⟨(id, later) :: rest, marks⟩
  /-- The next child was not seen yet. -/
  | enter {id child : NodeId} {later : List NodeId} {rest : SearchPath} {marks : Array Mark}
      (hmark : marks[child]? = some .unseen) :
      Turn g ⟨(id, child :: later) :: rest, marks⟩
        ⟨(child, g.childrenOf child) :: (id, later) :: rest, marks.setIfInBounds child .onPath⟩

/-- The loop stops here, with this result. -/
inductive Stops : Search → Except Fault Unit → Prop where
  /-- Nothing is left on the path. -/
  | finished {marks : Array Mark} : Stops ⟨[], marks⟩ (.ok ())
  /-- The next child does not exist. -/
  | missing {id child : NodeId} {later : List NodeId} {rest : SearchPath} {marks : Array Mark}
      (hmark : marks[child]? = none) :
      Stops ⟨(id, child :: later) :: rest, marks⟩ (.error (.indexOutOfBounds marks.size child))
  /-- The next child is on the path. -/
  | cycle {id child : NodeId} {later : List NodeId} {rest : SearchPath} {marks : Array Mark}
      (hmark : marks[child]? = some .onPath) :
      Stops ⟨(id, child :: later) :: rest, marks⟩ (.error (.selfReference child id))

/-- A number of turns in a row. -/
inductive Turns (g : Grammar) : Nat → Search → Search → Prop where
  | none (s : Search) : Turns g 0 s s
  | next {n : Nat} {s s' s'' : Search} (hturn : g.Turn s s') (hturns : Turns g n s' s'') :
      Turns g (n + 1) s s''

/-- The walk takes turns until it stops. -/
theorem exists_turns_walk (g : Grammar) (path : SearchPath) (marks : Array Mark) :
    ∃ n s, g.Turns n ⟨path, marks⟩ s ∧ Stops s (g.walk path marks) := by
  fun_induction walk g path marks with
  | case1 marks => exact ⟨0, _, .none _, .finished⟩
  | case2 marks id rest ih =>
    obtain ⟨n, s, hturns, hstops⟩ := ih
    exact ⟨n + 1, s, .next .leave hturns, hstops⟩
  | case3 marks id child later rest hmark => exact ⟨0, _, .none _, .missing hmark⟩
  | case4 marks id child later rest hmark => exact ⟨0, _, .none _, .cycle hmark⟩
  | case5 marks id child later rest hmark ih =>
    obtain ⟨n, s, hturns, hstops⟩ := ih
    exact ⟨n + 1, s, .next (.pass hmark) hturns, hstops⟩
  | case6 marks id child later rest hmark ih =>
    obtain ⟨n, s, hturns, hstops⟩ := ih
    exact ⟨n + 1, s, .next (.enter hmark) hturns, hstops⟩

/-! ## How many turns there are -/

/-- The number of references from a node to another, over all nodes. -/
def referenceCount (g : Grammar) : Nat := ∑ id ∈ Finset.range g.size, (g.childrenOf id).length

/-- The nodes that were not seen yet. -/
def Search.unseen (s : Search) : Finset NodeId :=
  (Finset.range s.marks.size).filter fun id => s.marks[id]? = some .unseen

/-- The number of nodes among the given ones and of references from them. -/
def workOf (g : Grammar) (ids : Finset NodeId) : Nat := ∑ id ∈ ids, ((g.childrenOf id).length + 1)

/-- What is left to do: for each node on the path or unseen, the node itself and the
children that are still to be visited. -/
def Search.pending (g : Grammar) (s : Search) : Nat := pathWeight s.path + g.workOf s.unseen

theorem workOf_mono {ids ids' : Finset NodeId} (h : ids ⊆ ids') : g.workOf ids ≤ g.workOf ids' :=
  Finset.sum_le_sum_of_subset h

theorem add_workOf_le {ids ids' : Finset NodeId} (h : ids ⊆ ids'.erase id) (hid : id ∈ ids') :
    (g.childrenOf id).length + 1 + g.workOf ids ≤ g.workOf ids' := by
  have herase : (g.childrenOf id).length + 1 + g.workOf (ids'.erase id) = g.workOf ids' :=
    Finset.add_sum_erase ids' (fun x => (g.childrenOf x).length + 1) hid
  have hmono := workOf_mono (g := g) h
  omega

theorem workOf_range (g : Grammar) : g.workOf (Finset.range g.size) = g.size + g.referenceCount := by
  rw [workOf, Finset.sum_add_distrib, ← Finset.card_eq_sum_ones, Finset.card_range, referenceCount,
    Nat.add_comm]

theorem Search.mem_unseen {s : Search} : id ∈ s.unseen ↔ s.marks[id]? = some .unseen := by
  rw [unseen, Finset.mem_filter, Finset.mem_range, and_iff_right_iff_imp]
  intro h
  obtain ⟨hlt, -⟩ := Array.getElem?_eq_some_iff.mp h
  exact hlt

theorem getElem?_mark_iff {marks : Array Mark} {mark mark' : Mark} {x : NodeId} :
    (marks.setIfInBounds id mark)[x]? = some mark' ↔
      (x = id ∧ id < marks.size ∧ mark = mark') ∨ (x ≠ id ∧ marks[x]? = some mark') := by
  rw [Array.getElem?_setIfInBounds]
  by_cases hx : id = x
  · subst hx
    by_cases hid : id < marks.size
    · simp [hid]
    · simp [hid]
  · simp [hx, Ne.symm hx]

theorem Search.unseen_mark_subset (path path' : SearchPath) (marks : Array Mark) (id : NodeId)
    {mark : Mark} (hmark : mark ≠ .unseen) :
    (⟨path', marks.setIfInBounds id mark⟩ : Search).unseen ⊆
      (⟨path, marks⟩ : Search).unseen.erase id := by
  intro x hx
  rcases getElem?_mark_iff.mp (mem_unseen.mp hx) with ⟨-, -, heq⟩ | ⟨hne, hold⟩
  · exact absurd heq hmark
  · exact Finset.mem_erase.mpr ⟨hne, mem_unseen.mpr hold⟩

/-- Every turn leaves less to do. -/
theorem Turn.pending_lt {s s' : Search} (h : g.Turn s s') : s'.pending g < s.pending g := by
  cases h with
  | @leave id rest marks =>
    have hsubset := Search.unseen_mark_subset ((id, []) :: rest) rest marks id
      (show Mark.done ≠ .unseen by decide)
    have hwork := workOf_mono (g := g) (hsubset.trans (Finset.erase_subset _ _))
    simp only [Search.pending, pathWeight_cons, List.length_nil]
    omega
  | @pass id child later rest marks hmark =>
    have hunseen : (⟨(id, later) :: rest, marks⟩ : Search).unseen =
        (⟨(id, child :: later) :: rest, marks⟩ : Search).unseen := rfl
    simp only [Search.pending, pathWeight_cons, List.length_cons, hunseen]
    omega
  | @enter id child later rest marks hmark =>
    have hsubset := Search.unseen_mark_subset ((id, child :: later) :: rest)
      ((child, g.childrenOf child) :: (id, later) :: rest) marks child
      (show Mark.onPath ≠ .unseen by decide)
    have hwork := add_workOf_le (g := g) hsubset (Search.mem_unseen.mpr hmark)
    simp only [Search.pending, pathWeight_cons, List.length_cons]
    omega

theorem Turns.add_pending_le {n : Nat} {s s' : Search} (h : g.Turns n s s') :
    n + s'.pending g ≤ s.pending g := by
  induction h with
  | none s => exact Nat.le_of_eq (Nat.zero_add _)
  | next hturn _ ih =>
    have hlt := hturn.pending_lt
    omega

/-- The search from a root, before its first turn. -/
def start (g : Grammar) (root : NodeId) : Search where
  path := [(root, g.childrenOf root)]
  marks := (Array.replicate g.size Mark.unseen).setIfInBounds root .onPath

theorem of_start_mark {mark : Mark} (h : (g.start root).marks[id]? = some mark) :
    id < g.size ∧ (id = root ∧ mark = .onPath ∨ id ≠ root ∧ mark = .unseen) := by
  rcases getElem?_mark_iff.mp h with ⟨rfl, hlt, heq⟩ | ⟨hne, hold⟩
  · rw [Array.size_replicate] at hlt
    exact ⟨hlt, .inl ⟨rfl, heq.symm⟩⟩
  · obtain ⟨hlt, hunseen⟩ := Array.getElem?_eq_some_iff.mp hold
    rw [Array.getElem_replicate] at hunseen
    rw [Array.size_replicate] at hlt
    exact ⟨hlt, .inr ⟨hne, hunseen.symm⟩⟩

theorem pending_start_le (hroot : root < g.size) :
    (g.start root).pending g ≤ g.size + g.referenceCount := by
  have hsubset : (g.start root).unseen ⊆ (Finset.range g.size).erase root := by
    intro x hx
    obtain ⟨hlt, ⟨-, heq⟩ | ⟨hne, -⟩⟩ := of_start_mark (Search.mem_unseen.mp hx)
    · nomatch heq
    · exact Finset.mem_erase.mpr ⟨hne, Finset.mem_range.mpr hlt⟩
  have hwork := add_workOf_le (g := g) hsubset (Finset.mem_range.mpr hroot)
  rw [workOf_range] at hwork
  have hweight : pathWeight (g.start root).path = (g.childrenOf root).length + 1 := rfl
  rw [Search.pending, hweight]
  exact hwork

/-- The check stops after no more turns than there are nodes and references. -/
theorem exists_turns (hroot : root < g.size) :
    ∃ n s, n ≤ g.size + g.referenceCount ∧ g.Turns n (g.start root) s ∧
      Stops s (g.validate root) := by
  have hvalidate : g.validate root = g.walk (g.start root).path (g.start root).marks :=
    if_pos hroot
  obtain ⟨n, s, hturns, hstops⟩ : ∃ n s, g.Turns n (g.start root) s ∧
      Stops s (g.walk (g.start root).path (g.start root).marks) := exists_turns_walk g _ _
  have hpending := hturns.add_pending_le
  have hstart := pending_start_le hroot
  exact ⟨n, s, by omega, hturns, hvalidate ▸ hstops⟩

/-! ## Sound nodes -/

/-- Everything that the node depends on exists, and none of it is below itself. -/
structure Sound (g : Grammar) (id : NodeId) : Prop where
  complete : g.Complete id
  acyclic : g.Acyclic id

theorem Sound.of_children (hid : id < g.size) (h : ∀ c, g.HasChild id c → g.Sound c) :
    g.Sound id where
  complete x hx := by
    rcases ReflTransGen.cases_head hx with rfl | ⟨c, hchild, hx⟩
    · exact hid
    · exact (h c hchild).complete x hx
  acyclic x hx := by
    rcases ReflTransGen.cases_head hx with rfl | ⟨c, hchild, hx⟩
    · -- a cycle through the node is one below the child that it begins with
      intro hbelow
      obtain ⟨c, hchild, hback⟩ := TransGen.head'_iff.mp hbelow
      exact (h c hchild).acyclic id hback hbelow
    · exact (h c hchild).acyclic x hx

/-! ## What is known between turns -/

/-- For each node on a path, the children that are still to be visited are among its
children, and the other children are sound or next on the path.  The first argument is
the node that comes next after the deepest one. -/
inductive Accounted (g : Grammar) : Option NodeId → SearchPath → Prop where
  | nil {above : Option NodeId} : Accounted g above []
  | cons {above : Option NodeId} {id : NodeId} {later : List NodeId} {rest : SearchPath}
      (hid : id < g.size) (hlater : ∀ c ∈ later, g.HasChild id c)
      (hvisited : ∀ c, g.HasChild id c → c ∈ later ∨ g.Sound c ∨ above = some c)
      (hrest : Accounted g (some id) rest) : Accounted g above ((id, later) :: rest)

theorem Accounted.of_sound {path : SearchPath} (h : g.Accounted (some id) path)
    (hid : g.Sound id) : g.Accounted none path := by
  cases h with
  | nil => exact .nil
  | cons hexists hlater hvisited hrest =>
    refine .cons hexists hlater (fun c hc => ?_) hrest
    rcases hvisited c hc with hmem | hsound | habove
    · exact .inl hmem
    · exact .inr (.inl hsound)
    · obtain rfl : id = c := Option.some.inj habove
      exact .inr (.inl hid)

theorem Accounted.sound {rest : SearchPath} (h : g.Accounted none ((id, []) :: rest)) :
    g.Sound id := by
  cases h with
  | cons hexists _ hvisited _ =>
    refine Sound.of_children hexists fun c hc => ?_
    rcases hvisited c hc with hmem | hsound | habove
    · exact absurd hmem List.not_mem_nil
    · exact hsound
    · nomatch habove

/-- What is known between turns of the search from a root. -/
structure Consistent (g : Grammar) (root : NodeId) (s : Search) : Prop where
  size_marks : s.marks.size = g.size
  accounted : g.Accounted none s.path
  reachable : ∀ id ∈ s.nodes, g.Reachable root id
  route : s.nodes.Pairwise fun lower upper => g.Reachable upper lower
  onPath_mem : ∀ id, s.marks[id]? = some .onPath → id ∈ s.nodes
  done_sound : ∀ id, s.marks[id]? = some .done → g.Sound id
  root_mem : root ∈ s.nodes ∨ g.Sound root

theorem consistent_start (hroot : root < g.size) : g.Consistent root (g.start root) where
  size_marks := by simp [start]
  accounted := .cons hroot (fun _ hc => hc) (fun _ hc => .inl hc) .nil
  reachable id hid := by
    obtain rfl : id = root := List.mem_singleton.mp hid
    exact .refl
  route := List.pairwise_singleton _ _
  onPath_mem id hmark := by
    obtain ⟨-, ⟨rfl, -⟩ | ⟨-, heq⟩⟩ := of_start_mark hmark
    · exact List.mem_singleton.mpr rfl
    · nomatch heq
  done_sound id hmark := by
    obtain ⟨-, ⟨-, heq⟩ | ⟨-, heq⟩⟩ := of_start_mark hmark
    · nomatch heq
    · nomatch heq
  root_mem := .inl (List.mem_singleton.mpr rfl)

namespace Consistent

variable {s s' : Search} {later : List NodeId} {rest : SearchPath} {marks : Array Mark}

/-- A turn that leaves a node: the node is sound. -/
theorem leave (h : g.Consistent root ⟨(id, []) :: rest, marks⟩) :
    g.Consistent root ⟨rest, marks.setIfInBounds id .done⟩ where
  size_marks := Array.size_setIfInBounds.trans h.size_marks
  accounted := by
    cases h.accounted with
    | cons _ _ _ hrest => exact hrest.of_sound h.accounted.sound
  reachable x hx := h.reachable x (List.mem_cons_of_mem _ hx)
  route := (List.pairwise_cons.mp h.route).2
  onPath_mem x hmark := by
    rcases getElem?_mark_iff.mp hmark with ⟨-, -, heq⟩ | ⟨hne, hold⟩
    · nomatch heq
    · exact (List.mem_cons.mp (h.onPath_mem x hold)).resolve_left hne
  done_sound x hmark := by
    rcases getElem?_mark_iff.mp hmark with ⟨rfl, -⟩ | ⟨-, hold⟩
    · exact h.accounted.sound
    · exact h.done_sound x hold
  root_mem := by
    rcases h.root_mem with hmem | hroot
    · rcases List.mem_cons.mp hmem with rfl | hmem
      · exact .inr h.accounted.sound
      · exact .inl hmem
    · exact .inr hroot

/-- A turn that passes a child: the child is sound. -/
theorem pass (h : g.Consistent root ⟨(id, child :: later) :: rest, marks⟩)
    (hmark : marks[child]? = some .done) : g.Consistent root ⟨(id, later) :: rest, marks⟩ where
  size_marks := h.size_marks
  accounted := by
    cases h.accounted with
    | cons hexists hlater hvisited hrest =>
      refine .cons hexists (fun c hc => hlater c (List.mem_cons_of_mem _ hc)) (fun c hc => ?_) hrest
      rcases hvisited c hc with hmem | hother
      · rcases List.mem_cons.mp hmem with rfl | hmem
        · exact .inr (.inl (h.done_sound c hmark))
        · exact .inl hmem
      · exact .inr hother
  reachable := h.reachable
  route := h.route
  onPath_mem := h.onPath_mem
  done_sound := h.done_sound
  root_mem := h.root_mem

theorem hasChild (h : g.Consistent root ⟨(id, child :: later) :: rest, marks⟩) :
    g.HasChild id child := by
  cases h.accounted with
  | cons _ hlater _ _ => exact hlater child List.mem_cons_self

/-- A turn that enters a child: the child is next on the path. -/
theorem enter (h : g.Consistent root ⟨(id, child :: later) :: rest, marks⟩)
    (hmark : marks[child]? = some .unseen) :
    g.Consistent root ⟨(child, g.childrenOf child) :: (id, later) :: rest,
      marks.setIfInBounds child .onPath⟩ where
  size_marks := Array.size_setIfInBounds.trans h.size_marks
  accounted := by
    have hexists : child < g.size := by
      obtain ⟨hlt, -⟩ := Array.getElem?_eq_some_iff.mp hmark
      rwa [← h.size_marks]
    cases h.accounted with
    | cons hid hlater hvisited hrest =>
      refine .cons hexists (fun _ hc => hc) (fun _ hc => .inl hc) ?_
      refine .cons hid (fun c hc => hlater c (List.mem_cons_of_mem _ hc)) (fun c hc => ?_) hrest
      -- the child itself was still to be visited, and is the next one on the path now
      rcases hvisited c hc with hmem | hsound | habove
      · rcases List.mem_cons.mp hmem with rfl | hmem
        · exact .inr (.inr rfl)
        · exact .inl hmem
      · exact .inr (.inl hsound)
      · nomatch habove
  reachable x hx := by
    rcases List.mem_cons.mp hx with rfl | hx
    · exact (h.reachable id List.mem_cons_self).tail h.hasChild
    · exact h.reachable x hx
  route := by
    refine List.pairwise_cons.mpr ⟨fun x hx => ?_, h.route⟩
    rcases List.mem_cons.mp hx with rfl | hx
    · exact ReflTransGen.single h.hasChild
    · exact ((List.pairwise_cons.mp h.route).1 x hx).tail h.hasChild
  onPath_mem x hx := by
    rcases getElem?_mark_iff.mp hx with ⟨rfl, -⟩ | ⟨-, hold⟩
    · exact List.mem_cons_self
    · exact List.mem_cons_of_mem _ (h.onPath_mem x hold)
  done_sound x hx := by
    rcases getElem?_mark_iff.mp hx with ⟨-, -, heq⟩ | ⟨-, hold⟩
    · nomatch heq
    · exact h.done_sound x hold
  root_mem := h.root_mem.imp_left fun hmem => List.mem_cons_of_mem _ hmem

/-- One turn keeps what is known. -/
theorem turn (h : g.Consistent root s) (hturn : g.Turn s s') : g.Consistent root s' := by
  cases hturn with
  | leave => exact h.leave
  | pass hmark => exact h.pass hmark
  | enter hmark => exact h.enter hmark

theorem turns {n : Nat} (h : g.Consistent root s) (hturns : g.Turns n s s') :
    g.Consistent root s' := by
  induction hturns with
  | none => exact h
  | next hturn _ ih => exact ih (h.turn hturn)

end Consistent

/-! ## The verdict -/

/-- What the results of the check say about a root. -/
inductive Verdict (g : Grammar) (root : NodeId) : Except Fault Unit → Prop where
  /-- There is nothing wrong with what the root depends on. -/
  | passed (hsound : g.Sound root) : Verdict g root (.ok ())
  /-- A child leads back to its parent. -/
  | cycle {child parent : NodeId} (hparent : g.Reachable root parent)
      (hchild : g.HasChild parent child) (hback : g.Reachable child parent) :
      Verdict g root (.error (.selfReference child parent))
  /-- The root or a child does not exist. -/
  | missing {id : NodeId} (hmissing : g.size ≤ id)
      (hnamed : id = root ∨ ∃ parent, g.Reachable root parent ∧ g.HasChild parent id) :
      Verdict g root (.error (.indexOutOfBounds g.size id))

/-- Where the search stops, its result is right. -/
theorem Consistent.verdict {s : Search} {result : Except Fault Unit} (h : g.Consistent root s)
    (hstops : Stops s result) : g.Verdict root result := by
  cases hstops with
  | finished => exact .passed (h.root_mem.resolve_left List.not_mem_nil)
  | @missing id child later rest marks hmark =>
    have hsize : g.size ≤ child := h.size_marks ▸ Array.getElem?_eq_none_iff.mp hmark
    rw [show marks.size = g.size from h.size_marks]
    exact .missing hsize (.inr ⟨id, h.reachable id List.mem_cons_self, h.hasChild⟩)
  | @cycle id child later rest marks hmark =>
    refine .cycle (h.reachable id List.mem_cons_self) h.hasChild ?_
    rcases List.mem_cons.mp (h.onPath_mem child hmark) with rfl | hmem
    · exact .refl
    · exact (List.pairwise_cons.mp h.route).1 child hmem

theorem verdict_validate (g : Grammar) (root : NodeId) : g.Verdict root (g.validate root) := by
  by_cases hroot : root < g.size
  · obtain ⟨n, s, -, hturns, hstops⟩ := exists_turns hroot
    exact ((consistent_start hroot).turns hturns).verdict hstops
  · have hvalidate : g.validate root = .error (.indexOutOfBounds g.size root) := if_neg hroot
    rw [hvalidate]
    exact .missing (Nat.not_lt.mp hroot) (.inl rfl)

theorem validate_eq_ok_iff_sound : g.validate root = .ok () ↔ g.Sound root := by
  have hverdict := g.verdict_validate root
  constructor
  · intro hok
    rw [hok] at hverdict
    cases hverdict with
    | passed hsound => exact hsound
  · intro hsound
    generalize g.validate root = result at hverdict
    cases hverdict with
    | passed => rfl
    | cycle hparent hchild hback =>
      exact absurd (TransGen.head' hchild hback) (hsound.acyclic _ hparent)
    | missing hmissing hnamed =>
      refine absurd (hsound.complete _ ?_) (Nat.not_lt.mpr hmissing)
      rcases hnamed with rfl | ⟨parent, hparent, hchild⟩
      · exact .refl
      · exact hparent.tail hchild

/-- The check passes a root exactly if nothing is missing and no cycle is below it. -/
theorem validate_eq_ok_iff : g.validate root = .ok () ↔ g.Complete root ∧ g.Acyclic root :=
  validate_eq_ok_iff_sound.trans ⟨fun h => ⟨h.complete, h.acyclic⟩, fun h => ⟨h.1, h.2⟩⟩

/-! ## Emission ends -/

/-- Below an acyclic node, going from a parent to a child comes to an end. -/
theorem Acyclic.acc (h : g.Acyclic id) : Acc (fun child parent => g.HasChild parent child) id :=
  h.induction fun id _ ih => .intro id ih

end Grammar

/-- The operation does not fault for entering a node while emitting that same node. -/
def Build.Ends {α : Type} (op : Build α) : Prop := ∀ b b', op b ≠ .error .endlessEmission b'

theorem Build.closed_ends : Build.Closed Build.Ends where
  pure _ _ _ h := nomatch h
  bind hop hnext b b' h := by
    rcases of_bind_eq_error h with hfirst | ⟨x, b₁, -, hrest⟩
    · exact hop b b' hfirst
    · exact hnext x b₁ b' hrest
  freshState _ _ h := nomatch h
  addEpsilon _ _ _ h := by
    obtain ⟨-, hfault, -⟩ := of_addEpsilon_eq_error h
    nomatch hfault
  addAlpha _ _ _ h := by
    obtain ⟨-, hfault, -⟩ := of_addAlpha_eq_error h
    nomatch hfault

namespace Grammar

variable {g : Grammar} {root id child : NodeId}

/-- What is emitted for an acyclic node is emitted to the end. -/
theorem Acyclic.ends_emit (h : g.Acyclic id) (words : WordData) (entry exit : StateId) :
    (g.emit words id entry exit).Ends :=
  Build.closed_ends.emit h (fun _ _ _ h => nomatch h) (fun _ _ h => nomatch h) entry exit

/-! ## Main result -/

/-- **The cycle check is exact and always ends.**  It stops after no more turns than there
are nodes and references.  It passes a root if and only if every node that the root
depends on exists and none is below itself, however often nodes are shared; then emission
goes down to children finitely often and ends.  A fault for a cycle names a child and a
parent that the child leads back to, a fault for a missing node names one that does not
exist and that the root or a reference stands for, and there are no other faults. -/
theorem validate_exact (g : Grammar) (root : NodeId) :
    (root < g.size → ∃ n s, n ≤ g.size + g.referenceCount ∧ g.Turns n (g.start root) s ∧
      Stops s (g.validate root)) ∧
    (g.validate root = .ok () ↔ g.Complete root ∧ g.Acyclic root) ∧
    (∀ child parent, g.validate root = .error (.selfReference child parent) →
      (Fault.selfReference child parent).message =
          s!"grammar node {child} refers to itself through node {parent}" ∧
        g.Reachable root parent ∧ g.HasChild parent child ∧ g.Reachable child parent) ∧
    (∀ length index, g.validate root = .error (.indexOutOfBounds length index) →
      length = g.size ∧ g.size ≤ index ∧
        (index = root ∨ ∃ parent, g.Reachable root parent ∧ g.HasChild parent index)) ∧
    (∀ fault, g.validate root = .error fault →
      (∃ child parent, fault = .selfReference child parent) ∨
        ∃ index, fault = .indexOutOfBounds g.size index) ∧
    (g.validate root = .ok () →
      Acc (fun child parent => g.HasChild parent child) root ∧
        ∀ words entry exit b b', g.emit words root entry exit b ≠ .error .endlessEmission b') := by
  have hverdict := g.verdict_validate root
  refine ⟨exists_turns, validate_eq_ok_iff, fun child parent h => ?_, fun length index h => ?_,
    fun fault h => ?_, fun h => ?_⟩
  · rw [h] at hverdict
    cases hverdict with
    | cycle hparent hchild hback => exact ⟨rfl, hparent, hchild, hback⟩
  · rw [h] at hverdict
    cases hverdict with
    | missing hmissing hnamed => exact ⟨rfl, hmissing, hnamed⟩
  · rw [h] at hverdict
    cases hverdict with
    | cycle => exact .inl ⟨_, _, rfl⟩
    | missing => exact .inr ⟨_, rfl⟩
  · have hacyclic : g.Acyclic root := (validate_eq_ok_iff.mp h).2
    exact ⟨hacyclic.acc, hacyclic.ends_emit⟩

/-- A code point, used twice by node `1`, which is used by the nodes `3` and `4`.  Node `3`
has a slot that leads back to it, and node `4` a child that does not exist. -/
def knotted : Grammar :=
  ⟨#[.codeClass .any, .concat [0, 0], .slot (some 3), .concat [1, 2], .alternation [1, 9]]⟩

/-- The shared code point is no fault, the slot and the missing child are. -/
theorem validate_knotted :
    (knotted.validate 1 = .ok () ∧ knotted.Complete 1 ∧ knotted.Acyclic 1) ∧
      (knotted.validate 3 = .error (.selfReference 3 2) ∧ knotted.Reachable 3 2) ∧
      (knotted.validate 4 = .error (.indexOutOfBounds 5 9) ∧ knotted.size ≤ 9) := by
  have hshared : knotted.validate 1 = .ok () := by cbv
  have hcycle : knotted.validate 3 = .error (.selfReference 3 2) := by cbv
  have hmissing : knotted.validate 4 = .error (.indexOutOfBounds 5 9) := by cbv
  obtain ⟨-, hiff, -⟩ := validate_exact knotted 1
  obtain ⟨-, -, hback, -⟩ := validate_exact knotted 3
  obtain ⟨-, -, -, hindex, -⟩ := validate_exact knotted 4
  exact ⟨⟨hshared, hiff.mp hshared⟩, ⟨hcycle, (hback 3 2 hcycle).2.2.2⟩,
    hmissing, (hindex 5 9 hmissing).2.1⟩

end Grammar
end GuardedAutomata
