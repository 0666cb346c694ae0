import GuardedAutomata.Automaton.Simulation

/-!
# Active states as a table of ranks

The table has one entry a state.  An active state has a rank and an inactive one
has `inactive`, which is above every rank.  An edge hands the rank of its source
on to its target if that is an improvement, so the closure gives each state the
least rank among the states it can be reached from.  A match starts with rank
`0` at the source, and then `0` is the only rank there ever is: what is left of
the table is which states are active.

The closure sweeps over the epsilon edges until a sweep changes nothing.  A
change replaces an entry by a smaller one, so the sum of all entries bounds the
number of sweeps; that the set of active states grows would not be enough, since
an entry can be lowered more than once.

A table keeps two rows.  Consuming a code point fills the spare row from the
active one, and the two change places.
-/

namespace GuardedAutomata

/-- The ranks of the active states, and a row to write the next ones into. -/
structure RankTable where
  active : Array UInt32
  spare : Array UInt32

namespace RankTable

/-- The entry of a state that is not active. -/
def inactive : UInt32 := 0xFFFFFFFF

/-- The entry of a state. -/
def read (row : Array UInt32) (s : StateId) : Except Fault UInt32 :=
  match row[s]? with
  | some rank => .ok rank
  | none => .error (.indexOutOfBounds row.size s)

/-- The row with another entry for a state. -/
def write (row : Array UInt32) (s : StateId) (rank : UInt32) : Except Fault (Array UInt32) :=
  if h : s < row.size then .ok (row.set s rank h)
  else .error (.indexOutOfBounds row.size s)

/-- One sweep over the epsilon edges: an open edge hands the rank of its source on
to its target wherever that is smaller.  Also says whether an entry, in this
sweep or before it, was changed. -/
def sweep (t : Text) :
    List EpsilonEdge → Array UInt32 → Bool → Except Fault (Array UInt32 × Bool)
  | [], row, changed => .ok (row, changed)
  | e :: rest, row, changed => do
      let rank ← read row e.source
      if rank = inactive then sweep t rest row changed
      else
        let old ← read row e.target
        if rank < old && e.isOpen t then
          let row ← write row e.target rank
          sweep t rest row true
        else sweep t rest row changed

/-- The sum of the entries of a list. -/
def total (entries : List UInt32) : Nat := entries.foldr (fun rank sum => rank.toNat + sum) 0

/-- The sum of all entries of a row. -/
def weight (row : Array UInt32) : Nat := total row.toList

@[simp] theorem total_nil : total [] = 0 := rfl

@[simp] theorem total_cons (rank : UInt32) (entries : List UInt32) :
    total (rank :: entries) = rank.toNat + total entries := rfl

/-- Replacing an entry changes the sum by the difference. -/
theorem total_set (entries : List UInt32) (i : Nat) (rank : UInt32) (h : i < entries.length) :
    total (entries.set i rank) + entries[i].toNat = total entries + rank.toNat := by
  induction entries generalizing i with
  | nil => exact absurd h (Nat.not_lt_zero _)
  | cons old entries ih =>
    cases i with
    | zero =>
      simp only [List.set_cons_zero, total_cons, List.getElem_cons_zero]
      omega
    | succ i =>
      have hrest := ih i (Nat.lt_of_succ_lt_succ h)
      simp only [List.set_cons_succ, total_cons, List.getElem_cons_succ]
      omega

/-- Lowering an entry lowers the weight. -/
theorem weight_lt_of_write {row lowered : Array UInt32} {s : StateId} {rank old : UInt32}
    (hr : read row s = .ok old) (hlt : rank < old) (hw : write row s rank = .ok lowered) :
    weight lowered < weight row := by
  unfold write at hw
  split at hw
  · next h =>
    cases hw
    unfold read at hr
    rw [Array.getElem?_eq_getElem h] at hr
    cases hr
    have hsum := total_set row.toList s rank (by simpa using h)
    have hrank := UInt32.lt_iff_toNat_lt.mp hlt
    simp only [weight, Array.toList_set, Array.getElem_toList] at hsum ⊢
    omega
  · cases hw

/-- A sweep changes nothing or lowers the weight. -/
theorem weight_of_sweep {t : Text} {edges : List EpsilonEdge} {row swept : Array UInt32}
    {changed result : Bool} (h : sweep t edges row changed = .ok (swept, result)) :
    (swept = row ∧ result = changed) ∨ weight swept < weight row := by
  induction edges generalizing row changed with
  | nil =>
    cases h
    exact .inl ⟨rfl, rfl⟩
  | cons e rest ih =>
    rw [sweep] at h
    obtain ⟨rank, -, h⟩ := bind_eq_ok_iff.mp h
    split at h
    · exact ih h
    · obtain ⟨old, hread, h⟩ := bind_eq_ok_iff.mp h
      split at h
      · next hopen =>
        obtain ⟨lowered, hwrite, h⟩ := bind_eq_ok_iff.mp h
        have hlt : rank < old := by
          simp only [Bool.and_eq_true, decide_eq_true_eq] at hopen
          exact hopen.1
        have hdrop := weight_lt_of_write hread hlt hwrite
        rcases ih h with ⟨rfl, -⟩ | hrest
        · exact .inr hdrop
        · exact .inr (Nat.lt_trans hrest hdrop)
      · exact ih h

/-- The closure of a row under the open epsilon edges. -/
def close (edges : List EpsilonEdge) (t : Text) (row : Array UInt32) :
    Except Fault (Array UInt32) :=
  match _h : sweep t edges row false with
  | .error fault => .error fault
  | .ok (swept, false) => .ok swept
  | .ok (swept, true) => close edges t swept
termination_by weight row
decreasing_by
  rcases weight_of_sweep _h with ⟨-, hfalse⟩ | hlt
  · cases hfalse
  · exact hlt

/-- Hands the ranks of a row on to `next` over the alpha edges that accept a code
point.  Also says whether a state, here or before, was reached. -/
def spread (value : UInt32) (row : Array UInt32) :
    List AlphaEdge → Array UInt32 → Bool → Except Fault (Array UInt32 × Bool)
  | [], next, reached => .ok (next, reached)
  | e :: rest, next, reached => do
      let rank ← read row e.source
      if rank = inactive then spread value row rest next reached
      else
        let old ← read next e.target
        if rank < old && e.accepts value then
          let next ← write next e.target rank
          spread value row rest next true
        else spread value row rest next reached

/-- Fills the spare row with the states reached by consuming a code point, and
exchanges the rows; `none` if no state is reached. -/
def step (edges : List AlphaEdge) (value : UInt32) (table : RankTable) :
    Except Fault (Option RankTable) := do
  let (next, reached) ← spread value table.active edges (table.spare.map fun _ => inactive) false
  return if reached then some ⟨next, table.active⟩ else none

/-- Rank tables as a representation of the active states of an automaton. -/
def simulation (a : Automaton) : Simulation RankTable where
  initial := do
    let active ← write (.replicate a.stateCount inactive) Automaton.source 0
    return ⟨active, .replicate a.stateCount inactive⟩
  close t table := do
    let active ← close a.epsilon t table.active
    return { table with active }
  step := step a.alpha
  accepts table := do
    let rank ← read table.active Automaton.target
    return rank != inactive

end RankTable
end GuardedAutomata
