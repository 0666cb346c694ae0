import GuardedAutomata.Automaton.Simulation

/-!
# Active states as a bit mask

State `s` is active if bit `s` of a 64-bit word is set.  A state from 64 on has
no bit, and asking for it is a fault.

The closure sweeps over the epsilon edges until a sweep changes nothing.  Within
a sweep the mask grows as it goes, so one sweep can follow a path of several
edges if they stand in a good order, and a bad order costs sweeps but reaches
the same states.  A sweep that changes the mask makes it a greater number, which
is why the sweeps come to an end.
-/

namespace GuardedAutomata
namespace Mask

/-- The mask with only the bit of a state. -/
def bit (s : StateId) : Except Fault UInt64 :=
  if s < 64 then .ok ((1 : UInt64) <<< UInt64.ofNat s) else .error .shiftOverflow

/-- One sweep over the epsilon edges: an open edge from an active state makes its
target active. -/
def sweep (t : Text) : List EpsilonEdge → UInt64 → Except Fault UInt64
  | [], mask => .ok mask
  | e :: rest, mask => do
      let source ← bit e.source
      let target ← bit e.target
      if mask &&& source != 0 && mask &&& target == 0 && e.isOpen t then
        sweep t rest (mask ||| target)
      else sweep t rest mask

/-- A sweep removes no state. -/
theorem toNat_le_of_sweep {t : Text} {edges : List EpsilonEdge} {mask swept : UInt64}
    (h : sweep t edges mask = .ok swept) : mask.toNat ≤ swept.toNat := by
  induction edges generalizing mask with
  | nil =>
    cases h
    exact Nat.le_refl _
  | cons e rest ih =>
    rw [sweep] at h
    obtain ⟨source, -, h⟩ := bind_eq_ok_iff.mp h
    obtain ⟨target, -, h⟩ := bind_eq_ok_iff.mp h
    split at h
    · refine Nat.le_trans ?_ (ih h)
      rw [UInt64.toNat_or]
      exact Nat.left_le_or
    · exact ih h

/-- The closure of a mask under the open epsilon edges. -/
def close (edges : List EpsilonEdge) (t : Text) (mask : UInt64) : Except Fault UInt64 :=
  match _h : sweep t edges mask with
  | .error fault => .error fault
  | .ok swept => if swept = mask then .ok mask else close edges t swept
termination_by UInt64.size - mask.toNat
decreasing_by
  have hle := toNat_le_of_sweep _h
  have hne : mask.toNat ≠ swept.toNat := fun heq =>
    ‹¬swept = mask› (UInt64.toNat_inj.mp heq).symm
  have hlt := swept.toNat_lt_size
  omega

/-- The targets of the alpha edges from active states that accept a code point,
added to the mask `next`. -/
def spread (value : UInt32) (mask : UInt64) : List AlphaEdge → UInt64 → Except Fault UInt64
  | [], next => .ok next
  | e :: rest, next => do
      let source ← bit e.source
      if mask &&& source != 0 && e.accepts value then
        let target ← bit e.target
        spread value mask rest (next ||| target)
      else spread value mask rest next

/-- Bit masks as a representation of the active states of an automaton. -/
def simulation (a : Automaton) : Simulation UInt64 where
  initial := bit Automaton.source
  close := close a.epsilon
  step value mask := do
    let next ← spread value mask a.alpha 0
    return if next = 0 then none else some next
  accepts mask := do
    let target ← bit Automaton.target
    return mask &&& target != 0

end Mask
end GuardedAutomata
