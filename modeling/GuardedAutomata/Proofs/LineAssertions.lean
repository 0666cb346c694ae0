import GuardedAutomata.Proofs.AssertionSlots

/-!
# Lines and line assertions

`lines crlf w` cuts a text into lines from left to right.  A line is its content and its
terminator: a line feed, or with `crlf` also a carriage return, or the two in this order, which are
one terminator.  The last line has no terminator.  `cut_iff_eq_lines` says that the rules leave no
choice: there is one way to cut a text in accordance with them, and this is it.

A line assertion knows nothing of lines.  It looks at the two neighbours of a slot, and
nevertheless `Assertion.startLine` holds exactly where a line starts and `Assertion.endLine`
exactly where the content of one stops (`Assertion.line_slots`).

## Why two neighbours are enough

Cutting goes from left to right and can take two values at once, so whether a line starts at a slot
could depend on everything before it.  It does not.  Whether a value ends a line is decided by
the value (`endsLine`), unless it is the line feed of a pair, and the one thing that a pair does is
to take the slot in its middle (`inPair`) out of consideration.  In these terms the two assertions
are mirror images (`holdsBetween_startLine`, `holdsBetween_endLine`): a value that ends a line, or
the end of the text, on the left or on the right, and a slot that is not in a pair.

The cut is followed value by value, a pair taken as a whole (`cut_induction`).  Going over the
first value moves every later line by one, on both sides of the equation.  What stands to the left
of the rest then matters in two places.  The rest starts a line whatever stands there, so its first
slot is left out when starts are compared (`starts_lines`).  It is not cut between the values of a
pair, which is what has to be assumed when stops are compared (`slotsBetween_endLine`).
-/

namespace GuardedAutomata

open Assertion (lineFeed carriageReturn)

/-- A line of a text. -/
structure Line where
  /-- The values of the line. -/
  content : List UInt32
  /-- What ends the line, nothing for the last one. -/
  terminator : List UInt32
  deriving DecidableEq

namespace Line

/-- The line with one more value at the start of its content. -/
def prepend (v : UInt32) (l : Line) : Line := ⟨v :: l.content, l.terminator⟩

/-- All values of the line. -/
def values (l : Line) : List UInt32 := l.content ++ l.terminator

/-- A place in each of the given lines, counted from the start of the first. -/
def places (place : Line → Nat) : List Line → List Nat
  | [] => []
  | l :: rest => place l :: (places place rest).map (· + l.values.length)

/-- Where the given lines start. -/
def starts : List Line → List Nat := places fun _ => 0

/-- Where the contents of the given lines stop. -/
def stops : List Line → List Nat := places fun l => l.content.length

theorem length_places (place : Line → Nat) (ls : List Line) :
    (places place ls).length = ls.length := by
  induction ls with
  | nil => rfl
  | cons l rest ih => rw [places, List.length_cons, List.length_map, ih, List.length_cons]

theorem starts_cons (l : Line) (rest : List Line) :
    starts (l :: rest) = 0 :: (starts rest).map (· + l.values.length) := rfl

theorem stops_cons (l : Line) (rest : List Line) :
    stops (l :: rest) = l.content.length :: (stops rest).map (· + l.values.length) := rfl

variable {v : UInt32} {ls : List Line}

/-- A value in front moves every line but the first. -/
theorem starts_prepend (h : ls ≠ []) :
    starts (ls.modifyHead (prepend v)) = 0 :: (starts ls).tail.map (· + 1) := by
  cases ls with
  | nil => exact absurd rfl h
  | cons l rest =>
    rw [List.modifyHead_cons, starts_cons, starts_cons, List.tail_cons, List.map_map]
    rfl

/-- A value in front moves the ends of all contents. -/
theorem stops_prepend : stops (ls.modifyHead (prepend v)) = (stops ls).map (· + 1) := by
  cases ls with
  | nil => rfl
  | cons l rest =>
    rw [List.modifyHead_cons, stops_cons, stops_cons, List.map_cons, List.map_map]
    rfl

end Line

/-! ## Cutting a text into lines -/

/-- The value ends a line. -/
def endsLine (crlf : Bool) (v : UInt32) : Bool := v == lineFeed || (crlf && v == carriageReturn)

/-- The slot between the two neighbours is in the middle of a terminator. -/
def inPair (crlf : Bool) (before after : Option UInt32) : Bool :=
  crlf && before == some carriageReturn && after == some lineFeed

/-- The lines of a text that starts with the given value, where the given lines are those of the
rest. -/
def consLines (crlf : Bool) (v : UInt32) (rest : List Line) : List Line :=
  if endsLine crlf v then ⟨[], [v]⟩ :: rest else rest.modifyHead (Line.prepend v)

/-- The lines of a text. -/
def lines (crlf : Bool) : List UInt32 → List Line
  | [] => [⟨[], []⟩]
  | [v] => consLines crlf v (lines crlf [])
  | v :: next :: rest =>
      if inPair crlf (some v) (some next) then ⟨[], [v, next]⟩ :: lines crlf rest
      else consLines crlf v (lines crlf (next :: rest))

variable {crlf : Bool} {v : UInt32} {w rest : List UInt32} {ls : List Line}

/-- The ends of a text are not within a terminator. -/
theorem inPair_first (after : Option UInt32) : inPair crlf none after = false := by
  cases crlf with
  | false => rfl
  | true => rfl

theorem inPair_last (before : Option UInt32) : inPair crlf before none = false :=
  Bool.and_false _

theorem inPair_lineFeed (after : Option UInt32) : inPair crlf (some lineFeed) after = false := by
  cases crlf with
  | false => rfl
  | true => rfl

theorem inPair_of_plain (h : endsLine crlf v = false) (after : Option UInt32) :
    inPair crlf (some v) after = false := by
  obtain ⟨-, hv⟩ := Bool.or_eq_false_iff.mp h
  show (crlf && v == carriageReturn && after == some lineFeed) = false
  rw [hv, Bool.false_and]

theorem lines_cons (h : inPair crlf (some v) rest.head? = false) :
    lines crlf (v :: rest) = consLines crlf v (lines crlf rest) := by
  cases rest with
  | nil => rfl
  | cons next rest => exact if_neg (Bool.not_eq_true _ ▸ h)

theorem lines_pair (rest : List UInt32) :
    lines true (carriageReturn :: lineFeed :: rest) =
      ⟨[], [carriageReturn, lineFeed]⟩ :: lines true rest := rfl

theorem lines_cons_of_endsLine (h : inPair crlf (some v) rest.head? = false)
    (hv : endsLine crlf v = true) : lines crlf (v :: rest) = ⟨[], [v]⟩ :: lines crlf rest := by
  rw [lines_cons h, consLines, if_pos hv]

theorem lines_cons_of_plain (hv : endsLine crlf v = false) :
    lines crlf (v :: rest) = (lines crlf rest).modifyHead (Line.prepend v) := by
  rw [lines_cons (inPair_of_plain hv _), consLines, if_neg (Bool.not_eq_true _ ▸ hv)]

/-- A text is gone through value by value, but over the two values of a terminator at once. -/
theorem cut_induction (crlf : Bool) {motive : List UInt32 → Prop} (nil : motive [])
    (pair : crlf = true → ∀ rest, motive rest → motive (carriageReturn :: lineFeed :: rest))
    (cons : ∀ v rest, inPair crlf (some v) rest.head? = false → motive rest →
      motive (v :: rest)) :
    ∀ w, motive w
  | [] => nil
  | [v] => cons v [] (Bool.and_false _) nil
  | v :: next :: rest => by
    cases h : inPair crlf (some v) (some next) with
    | true =>
      simp only [inPair, Bool.and_eq_true, beq_iff_eq, Option.some.injEq] at h
      obtain ⟨⟨hcrlf, rfl⟩, rfl⟩ := h
      exact pair hcrlf rest (cut_induction crlf nil pair cons rest)
    | false => exact cons v _ h (cut_induction crlf nil pair cons (next :: rest))

theorem lines_ne_nil (w : List UInt32) : lines crlf w ≠ [] := by
  induction w using cut_induction crlf with
  | nil => exact List.cons_ne_nil _ _
  | pair hcrlf rest ih =>
    subst hcrlf
    exact List.cons_ne_nil _ _
  | cons v rest h ih =>
    cases hv : endsLine crlf v with
    | true =>
      rw [lines_cons_of_endsLine h hv]
      exact List.cons_ne_nil _ _
    | false =>
      rw [lines_cons_of_plain hv]
      exact fun hnil => ih (List.modifyHead_eq_nil_iff.mp hnil)

/-! ## The rules of a cut -/

/-- The values are a terminator in front of the values after them. -/
inductive Terminates (crlf : Bool) : List UInt32 → List UInt32 → Prop
  | lineFeed {after : List UInt32} : Terminates crlf [lineFeed] after
  | pair {after : List UInt32} (h : crlf = true) :
      Terminates crlf [carriageReturn, lineFeed] after
  | carriageReturn {after : List UInt32} (h : crlf = true)
      (lone : after.head? ≠ some Assertion.lineFeed) : Terminates crlf [carriageReturn] after

/-- The lines are a cut of the text: no value within the content of a line ends a line, every line
but the last has a terminator, and the last has none. -/
inductive Cut (crlf : Bool) : List UInt32 → List Line → Prop
  | last {content : List UInt32} (plain : ∀ v ∈ content, endsLine crlf v = false) :
      Cut crlf content [⟨content, []⟩]
  | line {content terminator after : List UInt32} {ls : List Line}
      (plain : ∀ v ∈ content, endsLine crlf v = false)
      (terminates : Terminates crlf terminator after) (rest : Cut crlf after ls) :
      Cut crlf (content ++ (terminator ++ after)) (⟨content, terminator⟩ :: ls)

theorem terminates_of_endsLine (hv : endsLine crlf v = true)
    (h : inPair crlf (some v) rest.head? = false) : Terminates crlf [v] rest := by
  simp only [endsLine, Bool.or_eq_true, Bool.and_eq_true, beq_iff_eq] at hv
  obtain rfl | ⟨hcrlf, rfl⟩ := hv
  · exact .lineFeed
  · refine .carriageReturn hcrlf fun hnext => ?_
    rw [hcrlf, hnext] at h
    exact Bool.false_ne_true h.symm

theorem lines_terminator {terminator : List UInt32} (h : Terminates crlf terminator rest) :
    lines crlf (terminator ++ rest) = ⟨[], terminator⟩ :: lines crlf rest := by
  cases h with
  | lineFeed => exact lines_cons_of_endsLine (inPair_lineFeed _) rfl
  | pair hcrlf =>
    subst hcrlf
    exact lines_pair rest
  | carriageReturn hcrlf lone =>
    subst hcrlf
    have hpair : inPair true (some carriageReturn) rest.head? = false := by
      simpa [inPair] using lone
    exact lines_cons_of_endsLine hpair rfl

theorem lines_append_plain {content : List UInt32}
    (h : ∀ v ∈ content, endsLine crlf v = false) :
    lines crlf (content ++ w) =
      (lines crlf w).modifyHead fun l => ⟨content ++ l.content, l.terminator⟩ := by
  induction content with
  | nil => exact (congrFun List.modifyHead_id _).symm
  | cons v content ih =>
    obtain ⟨hv, hcontent⟩ := List.forall_mem_cons.mp h
    rw [List.cons_append, lines_cons_of_plain hv, ih hcontent, List.modifyHead_modifyHead]
    rfl

theorem Cut.prepend (h : Cut crlf rest ls) (hv : endsLine crlf v = false) :
    Cut crlf (v :: rest) (ls.modifyHead (Line.prepend v)) := by
  cases h with
  | last plain => exact .last (List.forall_mem_cons.mpr ⟨hv, plain⟩)
  | line plain terminates rest =>
    exact .line (List.forall_mem_cons.mpr ⟨hv, plain⟩) terminates rest

/-- A text can be cut into lines in one way. -/
theorem cut_iff_eq_lines : Cut crlf w ls ↔ ls = lines crlf w := by
  constructor
  · intro h
    induction h with
    | @last content plain =>
      rw [← List.append_nil content, lines_append_plain plain]
      rfl
    | line plain terminates rest ih =>
      rw [lines_append_plain plain, lines_terminator terminates, ← ih, List.modifyHead_cons,
        List.append_nil]
  · rintro rfl
    induction w using cut_induction crlf with
    | nil => exact .last (List.forall_mem_nil _)
    | pair hcrlf rest ih =>
      subst hcrlf
      exact .line (List.forall_mem_nil _) (.pair rfl) ih
    | cons v rest h ih =>
      cases hv : endsLine crlf v with
      | true =>
        rw [lines_cons_of_endsLine h hv]
        exact .line (List.forall_mem_nil _) (terminates_of_endsLine hv h) ih
      | false =>
        rw [lines_cons_of_plain hv]
        exact ih.prepend hv

/-! ## What the two neighbours say -/

namespace Assertion

/-- No line starts within a terminator, and elsewhere one starts after every value that ends
one. -/
theorem holdsBetween_startLine (words : WordData) (crlf : Bool) (before after : Option UInt32) :
    (startLine crlf).holdsBetween words before after =
      (before.all (endsLine crlf) && !inPair crlf before after) := by
  cases before with
  | none => cases crlf with
    | false => rfl
    | true => rfl
  | some v => cases crlf with
    | false => simp [holdsBetween, endsLine, inPair]
    | true =>
      by_cases hv : v = lineFeed
      · subst hv
        rfl
      · have hfeed : (v == lineFeed) = false := beq_false_of_ne hv
        simp only [holdsBetween, endsLine, inPair, Option.isNone_some, Option.some_beq_some,
          Option.all_some, hfeed, Bool.false_or, Bool.true_and, bne]
        cases v == carriageReturn with
        | false => rfl
        | true => rfl

/-- No line stops within a terminator, and elsewhere one stops before every value that ends
one. -/
theorem holdsBetween_endLine (words : WordData) (crlf : Bool) (before after : Option UInt32) :
    (endLine crlf).holdsBetween words before after =
      (after.all (endsLine crlf) && !inPair crlf before after) := by
  cases after with
  | none =>
    rw [inPair_last]
    cases crlf with
    | false => rfl
    | true => rfl
  | some v => cases crlf with
    | false => simp [holdsBetween, endsLine, inPair]
    | true =>
      by_cases hv : v = carriageReturn
      · subst hv
        simp [holdsBetween, endsLine, inPair, lineFeed, carriageReturn]
      · have hreturn : (v == carriageReturn) = false := beq_false_of_ne hv
        simp only [holdsBetween, endsLine, inPair, Option.isNone_some, Option.some_beq_some,
          Option.all_some, hreturn, Bool.or_false, Bool.false_or, Bool.true_and, bne]
        cases v == lineFeed with
        | false => rfl
        | true => rw [Bool.true_and, Bool.and_true, Bool.true_and]

variable (words : WordData)

theorem startLine_first (crlf : Bool) (after : Option UInt32) :
    (startLine crlf).holdsBetween words none after = true := by
  rw [holdsBetween_startLine, inPair_first]
  rfl

theorem endLine_last (crlf : Bool) (before : Option UInt32) :
    (endLine crlf).holdsBetween words before none = true := by
  rw [holdsBetween_endLine, inPair_last]
  rfl

theorem startLine_after (h : inPair crlf (some v) after = false) :
    (startLine crlf).holdsBetween words (some v) after = endsLine crlf v := by
  rw [holdsBetween_startLine, h, Option.all_some, Bool.not_false, Bool.and_true]

theorem endLine_before (h : inPair crlf before (some v) = false) :
    (endLine crlf).holdsBetween words before (some v) = endsLine crlf v := by
  rw [holdsBetween_endLine, h, Option.all_some, Bool.not_false, Bool.and_true]

end Assertion

/-! ## Assertions and lines -/

open Text

/-- A text starts a line, and the later lines start where the assertion holds. -/
theorem starts_lines (words : WordData) (w : List UInt32) :
    Line.starts (lines crlf w) =
      0 :: laterSlots ((Assertion.startLine crlf).holdsBetween words) w := by
  induction w using cut_induction crlf with
  | nil => rfl
  | pair hcrlf rest ih =>
    subst hcrlf
    have hwithin : (Assertion.startLine true).holdsBetween words
        (some carriageReturn) (some lineFeed) = false := rfl
    have hnext : (Assertion.startLine true).holdsBetween words (some lineFeed) rest.head? = true :=
      Assertion.startLine_after words (inPair_lineFeed _)
    rw [lines_pair, Line.starts_cons, ih, laterSlots, slotsBetween_of_not_first hwithin, laterSlots,
      slotsBetween_of_first hnext, List.map_map]
    rfl
  | cons v rest h ih =>
    have hnext := Assertion.startLine_after words h
    cases hv : endsLine crlf v with
    | true =>
      rw [lines_cons_of_endsLine h hv, Line.starts_cons, ih, laterSlots,
        slotsBetween_of_first (hnext.trans hv)]
      rfl
    | false =>
      rw [lines_cons_of_plain hv, Line.starts_prepend (lines_ne_nil rest), ih, laterSlots,
        slotsBetween_of_not_first (hnext.trans hv)]
      rfl

/-- The contents of the lines stop where the assertion holds, unless what stands to the left takes
the first value into a terminator. -/
theorem slotsBetween_endLine (words : WordData) (w : List UInt32) :
    ∀ prev : Option UInt32, inPair crlf prev w.head? = false →
      slotsBetween ((Assertion.endLine crlf).holdsBetween words) prev w =
        Line.stops (lines crlf w) := by
  induction w using cut_induction crlf with
  | nil =>
    intro prev _
    rw [slotsBetween_of_first (Assertion.endLine_last words crlf prev)]
    rfl
  | pair hcrlf rest ih =>
    subst hcrlf
    intro prev hprev
    have hfirst : (Assertion.endLine true).holdsBetween words prev (some carriageReturn) = true :=
      Assertion.endLine_before words hprev
    have hwithin : (Assertion.endLine true).holdsBetween words
        (some carriageReturn) (some lineFeed) = false := rfl
    rw [slotsBetween_of_first hfirst, laterSlots, slotsBetween_of_not_first hwithin, laterSlots,
      ih _ (inPair_lineFeed _), List.map_map]
    rfl
  | cons v rest h ih =>
    intro prev hprev
    have hfirst := Assertion.endLine_before words hprev
    cases hv : endsLine crlf v with
    | true =>
      rw [slotsBetween_of_first (hfirst.trans hv), laterSlots, ih _ h,
        lines_cons_of_endsLine h hv]
      rfl
    | false =>
      rw [slotsBetween_of_not_first (hfirst.trans hv), laterSlots, ih _ h,
        lines_cons_of_plain hv, Line.stops_prepend]

namespace Assertion

/-- The slots at which a line starts, in order. -/
theorem slots_startLine (words : WordData) (crlf : Bool) (w : Array UInt32) :
    (startLine crlf).slots words w = Line.starts (lines crlf w.toList) := by
  rw [slots_eq, slotsBetween_of_first (startLine_first words crlf _), starts_lines words]

/-- The slots at which the content of a line stops, in order. -/
theorem slots_endLine (words : WordData) (crlf : Bool) (w : Array UInt32) :
    (endLine crlf).slots words w = Line.stops (lines crlf w.toList) := by
  rw [slots_eq, slotsBetween_endLine words _ _ (inPair_first _)]

/-- **The line assertions agree with the cut into lines.**  In every text, `startLine` holds at
the first slots of the lines and at no other slot, `endLine` at the slots where the contents of the
lines stop and at no other; neither holds within a terminator; and they hold equally often. -/
theorem line_slots (words : WordData) (crlf : Bool) (w : Array UInt32) :
    Cut crlf w.toList (lines crlf w.toList) ∧
    (∀ (c : Nat) (h : c ≤ w.size),
      (startLine crlf).holds words (.ofValuesAt w c h) = true ↔
        c ∈ Line.starts (lines crlf w.toList)) ∧
    (∀ (c : Nat) (h : c ≤ w.size),
      (endLine crlf).holds words (.ofValuesAt w c h) = true ↔
        c ∈ Line.stops (lines crlf w.toList)) ∧
    (∀ (c : Nat) (h : c + 1 ≤ w.size), crlf = true →
      w[c]? = some carriageReturn → w[c + 1]? = some lineFeed →
        (startLine crlf).holds words (.ofValuesAt w (c + 1) h) = false ∧
          (endLine crlf).holds words (.ofValuesAt w (c + 1) h) = false) ∧
    ((startLine crlf).slots words w).length = ((endLine crlf).slots words w).length := by
  refine ⟨cut_iff_eq_lines.mpr rfl, fun c h => ?_, fun c h => ?_,
    fun c h hcrlf hbefore hafter => ?_, ?_⟩
  · rw [← slots_startLine words, mem_slots h]
  · rw [← slots_endLine words, mem_slots h]
  · have hpair : inPair crlf w[c]? w[c + 1]? = true := by
      rw [hcrlf, hbefore, hafter]
      rfl
    constructor
    · show (startLine crlf).holdsBetween words w[c]? w[c + 1]? = false
      rw [holdsBetween_startLine, hpair, Bool.not_true, Bool.and_false]
    · show (endLine crlf).holdsBetween words w[c]? w[c + 1]? = false
      rw [holdsBetween_endLine, hpair, Bool.not_true, Bool.and_false]
  · rw [slots_startLine, slots_endLine, Line.starts, Line.stops, Line.length_places,
      Line.length_places]

/-- The text `"a\r\n\rb\n"`, with a terminator of each kind. -/
def mixedLines : Array UInt32 :=
  #['a'.val, '\r'.val, '\n'.val, '\r'.val, 'b'.val, '\n'.val]

/-- The second line of that text starts after the pair and is empty, and within the pair no line
stops. -/
theorem line_slots_mixed :
    Line.starts (lines true mixedLines.toList) = [0, 3, 4, 6] ∧
    Line.stops (lines true mixedLines.toList) = [1, 3, 5, 6] ∧
    (startLine true).holds .missing (.ofValuesAt mixedLines 3 (by decide)) = true ∧
    (endLine true).holds .missing (.ofValuesAt mixedLines 3 (by decide)) = true ∧
    (endLine true).holds .missing (.ofValuesAt mixedLines 2 (by decide)) = false := by
  obtain ⟨-, hstart, hstop, hpair, -⟩ := line_slots .missing true mixedLines
  exact ⟨by decide, by decide, (hstart 3 (by decide)).mpr (by decide),
    (hstop 3 (by decide)).mpr (by decide), (hpair 1 (by decide) rfl rfl rfl).2⟩

end Assertion
end GuardedAutomata
