import GuardedAutomata.Grammar.Basic
import GuardedAutomata.Pattern.Error
import GuardedAutomata.Text.Utf8

/-!
# From patterns to grammars

A pattern is lowered by adding nodes for it to a grammar, children before
parents, so that a child always has a smaller number than its parent.  A literal
becomes one class for each of its code points, and a concatenation of these
unless there is exactly one.  A capture leaves no trace.

A look that needs Unicode word characters is refused where there are none.  The
nodes that were added before it stay in the grammar.

A *search* for a pattern is the pattern between two uses of one node that skips
any number of arbitrary code points.
-/

namespace GuardedAutomata

/-- An operation that adds nodes to a grammar, which keeps them when it fails. -/
abbrev Lowering := EStateM CompileError Grammar

namespace Lowering

/-- Adds a node. -/
def addNode (n : Node) : Lowering NodeId := fun g => .ok g.size (g.push n)

/-- Adds several nodes in order. -/
def addNodes : List Node → Lowering (List NodeId)
  | [] => pure []
  | n :: rest => do
      let id ← addNode n
      let ids ← addNodes rest
      return id :: ids

/-- Adds the nodes of a byte string. -/
def addLiteral (bytes : List UInt8) : Lowering NodeId := do
  match ← addNodes ((Utf8.codePoints bytes).map fun v => .codeClass (.single v)) with
  | [id] => return id
  | ids => addNode (.concat ids)

/-- Adds the nodes of a search for a node. -/
def addSearch (root : NodeId) : Lowering NodeId := do
  let any ← addNode (.codeClass .any)
  let skip ← addNode (.repetition any 0 none)
  addNode (.concat [skip, root, skip])

end Lowering

namespace Pattern

open Lowering

mutual

/-- Adds the nodes of a pattern, and returns the number of the topmost one. -/
def lower (words : WordData) : Pattern → Lowering NodeId
  | .empty => addNode .empty
  | .literal bytes => addLiteral bytes
  | .codeClass ranges => addNode (.codeClass (.ofRanges ranges))
  | .look l =>
      if l.needsUnicode && !words.hasUnicode then throw (.unsupported l)
      else addNode (.assertion l.assertion)
  | .repetition min max _ sub => do
      let body ← lower words sub
      addNode (.repetition body min max)
  | .capture _ _ sub => lower words sub
  | .concat subs => do
      let children ← lowerAll words subs
      addNode (.concat children)
  | .alternation subs => do
      let children ← lowerAll words subs
      addNode (.alternation children)

/-- Adds the nodes of several patterns in order. -/
def lowerAll (words : WordData) : List Pattern → Lowering (List NodeId)
  | [] => pure []
  | sub :: rest => do
      let id ← lower words sub
      let ids ← lowerAll words rest
      return id :: ids

end

/-- Adds the nodes of a pattern, or of a search for it. -/
def lowerWhole (words : WordData) (unanchored : Bool) (p : Pattern) : Lowering NodeId := do
  let root ← p.lower words
  if unanchored then addSearch root else return root

end Pattern
end GuardedAutomata
