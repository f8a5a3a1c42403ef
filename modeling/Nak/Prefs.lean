import Nak.Library.FiniteMap
import Nak.Library.Outcome

/-! The aliases of the preferences: the first rule that matches a command rewrites it. -/
namespace Nak
open Library

inductive Item where
  | literal (word : String)
  | variable (id : Nat)
  | expando (id : Nat)
  deriving DecidableEq, Repr

structure Rule where
  find : List Item
  replace : List Item
  deriving DecidableEq, Repr

structure Prefs where
  aliases : List Rule
  deriving DecidableEq, Repr

namespace Prefs

/-- What matching a rule has bound so far; `next` is the word looked at and `it` what the
iterator has left after it. -/
structure Matching where
  varMatches : FiniteMap Nat String
  expandoMatches : FiniteMap Nat (List String)
  next : Option String
  it : List String

namespace Matching

def start (cmd : List String) : Matching := ⟨∅,∅,cmd.head?,cmd.tail⟩

def advance (matching : Matching) : Matching := { matching with next := matching.it.head?, it := matching.it.tail }

def assertUnbound (matching : Matching) (id : Nat) : Outcome Unit := do
  Outcome.assert (id ∉ matching.varMatches)
  Outcome.assert (id ∉ matching.expandoMatches)

/-- One item of `find`; `none` goes on to the next rule. -/
def item (matching : Matching) : Item → Outcome (Option Matching)
  | .literal word => pure (if matching.next = some word then some matching.advance else none)
  | .variable id => do
    matching.assertUnbound id
    match matching.next with
    | some word => pure (some { matching with varMatches := matching.varMatches.insert id word }.advance)
    | none => pure none
  | .expando id => do
    matching.assertUnbound id
    -- The iterator is drained, but the word looked at stays.
    match matching.next with
    | some word => pure (some { matching with
        expandoMatches := matching.expandoMatches.insert id (word :: matching.it)
        it := [] })
    | none => pure (some { matching with expandoMatches := matching.expandoMatches.insert id [] })

def items : List Item → Matching → Outcome (Option Matching)
  | [], matching => pure (some matching)
  | item :: rest, matching => do
    match ← matching.item item with
    | some matching => items rest matching
    | none => pure none

def construct : List Item → Matching → Outcome (List String)
  | [], _ => pure []
  | .literal word :: rest, matching => do pure (word :: (← construct rest matching))
  | .variable id :: rest, matching => do
    let word ← Outcome.unwrap (matching.varMatches.lookup id)
    pure (word :: (← construct rest { matching with varMatches := matching.varMatches.erase id }))
  | .expando id :: rest, matching => do
    let words ← Outcome.unwrap (matching.expandoMatches.lookup id)
    pure (words ++ (← construct rest { matching with expandoMatches := matching.expandoMatches.erase id }))

end Matching

def expandWith : List Rule → List String → Outcome (List String)
  | [], cmd => pure cmd
  | rule :: rules, cmd => do
    match ← Matching.items rule.find (.start cmd) with
    | some matching => Matching.construct rule.replace matching
    | none => expandWith rules cmd

def expand (prefs : Prefs) (cmd : List String) : Outcome (List String) := expandWith prefs.aliases cmd

end Prefs
end Nak
