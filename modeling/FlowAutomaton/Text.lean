/-
Text cut at its first NUL, truth values in words, and the blank characters that numerals skip.
-/

namespace FlowAutomaton.Text

/-- The part of a text before its first NUL. -/
def beforeNul (s : String) : String := String.ofList (s.toList.takeWhile (· ≠ '\x00'))

/-- A truth value in words. -/
def ofFlag (b : Bool) : String := if b then "true" else "false"

/-- Space, tab, line feed, vertical tab, form feed and carriage return. -/
def isBlank (c : Char) : Bool :=
  c = ' ' || c = '\t' || c = '\n' || c = '\x0b' || c = '\x0c' || c = '\r'

end FlowAutomaton.Text
