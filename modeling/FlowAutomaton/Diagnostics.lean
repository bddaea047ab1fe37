/-
What becomes of the events that actions report: log lines and warnings are written to the output
streams if they are wanted, and counts and timed sections go to the statistics.
-/
import FlowAutomaton.Action
import FlowAutomaton.Item
import FlowAutomaton.Statistics

namespace FlowAutomaton

/-- Which diagnostics are wanted, and what has been written. -/
structure Diagnostics where
  /-- The tags whose log lines are shown. -/
  tags : List String := []
  verbosity : UInt32 := 0
  /-- Whether warnings are shown. -/
  warnings : Bool := true
  statistics : Statistics := {}
  /-- The bytes on the output stream. -/
  out : List UInt8 := []
  /-- The bytes on the error stream. -/
  err : List UInt8 := []
  deriving DecidableEq

namespace Diagnostics

instance : Inhabited Diagnostics := ⟨{}⟩

/-! ## Streams -/

/-- Writes an item to the output stream. -/
def writeOut (d : Diagnostics) (i : Item) : Diagnostics := { d with out := d.out ++ i.bytes }

/-- Writes an item to the error stream. -/
def writeErr (d : Diagnostics) (i : Item) : Diagnostics := { d with err := d.err ++ i.bytes }

/-! ## Settings -/

/-- Shows the log lines of a tag; the empty tag has none. -/
def enableTag (d : Diagnostics) (tag : String) : Diagnostics :=
  if tag = "" then d else { d with tags := tag :: d.tags }

/-- Changes the statistics. -/
def mapStatistics (d : Diagnostics) (f : Statistics → Statistics) : Diagnostics :=
  { d with statistics := f d.statistics }

/-! ## Messages -/

/-- A text, a number and a truth value in a row. -/
def joined (s : String) (n : Int) (b : Bool) : String :=
  s ++ Numeral.decimal n ++ Text.ofFlag b

/-- Shows a log line. -/
def log (d : Diagnostics) (tag text : String) : Diagnostics :=
  if tag ∈ d.tags then d.writeOut (.text text) else d

/-- Shows a text from a level of verbosity on. -/
def verboseIf (d : Diagnostics) (level : UInt32) (text : String) : Diagnostics :=
  if level ≤ d.verbosity then d.writeOut (.text text) else d

/-- Shows a warning. -/
def warn (d : Diagnostics) (text : String) : Diagnostics :=
  if d.warnings then d.writeErr (.text ("BINCFA WARNING: " ++ text)) else d

/-! ## Events -/

/-- Takes note of an event. -/
def record (d : Diagnostics) : Event → Diagnostics
  | .log tag text => d.log tag text
  | .warning text => d.warn text
  | .count name => d.mapStatistics (·.count name)
  | .enter name => d.mapStatistics (·.enter name true)
  | .leave name => d.mapStatistics (·.leave name)

/-- Takes note of the events of an action. -/
def recordAll (d : Diagnostics) (events : List Event) : Diagnostics := events.foldl record d

end Diagnostics

end FlowAutomaton
