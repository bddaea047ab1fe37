/-
Named counters and timers. They are kept while statistics are enabled, and listed by name. Asking
for a counter makes one. The times themselves are not kept: a timer is a name here.
-/
import FlowAutomaton.Table
import FlowAutomaton.Text

namespace FlowAutomaton

/-- Counters and timers by name, and whether they are enabled. -/
structure Statistics where
  enabled : Bool := false
  counters : Table String UInt32 := {}
  timers : Table String Unit := {}
  deriving DecidableEq

namespace Statistics

instance : Inhabited Statistics := ⟨{}⟩

/-- Enables or disables statistics, and keeps what is there. -/
def enable (s : Statistics) (on : Bool) : Statistics := { s with enabled := on }

/-- Forgets everything. -/
def reset (s : Statistics) : Statistics :=
  if s.enabled then { s with counters := {}, timers := {} } else s

/-! ## Counters -/

/-- Adds one to a counter, which wraps after 32 bits. -/
def count (s : Statistics) (name : String) : Statistics :=
  if s.enabled then { s with counters := s.counters.alter name fun n => n.getD 0 + 1 } else s

/-- What a counter stands at; a counter that is asked for is made if there is none. -/
def get (s : Statistics) (name : String) : UInt32 × Statistics :=
  if s.enabled then
    ((s.counters.find? name).getD 0, { s with counters := s.counters.insertIfNew name 0 })
  else (0, s)

/-! ## Timers -/

/-- Starts, stops or resumes a timer. -/
def touch (s : Statistics) (name : String) : Statistics :=
  if s.enabled then { s with timers := s.timers.insert name () } else s

/-- Starts a timed section; some sections are counted too. Its name ends at the first NUL. -/
def enter (s : Statistics) (name : String) (counted : Bool) : Statistics :=
  let s := s.touch (Text.beforeNul name)
  if counted then s.count (Text.beforeNul name) else s

/-- Ends a timed section. -/
def leave (s : Statistics) (name : String) : Statistics := s.touch (Text.beforeNul name)

/-! ## Text -/

/-- The line of a counter. -/
def counterLine (e : String × UInt32) : String := e.1 ++ ": " ++ toString e.2 ++ "\n"

/-- The line of a timer, with a mark in place of the time. -/
def timerLine (e : String × Unit) : String := e.1 ++ ": <time>\n"

/-- A text between the first and the last line of a listing. -/
def framed (s : String) : String :=
  "\n\n************** STATS ***************** \n" ++ s ++
    "************** STATS END ***************** \n"

/-- Counters and then timers by name. -/
def text (s : Statistics) : String :=
  if s.enabled then
    framed (String.join (s.counters.entries.map counterLine) ++
      String.join (s.timers.entries.map timerLine))
  else framed "Need to call BincfaEnableStats()\n"

/-- What is listed where statistics are not supported. -/
def unsupportedText : String :=
  framed ("bincfa compiled without support for gathering stats. " ++
    "Compile with -DBINCFA_ENABLE_STATS=ON\n")

end Statistics

end FlowAutomaton
