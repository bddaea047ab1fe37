/-
What can go wrong, one constructor for each cause, and the one place where a cause is put into
words.
-/
import FlowAutomaton.Text

namespace FlowAutomaton

/-- Why a query of the automaton has no answer. -/
inductive QueryFailure where
  | noPredecessor
  | multiplePredecessors
  | notFound
  deriving DecidableEq, Repr

/-- The words for a failed query. -/
def QueryFailure.text : QueryFailure → String
  | .noPredecessor => "no predecessor"
  | .multiplePredecessors => "multiple predecessors"
  | .notFound => "not found"

/-- The operations of the automaton that need a vertex to be there. -/
inductive VertexUse where
  | link
  | remove
  | succs
  | preds
  | pred
  | adjacency
  | node
  deriving DecidableEq, Repr

/-- The name of an operation in error messages. -/
def VertexUse.text : VertexUse → String
  | .link => "add_successor"
  | .remove => "remove_state"
  | .succs => "succs"
  | .preds => "preds"
  | .pred => "pred"
  | .adjacency => "adjacency"
  | .node => "get_node"

/-- The causes of failure. -/
inductive Fault where
  /-- The text is no numeral in the base. -/
  | malformedNumeral (text : String) (base : Nat)
  /-- The number is negative or has more than 64 bits. -/
  | exceedsWord (n : Int)
  /-- An address has a negative offset. -/
  | negativeOffset (offset : Int)
  /-- The number names no region. -/
  | unexpectedRegion (code : UInt32)
  /-- The number names no kind of statement. -/
  | unexpectedStatement (code : UInt32)
  /-- A register of width zero was declared. -/
  | zeroWidth (register : String)
  /-- A register was declared twice. -/
  | alreadyDeclared (register : String)
  /-- A second stack pointer was declared. -/
  | stackPointerTaken (register : String)
  /-- The text of a parameter is not made of decimal digits. -/
  | notUnsigned (text : String)
  /-- The number given for a parameter is too large. -/
  | unsignedOverflow (text : String)
  /-- An initial content was given for an undeclared register. -/
  | undeclaredRegister (register : String)
  /-- An initial content or taint is wider than its register. -/
  | tooWide (register : String)
  /-- A pattern of bytes was given for a register. -/
  | bytesForRegister (register : String)
  /-- The abstract value has no cell to write for the register. -/
  | registerNotAdded (register : String)
  /-- The abstract value has no cell to read for the register. -/
  | registerNotFound (register : String)
  /-- A root was asked for in an automaton with vertices. -/
  | notEmpty (size : Nat)
  /-- The id is not that of a vertex. -/
  | notVertex (use : VertexUse) (id : UInt64)
  /-- The id is that of a vertex already. -/
  | alreadyVertex (id : UInt64)
  /-- The answer of a failed query was asked for. -/
  | queryFailed (failure : QueryFailure)
  | cannotWrite (path : String)
  | cannotRead (path : String)
  /-- The stream of a file failed, which shows when the file is closed. -/
  | writeFailed (path : String)
  /-- The stream of a file failed while a checkpoint was written to it. -/
  | cannotMarshal (path reason : String)
  /-- The file does not hold a complete checkpoint. -/
  | unreadable (path : String)
  /-- A stored edge has an end that was not stored. -/
  | danglingEdge (path : String) (src dst : UInt64)
  /-- The stored counter is smaller than a stored id. -/
  | staleCounter (path : String) (counter greatest : UInt64)
  /-- A failure that a client of the library reports in its own words. -/
  | reported (text : String)
  deriving DecidableEq, Repr

namespace Fault

/-- What a failure says after the mark that all messages start with. Numbers that name no region and
no kind of statement are shown as signed numbers. -/
def body : Fault → String
  | malformedNumeral s b => "z_number: unexpected string \"" ++ s ++ "\" in base " ++ toString b
  | exceedsWord n => "z_number " ++ toString n ++ " does not fit into uint64_t"
  | negativeOffset n => "negative address " ++ toString n
  | unexpectedRegion c => "unexpected region " ++ toString c.toInt32
  | unexpectedStatement c => "unexpected statement code " ++ toString c.toInt32
  | zeroWidth r => "register " ++ r ++ " cannot have width zero"
  | alreadyDeclared r => "register " ++ r ++ " is already declared"
  | stackPointerTaken r => "stack pointer already declared as " ++ r
  | notUnsigned s => "parameter value \"" ++ s ++ "\" cannot be converted to an unsigned integer"
  | unsignedOverflow s => "parameter value " ++ s ++ " is out of range for an unsigned integer"
  | undeclaredRegister r => "initial content given for unknown register " ++ r
  | tooWide r => "Illegal initialisation for register " ++ r
  | bytesForRegister r => "Illegal memory init \"|xx|\" spec used for register " ++ r
  | registerNotAdded r => "register " ++ r ++ " has not been added to the domain"
  | registerNotFound r => "register " ++ r ++ " not found in the abstract value"
  | notEmpty n => "init_state: the CFA already has " ++ toString n ++ " states"
  | notVertex u i => u.text ++ ": state " ++ toString i ++ " is not a vertex of the CFA"
  | alreadyVertex i => "state " ++ toString i ++ " is already a vertex of the CFA"
  | queryFailed e => "query failed: " ++ e.text
  | cannotWrite p => "cannot open " ++ p ++ " for writing"
  | cannotRead p => "cannot open " ++ p ++ " for reading"
  | writeFailed p => "error while writing " ++ p
  | cannotMarshal p r => "cannot marshal the CFA into " ++ p ++ ": " ++ r
  | unreadable p => "cannot unmarshal a CFA from " ++ p
  | danglingEdge p s d => "malformed CFA in " ++ p ++ ": edge " ++ toString s ++ " -> " ++
      toString d ++ " between unknown states"
  | staleCounter p c i => "malformed CFA in " ++ p ++ ": counter " ++ toString c ++
      " is below state " ++ toString i
  | reported s => s

/-- The message of a failure, up to the first NUL in it. -/
def message (f : Fault) : String := Text.beforeNul ("BINCFA ERROR: " ++ f.body)

end Fault

end FlowAutomaton
