import TableMetrics.Expr
import TableMetrics.Text.Case
import TableMetrics.Token

/-! Reading tokens as an expression, from left to right and without looking ahead. The state is what the tokens
    so far have left open: the operators that wait for a right operand, and around them the parentheses that
    wait for their end. A comparison binds weakest and stands alone at its level; sums and products associate
    to the left. -/

namespace TableMetrics

/-- Why tokens are no expression. Each cause but the first two names the token that cannot stand where it is, or
    none when the expression ends there. -/
inductive ParseError where
  | empty
  | unexpectedEnd
  | unexpected (t : Token)
  | chainedComparison (t : Token)
  | unclosedGroup (position : Nat) (found : Option Token)
  | unclosedCall (function : String) (found : Option Token)
  deriving DecidableEq, Inhabited

namespace ParseError

/-- How messages name what stands in the place of a closing parenthesis. -/
def foundText : Option Token → String
  | some t => t.located
  | none => "end of expression"

def message : ParseError → String
  | .empty => "Metric expression is empty"
  | .unexpectedEnd => "Unexpected end of expression"
  | .unexpected t => "Unexpected token " ++ t.located
  | .chainedComparison t => "Comparison operators cannot be chained: " ++ t.located
  | .unclosedGroup position found =>
    "Expected ')' to close '(' at position " ++ integerText position ++ ", got " ++ foundText found
  | .unclosedCall function found =>
    "Expected ')' after arguments of " ++ function ++ ", got " ++ foundText found

end ParseError

namespace Parser

/-- A left operand and the operator that waits for the right one, at each precedence. -/
structure Pending where
  comparison : Option (Expr × CompareOp)
  sum : Option (Expr × ArithOp)
  product : Option (Expr × ArithOp)
  deriving Inhabited

namespace Pending

def empty : Pending := ⟨none, none, none⟩

/-- An arithmetic expression whose left operand may be missing. -/
def arith (left : Option (Expr × ArithOp)) (right : Expr) : Expr :=
  match left with
  | some (l, op) => .arith op.symbol l right
  | none => right

def closeProduct (p : Pending) (e : Expr) : Expr := arith p.product e

def closeSum (p : Pending) (e : Expr) : Expr := arith p.sum (p.closeProduct e)

def close (p : Pending) (e : Expr) : Expr :=
  match p.comparison with
  | some (l, op) => .compare op.symbol l (p.closeSum e)
  | none => p.closeSum e

/-- The operand `e` becomes the left operand of an arithmetic operator, or the last part of it. -/
def pushArith (p : Pending) (e : Expr) (op : ArithOp) : Pending :=
  match op.isProduct with
  | true => ⟨p.comparison, p.sum, some (p.closeProduct e, op)⟩
  | false => ⟨p.comparison, some (p.closeSum e, op), none⟩

end Pending

/-- An open parenthesis: of a group, at its position, or of a call, with the arguments complete so far. -/
inductive Bracket where
  | group (position : Nat)
  | call (function : String) (args : List Expr)
  deriving Inhabited

inductive Last where
  /-- An operator or the parenthesis of a group: an operand must follow. -/
  | awaiting
  /-- The parenthesis of a call or a comma: an operand may follow. -/
  | slot
  /-- A name, of a function if a parenthesis follows and of a column otherwise. -/
  | name (s : String)
  | operand (e : Expr)
  deriving Inhabited

/-- What the tokens so far have left open, the innermost parenthesis first; `pending` waits inside of it, and
    each parenthesis keeps what waits outside. -/
structure State where
  brackets : List (Bracket × Pending)
  pending : Pending
  last : Last
  deriving Inhabited

namespace State

def start : State := ⟨[], .empty, .awaiting⟩

/-- The operand that a name without a parenthesis behind it is: null if it is that word in any case, and a column
    otherwise. -/
def nameOperand (s : String) : Expr := if upper s = "NULL" then .null else .column s

def beginOperand (s : State) (t : Token) : Except ParseError State :=
  match t.lexeme with
  | .number x => .ok { s with last := .operand (.number (.float x)) }
  | .text v => .ok { s with last := .operand (.text v) }
  | .name n => .ok { s with last := .name n }
  | .opening => .ok ⟨(.group t.position, s.pending) :: s.brackets, .empty, .awaiting⟩
  | _ => .error (.unexpected t)

/-- Takes a token where an argument of a call may be left out. A parenthesis that closes at once leaves no
    argument; otherwise the argument left out is null. -/
def fillSlot (s : State) (t : Token) : Except ParseError State :=
  match t.lexeme, s.brackets with
  | .comma, (.call f args, outer) :: rest => .ok ⟨(.call f (args ++ [.null]), outer) :: rest, .empty, .slot⟩
  | .closing, (.call f args, outer) :: rest =>
    .ok ⟨rest, outer, .operand (.call f (if args.isEmpty then [] else args ++ [.null]))⟩
  | _, _ => s.beginOperand t

def misplaced (s : State) (t : Token) : ParseError :=
  match s.brackets with
  | [] => .unexpected t
  | (.group position, _) :: _ => .unclosedGroup position (some t)
  | (.call f _, _) :: _ => .unclosedCall f (some t)

/-- Takes a token behind the complete operand `e`. -/
def extend (s : State) (e : Expr) (t : Token) : Except ParseError State :=
  match t.lexeme, s.brackets with
  | .arith op, _ => .ok { s with pending := s.pending.pushArith e op, last := .awaiting }
  | .compare op, _ =>
    if s.pending.comparison.isSome then .error (.chainedComparison t)
    else .ok { s with pending := ⟨some (s.pending.closeSum e, op), none, none⟩, last := .awaiting }
  | .closing, (.group _, outer) :: rest => .ok ⟨rest, outer, .operand (s.pending.close e)⟩
  | .closing, (.call f args, outer) :: rest =>
    .ok ⟨rest, outer, .operand (.call f (args ++ [s.pending.close e]))⟩
  | .comma, (.call f args, outer) :: rest =>
    .ok ⟨(.call f (args ++ [s.pending.close e]), outer) :: rest, .empty, .slot⟩
  | _, _ => .error (s.misplaced t)

def step (s : State) (t : Token) : Except ParseError State :=
  match s.last with
  | .awaiting => s.beginOperand t
  | .slot => s.fillSlot t
  | .operand e => s.extend e t
  | .name n =>
    if t.lexeme = .opening then .ok ⟨(.call (upper n) [], s.pending) :: s.brackets, .empty, .slot⟩
    else s.extend (nameOperand n) t

/-- The expression that ends with the complete operand `e`. -/
def finishWith (s : State) (e : Expr) : Except ParseError Expr :=
  match s.brackets with
  | [] => .ok (s.pending.close e)
  | (.group position, _) :: _ => .error (.unclosedGroup position none)
  | (.call f _, _) :: _ => .error (.unclosedCall f none)

def finish (s : State) : Except ParseError Expr :=
  match s.last with
  | .awaiting | .slot => .error .unexpectedEnd
  | .operand e => s.finishWith e
  | .name n => s.finishWith (nameOperand n)

end State

end Parser

def Expr.ofTokens (ts : List Token) : Except ParseError Expr :=
  if ts.isEmpty then .error .empty
  else ts.foldlM Parser.State.step .start >>= Parser.State.finish

end TableMetrics
