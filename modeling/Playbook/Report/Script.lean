import Playbook.Report.Value
import Playbook.Report.Error
import Playbook.Script.Prepared

/- Tokens, programs and what runs come to, as documents. -/
namespace Playbook.Script

def Token.kind : Token → String
  | .int _ => "Int"
  | .float _ => "Float"
  | .str _ => "Str"
  | .template _ => "FStr"
  | .ident _ => "Ident"
  | .var _ => "Var"
  | .newline => "Newline"
  | .eof => "Eof"
  | t => t.describe

def Token.payload : Token → Json
  | .int i => Value.reportInt i.toInt
  | .float x => Value.reportFloat x
  | .str s | .template s | .ident s | .var s => .str s
  | _ => .null

instance : Report Span := ⟨fun s => .arr [report s.start, report s.stop, report s.hasCode]⟩

instance : Report Lexeme :=
  ⟨fun l => .arr [report l.line, .str l.token.kind, l.token.payload, .str l.token.describe]⟩

def BinaryOp.word : BinaryOp → String
  | .add => "Add"
  | .sub => "Sub"
  | .mul => "Mul"
  | .div => "Div"
  | .mod => "Mod"
  | .eq => "Eq"
  | .ne => "NotEq"
  | .lt => "Lt"
  | .le => "Le"
  | .gt => "Gt"
  | .ge => "Ge"
  | .in_ => "In"
  | .notIn => "NotIn"

def UnaryOp.word : UnaryOp → String
  | .neg => "Neg"
  | .not => "Not"

def AssignOp.word : AssignOp → String
  | .set => "Set"
  | .add => "Add"
  | .sub => "Sub"

def labelled (label : String) (parts : List Json) : Json := .arr (.str label :: parts)

mutual
def Expr.toReport : Expr → Json
  | .literal v => labelled "lit" [report v]
  | .template parts => labelled "fstr" [.arr (partsToReport parts)]
  | .name n => labelled "name" [.str n]
  | .var n => labelled "var" [.str n]
  | .list items => labelled "list" [.arr (exprsToReport items)]
  | .map entries => labelled "map" [.arr (entriesToReport entries)]
  | .attr e n => labelled "attr" [e.toReport, .str n]
  | .index e i => labelled "index" [e.toReport, i.toReport]
  | .call f args => labelled "call" [.str f, .arr (exprsToReport args)]
  | .unary op e => labelled "unary" [.str op.word, e.toReport]
  | .binary op l r => labelled "bin" [.str op.word, l.toReport, r.toReport]
  | .and l r => labelled "and" [l.toReport, r.toReport]
  | .or l r => labelled "or" [l.toReport, r.toReport]

def exprsToReport : List Expr → List Json
  | [] => []
  | e :: rest => e.toReport :: exprsToReport rest

def entriesToReport : List (Expr × Expr) → List Json
  | [] => []
  | (k, v) :: rest => .arr [k.toReport, v.toReport] :: entriesToReport rest

def partsToReport : List Part → List Json
  | [] => []
  | .text s :: rest => labelled "s" [.str s] :: partsToReport rest
  | .hole e :: rest => labelled "e" [e.toReport] :: partsToReport rest
end

instance : Report Expr := ⟨Expr.toReport⟩

instance : Report Root :=
  ⟨fun
    | .name n => labelled "name" [.str n]
    | .var n => labelled "var" [.str n]⟩

instance : Report Access :=
  ⟨fun
    | .field n => labelled "field" [.str n]
    | .index e => labelled "index" [report e]⟩

mutual
def Stmt.toReport : Stmt → Json
  | .expr e => .obj [("expr", report e), ("bare", .bool (Stmt.expr e).isBare)]
  | .assign t op v =>
    .obj [("assign", report t.root), ("path", report t.path), ("assign_op", .str op.word),
      ("value", report v), ("reserved", .bool t.touchesReserved)]
  | .branch branches none => .obj [("if", .arr (branchesToReport branches)), ("else", .null)]
  | .branch branches (some body) =>
    .obj [("if", .arr (branchesToReport branches)), ("else", .arr (stmtsToReport body))]

def stmtsToReport : List Stmt → List Json
  | [] => []
  | s :: rest => s.toReport :: stmtsToReport rest

def branchesToReport : List (Expr × List Stmt) → List Json
  | [] => []
  | (c, body) :: rest => .arr [report c, .arr (stmtsToReport body)] :: branchesToReport rest
end

instance : Report Stmt := ⟨Stmt.toReport⟩

instance : Report SuspendCall :=
  ⟨fun
    | .say target content => labelled "Say" [.str target, .str content]
    | .sendMessage target content => labelled "SendMessage" [.str target, .str content]
    | .waitForMessage source => labelled "WaitForMessage" [.str source]
    | .call playbook args => labelled "Call" [.str playbook, report args]
    | .createMeeting playbook topic required optional =>
      labelled "CreateMeeting" [.str playbook, .str topic, report required, report optional]⟩

def SuspendCall.ofReport? : Json → Option SuspendCall
  | .arr [.str "Say", .str target, .str content] => some (.say target content)
  | .arr [.str "SendMessage", .str target, .str content] => some (.sendMessage target content)
  | .arr [.str "WaitForMessage", .str source] => some (.waitForMessage source)
  | .arr [.str "Call", .str playbook, .arr args] =>
    some (.call playbook (Value.itemsOfReport args))
  | .arr [.str "CreateMeeting", .str playbook, .str topic, required, optional] => do
    return .createMeeting playbook topic (← required.strings?) (← optional.strings?)
  | _ => none

instance : Report NotedCall :=
  ⟨fun
    | .suspended c => report c
    | .function name args => labelled "host" [.str name, report args]⟩

def CodeFault.syntaxText? : CodeFault → Option String
  | .malformed e => some e.display
  | .failed .. => none

def CodeFault.runtimeText? : CodeFault → Option String
  | .malformed _ => none
  | .failed fault .. => some fault.display

instance : Report Summary :=
  ⟨fun s => .obj [("success", .bool s.success), ("value", report s.value.toList),
    ("return", report s.returned.toList),
    ("syntax_error", report (s.fault.bind CodeFault.syntaxText?)),
    ("runtime_error", report (s.fault.bind CodeFault.runtimeText?)),
    ("message", report (s.fault.map CodeFault.message)),
    ("traceback", report (s.fault.map CodeFault.traceback)), ("statements", report s.statements),
    ("checkpoints", report s.checkpoints)]⟩

end Playbook.Script
