import Playbook.Script.Builtin
import Playbook.Script.Path

/- Statements run against a namespace and an agent. What a program cannot do on its own is asked of
   a handler, in whatever monad the handler works. -/
namespace Playbook.Script
universe v

/-- What lies outside the language. A handler may change the agent; an answer that is an error
    becomes a fault of the statement that asked. -/
structure Handler (m : Type → Type v) where
  suspend : AgentState → SuspendCall → m (Except String Value × AgentState)
  /-- None when no function has that name. -/
  hostFunction : AgentState → String → List Value → m (Option (Except String Value) × AgentState)
  /-- A view of a reserved name. -/
  reserved : AgentState → String → m (Option Value)

structure Machine where
  names : Namespace
  agent : AgentState
  /-- A suspending call or a step has happened. -/
  suspended : Bool
  returned : Option Value
  /-- The value of the latest expression statement. -/
  last : Option Value

abbrev Eval (m : Type → Type v) := ExceptT Fault (StateT Machine m)

variable {m : Type → Type v} [Monad m]

def ofResult (r : Result α) : Eval m α := ExceptT.mk (pure r)

def ask (q : AgentState → m (α × AgentState)) : Eval m α := do
  let s ← get
  let (a, agent) ← liftM (q s.agent)
  modify fun s => { s with agent }
  return a

def hostResult : Except String Value → Result Value
  | .ok v => .ok v
  | .error text => .error (.host text)

def lookup (h : Handler m) (name : String) : Eval m Value := do
  let s ← get
  match s.names.get? name with
  | some v => return v
  | none =>
    if isBuiltin name then return .builtin name
    else if isReserved name then do
      let view ← liftM (h.reserved s.agent name)
      return view.getD (.module name)
    else throw (.undefinedName name)

/-- Labels usually repeat the name of the playbook they belong to. -/
def stepName (playbook label : String) : String :=
  match Text.dropStart? (playbook ++ ":").toList label.toList with
  | some rest => String.ofList rest
  | none => label

def step (args : List Value) : Eval m Value :=
  match args with
  | [label] => do
    modify fun s =>
      let stack := s.agent.stack
      let name := match stack.innermost? with
        | some frame => stepName frame.pointer.playbook label.display
        | none => label.display
      { s with suspended := true, agent := { s.agent with stack := stack.advance name } }
    return .null
  | _ => throw (.exactlyOne "Step")

def return_ (args : List Value) : Eval m Value :=
  match args with
  | [] | [_] => do
    modify fun s => { s with returned := some (args.headD .null) }
    return .null
  | _ => throw (.atMostOne "Return")

def calledFunction (names : Namespace) (name : String) : Result String :=
  match names.get? name with
  | some (.builtin target) => .ok target
  | some other => .error (.notCallable other.typeName)
  | none => .ok name

def call (h : Handler m) (name : String) (args : List Value) : Eval m Value := do
  let s ← get
  let function ← ofResult (calledFunction s.names name)
  if function = "Step" then step args
  else if function = "Return" then return_ args
  else if isPure function then ofResult (callPure function args)
  else if isSuspending function then do
    let request ← ofResult (SuspendCall.ofArguments function args)
    modify fun s => { s with suspended := true }
    let answer ← ask (h.suspend · request)
    ofResult (hostResult answer)
  else do
    let answer ← ask (h.hostFunction · function args)
    match answer with
    | some result => ofResult (hostResult result)
    | none => throw (.undefinedName function)

mutual
def eval (h : Handler m) : Expr → Eval m Value
  | .literal v => return v
  | .template parts => do return .str (← evalParts h parts)
  | .name n => lookup h n
  | .var n => do
    match (← get).agent.vars.get? n with
    | some v => return v
    | none => throw (.undefinedVariable n)
  | .list items => do return .list (← evalItems h items)
  | .map entries => do return .map (← evalEntries h [] entries)
  | .attr object name => do
    let object ← eval h object
    ofResult (getField object name)
  | .index object index => do
    let object ← eval h object
    let index ← eval h index
    ofResult (getIndex object index)
  | .call function args => do
    let args ← evalItems h args
    call h function args
  | .unary op operand => do
    let v ← eval h operand
    ofResult (op.apply v)
  | .binary op left right => do
    let left ← eval h left
    let right ← eval h right
    ofResult (op.apply left right)
  | .and left right => do
    let left ← eval h left
    if left.truthy then eval h right else return left
  | .or left right => do
    let left ← eval h left
    if left.truthy then return left else eval h right

def evalItems (h : Handler m) : List Expr → Eval m (List Value)
  | [] => return []
  | e :: rest => do
    let v ← eval h e
    let vs ← evalItems h rest
    return v :: vs

/-- Later entries replace earlier ones of the same name. -/
def evalEntries (h : Handler m) (before : Dict Value) : List (Expr × Expr) → Eval m (Dict Value)
  | [] => return before
  | (k, e) :: rest => do
    let key ← eval h k
    let key ← ofResult (mapKey key)
    let v ← eval h e
    evalEntries h (before.insert key v) rest

def evalParts (h : Handler m) : List Part → Eval m String
  | [] => return ""
  | .text s :: rest => do return s ++ (← evalParts h rest)
  | .hole e :: rest => do
    let v ← eval h e
    let tail ← evalParts h rest
    return v.display ++ tail
end

def evalPath (h : Handler m) : List Access → Eval m (List Key)
  | [] => return []
  | .field name :: rest => do return .field name :: (← evalPath h rest)
  | .index e :: rest => do
    let v ← eval h e
    let keys ← evalPath h rest
    return .index v :: keys

def Root.display : Root → String
  | .name n => n
  | .var n => "$" ++ n

def Machine.get? (s : Machine) : Root → Option Value
  | .name n => s.names.get? n
  | .var n => s.agent.vars.get? n

def Machine.set (s : Machine) (root : Root) (v : Value) : Machine :=
  match root with
  | .name n => { s with names := s.names.insert n v }
  | .var n => { s with agent := s.agent.set n v }

def rootValue (root : Root) : Eval m Value := do
  match (← get).get? root with
  | some v => return v
  | none => throw (.undefinedName root.display)

def assigned (root : Root) (keys : List Key) (op : AssignOp) (new : Value) : Eval m Value :=
  match op with
  | .set => return new
  | .add => do
    let old ← ofResult (getPath (← rootValue root) keys)
    ofResult (BinaryOp.add.apply old new)
  | .sub => do
    let old ← ofResult (getPath (← rootValue root) keys)
    ofResult (BinaryOp.sub.apply old new)

def assign (h : Handler m) (target : Target) (op : AssignOp) (value : Value) : Eval m Unit := do
  let keys ← evalPath h target.path
  let value ← assigned target.root keys op value
  if keys.isEmpty then modify (·.set target.root value)
  else do
    let slot ← rootValue target.root
    let slot ← ofResult (setPath slot keys value)
    modify (·.set target.root slot)

mutual
def exec (h : Handler m) : Stmt → Eval m Unit
  | .expr e =>
    if (Stmt.expr e).isBare then return ()
    else do
      let v ← eval h e
      modify fun s => { s with last := some v }
  | .assign target op value =>
    if target.touchesReserved then return ()
    else do
      let v ← eval h value
      assign h target op v
  | .branch branches none => do
    let _ ← execBranches h branches
  | .branch branches (some body) => do
    if !(← execBranches h branches) then execBlock h body

def execBranches (h : Handler m) : List (Expr × List Stmt) → Eval m Bool
  | [] => return false
  | (condition, body) :: rest => do
    let v ← eval h condition
    if v.truthy then do
      execBlock h body
      return true
    else execBranches h rest

def execBlock (h : Handler m) : List Stmt → Eval m Unit
  | [] => return ()
  | s :: rest => do
    if (← get).returned.isSome then return ()
    else do
      exec h s
      execBlock h rest
end

def runBlock (h : Handler m) (names : Namespace) (agent : AgentState) (body : List Stmt) :
    m (Except Fault Unit × Machine) :=
  (execBlock h body).run.run ⟨names, agent, false, none, none⟩

end Playbook.Script
