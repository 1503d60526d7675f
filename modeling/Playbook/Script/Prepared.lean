import Playbook.Script.Eval

/- A handler that answers from a list. It notes what it has been asked, and takes the next reply for
   every call that suspends. -/
namespace Playbook.Script

structure Reply where
  /-- The call fails with this text. -/
  fault : Option String
  /-- Written to the variables of the agent first. -/
  set : Namespace
  /-- The number of the argument to be given back instead of the value. -/
  argument : Option Nat
  value : Value

inductive NotedCall where
  | suspended (call : SuspendCall)
  | function (name : String) (args : List Value)

structure Prepared where
  replies : List Reply
  functions : Dict Reply
  reserved : Namespace
  /-- Oldest first. -/
  calls : List NotedCall

namespace Prepared

def give (r : Reply) (args : List Value) (a : AgentState) : Except String Value × AgentState :=
  match r.fault with
  | some text => (.error text, a)
  | none =>
    let a := { a with vars := a.vars.union r.set }
    match r.argument with
    | some n => (.ok (args.getD n .null), a)
    | none => (.ok r.value, a)

def note (p : Prepared) (c : NotedCall) : Prepared := { p with calls := p.calls ++ [c] }

def suspend (a : AgentState) (c : SuspendCall) (p : Prepared) :
    (Except String Value × AgentState) × Prepared :=
  let p := p.note (.suspended c)
  match p.replies with
  | [] => ((.ok .null, a), p)
  | r :: rest => (give r [] a, { p with replies := rest })

def hostFunction (a : AgentState) (name : String) (args : List Value) (p : Prepared) :
    (Option (Except String Value) × AgentState) × Prepared :=
  match p.functions.get? name with
  | none => ((none, a), p)
  | some r =>
    let (result, a) := give r args a
    ((some result, a), p.note (.function name args))

def handler (get : σ → Prepared) (set : Prepared → σ → σ) : Handler (StateM σ) where
  suspend a c := fun s => let (r, p) := suspend a c (get s); (r, set p s)
  hostFunction a name args := fun s => let (r, p) := hostFunction a name args (get s); (r, set p s)
  reserved _ name := fun s => ((get s).reserved.get? name, s)

end Prepared
end Playbook.Script
