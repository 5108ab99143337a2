import Gatehouse.Scope.Basic

/-!
# Named scopes

A directory keeps the scopes of a program under names, in the order in which they were made. A
name stands for the latest scope made under it.

* `Directory.perform`: makes, derives or cancels a named scope.
* `Directory.find?`: the scope of a name.
-/

namespace Gatehouse.Scope

inductive Command where
  | create (name : String)
  | createWithTimeout (name : String) (timeout : Nat)
  | derive (name parent : String)
  | deriveWithTimeout (name parent : String) (timeout : Nat)
  /-- A scope over the token of another one, without its deadline. -/
  | shareToken (name source : String)
  | cancel (name : String)

/-- Scopes under names, the oldest first, and the tokens behind them. -/
structure Directory where
  tokens : Tokens
  named : List (String × Scope)

namespace Directory

def empty : Directory := ⟨.empty, []⟩

def find? (d : Directory) (name : String) : Option Scope :=
  (d.named.reverse.find? (·.1 == name)).map (·.2)

def record (d : Directory) (name : String) (made : Scope × Tokens) : Directory :=
  { tokens := made.2, named := d.named ++ [(name, made.1)] }

/-- Nothing is recorded if no scope was made. -/
def recordIfMade (d : Directory) (name : String) (made? : Option (Scope × Tokens)) : Directory :=
  match made? with
  | some made => d.record name made
  | none => d

/-- Carries out a command at an instant. A command on a name that nobody made does nothing, nor
does one whose timeout would end at an instant that no clock shows. -/
def perform (d : Directory) (now : Nat) : Command → Directory
  | .create name => d.record name (Scope.root d.tokens)
  | .createWithTimeout name timeout => d.recordIfMade name (Scope.withTimeout? now timeout d.tokens)
  | .derive name parent =>
    match d.find? parent with
    | some s => d.record name (s.child d.tokens)
    | none => d
  | .deriveWithTimeout name parent timeout =>
    match d.find? parent with
    | some s => d.recordIfMade name (s.childWithTimeout? now timeout d.tokens)
    | none => d
  | .shareToken name source =>
    match d.find? source with
    | some s => d.record name (Scope.ofToken s.token, d.tokens)
    | none => d
  | .cancel name =>
    match d.find? name with
    | some s => { d with tokens := s.cancel d.tokens }
    | none => d

end Directory

end Gatehouse.Scope
