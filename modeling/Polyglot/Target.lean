import Polyglot.Dialect.Decls
import Polyglot.Program

/-!
# Targets

The four languages a program can be compiled to, each a dialect with every decision made.
-/

namespace Polyglot

inductive Target where
  | js
  | ts
  | derw
  | elm
deriving DecidableEq, Repr

namespace Target

def name : Target → String
  | .js => "js"
  | .ts => "ts"
  | .derw => "derw"
  | .elm => "elm"

def all : List Target := [.js, .ts, .derw, .elm]

def ofName? (name : String) : Option Target :=
  all.find? fun target => target.name == name

def dialect : Target → Dialect
  | .js => .styled (.script .javascript)
  | .ts => .styled (.script .typescript)
  | .derw => .styled (.surface .derw)
  | .elm => .styled (.surface .elm)

/-- The text of a list of declarations, with a line feed at its end. -/
def generate (target : Target) (body : List Decl) : Except RenderError String :=
  match target.dialect.emit body 0 with
  | .ok text _ => .ok (text ++ "\n")
  | .error error _ => .error error

end Target

/-- Why a program could not be written for a target. -/
inductive CompileError where
  | unknownTarget (name : String)
  | render (error : RenderError)
deriving DecidableEq, Repr

def CompileError.message : CompileError → String
  | .unknownTarget name =>
      "unknown target '" ++ name ++ "', expected one of: " ++
        ", ".intercalate (Target.all.map Target.name)
  | .render error => error.message

/-- Writes declarations for the target of a given name. -/
def generate (target : String) (body : List Decl) : Except CompileError String :=
  match Target.ofName? target with
  | none => .error (.unknownTarget target)
  | some target =>
      match target.generate body with
      | .ok text => .ok text
      | .error error => .error (.render error)

/-- Reads a module text and writes it for a target; the errors of the text come with the result. -/
def compile (source target : String) : Except CompileError (String × List String) := do
  let program := Program.ofText source
  let text ← generate target program.body
  return (text, program.errors)

end Polyglot
