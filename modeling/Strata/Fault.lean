import Strata.Json.Printer
import Strata.Text.Quoted

/-!
# Faults

Why an operation refused. A fault is a cause with the data it concerns; its
kind and its wording are functions of the cause. Nothing is recovered silently:
a fault ends the whole operation in which it arises.
-/

namespace Strata

/-- The three kinds of refusal. -/
inductive FaultKind
  /-- A mandatory input is missing, empty or has empty entries. -/
  | argumentRequired
  /-- A supplied value resolves to nothing usable. -/
  | argumentInvalid
  /-- A well-formed request that the present state cannot satisfy. -/
  | operationInvalid
  deriving DecidableEq, Repr

/-- The stable code of a kind. -/
def FaultKind.code : FaultKind → String
  | .argumentRequired => "ARGUMENT_REQUIRED"
  | .argumentInvalid => "ARGUMENT_INVALID"
  | .operationInvalid => "OPERATION_INVALID"

/-- How a message of a kind begins. -/
def FaultKind.heading : FaultKind → String
  | .argumentRequired => "argument required"
  | .argumentInvalid => "argument invalid"
  | .operationInvalid => "operation invalid"

/-- What a module was expected to be the type of. -/
inductive TypeRole
  | ancestor
  | instanceType
  deriving DecidableEq, Repr

def TypeRole.label : TypeRole → String
  | .ancestor => "ancestor"
  | .instanceType => "type"

/-- The causes of refusal. -/
inductive Fault
  | referenceEmpty
  | referenceWithoutContext (reference : String)
  | referenceEscapes (reference context : String)
  | referenceToNothing (reference context : String)
  | selectorWithoutModule
  | moduleEntryEmpty (index : Nat)
  | annotationEntryEmpty (index : Nat)
  | priorityNotANumber
  | operatorNotText (value : Json)
  | operatorUnknown (name : String)
  | moduleIdEmpty
  | canonicalIdEmpty (id : String)
  | baseTypeEmpty
  | instanceTypeEmpty
  | aliasEmpty
  | namespaceEmpty
  | moduleRegistered (id : String)
  | notAType (role : TypeRole) (id : String)
  | typeNotRegistered (role : TypeRole) (id : String)
  | ancestryCyclic (id ancestor : String)
  | dependencyUndefined (id : String)
  | dependencyNotLoaded (id : String)
  | externalNotReady (moduleId : String)
  | externalPriorityNotANumber (index : Nat) (moduleId : String)
  /-- A refusal by a collaborator outside the library, in its own words. -/
  | reported (kind : FaultKind) (text : String)
  deriving Inhabited, Repr

namespace Fault

open Text (quoted)

def kind : Fault → FaultKind
  | .referenceEmpty => .argumentRequired
  | .referenceWithoutContext _ => .operationInvalid
  | .referenceEscapes _ _ => .argumentInvalid
  | .referenceToNothing _ _ => .argumentInvalid
  | .selectorWithoutModule => .argumentRequired
  | .moduleEntryEmpty _ => .argumentRequired
  | .annotationEntryEmpty _ => .argumentRequired
  | .priorityNotANumber => .argumentInvalid
  | .operatorNotText _ => .operationInvalid
  | .operatorUnknown _ => .operationInvalid
  | .moduleIdEmpty => .argumentRequired
  | .canonicalIdEmpty _ => .argumentInvalid
  | .baseTypeEmpty => .argumentRequired
  | .instanceTypeEmpty => .argumentRequired
  | .aliasEmpty => .argumentRequired
  | .namespaceEmpty => .argumentRequired
  | .moduleRegistered _ => .operationInvalid
  | .notAType _ _ => .argumentInvalid
  | .typeNotRegistered _ _ => .argumentInvalid
  | .ancestryCyclic _ _ => .argumentInvalid
  | .dependencyUndefined _ => .argumentInvalid
  | .dependencyNotLoaded _ => .operationInvalid
  | .externalNotReady _ => .operationInvalid
  | .externalPriorityNotANumber _ _ => .argumentInvalid
  | .reported kind _ => kind

/-- The wording of a cause, without the heading of its kind. -/
def detail : Fault → String
  | .referenceEmpty => "reference must not be empty"
  | .referenceWithoutContext reference =>
    "relative reference " ++ quoted reference ++ " used without a context id"
  | .referenceEscapes reference context =>
    "reference " ++ quoted reference ++ " escapes the root of context " ++ quoted context
  | .referenceToNothing reference context =>
    "reference " ++ quoted reference ++ " resolves to an empty id in context " ++ quoted context
  | .selectorWithoutModule => "select.module is required"
  | .moduleEntryEmpty index => "select.module[" ++ toString index ++ "] is null or empty"
  | .annotationEntryEmpty index => "select.annotation[" ++ toString index ++ "] is empty"
  | .priorityNotANumber => "rule priority must be a number"
  | .operatorNotText value => "$op must be a string, got " ++ value.compact
  | .operatorUnknown name =>
    "unknown $op " ++ quoted name ++ " (expected replace, merge or add)"
  | .moduleIdEmpty => "module id"
  | .canonicalIdEmpty id => quoted id ++ " resolves to an empty module id"
  | .baseTypeEmpty => "baseTypeId"
  | .instanceTypeEmpty => "instance type id"
  | .aliasEmpty => "alias and target ids"
  | .namespaceEmpty => "namespace prefix and target"
  | .moduleRegistered id => "module " ++ quoted id ++ " is already registered"
  | .notAType role id => role.label ++ " " ++ quoted id ++ " is not a type"
  | .typeNotRegistered role id => role.label ++ " " ++ quoted id ++ " is not registered"
  | .ancestryCyclic id ancestor =>
    "ancestry of " ++ quoted id ++ " is cyclic at " ++ quoted ancestor
  | .dependencyUndefined id => "dependency " ++ quoted id ++ " is not defined"
  | .dependencyNotLoaded id => "dependency " ++ quoted id ++ " has not been loaded"
  | .externalNotReady moduleId =>
    "external configuration for " ++ quoted moduleId ++ " is only available asynchronously"
  | .externalPriorityNotANumber index moduleId =>
    "external entry " ++ toString index ++ " for " ++ quoted moduleId
      ++ " has a non-numeric priority"
  | .reported _ text => text

/-- The whole message. -/
def message (fault : Fault) : String :=
  fault.kind.heading ++ ": " ++ fault.detail

/-- The code and the message as a JSON object. -/
def toJson (fault : Fault) : Json :=
  .object [("code", .text fault.kind.code), ("message", .text fault.message)]

end Fault

/-- An outcome that may be a fault instead. -/
abbrev Outcome (α : Type) := Except Fault α

/-- An outcome as a step of a computation that may fault. -/
def Outcome.lift {m : Type → Type} {α : Type} [Monad m] [MonadExceptOf Fault m] :
    Outcome α → m α
  | .ok value => pure value
  | .error fault => throw fault

end Strata
