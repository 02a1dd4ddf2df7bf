import Strata.Fault

/-!
# Operators

How an incoming value meets the value at its key. A value wrapped as an object
with the fields `$op` and `value` names its operator; any other value leaves the
choice to the shapes that meet: two objects are merged and everything else is
replaced.
-/

namespace Strata

/-- How an incoming value meets the value at its key. -/
inductive Operator
  /-- The incoming value stands in place of the present one. -/
  | replace
  /-- Two objects are merged key by key; otherwise replace. -/
  | merge
  /-- An array is appended to an array; otherwise replace. -/
  | add
  deriving DecidableEq, Repr

namespace Operator

def name : Operator → String
  | .replace => "replace"
  | .merge => "merge"
  | .add => "add"

def ofName (text : String) : Outcome Operator :=
  if text = "replace" then .ok .replace
  else if text = "merge" then .ok .merge
  else if text = "add" then .ok .add
  else .error (.operatorUnknown text)

/-- The field that names the operator of a wrapped value. -/
def key : String := "$op"

/-- The field that holds what is wrapped. -/
def payloadKey : String := "value"

@[simp] theorem ofName_name (op : Operator) : ofName op.name = .ok op := by
  cases op <;> rfl

/-- The operator of an incoming value that names none. -/
def byShape : Option Json → Json → Operator
  | some (.object _), .object _ => .merge
  | _, _ => .replace

/-- The payload of a wrapper; a wrapper without one holds null. -/
def payload (wrapper : Fields Json) : Json :=
  (Fields.get? payloadKey wrapper).getD .null

/-- The operator that an incoming value names, if it is wrapped, and the value
without its wrapper. -/
def unwrap : Json → Outcome (Option Operator × Json)
  | .object fields =>
    match Fields.get? key fields with
    | none => .ok (none, .object fields)
    | some (.text name) => do
      let op ← ofName name
      pure (some op, payload fields)
    | some other => .error (.operatorNotText other)
  | value => .ok (none, value)

theorem sizeOf_payload_le (wrapper : Fields Json) :
    sizeOf (payload wrapper) ≤ sizeOf wrapper := by
  unfold payload
  cases held : Fields.get? payloadKey wrapper with
  | none =>
    rw [Option.getD_none, Json.null.sizeOf_spec]
    cases wrapper with
    | nil => exact Nat.le_refl 1
    | cons first rest =>
      rw [List.cons.sizeOf_spec]
      omega
  | some value => exact Nat.le_of_lt (Fields.sizeOf_lt_of_get? held)

/-- Unwrapping never makes a value larger. -/
theorem sizeOf_unwrap_le {incoming value : Json} {op : Option Operator}
    (unwrapped : unwrap incoming = .ok (op, value)) : sizeOf value ≤ sizeOf incoming := by
  cases incoming with
  | object fields =>
    simp only [unwrap] at unwrapped
    split at unwrapped
    · cases unwrapped
      exact Nat.le_refl _
    · rename_i text _
      cases named : ofName text with
      | error fault => rw [named] at unwrapped; cases unwrapped
      | ok found =>
        rw [named] at unwrapped
        cases unwrapped
        have := sizeOf_payload_le fields
        rw [Json.object.sizeOf_spec]
        omega
    · cases unwrapped
  | null | boolean _ | integer _ | real _ | text _ | array _ =>
    cases unwrapped
    exact Nat.le_refl _

end Operator

end Strata
