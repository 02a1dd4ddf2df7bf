import Strata.Fault
import Strata.Text.Pieces

/-!
# References

Ids are segments between slashes. A reference that begins with `./` or `../`
is relative: it starts in the directory of a context id, which is all of its
segments but the last, and its parts are followed one by one. A part `..`
leaves a directory, the empty part and `.` stay, and any other part enters.
Leaving the outermost directory is a fault, and so is ending up there, because
no id is empty. All other references are ids as they stand.
-/

namespace Strata.Reference

/-- The segments of an id. -/
def segments (id : String) : List String :=
  Text.pieces '/' id

/-- The id with the given segments. -/
def join (segments : List String) : String :=
  "/".intercalate segments

/-- The segments of the directory that an id lies in. -/
def directory (id : String) : List String :=
  (segments id).dropLast

/-- Whether a reference needs a context. -/
def isRelative (reference : String) : Bool :=
  "./".toList.isPrefixOf reference.toList || "../".toList.isPrefixOf reference.toList

/-- The directory reached from `trail` by following parts, innermost segment
first; none if the outermost directory is left. -/
def follow (trail : List String) : List String → Option (List String)
  | [] => some trail
  | part :: rest =>
    if part = "" ∨ part = "." then follow trail rest
    else if part = ".." then
      match trail with
      | [] => none
      | _ :: outer => follow outer rest
    else follow (part :: trail) rest

/-- The id that a relative reference denotes within a context. -/
def resolveIn (context reference : String) : Outcome String :=
  match follow (directory context).reverse (segments reference) with
  | none => .error (.referenceEscapes reference context)
  | some [] => .error (.referenceToNothing reference context)
  | some trail => .ok (join trail.reverse)

/-- The id that a reference denotes, given the context id if there is one. An
empty context id is none. -/
def resolve (context : Option String) (reference : String) : Outcome String :=
  if reference = "" then .error .referenceEmpty
  else if isRelative reference then
    match context with
    | none => .error (.referenceWithoutContext reference)
    | some context =>
      if context = "" then .error (.referenceWithoutContext reference)
      else resolveIn context reference
  else .ok reference

end Strata.Reference
