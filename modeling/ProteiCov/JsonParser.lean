import ProteiCov.Lib.Cpp
import ProteiCov.Lib.Map

/-
  `utility::JsonParser`

  A property tree is kept as far as the configuration reads it: the top-level
  members in order, keys possibly repeated, each with the `int` its text converts
  to, if it does. The members of an array have empty keys, and a file that holds a
  bare value has no member.

  `output` reads each key through `get<int>`, which finds the first member with
  that key; `outputConfig` assigns the members to a map in order.
-/

namespace ProteiCov
open Cpp

/-- `boost::property_tree::ptree`. -/
abbrev PropertyTree := List (String × Option Int)

/-- What a file holds: the tree `read_json` builds, or nothing where it throws,
as it does on the empty text read from a file that is not there. -/
abbrev FileContent := Option PropertyTree

/-- The configuration values by key. -/
abbrev Data := Cpp.Map String

namespace JsonParser

/-- `parse`: the handler rethrows a copy of the exception as a plain one. -/
def parse : FileContent → Except StdException PropertyTree
  | some tree => .ok tree
  | none => .error (.other 0)

/-- `data_.get<int>(key)`. -/
def get (tree : PropertyTree) (key : String) : Except StdException Int :=
  match tree.lookup key with
  | some (some n) => .ok n
  | some none => .error (.other 1)
  | none => .error (.other 2)

def output (tree : PropertyTree) : Except StdException String := do
  let rMin ← get tree "RMin"
  let rMax ← get tree "RMax"
  let amountOfOperators ← get tree "AmountOfOperators"
  let sizeOfQueue ← get tree "SizeOfQueue"
  return "RMin: " ++ toString rMin ++ "\n" ++ "RMax: " ++ toString rMax ++ "\n" ++
    "AmountOfOperators: " ++ toString amountOfOperators ++ "\n" ++
    "SizeOfQueue: " ++ toString sizeOfQueue ++ "\n"

/-- The loop of `outputConfig`. -/
def outputMembers (res : Data) : PropertyTree → Except StdException Data
  | [] => .ok res
  | (key, some n) :: rest => outputMembers (res.assign key n) rest
  | (_, none) :: _ => .error (.other 0)

def outputConfig (tree : PropertyTree) : Except StdException Data :=
  outputMembers Map.empty tree

end JsonParser

end ProteiCov
