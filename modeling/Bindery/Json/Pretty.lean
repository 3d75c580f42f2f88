import Bindery.Json.Value

/-! # JSON over several lines -/

namespace Bindery.Json.Value

def indent (depth : Nat) : List Char := '\n' :: List.replicate (2 * depth) ' '

/-- Puts each part on a line of its own, and the brackets around them. -/
def block (opening closing : Char) (depth : Nat) : List (List Char) → List Char
  | [] => [opening, closing]
  | parts =>
    opening :: (List.intercalate [','] (parts.map (indent (depth + 1) ++ ·)) ++ indent depth ++
      [closing])

mutual

/-- Every item and member stands on a line of its own, two spaces further in than its brackets. -/
def prettyChars (depth : Nat) : Value → List Char
  | .array vs => block '[' ']' depth (prettyItems (depth + 1) vs)
  | .object ms => block '\x7b' '\x7d' depth (prettyMembers (depth + 1) ms)
  | v => v.compact.toList

def prettyItems (depth : Nat) : List Value → List (List Char)
  | [] => []
  | v :: vs => prettyChars depth v :: prettyItems depth vs

def prettyMembers (depth : Nat) : List (String × Value) → List (List Char)
  | [] => []
  | (k, v) :: ms =>
    ((Value.string k).compact.toList ++ ':' :: ' ' :: prettyChars depth v) :: prettyMembers depth ms

end

def pretty (v : Value) : String := String.ofList (prettyChars 0 v)

end Bindery.Json.Value
