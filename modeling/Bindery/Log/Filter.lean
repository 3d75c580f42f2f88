import Bindery.Log
import Bindery.Text.Blank
import Bindery.Text.Integer

/-! # Which log events are shown

A filter is a list of directives separated by commas. Of the directives whose target is the
beginning of an event's target the longest decides. -/

namespace Bindery.Log

open Text

/-- Shows events of targets with a common beginning, down to a level. -/
structure Directive where
  target : String
  /-- Shows nothing where there is none. -/
  level : Option Level
deriving DecidableEq, Repr

namespace Directive

/-- A level by its number or its name, or none at all. -/
def levelOf? (cs : List Char) : Option (Option Level) :=
  match (readInteger ⟨0, 5⟩ cs).toOption with
  | some i => some (Level.all.find? fun l => (l.rank : Int) = i)
  | none =>
    if cs.map Char.toLower = "off".toList then some none
    else (Level.ofName? (String.ofList cs)).map some

def startsDirective (c : Char) : Bool :=
  c.isAlphanum || c == '-' || c == ':' || c == '_' || c == '[' || c.toNat ≥ 0x80

/-- Reads a level for all targets, a target with a level, or a target for all levels. -/
def read? (cs : List Char) : Option Directive :=
  if (cs.head?.map startsDirective).getD false then
    match cs.span (· ≠ '=') with
    | (word, []) =>
      match levelOf? word with
      | some level => some ⟨"", level⟩
      | none => some ⟨String.ofList word, some .trace⟩
    | (target, [_]) => some ⟨String.ofList target, some .trace⟩
    | (target, _ :: level) => (levelOf? level).map fun l => ⟨String.ofList target, l⟩
  else none

def applies (d : Directive) (e : Event) : Bool := d.target.toList.isPrefixOf e.target.toList

def shows (d : Directive) (e : Event) : Bool :=
  match d.level with
  | some l => e.level.rank ≤ l.rank
  | none => false

end Directive

abbrev Filter := List Directive

namespace Filter

/-- Directives that cannot be read are left out; without any, errors are shown. -/
def ofText (s : String) : Filter :=
  match (splitAt ',' s.toList).filterMap Directive.read? with
  | [] => [⟨"", some .error⟩]
  | ds => ds

/-- The parts of the program, each the beginning of its targets. -/
def parts : List String := ["apibind", "apibind_runtime", "apibind_codegen", "apibind_defs"]

def standard : Filter :=
  [⟨"apibind", some .info⟩, ⟨"apibind_runtime", some .warn⟩, ⟨"apibind_codegen", some .warn⟩,
   ⟨"apibind_defs", some .info⟩]

/-- The filter that a setting asks for: the name of a level holds for all parts. -/
def ofSetting : Option String → Filter
  | none => standard
  | some s =>
    match Level.ofName? s with
    | some l => parts.map fun p => ⟨p, some l⟩
    | none => if s.toList.all isBlank then standard else ofText s

/-- The directive with the longest target, of equal ones the last. -/
def decisive? (f : Filter) (e : Event) : Option Directive :=
  (f.filter (·.applies e)).foldl (fun best d =>
    match best with
    | some b => if d.target.length < b.target.length then some b else some d
    | none => some d) none

def shows (f : Filter) (e : Event) : Bool := (f.decisive? e).any (·.shows e)

end Filter
end Bindery.Log
