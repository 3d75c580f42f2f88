/-! # Names that the output must declare

Names are marked while declarations are being built, and are handed out for declaration in the
order in which they were first marked. -/

namespace Bindery

/-- The marked names in the order of their first marking: those that have been handed out, then
those that wait. No name stands twice. -/
structure Wanted where
  handed : List String
  waiting : List String
  distinct : (handed ++ waiting).Nodup
deriving Repr

namespace Wanted

def empty : Wanted := ⟨[], [], .nil⟩

instance : Inhabited Wanted := ⟨empty⟩

def marked (w : Wanted) : List String := w.handed ++ w.waiting

def contains (w : Wanted) (ident : String) : Bool := w.marked.contains ident

/-- Marks a name; one that is marked stays where it is. -/
def add (w : Wanted) (ident : String) : Wanted :=
  if h : ident ∈ w.marked then w
  else
    ⟨w.handed, w.waiting ++ [ident], by
      rw [← List.append_assoc]
      exact List.nodup_append.mpr
        ⟨w.distinct, by simp, fun a ha b hb eq => h (List.mem_singleton.mp hb ▸ eq ▸ ha)⟩⟩

def addAll (w : Wanted) (idents : List String) : Wanted := idents.foldl add w

/-- Hands out the name that has waited longest. -/
def next? (w : Wanted) : Option (String × Wanted) :=
  match h : w.waiting with
  | [] => none
  | ident :: rest =>
    some (ident, ⟨w.handed ++ [ident], rest, by have := w.distinct; rw [h] at this; simpa using this⟩)

theorem marked_add (w : Wanted) (ident : String) :
    (w.add ident).marked = if ident ∈ w.marked then w.marked else w.marked ++ [ident] := by
  unfold add
  split <;> simp [marked, *]

theorem marked_of_next? {w rest : Wanted} {ident : String} (h : w.next? = some (ident, rest)) :
    rest.marked = w.marked := by
  unfold next? at h
  split at h
  · cases h
  · cases h
    simp [marked, *]

end Wanted
end Bindery
