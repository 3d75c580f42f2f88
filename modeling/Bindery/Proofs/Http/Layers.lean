import Bindery.Api
import Bindery.Proofs.Dictionary

/-! # What layers make of a request

A layer sets one header or the base URL, and only where the request has none: where a request has
headers of a name, in whatever spelling, it keeps them, and otherwise it gets the layer's own
(`Request.headersOf_apply`).  So of the layers around a client the outermost one that carries
something decides, however many there are and in whatever order (`Api.execute_layered`). -/

namespace Bindery

namespace Http

namespace Header

theorem sameName_iff {a b : String} : sameName a b = true ↔ key a = key b := beq_iff_eq

theorem sameName_congr {a b : String} (h : sameName a b = true) (c : String) :
    sameName a c = sameName b c := by
  unfold sameName
  rw [sameName_iff.mp h]

end Header

/-- The headers of a name, in whatever spelling. -/
def Request.headersOf (r : Request) (name : String) : List (String × String) :=
  r.headers.entries.filter fun h => Header.sameName name h.1

namespace Layer

variable {α : Type}

/-- The header that the layer carries, if it is of the name. -/
def header? (name : String) : Layer → Option (String × String)
  | .header spelling value =>
    if Header.sameName name spelling then some (spelling, value) else none
  | .baseUrl _ => none

/-- The base URL that the layer carries. -/
def baseUrl? : Layer → Option String
  | .header _ _ => none
  | .baseUrl url => some url

/-- What the outermost layer carries of those that carry something. -/
def outermost? (carried? : Layer → Option α) (ls : List Layer) : Option α :=
  ls.reverse.findSome? carried?

theorem outermost?_cons (carried? : Layer → Option α) (l : Layer) (ls : List Layer) :
    outermost? carried? (l :: ls) = (outermost? carried? ls).or (carried? l) := by
  rw [outermost?, List.reverse_cons, List.findSome?_append, List.findSome?_singleton, outermost?]

end Layer

namespace Request

open Layer

variable {r : Request} {name : String}

theorem headersOf_congr {a b : String} (h : Header.sameName a b = true) :
    r.headersOf a = r.headersOf b := by
  unfold headersOf
  simp only [Header.sameName_congr h]

theorem headersOf_eq_nil_iff :
    r.headersOf name = [] ↔ r.headers.keys.any (Header.sameName name) = false := by
  rw [headersOf, List.filter_eq_nil_iff, Dict.keys, List.any_map, List.any_eq_false]
  rfl

/-- A header under a new name stands beside the others. -/
theorem headersOf_header {spelling value : String} (hnew : r.headersOf spelling = []) :
    (r.header spelling value).headersOf name =
      if Header.sameName name spelling then [(spelling, value)] else r.headersOf name := by
  have hinsert : (r.header spelling value).headersOf name = _ :=
    r.headers.filter_insert (Header.sameName name) spelling value
  rw [hinsert]
  split
  · rename_i hsame
    have hold : r.headers.entries.filter (fun h => Header.sameName name h.1) = [] :=
      (headersOf_congr hsame).trans hnew
    rw [hold, Dict.insertEntry]
  · rfl

/-- A request keeps the headers that it has of a name, and otherwise gets the layer's. -/
theorem headersOf_apply (l : Layer) (r : Request) (name : String) :
    (l.apply r).headersOf name =
      if r.headersOf name = [] then (l.header? name).toList else r.headersOf name := by
  cases l with
  | baseUrl url =>
      have hkeep : ((Layer.baseUrl url).apply r).headersOf name = r.headersOf name := by
        rw [apply]
        split <;> rfl
      rw [hkeep]
      split
      · assumption
      · rfl
  | header spelling value =>
      rw [apply]
      split
      · rename_i hset
        split
        · rename_i hnone
          -- The request has the layer's header already, so the layer's is not of this name.
          have hother : Header.sameName name spelling = false := by
            by_contra hsame
            rw [headersOf_congr (by simpa using hsame), headersOf_eq_nil_iff, hset] at hnone
            cases hnone
          rw [hnone, header?, hother]
          rfl
        · rfl
      · rename_i hnew
        rw [headersOf_header (headersOf_eq_nil_iff.mpr (by simpa using hnew)), header?]
        split
        · rename_i hsame
          have hnone : r.headersOf name = [] :=
            (headersOf_congr hsame).trans (headersOf_eq_nil_iff.mpr (by simpa using hnew))
          rw [if_pos hnone, Option.toList_some]
        · split
          · assumption
          · rfl

theorem baseUrl_apply (l : Layer) (r : Request) :
    (l.apply r).baseUrl = r.baseUrl.or l.baseUrl? := by
  cases l with
  | header spelling value =>
      rw [apply, baseUrl?, Option.or_none]
      split <;> rfl
  | baseUrl url =>
      rw [apply, baseUrl?]
      cases hbase : r.baseUrl <;> simp [hbase]

end Request

namespace Layer

/-- The second request is the first one with a base URL and headers from layers, of which the first
is the innermost: what the request has itself stays, and for the rest the outermost layer counts
that carries it. -/
structure Layered (ls : List Layer) (r r' : Request) : Prop where
  others : r' = { r with headers := r'.headers, baseUrl := r'.baseUrl }
  baseUrl : r'.baseUrl = r.baseUrl.or (outermost? baseUrl? ls)
  headers (name : String) : r'.headersOf name =
    if r.headersOf name = [] then (outermost? (header? name) ls).toList else r.headersOf name

theorem others_apply (l : Layer) (r : Request) :
    l.apply r = { r with headers := (l.apply r).headers, baseUrl := (l.apply r).baseUrl } := by
  cases l <;> rw [apply] <;> split <;> rfl

/-- One more layer within the others. -/
theorem Layered.apply {ls : List Layer} {r r' : Request} (h : Layered ls r r') (l : Layer) :
    Layered (l :: ls) r (l.apply r') where
  others := by
    rw [others_apply, h.others]
  baseUrl := by
    rw [Request.baseUrl_apply, h.baseUrl, outermost?_cons, Option.or_assoc]
  headers name := by
    rw [Request.headersOf_apply, h.headers, outermost?_cons]
    by_cases hown : r.headersOf name = []
    · cases hout : outermost? (header? name) ls <;> simp [hown]
    · simp [hown]

theorem layered_applyAll (ls : List Layer) (r : Request) : Layered ls r (applyAll ls r) := by
  induction ls with
  | nil =>
      refine ⟨rfl, ?_, fun name => ?_⟩
      · simp [applyAll, outermost?]
      · by_cases hown : r.headersOf name = [] <;> simp [applyAll, outermost?, hown]
  | cons l ls ih => exact ih.apply l

end Layer
end Http

namespace Api

open Http

variable {m : Type → Type}

theorem foldl_within (ls : List Layer) (api : Api m) :
    ls.foldl within api = { api with layers := api.layers ++ ls } := by
  induction ls generalizing api with
  | nil => rw [List.foldl_nil, List.append_nil]
  | cons l ls ih => rw [List.foldl_cons, ih, within, List.append_assoc, List.singleton_append]

/-- Whatever layers are put around a client, and in whatever order: for every request the client is
given one that differs from it in the base URL and the headers only, and these are the request's own
or else those of the outermost layer that carries them. -/
theorem execute_layered (ls : List Layer) (r : Request) :
    ∃ r', (∀ {m : Type → Type} (client : Client m),
      (ls.foldl within { client }).execute r = client.execute r') ∧ Layer.Layered ls r r' := by
  refine ⟨Layer.applyAll ls r, fun client => ?_, Layer.layered_applyAll ls r⟩
  rw [foldl_within]
  rfl

end Api
end Bindery
