import Bindery.Http.Exchange
import Bindery.Proofs.Bytes
import Bindery.Proofs.Http.Layers

/-! # The headers that are sent

A request's headers stand in the order of their spellings, and each takes the place of those of its name
before it.  So of the headers of one name the one with the greatest spelling is sent, and the client's own
only where the request has none (`find?_put_iff`).  What cannot be sent is refused under the name
that comes first, the client's key before all (`buildHeaders_eq_error_iff`). -/

namespace Bindery

/-! ## The first of an ordered list -/

section First

variable {α : Type*} {R : α → α → Prop} {p : α → Bool} {l : List α} {a : α}

/-- What is found first in an ordered list comes before all else that could be found. -/
theorem find?_eq_some_iff_of_pairwise (hl : l.Pairwise R) (hasymm : ∀ a b, R a b → ¬ R b a) :
    l.find? p = some a ↔ a ∈ l ∧ p a = true ∧ ∀ b ∈ l, p b = true → b = a ∨ R a b := by
  induction l with
  | nil => exact iff_of_false nofun nofun
  | cons x l ih =>
      obtain ⟨hx, hrest⟩ := List.pairwise_cons.mp hl
      by_cases hpx : p x = true
      · rw [List.find?_cons_of_pos hpx, Option.some.injEq]
        constructor
        · rintro rfl
          refine ⟨List.mem_cons_self, hpx, fun b hb _ => ?_⟩
          exact (List.mem_cons.mp hb).imp_right (hx b)
        · rintro ⟨ha, -, hfirst⟩
          rcases List.mem_cons.mp ha with rfl | ha
          · rfl
          · rcases hfirst x List.mem_cons_self hpx with heq | hax
            · exact heq
            · exact absurd hax (hasymm x a (hx a ha))
      · have hmem : ∀ {b}, p b = true → (b ∈ x :: l ↔ b ∈ l) := fun {b} hb =>
          ⟨fun h => (List.mem_cons.mp h).resolve_left fun heq => hpx (heq ▸ hb), List.mem_cons_of_mem x⟩
        rw [List.find?_cons_of_neg hpx, ih hrest]
        constructor
        · rintro ⟨ha, hpa, hfirst⟩
          exact ⟨List.mem_cons_of_mem x ha, hpa, fun b hb hpb => hfirst b ((hmem hpb).mp hb) hpb⟩
        · rintro ⟨ha, hpa, hfirst⟩
          exact ⟨(hmem hpa).mp ha, hpa, fun b hb => hfirst b (List.mem_cons_of_mem x hb)⟩

end First

namespace Dict

variable {Val : Type*} {d : TextDict Val} {p : String × Val → Bool} {e e' : String × Val}

theorem eq_or_lt_iff (he : e ∈ d.entries) (he' : e' ∈ d.entries) :
    e' = e ∨ e.1 < e'.1 ↔ Utf8.encode e.1 ≤ Utf8.encode e'.1 := by
  rw [Utf8.encode_le_encode, le_iff_eq_or_lt]
  exact or_congr_left ⟨fun heq => heq ▸ rfl, fun heq => (eq_of_mem_entries he he' heq).symm⟩

/-- What is found first has the least key in the order of bytes. -/
theorem find?_entries_iff : d.entries.find? p = some e ↔ e ∈ d.entries ∧ p e = true ∧
    ∀ e' ∈ d.entries, p e' = true → Utf8.encode e.1 ≤ Utf8.encode e'.1 := by
  rw [find?_eq_some_iff_of_pairwise d.ordered fun a b hab => lt_asymm hab]
  refine and_congr_right fun he => and_congr_right fun _ => ?_
  exact forall₂_congr fun e' he' => imp_congr_right fun _ => eq_or_lt_iff he he'

/-- What is found last has the greatest key in the order of bytes. -/
theorem find?_reverse_entries_iff : d.entries.reverse.find? p = some e ↔
    e ∈ d.entries ∧ p e = true ∧
      ∀ e' ∈ d.entries, p e' = true → Utf8.encode e'.1 ≤ Utf8.encode e.1 := by
  rw [find?_eq_some_iff_of_pairwise (List.pairwise_reverse.mpr d.ordered)
    fun a b hab => lt_asymm hab]
  simp only [List.mem_reverse]
  refine and_congr_right fun he => and_congr_right fun _ => ?_
  refine forall₂_congr fun e' he' => imp_congr_right fun _ => ?_
  rw [← eq_or_lt_iff he' he, eq_comm]

end Dict

namespace Http

/-- The header can be sent. -/
def Header.isValid (h : String × String) : Bool := isName h.1 && isValue h.2

/-! ## Putting headers in -/

section Put

variable {es : List (String × String)} {hs : TextDict String} {h : String × String} {name : String}

def put (hs : TextDict String) (h : String × String) : TextDict String :=
  hs.insert (Header.key h.1) h.2

theorem insertHeader_eq (hs : TextDict String) (h : String × String) : insertHeader hs h.1 h.2 =
    if Header.isValid h = true then .ok (put hs h) else .error (.invalidHeader h.1) := rfl

/-- Headers are put in one by one up to the first that cannot be sent. -/
theorem foldlM_insertHeader (es : List (String × String)) (hs : TextDict String) :
    es.foldlM (fun hs h => insertHeader hs h.1 h.2) hs =
      match es.find? (!Header.isValid ·) with
      | none => .ok (es.foldl put hs)
      | some h => .error (.invalidHeader h.1) := by
  induction es generalizing hs with
  | nil => rfl
  | cons h es ih =>
      rw [List.foldlM_cons, insertHeader_eq]
      by_cases hvalid : Header.isValid h = true
      · rw [if_pos hvalid, List.find?_cons_of_neg (by simp [hvalid])]
        exact ih (put hs h)
      · rw [if_neg hvalid, List.find?_cons_of_pos (by simp [hvalid])]
        rfl

/-- Of the headers of one name the last one stays. -/
theorem find?_foldl_put (es : List (String × String)) (hs : TextDict String) (name : String) :
    (es.foldl put hs).find? name =
      ((es.reverse.find? fun h => Header.key h.1 == name).map Prod.snd).or (hs.find? name) := by
  induction es generalizing hs with
  | nil => rfl
  | cons h es ih =>
      rw [List.foldl_cons, ih, put, Dict.find?_insert, List.reverse_cons, List.find?_append,
        List.find?_singleton]
      cases es.reverse.find? fun h => Header.key h.1 == name with
      | some h' => rfl
      | none =>
          by_cases hname : name = Header.key h.1
          · simp [hname]
          · simp [hname, Ne.symm hname]

end Put

/-! ## Whose header is sent -/

variable {apiKey name value : String} {r : Request} {h : String × String}

/-- The header that is sent under a name in lower case: the request's own of that name, in whatever
spelling, of which the greatest decides; without one the type of the body if there is a body, and the
client's key. -/
inductive Supplied (apiKey : String) (r : Request) : String → String → Prop
  | request {h : String × String} (hmem : h ∈ r.headers.entries)
      (hgreatest : ∀ h' ∈ r.headers.entries, Header.sameName h'.1 h.1 = true →
        Utf8.encode h'.1 ≤ Utf8.encode h.1) :
      Supplied apiKey r (Header.key h.1) h.2
  | body (hnone : r.headersOf contentTypeHeader = []) (hbody : r.body.isSome = true) :
      Supplied apiKey r contentTypeHeader "application/json"
  | key (hnone : r.headersOf keyHeader = []) : Supplied apiKey r (Header.key keyHeader) apiKey

/-- The name under which a request is refused: that of the key, or else the least one of a header of the
request that cannot be sent. -/
inductive Refused (apiKey : String) (r : Request) : String → Prop
  | key (hkey : Header.isValue apiKey = false) : Refused apiKey r keyHeader
  | request {h : String × String} (hkey : Header.isValue apiKey = true) (hmem : h ∈ r.headers.entries)
      (hinvalid : Header.isValid h = false)
      (hleast : ∀ h' ∈ r.headers.entries, Header.isValid h' = false →
        Utf8.encode h.1 ≤ Utf8.encode h'.1) :
      Refused apiKey r h.1

/-- The headers that the client sets by itself. -/
def ownHeaders (apiKey : String) (r : Request) : TextDict String :=
  let hs := Dict.empty.insert (Header.key keyHeader) apiKey
  if r.body.isSome then hs.insert contentTypeHeader "application/json" else hs

theorem buildHeaders_eq (apiKey : String) (r : Request) : buildHeaders apiKey r =
    if Header.isValue apiKey = true then
      match r.headers.entries.find? (!Header.isValid ·) with
      | none => .ok (r.headers.entries.foldl put (ownHeaders apiKey r))
      | some h => .error (.invalidHeader h.1)
    else .error (.invalidHeader keyHeader) := by
  have hname : Header.isName keyHeader = true := by decide
  rw [buildHeaders, insertHeader, hname, Bool.true_and]
  split
  · exact foldlM_insertHeader _ _
  · rfl

theorem find?_ownHeaders (apiKey : String) (r : Request) (name : String) :
    (ownHeaders apiKey r).find? name =
      if name = contentTypeHeader ∧ r.body.isSome = true then some "application/json"
      else if name = Header.key keyHeader then some apiKey else none := by
  unfold ownHeaders
  by_cases hbody : r.body.isSome = true
  · simp only [hbody, if_true, and_true, Dict.find?_insert, Dict.find?_empty]
  · rw [if_neg hbody, if_neg fun h => hbody h.2, Dict.find?_insert, Dict.find?_empty]

/-- The last of the request's headers of a name. -/
def lastOf (r : Request) (name : String) : Option (String × String) :=
  r.headers.entries.reverse.find? fun h => Header.key h.1 == name

theorem lastOf_eq_none_iff {spelling : String} :
    lastOf r (Header.key spelling) = none ↔ r.headersOf spelling = [] := by
  rw [lastOf, List.find?_eq_none, Request.headersOf, List.filter_eq_nil_iff]
  simp only [List.mem_reverse, Header.sameName_iff, beq_iff_eq]
  exact forall₂_congr fun h _ => not_congr eq_comm

theorem lastOf_eq_some_iff : lastOf r name = some h ↔ Header.key h.1 = name ∧ h ∈ r.headers.entries ∧
    ∀ h' ∈ r.headers.entries, Header.sameName h'.1 h.1 = true →
      Utf8.encode h'.1 ≤ Utf8.encode h.1 := by
  simp only [lastOf, Dict.find?_reverse_entries_iff, Header.sameName_iff, beq_iff_eq]
  constructor
  · rintro ⟨hmem, rfl, hgreatest⟩
    exact ⟨rfl, hmem, hgreatest⟩
  · rintro ⟨rfl, hmem, hgreatest⟩
    exact ⟨hmem, rfl, hgreatest⟩

/-- What is supplied under a name is the last of the request's own headers of that name, or else the
client's. -/
theorem supplied_iff : Supplied apiKey r name value ↔
    ((lastOf r name).map Prod.snd).or ((ownHeaders apiKey r).find? name) = some value := by
  have hcontent : Header.key contentTypeHeader = contentTypeHeader := by decide
  have hdiffer : Header.key keyHeader ≠ contentTypeHeader := by decide
  constructor
  · intro h
    cases h with
    | request hmem hgreatest =>
        rw [lastOf_eq_some_iff.mpr ⟨rfl, hmem, hgreatest⟩]
        rfl
    | body hnone hbody =>
        have hlast := lastOf_eq_none_iff.mpr hnone
        rw [hcontent] at hlast
        rw [hlast, find?_ownHeaders, if_pos ⟨rfl, hbody⟩]
        rfl
    | key hnone =>
        rw [lastOf_eq_none_iff.mpr hnone, find?_ownHeaders, if_neg fun h => hdiffer h.1, if_pos rfl]
        rfl
  · intro h
    cases hlast : lastOf r name with
    | some h' =>
        obtain ⟨rfl, hmem, hgreatest⟩ := lastOf_eq_some_iff.mp hlast
        rw [hlast] at h
        obtain rfl : h'.2 = value := Option.some.inj h
        exact .request hmem hgreatest
    | none =>
        rw [hlast, Option.map_none, Option.none_or, find?_ownHeaders] at h
        split at h
        · rename_i hbody
          obtain ⟨rfl, hbody⟩ := hbody
          obtain rfl := Option.some.inj h
          exact .body (lastOf_eq_none_iff.mp (hcontent.symm ▸ hlast)) hbody
        · split at h
          · rename_i hkey
            subst hkey
            obtain rfl := Option.some.inj h
            exact .key (lastOf_eq_none_iff.mp hlast)
          · cases h

/-- The headers that are put in are those that are supplied. -/
theorem find?_put_iff : (r.headers.entries.foldl put (ownHeaders apiKey r)).find? name = some value ↔
    Supplied apiKey r name value := by
  rw [find?_foldl_put, supplied_iff, lastOf]

theorem refused_iff : Refused apiKey r name ↔ (Header.isValue apiKey = false ∧ name = keyHeader) ∨
    (Header.isValue apiKey = true ∧
      ∃ h, r.headers.entries.find? (!Header.isValid ·) = some h ∧ name = h.1) := by
  simp only [Dict.find?_entries_iff, Bool.not_eq_true']
  constructor
  · intro h
    cases h with
    | key hkey => exact .inl ⟨hkey, rfl⟩
    | request hkey hmem hinvalid hleast => exact .inr ⟨hkey, _, ⟨hmem, hinvalid, hleast⟩, rfl⟩
  · rintro (⟨hkey, rfl⟩ | ⟨hkey, h, ⟨hmem, hinvalid, hleast⟩, rfl⟩)
    · exact .key hkey
    · exact .request hkey hmem hinvalid hleast

theorem buildHeaders_eq_ok_iff {hs : TextDict String} : buildHeaders apiKey r = .ok hs ↔
    (Header.isValue apiKey = true ∧ ∀ h ∈ r.headers.entries, Header.isValid h = true) ∧
      hs = r.headers.entries.foldl put (ownHeaders apiKey r) := by
  have hvalid : (∀ h ∈ r.headers.entries, Header.isValid h = true) ↔
      r.headers.entries.find? (!Header.isValid ·) = none := by
    rw [List.find?_eq_none]
    simp only [Bool.not_eq_true', Bool.not_eq_false]
  rw [buildHeaders_eq, hvalid]
  by_cases hkey : Header.isValue apiKey = true
  · rw [if_pos hkey]
    cases r.headers.entries.find? (!Header.isValid ·) with
    | none => simp [hkey, eq_comm]
    | some h => simp
  · simp [hkey]

theorem buildHeaders_eq_error_iff {e : TransportError} : buildHeaders apiKey r = .error e ↔
    ∃ name, Refused apiKey r name ∧ e = .invalidHeader name := by
  simp only [refused_iff]
  rw [buildHeaders_eq]
  by_cases hkey : Header.isValue apiKey = true
  · rw [if_pos hkey]
    cases r.headers.entries.find? (!Header.isValid ·) with
    | none => simp [hkey]
    | some h => simp [hkey, eq_comm]
  · simp [hkey, eq_comm]

/-- The headers of a request are built exactly if the client's key and all headers of the request can be
sent.  What is built has the one value that is supplied under each name, and nothing under any other; what
is not built is refused under the name that comes first. -/
theorem buildHeaders_iff (apiKey : String) (r : Request) :
    ((∃ hs, buildHeaders apiKey r = .ok hs) ↔
        Header.isValue apiKey = true ∧ ∀ h ∈ r.headers.entries, Header.isValid h = true) ∧
      (∀ hs, buildHeaders apiKey r = .ok hs ↔
        (Header.isValue apiKey = true ∧ ∀ h ∈ r.headers.entries, Header.isValid h = true) ∧
          ∀ name value, hs.find? name = some value ↔ Supplied apiKey r name value) ∧
      ∀ e, buildHeaders apiKey r = .error e ↔
        ∃ name, Refused apiKey r name ∧ e = .invalidHeader name := by
  refine ⟨?_, fun hs => ?_, fun e => buildHeaders_eq_error_iff⟩
  · simp only [buildHeaders_eq_ok_iff]
    exact ⟨fun ⟨_, hvalid, _⟩ => hvalid, fun hvalid => ⟨_, hvalid, rfl⟩⟩
  · rw [buildHeaders_eq_ok_iff]
    refine and_congr_right fun _ => ⟨?_, fun hfind => ?_⟩
    · rintro rfl name value
      exact find?_put_iff
    · refine Dict.eq_of_find?_eq fun name => Option.ext fun value => ?_
      rw [hfind, find?_put_iff]

/-! ### Three spellings of a key -/

/-- The spelling in lower case is the greatest. -/
example : (buildHeaders "key" { Request.post "Send" "/Send/" with
    headers := .ofList [("x-api-key", "own"), ("X-Api-Key", "other"), ("Accept", "text/plain")]
    body := some [] }).toOption.map Dict.entries =
      some [("accept", "text/plain"), ("content-type", "application/json"), ("x-api-key", "own")] := by
  decide +kernel

end Http
end Bindery
