import Bindery.Proofs.Bytes
import Bindery.Proofs.Http.Segments
import Mathlib.Data.List.TakeDrop

/-! # The query of a request's URL

A query is read back as the pairs that were written into it, whatever characters they hold
(`Form.decode?_encode`).  A request writes its pairs by name, with the pairs of one name in the order in
which they were added (`Request.arranged_sortedQuery`).  So the query tells of the pairs of each name
their order, and nothing else of the order in which pairs were added (`Request.decode_query`). -/

namespace Bindery

namespace Http

open Text

theorem Url.cut_append {stop : Char → Bool} {cs : List Char} {x : Char} (h : ∀ c ∈ cs, stop c = false)
    (hx : stop x = true) (rest : List Char) : Url.cut stop (cs ++ x :: rest) = (cs, some rest) := by
  have hcs : ∀ c ∈ cs, (!stop c) = true := fun c hc => by rw [h c hc]; rfl
  rw [cut, List.span_eq_takeWhile_dropWhile, List.takeWhile_append_of_pos hcs,
    List.dropWhile_append_of_pos hcs, List.takeWhile_cons_of_neg (by simp [hx]),
    List.dropWhile_cons_of_neg (by simp [hx]), List.append_nil]

namespace Form

/-! ## Reading a query -/

/-- Plus signs stand for spaces. -/
def unplus (cs : List Char) : List Char := cs.map fun c => if c = '+' then ' ' else c

/-- The text that a name or a value stands for, if its bytes spell one. -/
def decodePart? (cs : List Char) : Option String := Utf8.decode? (percentDecode (unplus cs))

/-- A name, and a value behind the first equals sign; the value is empty where there is none. -/
def decodePair? (cs : List Char) : Option (String × String) := do
  let (name, value) := Url.cut (· == '=') cs
  return (← decodePart? name, ← decodePart? (value.getD []))

/-- The pairs between ampersands. Nothing between two ampersands is no pair. -/
def decode? (q : String) : Option (List (String × String)) :=
  ((splitAt '&' q.toList).filter (!·.isEmpty)).mapM decodePair?

/-! ## Reading back what was written -/

theorem mem_encodePart {s : String} {c : Char} (h : c ∈ encodePart s) :
    c = '+' ∨ kept c = true ∨ c = '%' ∨ Json.isHexDigit c = true := by
  obtain ⟨d, -, hd⟩ := List.mem_flatMap.mp h
  rw [encodeChar] at hd
  split at hd
  · exact .inl (List.mem_singleton.mp hd)
  · exact .inr (mem_percentEncode hd)

theorem ampersand_not_mem_encodePart (s : String) : '&' ∉ encodePart s := fun h =>
  absurd (mem_encodePart h) (by decide)

theorem equals_not_mem_encodePart (s : String) : '=' ∉ encodePart s := fun h =>
  absurd (mem_encodePart h) (by decide)

theorem unplus_of_not_mem {cs : List Char} (h : '+' ∉ cs) : unplus cs = cs := by
  have hid : ∀ c ∈ cs, (if c = '+' then ' ' else c) = c := fun c hc =>
    if_neg (ne_of_mem_of_not_mem hc h)
  rw [unplus, List.map_congr_left hid, List.map_id']

theorem plus_not_mem_percentEncode (cs : List Char) : '+' ∉ percentEncode kept cs := fun h =>
  absurd (mem_percentEncode h) (by decide)

/-- Behind its plus signs a written text is percent-encoded with its spaces kept. -/
theorem unplus_encodePart (s : String) :
    unplus (encodePart s) = percentEncode (fun c => kept c || c == ' ') s.toList := by
  rw [unplus, encodePart, List.map_flatMap, percentEncode]
  refine List.flatMap_congr fun c _ => ?_
  rw [encodeChar]
  by_cases hspace : c = ' '
  · subst hspace
    rfl
  · have hkept : (kept c || c == ' ') = kept c := by simp [hspace]
    have hchar := unplus_of_not_mem (plus_not_mem_percentEncode [c])
    rw [if_neg hspace, hkept]
    rw [unplus] at hchar
    rw [hchar, percentEncode, List.flatMap_singleton]

theorem decodePart?_encodePart (s : String) : decodePart? (encodePart s) = some s := by
  have hpercent : (kept '%' || '%' == ' ') = false := by decide
  rw [decodePart?, unplus_encodePart, percentDecode_percentEncode hpercent]
  exact Utf8.decode?_encode s

theorem decodePair?_encodePair (p : String × String) : decodePair? (encodePair p) = some p := by
  have hname : ∀ c ∈ encodePart p.1, (c == '=') = false := fun c hc =>
    beq_false_of_ne fun heq => equals_not_mem_encodePart p.1 (heq ▸ hc)
  rw [decodePair?, encodePair, Url.cut_append hname rfl]
  simp only [Option.getD_some, decodePart?_encodePart]
  rfl

theorem ampersand_not_mem_encodePair (p : String × String) : '&' ∉ encodePair p := by
  rw [encodePair, List.mem_append, List.mem_cons]
  rintro (h | h | h)
  · exact ampersand_not_mem_encodePart p.1 h
  · cases h
  · exact ampersand_not_mem_encodePart p.2 h

/-- No written pair is nothing: it has its equals sign. -/
theorem encodePair_ne_nil (p : String × String) : encodePair p ≠ [] :=
  List.append_ne_nil_of_right_ne_nil _ (List.cons_ne_nil _ _)

/-- The pairs written into a query are read back, in their order. -/
theorem decode?_encode (ps : List (String × String)) :
    decode? (String.ofList (encode ps)) = some ps := by
  have hkeep : (ps.map encodePair).filter (!·.isEmpty) = ps.map encodePair := by
    refine List.filter_eq_self.mpr (List.forall_mem_map.mpr fun p _ => ?_)
    rw [Bool.not_eq_true', List.isEmpty_eq_false_iff]
    exact encodePair_ne_nil p
  have hpieces : ∀ piece ∈ ps.map encodePair, '&' ∉ piece :=
    List.forall_mem_map.mpr fun p _ => ampersand_not_mem_encodePair p
  have hpairs : decodePair? ∘ encodePair = some := funext decodePair?_encodePair
  rw [decode?, String.toList_ofList, encode]
  by_cases hne : ps.map encodePair = []
  · rw [List.map_eq_nil_iff.mp hne]
    rfl
  · rw [splitAt_eq_splitOn, List.splitOn_intercalate _ hpieces hne, hkeep, List.mapM_map, hpairs]
    exact (List.mapM_pure (m := Option) (l := ps) (f := id)).trans (congrArg some (List.map_id ps))

end Form

namespace Request

open Url

/-! ## The order of pairs -/

/-- The pairs by name in the order of bytes, those of one name in the order that they had. -/
structure Arranged (ps qs : List (String × String)) : Prop where
  perm : qs.Perm ps
  ascending : qs.Pairwise fun p q => Utf8.encode p.1 ≤ Utf8.encode q.1
  stable : ∀ name, qs.filter (·.1 == name) = ps.filter (·.1 == name)

variable {ps ps' qs qs' : List (String × String)}

theorem arranged_sortedQuery (r : Request) : Arranged r.query r.sortedQuery := by
  have htrans : ∀ p q s : String × String, decide (p.1 ≤ q.1) = true → decide (q.1 ≤ s.1) = true →
      decide (p.1 ≤ s.1) = true := by
    simp only [decide_eq_true_eq]
    exact fun p q s => le_trans
  have htotal : ∀ p q : String × String, (decide (p.1 ≤ q.1) || decide (q.1 ≤ p.1)) = true := by
    simp only [Bool.or_eq_true, decide_eq_true_eq]
    exact fun p q => le_total p.1 q.1
  refine ⟨List.mergeSort_perm _ _, ?_, fun name => ?_⟩
  · have hsorted := List.pairwise_mergeSort htrans htotal r.query
    refine hsorted.imp fun {p q} hle => ?_
    rw [Utf8.encode_le_encode]
    exact of_decide_eq_true hle
  · -- The pairs of one name are in order already, so that sorting leaves them as they are.
    have hname : ∀ p ∈ r.query.filter (·.1 == name), p.1 = name := fun p hp =>
      eq_of_beq (List.mem_filter.mp hp).2
    have hequal : (r.query.filter (·.1 == name)).Pairwise fun p q => decide (p.1 ≤ q.1) = true := by
      refine List.pairwise_of_forall_mem_list fun p hp q hq => ?_
      rw [hname p hp, hname q hq, decide_eq_true_eq]
    have hsub := (List.sublist_mergeSort htrans htotal hequal List.filter_sublist).filter (·.1 == name)
    simp only [List.filter_filter, Bool.and_self] at hsub
    have hlength := (List.mergeSort_perm r.query fun p q => decide (p.1 ≤ q.1)).filter (·.1 == name)
    exact (hsub.eq_of_length hlength.length_eq.symm).symm

theorem mem_iff_of_filter_eq (h : ∀ name, qs.filter (·.1 == name) = qs'.filter (·.1 == name))
    (p : String × String) : p ∈ qs ↔ p ∈ qs' := by
  have hname : p ∈ qs.filter (·.1 == p.1) ↔ p ∈ qs'.filter (·.1 == p.1) := by rw [h]
  rw [List.mem_filter, List.mem_filter, beq_self_eq_true] at hname
  simpa using hname

theorem head_le {p q : String × String} (h : (p :: qs).Pairwise fun p q => p.1 ≤ q.1)
    (hq : q ∈ p :: qs) : p.1 ≤ q.1 := by
  rcases List.mem_cons.mp hq with rfl | hq
  · exact le_rfl
  · exact List.rel_of_pairwise_cons h hq

/-- A list in the order of names is known by the pairs of each name. -/
theorem eq_of_ascending (hqs : qs.Pairwise fun p q => p.1 ≤ q.1)
    (hqs' : qs'.Pairwise fun p q => p.1 ≤ q.1)
    (h : ∀ name, qs.filter (·.1 == name) = qs'.filter (·.1 == name)) : qs = qs' := by
  induction qs generalizing qs' with
  | nil => exact (List.eq_nil_iff_forall_not_mem.mpr fun p hp =>
      List.not_mem_nil ((mem_iff_of_filter_eq h p).mpr hp)).symm
  | cons p qs ih =>
      cases qs' with
      | nil => exact absurd ((mem_iff_of_filter_eq h p).mp List.mem_cons_self) List.not_mem_nil
      | cons q qs' =>
          -- Each list has the other one's first pair, so that neither name is the greater one.
          have hp := (mem_iff_of_filter_eq h p).mp List.mem_cons_self
          have hq := (mem_iff_of_filter_eq h q).mpr List.mem_cons_self
          have hname : p.1 = q.1 := le_antisymm (head_le hqs hq) (head_le hqs' hp)
          have hhead := h p.1
          rw [List.filter_cons, if_pos (beq_self_eq_true _), List.filter_cons,
            if_pos (beq_iff_eq.mpr hname.symm)] at hhead
          obtain rfl : p = q := (List.cons.inj hhead).1
          refine congrArg (p :: ·) (ih hqs.of_cons hqs'.of_cons fun name => ?_)
          have hfilter := h name
          rw [List.filter_cons, List.filter_cons] at hfilter
          split at hfilter
          · exact (List.cons.inj hfilter).2
          · exact hfilter

theorem Arranged.sorted (h : Arranged ps qs) : qs.Pairwise fun p q => p.1 ≤ q.1 :=
  h.ascending.imp fun hle => Utf8.encode_le_encode.mp hle

theorem Arranged.eq_iff (h : Arranged ps qs) (h' : Arranged ps' qs') :
    qs = qs' ↔ ∀ name, ps.filter (·.1 == name) = ps'.filter (·.1 == name) := by
  constructor
  · rintro rfl name
    rw [← h.stable, h'.stable]
  · intro hfilter
    refine eq_of_ascending h.sorted h'.sorted fun name => ?_
    rw [h.stable, h'.stable, hfilter]

/-- Where no two pairs have one name, their order is not seen by any name. -/
theorem filter_eq_of_perm (hperm : ps'.Perm ps) (h : (ps.map Prod.fst).Nodup) (name : String) :
    ps'.filter (·.1 == name) = ps.filter (·.1 == name) := by
  have hone : (ps.filter (·.1 == name)).length ≤ 1 := by
    have hcount := List.nodup_iff_count_le_one.mp h name
    rwa [List.count, List.countP_map, List.countP_eq_length_filter] at hcount
  have hfilter := hperm.filter (·.1 == name)
  rcases hps : ps.filter (·.1 == name) with _ | ⟨p, _ | ⟨q, rest⟩⟩
  · rw [hps] at hfilter
    exact hfilter.eq_nil.trans hps.symm
  · rw [hps] at hfilter
    exact (List.perm_singleton.mp hfilter).trans hps.symm
  · rw [hps] at hone
    exact absurd hone (by simp)

/-! ## The query in the URL -/

theorem query_appendPairs {u : Url} (h : u.query = none) (ps : List (String × String)) :
    (u.appendPairs ps).query = if ps = [] then none else some (String.ofList (Form.encode ps)) := by
  rw [appendPairs, h]
  cases ps with
  | nil => exact h
  | cons p ps => rfl

theorem decode_query_appendPairs {u : Url} (h : u.query = none) (ps : List (String × String)) :
    (u.appendPairs ps).query.elim (some []) Form.decode? = some ps := by
  rw [query_appendPairs h]
  split
  · rename_i hnil
    rw [hnil]
    rfl
  · exact Form.decode?_encode ps

theorem appendPairs_inj {u : Url} (h : u.query = none) :
    u.appendPairs ps = u.appendPairs ps' ↔ ps = ps' := by
  refine ⟨fun heq => ?_, fun heq => heq ▸ rfl⟩
  have hdecode := decode_query_appendPairs h ps
  rw [heq, decode_query_appendPairs h ps'] at hdecode
  exact (Option.some.inj hdecode).symm

theorem segments_of_url {r : Request} {base : String} {u₀ u : Url} (hbase : Url.parse base = .ok u₀)
    (hurl : r.url base = .ok u) : ∃ ss, u₀.path = .segments ss := by
  rw [url, hbase] at hurl
  cases hpath : u₀.path with
  | segments ss => exact ⟨ss, rfl⟩
  | plain s =>
      have hextend : u₀.extend r.pieces = .error .plainPath := by rw [extend, hpath]
      have hfail : (u₀.extend r.pieces >>= fun u => pure (u.appendPairs r.sortedQuery)) =
          Except.ok u := hurl
      rw [hextend] at hfail
      cases hfail

/-- The request with other pairs. -/
def withQuery (r : Request) (ps : List (String × String)) : Request := { r with query := ps }

/-- The request after calls that add pairs one by one. -/
def adding (r : Request) (ps : List (String × String)) : Request :=
  ps.foldl (fun r p => r.queryParam p.1 p.2) r

theorem adding_eq (r : Request) (ps : List (String × String)) :
    r.adding ps = r.withQuery (r.query ++ ps) := by
  induction ps generalizing r with
  | nil => rw [List.append_nil]; rfl
  | cons p ps ih =>
      have hparam : r.queryParam p.1 p.2 = r.withQuery (r.query ++ [p]) := by
        rw [queryParam, shown_string]
        rfl
      rw [adding, List.foldl_cons, ← adding, ih, hparam, withQuery, withQuery, List.append_assoc,
        List.singleton_append]
      rfl

section Base

variable {r : Request} {base : String} {u₀ u : Url} {ss : List String}

theorem arranged_withQuery : Arranged ps (r.withQuery ps).sortedQuery :=
  arranged_sortedQuery (r.withQuery ps)

/-- Two lists of pairs give one URL exactly if they have the same pairs of each name in one order. -/
theorem url_withQuery_eq_iff (hbase : Url.parse base = .ok u₀) (hpath : u₀.path = .segments ss)
    (hquery : u₀.query = none) : (r.withQuery ps).url base = (r.withQuery ps').url base ↔
      ∀ name, ps.filter (·.1 == name) = ps'.filter (·.1 == name) := by
  let v : Url := { u₀ with path := .segments (extended u₀.scheme ss r.pieces) }
  have hinj : v.appendPairs (r.withQuery ps).sortedQuery = v.appendPairs (r.withQuery ps').sortedQuery ↔
      (r.withQuery ps).sortedQuery = (r.withQuery ps').sortedQuery := appendPairs_inj hquery
  rw [url_eq_appendPairs _ hbase hpath, url_eq_appendPairs _ hbase hpath, Except.ok.injEq]
  exact hinj.trans (arranged_withQuery.eq_iff arranged_withQuery)

/-- Under a base without a query, the query of a request's URL is read back as the pairs of the request,
arranged by name, and is missing where there are none.  Of the order in which pairs are added the URL
tells the order within each name and nothing else, so that it does not depend on the order in which
pairs of different names are added. -/
theorem decode_query (hbase : Url.parse base = .ok u₀) (hquery : u₀.query = none)
    (hurl : r.url base = .ok u) :
    (∃ qs, Arranged r.query qs ∧ (r.query = [] → u.query = none) ∧
        (r.query ≠ [] → ∃ q, u.query = some q ∧ Form.decode? q = some qs)) ∧
      (∀ ps, (r.withQuery ps).url base = .ok u ↔
        ∀ name, ps.filter (·.1 == name) = r.query.filter (·.1 == name)) ∧
      ∀ ps ps', ps'.Perm ps → (ps.map Prod.fst).Nodup →
        ∃ v, (r.adding ps).url base = .ok v ∧ (r.adding ps').url base = .ok v := by
  obtain ⟨ss, hpath⟩ := segments_of_url hbase hurl
  have harranged := arranged_sortedQuery r
  let v : Url := { u₀ with path := .segments (extended u₀.scheme ss r.pieces) }
  have hu : v.appendPairs r.sortedQuery = u :=
    Except.ok.inj ((r.url_eq_appendPairs hbase hpath).symm.trans hurl)
  have hv : v.query = none := hquery
  have hdecode : u.query =
      if r.sortedQuery = [] then none else some (String.ofList (Form.encode r.sortedQuery)) := by
    rw [← hu, query_appendPairs hv]
  refine ⟨⟨r.sortedQuery, harranged, fun hnil => ?_, fun hne => ?_⟩, fun ps => ?_,
    fun ps ps' hperm hnodup => ?_⟩
  · rw [hdecode, if_pos (List.perm_nil.mp (hnil ▸ harranged.perm))]
  · have hsorted : r.sortedQuery ≠ [] := fun hnil => hne (List.nil_perm.mp (hnil ▸ harranged.perm))
    rw [hdecode, if_neg hsorted]
    exact ⟨_, rfl, Form.decode?_encode _⟩
  · rw [← hurl]
    exact url_withQuery_eq_iff hbase hpath hquery
  · rw [adding_eq, adding_eq]
    refine ⟨_, url_eq_appendPairs _ hbase hpath, ?_⟩
    rw [← url_eq_appendPairs _ hbase hpath]
    refine (url_withQuery_eq_iff hbase hpath hquery).mpr fun name => ?_
    rw [List.filter_append, List.filter_append, filter_eq_of_perm hperm hnodup]

end Base

/-! ### A search

A name that comes twice keeps its order, and separators, spaces and other characters are read back. -/

def terms : List (String × String) := [("q", "a b+c"), ("page", "1&2=é"), ("q", "")]

def arrangedTerms : List (String × String) := [("page", "1&2=é"), ("q", "a b+c"), ("q", "")]

theorem arranged_terms : Arranged terms arrangedTerms where
  perm := by decide
  ascending := by decide
  stable name := by
    by_cases hq : "q" = name
    · subst hq
      rfl
    · simp [terms, arrangedTerms, List.filter_cons, hq]

def search : Request := (get "Search" "/Search/").adding terms

theorem decode_query_search : ∃ u q, search.url "https://www.bungie.net/Platform" = .ok u ∧
    u.query = some q ∧ Form.decode? q = some arrangedTerms := by
  have hsearch : search.query = terms := by rw [search, adding_eq]; rfl
  obtain ⟨u, hurl, -⟩ := url_of_segments search parse_platform rfl
  obtain ⟨⟨qs, harranged, -, hquery⟩, -⟩ := decode_query parse_platform rfl hurl
  rw [hsearch] at harranged hquery
  obtain rfl : qs = arrangedTerms := (harranged.eq_iff arranged_terms).mpr fun _ => rfl
  obtain ⟨q, hq, hdecode⟩ := hquery (List.cons_ne_nil _ _)
  exact ⟨u, q, hurl, hq, hdecode⟩

end Request
end Http
end Bindery
