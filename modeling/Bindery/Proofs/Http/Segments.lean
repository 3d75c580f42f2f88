import Bindery.Http.Request
import Bindery.Proofs.Dictionary
import Bindery.Proofs.Http.Percent
import Mathlib.Data.List.Forall2
import Mathlib.Data.List.Induction

/-! # The path of a request's URL

A URL goes on from its base by one segment for each piece of the template, unless a piece stands for
dots, which go nowhere or up, or an empty segment stands first, which the next one displaces.  A segment
decodes to the text that it was made of unless that holds tabs or line ends, which are passed over.
`Request.segments_url_iff` says that nothing else can go wrong. -/

namespace Bindery.Http

open Text

namespace Url

/-! ## One segment -/

/-- The characters of a text that stay in its segment. -/
def remaining (s : String) : List Char := s.toList.filter (!isSkipped ·)

/-- Texts that name no segment but a place in the path. -/
def IsDots (s : String) : Prop := remaining s = ['.'] ∨ remaining s = ['.', '.']

instance (s : String) : Decidable (IsDots s) := inferInstanceAs (Decidable (_ ∨ _))

theorem percentDecode_encodeSegment (scheme s : String) :
    percentDecode (encodeSegment scheme s).toList = Utf8.encodeChars (remaining s) := by
  have hpercent : (keptInSegment '%' && !(isSpecial scheme && '%' == '\\')) = false := by
    rw [show keptInSegment '%' = false by decide, Bool.false_and]
  rw [encodeSegment, String.toList_ofList]
  exact percentDecode_percentEncode hpercent (remaining s)

/-- Decoding gives the whole text back exactly where none of it is passed over. -/
theorem percentDecode_encodeSegment_eq_iff (scheme s : String) :
    percentDecode (encodeSegment scheme s).toList = Utf8.encode s ↔
      ∀ c ∈ s.toList, isSkipped c = false := by
  rw [percentDecode_encodeSegment, Utf8.encode, Utf8.encodeChars_injective.eq_iff, remaining,
    List.filter_eq_self]
  simp only [Bool.not_eq_true']

theorem slash_not_mem_encodeSegment (scheme s : String) : '/' ∉ (encodeSegment scheme s).toList := by
  intro hmem
  rw [encodeSegment, String.toList_ofList] at hmem
  rcases mem_percentEncode hmem with hkept | hpercent | hdigit
  · rw [show keptInSegment '/' = false by decide, Bool.false_and] at hkept
    cases hkept
  · exact absurd hpercent (by decide)
  · exact absurd hdigit (by decide)

theorem remaining_of_isSingleDot {scheme s : String}
    (h : isSingleDot (encodeSegment scheme s) = true) : remaining s = ['.'] := by
  have hdots : ∀ t ∈ [".", "%2e", "%2E"], percentDecode t.toList = Utf8.encodeChars ['.'] := by decide
  rw [isSingleDot, List.contains_iff_mem] at h
  have hdecode := hdots _ h
  rw [percentDecode_encodeSegment] at hdecode
  exact Utf8.encodeChars_injective hdecode

theorem remaining_of_isDoubleDot {scheme s : String}
    (h : isDoubleDot (encodeSegment scheme s) = true) : remaining s = ['.', '.'] := by
  have hdots : ∀ a ∈ [".", "%2e", "%2E"], ∀ b ∈ [".", "%2e", "%2E"],
      percentDecode (a ++ b).toList = Utf8.encodeChars ['.', '.'] := by decide
  simp only [isDoubleDot, List.any_eq_true, beq_iff_eq] at h
  obtain ⟨a, ha, b, hb, heq⟩ := h
  have hdecode := hdots a ha b hb
  rw [← heq, percentDecode_encodeSegment] at hdecode
  exact Utf8.encodeChars_injective hdecode

theorem encodeSegment_of_isDots {s : String} (h : IsDots s) (scheme : String) :
    encodeSegment scheme s = "." ∨ encodeSegment scheme s = ".." := by
  have hkept : (keptInSegment '.' && !(isSpecial scheme && '.' == '\\')) = true := by
    rw [show ('.' == '\\') = false by decide, Bool.and_false]
    decide
  rcases h with h | h
  · refine .inl (String.toList_injective ?_)
    rw [encodeSegment, String.toList_ofList, ← remaining, h]
    simp only [percentEncode, List.flatMap_cons, List.flatMap_nil, hkept, if_true]
    rfl
  · refine .inr (String.toList_injective ?_)
    rw [encodeSegment, String.toList_ofList, ← remaining, h]
    simp only [percentEncode, List.flatMap_cons, List.flatMap_nil, hkept, if_true]
    rfl

/-! ## Appending one segment -/

/-- A path that is a single slash counts as none. -/
def root (ss : List String) : List String := if ss = [""] then [] else ss

theorem root_ne (ss : List String) : root ss ≠ [""] := by
  rw [root]
  split
  · exact (List.cons_ne_nil _ _).symm
  · assumption

theorem length_root_le (ss : List String) : (root ss).length ≤ ss.length := by
  rw [root]
  split
  · exact Nat.zero_le _
  · exact le_rfl

theorem root_eq_iff {ss ts : List String} (h : ts ≠ []) : root ss = ts ↔ ss = ts ∧ ts ≠ [""] := by
  constructor
  · rintro rfl
    refine ⟨?_, root_ne ss⟩
    rw [root] at h ⊢
    split at h
    · exact absurd rfl h
    · rename_i hne
      rw [if_neg hne]
  · rintro ⟨rfl, hne⟩
    rw [root, if_neg hne]

theorem push_of_not_isDots {s : String} (h : ¬ IsDots s) (scheme : String) (ss : List String) :
    push scheme ss s = root ss ++ [encodeSegment scheme s] := by
  have hplain : ¬ (s = "." ∨ s = "..") := by
    rintro (rfl | rfl)
    · exact h (by decide)
    · exact h (by decide)
  have hsingle : isSingleDot (encodeSegment scheme s) = false :=
    Bool.eq_false_iff.mpr fun hs => h (.inl (remaining_of_isSingleDot hs))
  have hdouble : isDoubleDot (encodeSegment scheme s) = false :=
    Bool.eq_false_iff.mpr fun hs => h (.inr (remaining_of_isDoubleDot hs))
  rw [push, if_neg hplain, step, hsingle, hdouble, root]
  rfl

/-- Dots are passed over, or leave an empty segment behind. -/
theorem push_of_isDots {s : String} (h : IsDots s) (scheme : String) (ss : List String) :
    push scheme ss s = ss ∨
      ∃ front, push scheme ss s = front ++ [""] ∧ front.length ≤ (root ss).length := by
  rw [push]
  split
  · exact .inl rfl
  · right
    rcases encodeSegment_of_isDots h scheme with hdot | hdots
    · rw [hdot]
      exact ⟨root ss, rfl, le_rfl⟩
    · rw [hdots]
      exact ⟨(root ss).dropLast, rfl, by rw [List.length_dropLast]; omega⟩

/-! ## Appending all of them -/

/-- A path without its empty last segment. -/
def trunk (ss : List String) : List String := if ss.getLast? = some "" then ss.dropLast else ss

theorem root_dropEmptyLast (ss : List String) : root (dropEmptyLast ss) = root (trunk ss) := by
  rcases List.eq_nil_or_concat ss with rfl | ⟨init, last, rfl⟩
  · rfl
  · rw [trunk, List.concat_eq_append, List.getLast?_concat, List.dropLast_concat, dropEmptyLast,
      List.reverse_concat]
    by_cases hlast : last = ""
    · subst hlast
      rw [if_pos rfl]
      rcases List.eq_nil_or_concat init with rfl | ⟨front, s, rfl⟩
      · rfl
      · simp
    · rw [if_neg (fun heq => hlast (Option.some.inj heq))]
      split
      · rename_i heq
        exact absurd (List.cons.inj heq).1 hlast
      · rfl

/-- An empty segment stands first and others behind it, the first of which takes its place. -/
def Displaced (front back : List String) : Prop :=
  front.length ≤ 1 ∧ ∃ s rest, front ++ back = "" :: s :: rest

section Paths

variable (scheme : String) (ss : List String)

/-- The path that the base's goes on to. -/
def extended (parts : List String) : List String := parts.foldl (push scheme) (dropEmptyLast ss)

/-- The base's path with one segment for each text. -/
def aligned (parts : List String) : List String := trunk ss ++ parts.map (encodeSegment scheme)

theorem extended_concat (parts : List String) (t : String) :
    extended scheme ss (parts ++ [t]) = push scheme (extended scheme ss parts) t := by
  rw [extended, List.foldl_append]
  rfl

theorem aligned_concat (parts : List String) (t : String) :
    aligned scheme ss (parts ++ [t]) = aligned scheme ss parts ++ [encodeSegment scheme t] := by
  rw [aligned, aligned, List.map_append, ← List.append_assoc]
  rfl

theorem length_aligned (parts : List String) :
    (aligned scheme ss parts).length = (trunk ss).length + parts.length := by
  rw [aligned, List.length_append, List.length_map]

/-- No text adds more than one segment. -/
theorem length_root_extended_le (parts : List String) :
    (root (extended scheme ss parts)).length ≤ (aligned scheme ss parts).length := by
  induction parts using List.reverseRecOn with
  | nil =>
      rw [extended, List.foldl_nil, root_dropEmptyLast, length_aligned]
      exact length_root_le _
  | append_singleton parts t ih =>
      rw [extended_concat, aligned_concat, List.length_append, List.length_singleton]
      by_cases ht : IsDots t
      · rcases push_of_isDots ht scheme (extended scheme ss parts) with heq | ⟨front, heq, hle⟩
        · rw [heq]
          omega
        · have := length_root_le (front ++ [""])
          rw [List.length_append, List.length_singleton] at this
          rw [heq]
          omega
      · have := length_root_le (root (extended scheme ss parts) ++ [encodeSegment scheme t])
        rw [List.length_append, List.length_singleton] at this
        rw [push_of_not_isDots ht]
        omega

theorem extended_ne_of_isDots {t : String} (ht : IsDots t) (parts : List String) :
    extended scheme ss (parts ++ [t]) ≠ aligned scheme ss (parts ++ [t]) := by
  have henc : encodeSegment scheme t ≠ "" := by
    rcases encodeSegment_of_isDots ht scheme with h | h <;> rw [h] <;> decide
  intro h
  rw [extended_concat, aligned_concat] at h
  rcases push_of_isDots ht scheme (extended scheme ss parts) with heq | ⟨front, heq, -⟩
  · -- Nothing was put behind the path, which is too short then unless it is a single slash.
    rw [heq] at h
    have hle := length_root_extended_le scheme ss parts
    by_cases hslash : extended scheme ss parts = [""]
    · rw [hslash] at h
      exact henc (by simpa using congrArg List.getLast? h.symm)
    · rw [root, if_neg hslash, h, List.length_append, List.length_singleton] at hle
      omega
  · rw [heq] at h
    have hlast := congrArg List.getLast? h
    rw [List.getLast?_concat, List.getLast?_concat] at hlast
    exact henc (Option.some.inj hlast).symm

/-- What one more text does to a path. -/
theorem extended_concat_eq_iff (parts : List String) (t : String) :
    extended scheme ss (parts ++ [t]) = aligned scheme ss (parts ++ [t]) ↔
      ¬ IsDots t ∧ root (extended scheme ss parts) = aligned scheme ss parts := by
  constructor
  · intro h
    have ht : ¬ IsDots t := fun ht => extended_ne_of_isDots scheme ss ht parts h
    rw [extended_concat, aligned_concat, push_of_not_isDots ht] at h
    exact ⟨ht, List.append_cancel_right h⟩
  · rintro ⟨ht, h⟩
    rw [extended_concat, aligned_concat, push_of_not_isDots ht, h]

theorem root_extended_eq_iff (parts : List String) :
    root (extended scheme ss parts) = aligned scheme ss parts ↔
      (∀ t ∈ parts, ¬ IsDots t) ∧
        ¬ ((trunk ss).length ≤ 1 ∧ ∃ rest, aligned scheme ss parts = "" :: rest) := by
  induction parts using List.reverseRecOn with
  | nil =>
      rw [extended, List.foldl_nil, root_dropEmptyLast, aligned, List.map_nil, List.append_nil]
      constructor
      · rintro h
        refine ⟨nofun, ?_⟩
        rintro ⟨hle, rest, heq⟩
        rw [heq, List.length_cons] at hle
        rw [List.eq_nil_of_length_eq_zero (by omega : rest.length = 0)] at heq
        exact root_ne (trunk ss) (h.trans heq)
      · rintro ⟨-, hfirst⟩
        rw [root, if_neg]
        intro heq
        exact hfirst ⟨by rw [heq]; rfl, [], heq⟩
  | append_singleton parts t ih =>
      have hne : aligned scheme ss (parts ++ [t]) ≠ [] := by
        rw [aligned_concat]
        exact List.append_ne_nil_of_right_ne_nil _ (List.cons_ne_nil _ _)
      rw [root_eq_iff hne, extended_concat_eq_iff, ih, aligned_concat, List.forall_mem_append,
        List.forall_mem_singleton]
      constructor
      · rintro ⟨⟨ht, hdots, hfirst⟩, hsingle⟩
        refine ⟨⟨hdots, ht⟩, ?_⟩
        rintro ⟨hle, rest, heq⟩
        rcases hpath : aligned scheme ss parts with _ | ⟨s, path⟩
        · rw [hpath] at heq hsingle
          exact hsingle (by rw [(List.cons.inj heq).1]; rfl)
        · rw [hpath] at heq
          exact hfirst ⟨hle, path, by rw [hpath, (List.cons.inj heq).1]⟩
      · rintro ⟨⟨hdots, ht⟩, hfirst⟩
        refine ⟨⟨ht, hdots, ?_⟩, ?_⟩
        · rintro ⟨hle, rest, heq⟩
          exact hfirst ⟨hle, rest ++ [encodeSegment scheme t], by rw [heq]; rfl⟩
        · intro heq
          have hlength := congrArg List.length heq
          rw [List.length_append, length_aligned, List.length_singleton, List.length_singleton]
            at hlength
          exact hfirst ⟨by omega, [], heq⟩

/-- The path has one segment for each text unless dots or an empty first segment are among them. -/
theorem extended_eq_iff {parts : List String} (h : parts ≠ []) :
    extended scheme ss parts = aligned scheme ss parts ↔
      (∀ t ∈ parts, ¬ IsDots t) ∧ ¬ Displaced (trunk ss) (parts.map (encodeSegment scheme)) := by
  obtain ⟨init, t, rfl⟩ : ∃ init t, parts = init ++ [t] :=
    ⟨_, _, (List.dropLast_concat_getLast h).symm⟩
  have hfirst : Displaced (trunk ss) ((init ++ [t]).map (encodeSegment scheme)) ↔
      (trunk ss).length ≤ 1 ∧ ∃ rest, aligned scheme ss init = "" :: rest := by
    rw [Displaced, List.map_append, ← List.append_assoc, ← aligned]
    rcases aligned scheme ss init with _ | ⟨s, _ | ⟨s', path⟩⟩ <;> simp
  rw [extended_concat_eq_iff, root_extended_eq_iff, hfirst, List.forall_mem_append,
    List.forall_mem_singleton]
  constructor
  · rintro ⟨ht, hdots, hrest⟩
    exact ⟨⟨hdots, ht⟩, hrest⟩
  · rintro ⟨⟨hdots, ht⟩, hrest⟩
    exact ⟨ht, hdots, hrest⟩

end Paths

theorem extend_of_segments {u : Url} {ss : List String} (h : u.path = .segments ss)
    (parts : List String) : u.extend parts =
      .ok { u with path := .segments (extended u.scheme ss parts) } := by
  rw [extend, h]
  rfl

end Url

namespace Request

open Url

/-- The pieces of the path template. -/
def template (r : Request) : List (List Char) := splitAt '/' (r.path.toList.dropWhile (· == '/'))

/-- The piece is a name between braces, and there is a parameter of that name. -/
def Binds (params : TextDict String) (piece : List Char) (value : String) : Prop :=
  ∃ name, piece = '\x7b' :: (name ++ ['\x7d']) ∧ params.find? (String.ofList name) = some value

theorem bind_of_binds {params : TextDict String} {piece : List Char} {value : String}
    (h : Binds params piece value) : bind params piece = value := by
  obtain ⟨name, rfl, hfind⟩ := h
  have hname : dropSuffix? ['\x7d'] (name ++ ['\x7d']) = some name := by
    rw [dropSuffix?, List.reverse_append, List.reverse_singleton, dropPrefix?_append, Option.map_some,
      List.reverse_reverse]
  have hprefix : dropPrefix? ['\x7b'] ('\x7b' :: (name ++ ['\x7d'])) = some (name ++ ['\x7d']) :=
    dropPrefix?_append ['\x7b'] _
  rw [bind, hprefix, Option.bind_some, hname]
  simp only [Option.bind_some, hfind]

/-- The text is one segment and holds the parameter that the piece names. -/
def Carries (params : TextDict String) (piece : List Char) (seg : String) : Prop :=
  '/' ∉ seg.toList ∧
    ∀ value, Binds params piece value → percentDecode seg.toList = Utf8.encode value

/-- The base's path goes on by one segment for each piece of the template, and each parameter stands in
its own. -/
def Placed (r : Request) (ss segs : List String) : Prop :=
  ∃ tail, segs = trunk ss ++ tail ∧ List.Forall₂ (Carries r.pathParams) r.template tail

theorem length_of_placed {r : Request} {ss segs : List String} (h : r.Placed ss segs) :
    segs.length = (trunk ss).length + r.template.length := by
  obtain ⟨tail, rfl, htail⟩ := h
  rw [List.length_append, htail.length_eq.symm]

theorem carries_encodeSegment_iff {params : TextDict String} {piece : List Char} {scheme : String} :
    Carries params piece (encodeSegment scheme (bind params piece)) ↔
      ∀ value, Binds params piece value → ∀ c ∈ value.toList, isSkipped c = false := by
  constructor
  · rintro ⟨-, h⟩ value hbinds
    have hcarries := h value hbinds
    rwa [bind_of_binds hbinds, percentDecode_encodeSegment_eq_iff] at hcarries
  · intro h
    refine ⟨slash_not_mem_encodeSegment _ _, fun value hbinds => ?_⟩
    rw [bind_of_binds hbinds, percentDecode_encodeSegment_eq_iff]
    exact h value hbinds

theorem placed_aligned_iff (r : Request) (scheme : String) (ss : List String) :
    r.Placed ss (aligned scheme ss r.pieces) ↔
      ∀ piece ∈ r.template, ∀ value, Binds r.pathParams piece value →
        ∀ c ∈ value.toList, isSkipped c = false := by
  have hforall : r.Placed ss (aligned scheme ss r.pieces) ↔ List.Forall₂ (Carries r.pathParams)
      r.template (r.template.map (encodeSegment scheme ∘ bind r.pathParams)) := by
    rw [Placed, aligned, pieces, ← template, List.map_map]
    constructor
    · rintro ⟨tail, heq, htail⟩
      rwa [List.append_cancel_left heq]
    · exact fun h => ⟨_, rfl, h⟩
  rw [hforall, List.forall₂_map_right_iff, List.forall₂_same]
  exact forall₂_congr fun _ _ => carries_encodeSegment_iff

theorem pieces_ne_nil (r : Request) : r.pieces ≠ [] := by
  rw [pieces, splitAt_eq_splitOn]
  exact fun h => List.splitOn_ne_nil _ _ (List.map_eq_nil_iff.mp h)

theorem url_eq_appendPairs (r : Request) {base : String} {u₀ : Url} {ss : List String}
    (hbase : Url.parse base = .ok u₀) (hpath : u₀.path = .segments ss) : r.url base =
      .ok (appendPairs { u₀ with path := .segments (extended u₀.scheme ss r.pieces) } r.sortedQuery) := by
  rw [url, hbase]
  exact congrArg (· >>= fun u => pure (u.appendPairs r.sortedQuery)) (extend_of_segments hpath _)

theorem url_of_segments (r : Request) {base : String} {u₀ : Url} {ss : List String}
    (hbase : Url.parse base = .ok u₀) (hpath : u₀.path = .segments ss) :
    ∃ u, r.url base = .ok u ∧ u.path = .segments (extended u₀.scheme ss r.pieces) := by
  refine ⟨_, r.url_eq_appendPairs hbase hpath, ?_⟩
  rw [appendPairs]
  split <;> rfl

/-- The URL of every request goes on from its base by one segment for each piece of its template exactly
if no piece stands for dots and no empty segment is displaced, and then all parameters are carried whole
exactly if none holds a tab or a line end. -/
theorem segments_url_iff (r : Request) {base : String} {u₀ : Url} {ss : List String}
    (hbase : Url.parse base = .ok u₀) (hpath : u₀.path = .segments ss) :
    ∃ u segs, r.url base = .ok u ∧ u.path = .segments segs ∧
      (segs = trunk ss ++ r.pieces.map (encodeSegment u₀.scheme) ↔
        (∀ t ∈ r.pieces, ¬ IsDots t) ∧
          ¬ Displaced (trunk ss) (r.pieces.map (encodeSegment u₀.scheme))) ∧
      (segs = trunk ss ++ r.pieces.map (encodeSegment u₀.scheme) →
        (r.Placed ss segs ↔ ∀ piece ∈ r.template, ∀ value, Binds r.pathParams piece value →
          ∀ c ∈ value.toList, isSkipped c = false)) := by
  obtain ⟨u, hurl, hsegs⟩ := url_of_segments r hbase hpath
  refine ⟨u, _, hurl, hsegs, extended_eq_iff u₀.scheme ss r.pieces_ne_nil, ?_⟩
  intro heq
  rw [heq]
  exact placed_aligned_iff r u₀.scheme ss

/-! ### Requests for a member of a group -/

def membership (name : String) : Request :=
  (get "GetMembership" "/Group/\x7bname\x7d/Member/").pathParam "name" name

def platform : Url :=
  { scheme := "https", authority := some { host := .name "www.bungie.net" },
    path := .segments ["Platform"], query := none, fragment := none }

theorem parse_platform : Url.parse "https://www.bungie.net/Platform" = .ok platform := rfl

theorem shown_string (s : String) : shown s = s := by
  simp [shown, Shown.fit, Layout.text, Layout.pad]

theorem eq_of_binds_membership {name value : String} {piece : List Char}
    (h : Binds (membership name).pathParams piece value) : value = name := by
  obtain ⟨n, -, hfind⟩ := h
  rw [membership, pathParam, Dict.find?_insert, shown_string] at hfind
  split at hfind
  · exact (Option.some.inj hfind).symm
  · cases hfind

theorem segments_url_iff_membership :
    ∃ u segs, (membership "Guardian#1234/x?").url "https://www.bungie.net/Platform" = .ok u ∧
      u.path = .segments segs ∧ (membership "Guardian#1234/x?").Placed ["Platform"] segs := by
  obtain ⟨u, segs, hurl, hpath, haligned, hplaced⟩ :=
    segments_url_iff (membership "Guardian#1234/x?") parse_platform rfl
  have hsegs := haligned.mpr ⟨by decide, fun ⟨_, _, _, h⟩ => absurd (List.cons.inj h).1 (by decide)⟩
  refine ⟨u, segs, hurl, hpath, (hplaced hsegs).mpr ?_⟩
  intro piece _ value hbinds
  rw [eq_of_binds_membership hbinds]
  simp [isSkipped]

/-- Dots in a parameter drop its segment, and a tab drops out of it. -/
theorem not_placed_membership :
    (∃ u segs, (membership "..").url "https://www.bungie.net/Platform" = .ok u ∧
      u.path = .segments segs ∧ ¬ (membership "..").Placed ["Platform"] segs) ∧
    ∃ u segs, (membership "a\tb").url "https://www.bungie.net/Platform" = .ok u ∧
      u.path = .segments segs ∧ ¬ (membership "a\tb").Placed ["Platform"] segs := by
  constructor
  · obtain ⟨u, hurl, hpath⟩ := url_of_segments (membership "..") parse_platform rfl
    refine ⟨u, _, hurl, hpath, fun h => ?_⟩
    exact absurd (length_of_placed h) (by decide)
  · obtain ⟨u, hurl, hpath⟩ := url_of_segments (membership "a\tb") parse_platform rfl
    have haligned : extended platform.scheme ["Platform"] (membership "a\tb").pieces =
        aligned platform.scheme ["Platform"] (membership "a\tb").pieces := by decide
    refine ⟨u, _, hurl, hpath, fun h => ?_⟩
    rw [haligned, placed_aligned_iff] at h
    have htab := h "\x7bname\x7d".toList (by decide) "a\tb" ⟨"name".toList, rfl, rfl⟩ '\t' (by decide)
    exact absurd htab (by decide)

end Request
end Bindery.Http
