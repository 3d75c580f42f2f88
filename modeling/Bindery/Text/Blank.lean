/-! # White space, trimming and lines -/

namespace Bindery.Text

/-- The white space of the character standard. -/
def isBlank (c : Char) : Bool :=
  let n := c.toNat
  (0x9 ≤ n && n ≤ 0xd) || n == 0x20 || n == 0x85 || n == 0xa0 || n == 0x1680 ||
    (0x2000 ≤ n && n ≤ 0x200a) || n == 0x2028 || n == 0x2029 || n == 0x202f || n == 0x205f ||
    n == 0x3000

def trimStart (cs : List Char) : List Char := cs.dropWhile isBlank

def trimEnd (cs : List Char) : List Char := (cs.reverse.dropWhile isBlank).reverse

def trim (cs : List Char) : List Char := trimEnd (trimStart cs)

/-- Strips a character from both ends as often as it stands there. -/
def trimChar (x : Char) (cs : List Char) : List Char :=
  ((cs.dropWhile (· == x)).reverse.dropWhile (· == x)).reverse

/-- The lines of a text. A line feed ends its line together with one carriage return before
it; a text that does not end in a line feed has a last line without one. -/
def lines : List Char → List (List Char)
  | [] => []
  | '\n' :: cs => [] :: lines cs
  | '\r' :: '\n' :: cs => [] :: lines cs
  | c :: cs =>
    match lines cs with
    | [] => [[c]]
    | l :: ls => (c :: l) :: ls

/-- What follows the given beginning, if the text has it. -/
def dropPrefix? : List Char → List Char → Option (List Char)
  | [], cs => some cs
  | _ :: _, [] => none
  | p :: ps, c :: cs => if p = c then dropPrefix? ps cs else none

/-- What precedes the given ending, if the text has it. -/
def dropSuffix? (suffix cs : List Char) : Option (List Char) :=
  (dropPrefix? suffix.reverse cs.reverse).map List.reverse

@[simp] theorem dropPrefix?_append (ps cs : List Char) : dropPrefix? ps (ps ++ cs) = some cs := by
  induction ps with
  | nil => simp [dropPrefix?]
  | cons p ps ih => simp [dropPrefix?, ih]

theorem dropPrefix?_eq_some_iff {ps cs rest : List Char} :
    dropPrefix? ps cs = some rest ↔ cs = ps ++ rest := by
  constructor
  · intro h
    induction ps generalizing cs with
    | nil => simpa [dropPrefix?] using h
    | cons p ps ih =>
        cases cs with
        | nil => simp [dropPrefix?] at h
        | cons c cs =>
            rw [dropPrefix?] at h
            split at h
            · rename_i eq
              simp [eq, ih h]
            · simp at h
  · rintro rfl
    exact dropPrefix?_append ps rest

/-- Splits at every occurrence of a character; `n` occurrences give `n + 1` pieces. -/
def splitAt (x : Char) : List Char → List (List Char)
  | [] => [[]]
  | c :: cs =>
    if c = x then [] :: splitAt x cs
    else match splitAt x cs with
      | [] => [[c]]
      | p :: ps => (c :: p) :: ps

theorem splitAt_eq_splitOn (x : Char) (cs : List Char) : splitAt x cs = cs.splitOn x := by
  induction cs with
  | nil => rfl
  | cons c cs ih =>
      rw [splitAt, ih, List.splitOn_cons_eq_if_modifyHead]
      by_cases h : c = x
      · simp [h]
      · rw [if_neg h, if_neg (by simpa using h)]
        cases hs : cs.splitOn x with
        | nil => exact (List.splitOn_ne_nil _ _ hs).elim
        | cons p ps => rfl

end Bindery.Text
