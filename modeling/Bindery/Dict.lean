/-! # Dictionaries whose keys stand in increasing order -/

namespace Bindery

universe u v

/-- A type of keys: what is less than something lesser is less. -/
class KeyOrder (Key : Type u) [LT Key] : Prop where
  trans {a b c : Key} : a < b → b < c → a < c

instance : KeyOrder String := ⟨String.lt_trans⟩

instance : KeyOrder UInt32 := ⟨UInt32.lt_trans⟩

/-- A finite map as the list of its entries, each key greater than the one before it.
The list is unique for the map, so equal maps are equal values. -/
structure Dict (Key : Type u) (Val : Type v) [LT Key] where
  entries : List (Key × Val)
  ordered : entries.Pairwise fun a b => a.1 < b.1
deriving Repr

namespace Dict

variable {Key : Type u} {Val : Type v} [LT Key]

instance : Inhabited (Dict Key Val) := ⟨⟨[], .nil⟩⟩

instance [DecidableEq Key] [DecidableEq Val] : DecidableEq (Dict Key Val) := fun a b =>
  decidable_of_iff (a.entries = b.entries) (by cases a; cases b; simp)

def empty : Dict Key Val := ⟨[], .nil⟩

def keys (d : Dict Key Val) : List Key := d.entries.map Prod.fst

def values (d : Dict Key Val) : List Val := d.entries.map Prod.snd

def size (d : Dict Key Val) : Nat := d.entries.length

def isEmpty (d : Dict Key Val) : Bool := d.entries.isEmpty

def find? [BEq Key] (d : Dict Key Val) (k : Key) : Option Val := d.entries.lookup k

def contains [BEq Key] (d : Dict Key Val) (k : Key) : Bool := (d.find? k).isSome

/-- Puts a value into its place; an equal key keeps its place and gives up its value. -/
def insertEntry [DecidableLT Key] (k : Key) (v : Val) : List (Key × Val) → List (Key × Val)
  | [] => [(k, v)]
  | e :: es =>
    if k < e.1 then (k, v) :: e :: es
    else if e.1 < k then e :: insertEntry k v es
    else (e.1, v) :: es

/-- An entry after an insertion is an old one, or carries an old or the inserted key. -/
theorem mem_insertEntry [DecidableLT Key] {k : Key} {v : Val} {es : List (Key × Val)}
    {e : Key × Val} (h : e ∈ insertEntry k v es) : e.1 = k ∨ ∃ e' ∈ es, e'.1 = e.1 := by
  induction es with
  | nil => simp_all [insertEntry]
  | cons hd tl ih =>
      rw [insertEntry] at h
      split at h
      · rcases List.mem_cons.mp h with rfl | h
        · exact .inl rfl
        · exact .inr ⟨e, h, rfl⟩
      · split at h
        · rcases List.mem_cons.mp h with rfl | h
          · exact .inr ⟨e, List.mem_cons_self, rfl⟩
          · rcases ih h with h | ⟨e', he', eq⟩
            · exact .inl h
            · exact .inr ⟨e', List.mem_cons_of_mem _ he', eq⟩
        · rcases List.mem_cons.mp h with rfl | h
          · exact .inr ⟨hd, List.mem_cons_self, rfl⟩
          · exact .inr ⟨e, List.mem_cons_of_mem _ h, rfl⟩

theorem insertEntry_ordered [DecidableLT Key]
    [KeyOrder Key] (k : Key) (v : Val) {es : List (Key × Val)}
    (h : es.Pairwise fun a b => a.1 < b.1) :
    (insertEntry k v es).Pairwise fun a b => a.1 < b.1 := by
  induction es with
  | nil => simp [insertEntry]
  | cons hd tl ih =>
      have ⟨hhd, htl⟩ := List.pairwise_cons.mp h
      rw [insertEntry]
      split
      · rename_i hlt
        refine List.pairwise_cons.mpr ⟨fun e he => ?_, h⟩
        rcases List.mem_cons.mp he with rfl | he
        · exact hlt
        · exact KeyOrder.trans hlt (hhd e he)
      · split
        · rename_i hlt
          refine List.pairwise_cons.mpr ⟨fun e he => ?_, ih htl⟩
          rcases mem_insertEntry he with eq | ⟨e', he', eq⟩
          · exact eq ▸ hlt
          · exact eq ▸ hhd e' he'
        · exact List.pairwise_cons.mpr ⟨fun e he => hhd e he, htl⟩

variable [DecidableLT Key] [KeyOrder Key]

/-- The value of an equal key is replaced. -/
def insert (d : Dict Key Val) (k : Key) (v : Val) : Dict Key Val :=
  ⟨insertEntry k v d.entries, insertEntry_ordered k v d.ordered⟩

/-- Of two entries with one key the later stays. -/
def ofList (es : List (Key × Val)) : Dict Key Val :=
  es.foldl (fun d e => d.insert e.1 e.2) empty

end Dict

/-- Dictionaries keyed by text, in the order of their characters. -/
abbrev TextDict (Val : Type v) := Dict String Val

end Bindery
