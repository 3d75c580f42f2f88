import Bindery.Toml.Value

/-! # Structures filled from TOML

A table fills a structure by name, and what it leaves out stays as it was. An array fills the
fields in their order. -/

namespace Bindery.Toml

/-- How one key changes a structure. It fails on a value of another kind than the wanted one. -/
structure Setting (σ : Type) where
  key : String
  set : Value → σ → Option σ

namespace Setting

variable {σ : Type}

def text (key : String) (f : String → σ → σ) : Setting σ :=
  ⟨key, fun v s => match v with
    | .string t => some (f t s)
    | _ => none⟩

/-- A number that is not negative. -/
def natural (key : String) (f : Nat → σ → σ) : Setting σ :=
  ⟨key, fun v s => match v with
    | .integer (.ofNat n) => some (f n s)
    | _ => none⟩

end Setting

/-- Fills a structure; keys that are no setting are passed over. A date counts as a table without
settings. -/
def Value.fill? {σ : Type} (settings : List (Setting σ)) (init : σ) : Value → Option σ
  | .table es =>
    es.foldlM (fun s e => match settings.find? (·.key == e.1) with
      | some t => t.set e.2 s
      | none => some s) init
  | .array vs => (settings.zip vs).foldlM (fun s p => p.1.set p.2 s) init
  | .datetime _ => some init
  | _ => none

/-- A part of a structure that is filled on its own, from its default. -/
def Setting.group {σ τ : Type} (key : String) (settings : List (Setting τ)) (init : τ)
    (f : τ → σ → σ) : Setting σ :=
  ⟨key, fun v s => (v.fill? settings init).map fun t => f t s⟩

end Bindery.Toml
