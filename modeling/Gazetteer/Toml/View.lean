import Gazetteer.Language
import Gazetteer.Toml.Value

/-! What a TOML value can stand for. A record is a table, or the array of its fields in order;
fields that are not known are passed over, and so are further items of a pair. -/
namespace Gazetteer.Toml
namespace Value

def text? : Value → Option String
  | text s => some s
  | _ => none

def below? (bound : Nat) : Value → Option Nat
  | integer n => if 0 ≤ n ∧ n < bound then some n.toNat else none
  | _ => none

def uint8? (v : Value) : Option UInt8 := (v.below? UInt8.size).map UInt8.ofNat

def uint64? (v : Value) : Option UInt64 := (v.below? UInt64.size).map UInt64.ofNat

/-- A number. An integer of at most 64 bits stands for the nearest number. -/
def real? : Value → Option Binary64
  | real x => some x
  | integer n =>
    if -0x8000000000000000 ≤ n ∧ n < UInt64.size then
      some ((n.natAbs : Binary64).withSign (n < 0))
    else none
  | _ => none

def items? : Value → Option (List Value)
  | array vs => some vs
  | tables latestFirst => some latestFirst.reverse
  | _ => none

def list? {α : Type} (view : Value → Option α) (v : Value) : Option (List α) :=
  v.items?.bind (·.mapM view)

def pair? {α β : Type} (first : Value → Option α) (second : Value → Option β) (v : Value) :
    Option (α × β) :=
  match v.items? with
  | some (a :: b :: _) => do some (← first a, ← second b)
  | _ => none

/-- The values of a record's fields, by their names or by their places; a field may be missing. A
date or time is a record that has none of them. -/
def fields? (names : List String) (v : Value) : Option (List (Option Value)) :=
  match v with
  | table _ es => some (names.map fun name => es.lookup name)
  | moment => some (names.map fun _ => none)
  | _ => v.items?.map fun vs => (List.range names.length).map (vs[·]?)

/-- One name out of a choice: a text, or a table with this key alone and nothing under it. -/
def choice? : Value → Option String
  | text s => some s
  | table _ [(name, .table _ [])] => some name
  | table _ [(name, .array [])] => some name
  | _ => none

def language? (v : Value) : Option Language := v.choice? >>= Language.ofCode?

end Value

def required {α : Type} (view : Value → Option α) (field : Option Value) : Option α := field >>= view

def optional {α : Type} (default : α) (view : Value → Option α) : Option Value → Option α
  | some v => view v
  | none => some default

end Gazetteer.Toml
