/-! Flags of commands: each has a name with two dashes and a value, which comes after an equals sign
or as the next argument. -/
namespace Gazetteer

/-- A flag, by what its value does to the choices made so far. -/
structure Flag (σ : Type) where
  name : String
  about : String
  required : Bool := false
  /-- The value may begin with a dash even if it is an argument of its own. -/
  takesDash : Bool := false
  /-- Takes a value into account, unless it is of the wrong form or comes too often. -/
  set : String → σ → Option σ

/-- Why the arguments are no command to run. -/
inductive Stop where
  /-- The help text is asked for. -/
  | help
  | misuse
deriving DecidableEq, Repr

namespace Flag

/-- An argument looks like a flag, and not like a value. -/
def isFlagLike (arg : String) : Bool := arg.startsWith "-" && arg ≠ "-"

def splitAssignment (cs : List Char) : String × Option String :=
  match cs.dropWhile (· ≠ '=') with
  | [] => (String.ofList cs, none)
  | _ :: value => (String.ofList (cs.takeWhile (· ≠ '=')), some (String.ofList value))

variable {σ : Type}

/-- Takes flags into account one after another, up to the first fault or the wish for help. -/
def readAll (flags : List (Flag σ)) : List String → σ → Except Stop σ
  | [], s => .ok s
  | arg :: rest, s =>
    match arg.toList with
    | ['-', '-'] => if rest.isEmpty then .ok s else .error .misuse
    | '-' :: '-' :: long =>
      let (name, attached) := splitAssignment long
      if name = "help" then .error (if attached.isNone then .help else .misuse)
      else
        match flags.find? (·.name = name), attached, rest with
        | none, _, _ => .error .misuse
        | some f, some value, rest =>
          match f.set value s with
          | none => .error .misuse
          | some s => readAll flags rest s
        | some _, none, [] => .error .misuse
        | some f, none, value :: rest =>
          if isFlagLike value && !f.takesDash then .error .misuse
          else
            match f.set value s with
            | none => .error .misuse
            | some s => readAll flags rest s
    | '-' :: 'h' :: _ => .error .help
    | _ => .error .misuse

/-- Stands for the value in help texts. -/
def placeholder (f : Flag σ) : String :=
  "<" ++ String.ofList (f.name.toList.map fun c => if c = '-' then '_' else c.toUpper) ++ ">"

def form (f : Flag σ) : String := "--" ++ f.name ++ " " ++ f.placeholder

end Flag
end Gazetteer
