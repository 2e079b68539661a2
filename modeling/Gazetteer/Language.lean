/-! The languages of feature names. -/
namespace Gazetteer

/-- A language a name may be in. -/
inductive Language where
  | default | en | ja | fr | koRm | ar | de | intName | ru | sv | zh | fi | be | ka | ko | he | nl
  | ga | jaRm | el | it | es | th | uk | pl | pt | tr
deriving DecidableEq, Repr

namespace Language

/-- Every language, in the order of their indices. -/
def all : List Language :=
  [.default, .en, .ja, .fr, .koRm, .ar, .de, .intName, .ru, .sv, .zh, .fi, .be, .ka, .ko, .he, .nl,
    .ga, .jaRm, .el, .it, .es, .th, .uk, .pl, .pt, .tr]

/-- The number that stands for the language in stored data. -/
def index (l : Language) : UInt8 := UInt8.ofNat l.ctorIdx

def ofIndex? (i : UInt8) : Option Language := all[i.toNat]?

def code : Language → String
  | default => "default"
  | en => "en"
  | ja => "ja"
  | fr => "fr"
  | koRm => "ko_rm"
  | ar => "ar"
  | de => "de"
  | intName => "int_name"
  | ru => "ru"
  | sv => "sv"
  | zh => "zh"
  | fi => "fi"
  | be => "be"
  | ka => "ka"
  | ko => "ko"
  | he => "he"
  | nl => "nl"
  | ga => "ga"
  | jaRm => "ja_rm"
  | el => "el"
  | it => "it"
  | es => "es"
  | th => "th"
  | uk => "uk"
  | pl => "pl"
  | pt => "pt"
  | tr => "tr"

def ofCode? (s : String) : Option Language := all.find? (·.code = s)

/-- The languages of a list in the order of their indices, each once. -/
def ordered (ls : List Language) : List Language := all.filter (· ∈ ls)

/-- Every language is told by its index. -/
theorem ofIndex?_index (l : Language) : ofIndex? l.index = some l := by cases l <;> rfl

theorem mem_all (l : Language) : l ∈ all := by cases l <;> decide

end Language
end Gazetteer
