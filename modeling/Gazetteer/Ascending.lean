/-! Sets as strictly ascending lists. -/
namespace Gazetteer

/-- Every element is related to the next one. -/
def inOrder {α : Type} (related : α → α → Bool) : List α → Bool
  | a :: b :: rest => related a b && inOrder related (b :: rest)
  | _ => true

namespace Ascending

variable {α : Type} [LT α] [DecidableLT α]

/-- Puts an element at its place, unless it is there already. -/
def insert (a : α) : List α → List α
  | [] => [a]
  | b :: bs => if a < b then a :: b :: bs else if b < a then b :: insert a bs else b :: bs

/-- Sets the value of a key in a list of pairs with ascending keys. -/
def insertPair {β : Type} (a : α) (v : β) : List (α × β) → List (α × β)
  | [] => [(a, v)]
  | (b, w) :: bs =>
    if a < b then (a, v) :: (b, w) :: bs
    else if b < a then (b, w) :: insertPair a v bs
    else (a, v) :: bs

/-- The elements of a list in ascending order, each once. -/
def ofList [BEq α] (as : List α) : List α := (as.mergeSort fun a b => !decide (b < a)).eraseReps

def inter : List α → List α → List α
  | [], _ => []
  | _, [] => []
  | a :: as, b :: bs =>
    if a < b then inter as (b :: bs)
    else if b < a then inter (a :: as) bs
    else a :: inter as bs
termination_by as bs => as.length + bs.length

end Ascending
end Gazetteer
