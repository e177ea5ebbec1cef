import Mathlib.Data.Nat.Notation
import Mathlib.Logic.Function.Basic
import Mathlib.Order.Defs.PartialOrder

/-! # The filters of a stream

`Stream::add_filter`, `remove_filter` and `get_filter`, after `Stream.cc`. The chain of filters is a list, and an
iterator is an index. Priorities are compared by `<` only. Whether the stream is active is an input of each call.

`Registry` is what the calls are for: which filter stands for a type, and since when the type is in the chain.
-/

namespace UniEvent.FilterList

/-- A filter object, with its `type` and `priority`. -/
structure StreamFilter (ι τ π : Type) where
  id : ι
  type : τ
  priority : π
deriving DecidableEq, Repr

inductive Error where
  /-- "can't change stream filters when active" -/
  | active
deriving DecidableEq, Repr

section

variable {ι τ π : Type} [DecidableEq ι] [DecidableEq τ] [DecidableEq π] [Preorder π] [DecidableLT π]

/-- How the loop of `add_filter` ends: at a filter of the same type, or with the first filter of a larger priority. -/
inductive Search where
  | same (it : ℕ)
  | through (pos : Option ℕ)
deriving DecidableEq, Repr

/-- The loop of `add_filter` from the iterator `it` on; `pos` is there once `found` is set. -/
def search (filter : StreamFilter ι τ π) (it : ℕ) (pos : Option ℕ) : List (StreamFilter ι τ π) → Search
  | [] => .through pos
  | f :: rest =>
    if f.type = filter.type then .same it
    else search filter (it + 1) (if filter.priority < f.priority ∧ pos = none then some it else pos) rest

/-- What `add_filter` does once it may change the filters. -/
def insertFilter (filter : StreamFilter ι τ π) (filters : List (StreamFilter ι τ π)) : List (StreamFilter ι τ π) :=
  match search filter 0 none filters with
  | .same it => filters.set it filter
  | .through (some pos) => filters.insertIdx pos filter
  | .through none => filters.concat filter

/-- `_check_change_filters`, unless forced -/
def checkChangeFilters (force active : Bool) : Except Error Unit :=
  if !force && active then .error .active else .ok ()

def addFilter (filter : StreamFilter ι τ π) (force active : Bool) (filters : List (StreamFilter ι τ π)) :
    Except Error (List (StreamFilter ι τ π)) := do
  checkChangeFilters force active
  return insertFilter filter filters

def removeFilter (filter : StreamFilter ι τ π) (force active : Bool) (filters : List (StreamFilter ι τ π)) :
    Except Error (List (StreamFilter ι τ π)) := do
  checkChangeFilters force active
  return filters.erase filter

def getFilter (type : τ) (filters : List (StreamFilter ι τ π)) : Option (StreamFilter ι τ π) :=
  filters.find? fun f => f.type = type

/-! ### Calls -/

inductive Call (ι τ π : Type) where
  | add (filter : StreamFilter ι τ π) (force active : Bool)
  | remove (filter : StreamFilter ι τ π) (force active : Bool)
deriving DecidableEq, Repr

/-- An exception leaves the filters as they are. -/
def step (filters : List (StreamFilter ι τ π)) : Call ι τ π → List (StreamFilter ι τ π)
  | .add filter force active => (addFilter filter force active filters).toOption.getD filters
  | .remove filter force active => (removeFilter filter force active filters).toOption.getD filters

def run (calls : List (Call ι τ π)) : List (StreamFilter ι τ π) := calls.foldl step []

/-! ### What the calls are for -/

/-- The filter that stands for each type in the chain, and the number of the call that brought the type there. -/
structure Registry (ι τ π : Type) where
  held : τ → Option (StreamFilter ι τ π) := fun _ => none
  since : τ → ℕ := fun _ => 0
  calls : ℕ := 0

namespace Registry

variable (r : Registry ι τ π)

/-- The filter added last stands for its type; a type that was there keeps its place. -/
def add (filter : StreamFilter ι τ π) : Registry ι τ π :=
  { r with
    held := Function.update r.held filter.type (some filter)
    since := if r.held filter.type = none then Function.update r.since filter.type r.calls else r.since }

/-- Only the filter that stands for its type can be removed. -/
def remove (filter : StreamFilter ι τ π) : Registry ι τ π :=
  if r.held filter.type = some filter then { r with held := Function.update r.held filter.type none } else r

def allowed (force active : Bool) (next : Registry ι τ π) : Registry ι τ π := if force ∨ active = false then next else r

def step : Call ι τ π → Registry ι τ π
  | .add filter force active => { r.allowed force active (r.add filter) with calls := r.calls + 1 }
  | .remove filter force active => { r.allowed force active (r.remove filter) with calls := r.calls + 1 }

def run (calls : List (Call ι τ π)) : Registry ι τ π := calls.foldl step {}

end Registry

end

end UniEvent.FilterList
