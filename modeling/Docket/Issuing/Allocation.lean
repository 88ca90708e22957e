import Docket.Counter
import Docket.Decimal.Basic

/-! # Allocation

Which of a stream's live counters hands out the next value, and what becomes of it. A counter of
the current year comes first; then one that does not reset, and last one that resets and moves on
to the current year. Counters of later years are left alone.
-/

namespace Docket.Issuing

open Time

/-- The last of the counters that rank highest. -/
def highest? (rank : Counter → Int) (counters : List Counter) : Option Counter :=
  counters.foldl (fun best c =>
    match best with
    | none => some c
    | some b => if rank b ≤ rank c then some c else some b) none

def isReached (year : Int) (c : Counter) : Bool := c.year.all fun y => decide (y ≤ year)

/-- Rank of counters that do not reset: one without a year before all others. -/
def continuousRank (c : Counter) : Int := c.year.getD (int32Bound - 1)

/-- Rank of counters that reset: one without a year after all others. -/
def resettingRank (c : Counter) : Int := c.year.getD (-int32Bound)

/-- The counter that serves a year. -/
def select? (counters : List Counter) (year : Int) : Option Counter :=
  match counters.find? fun c => c.year == some year with
  | some c => some c
  | none =>
    let reached := counters.filter (isReached year)
    match highest? continuousRank (reached.filter fun c => !c.settings.resets) with
    | some c => some c
    | none => highest? resettingRank (reached.filter fun c => c.settings.resets)

/-- An allocation to be made, with the identifier of the counter that it may add. -/
structure Allocation where
  stream : Stream
  year : Int
  stamp : Stamp
  defaults : CounterDefaults
  fresh : Id

inductive CounterWrite where
  | insert (c : Counter)
  | update (c : Counter)
deriving DecidableEq

def CounterWrite.counter : CounterWrite → Counter
  | insert c => c
  | update c => c

namespace Allocation

def firstCounter (a : Allocation) : Counter :=
  { id := a.fresh
    tenant := a.stream.tenant
    documentType := a.stream.documentType
    series := a.stream.series
    year := some a.year
    value := 1
    settings := { padding := a.defaults.padding, resets := a.defaults.resets }
    created := a.stamp
    updated := a.stamp
    retired := none }

/-- A counter in the year of the allocation: one that resets starts again where the year is
another one. -/
def rolledOver (a : Allocation) (c : Counter) : Counter :=
  if c.settings.resets ∧ c.year ≠ some a.year then { c with value := 0, year := some a.year }
  else c

/-- The write that makes the allocation, given the live counters of its stream. -/
def plan (a : Allocation) (counters : List Counter) : Except Overflow CounterWrite :=
  match select? counters a.year with
  | none => .ok (.insert a.firstCounter)
  | some c =>
    let c := a.rolledOver c
    match succ? c.value with
    | .ok value => .ok (.update { c with value := value, updated := a.stamp })
    | .error o => .error o

end Allocation

end Docket.Issuing
