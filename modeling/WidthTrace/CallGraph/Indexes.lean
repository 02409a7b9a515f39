import WidthTrace.CallGraph.Basic

/-!
# Indexes of a call graph

The views of a call graph can also be read off two indexes that grow with each recorded
transfer: one has a bucket for every target, the other a bucket for every routine with the
calls and tail calls that it makes. Within a bucket transfers keep their order. The buckets
themselves have none: whoever goes through an index meets them in an order that is left
open, and which is therefore an argument of the views that need all of them.
-/

namespace WidthTrace.CallGraph

/-- A bucket of transfers for each key that has any. -/
abbrev Buckets := AddressMap (List Transfer)

/-- Puts a transfer last into the bucket of a key. -/
def Buckets.add (buckets : Buckets) (key : Address) (transfer : Transfer) : Buckets :=
  buckets.insert key (buckets.getD key [] ++ [transfer])

structure Indexes where
  byTarget : Buckets
  byRoutine : Buckets

namespace Indexes

def empty : Indexes := ⟨∅, ∅⟩

def add (indexes : Indexes) (transfer : Transfer) : Indexes where
  byTarget := indexes.byTarget.add transfer.target transfer
  byRoutine :=
    if transfer.isRoutineEdge then indexes.byRoutine.add transfer.routine transfer
    else indexes.byRoutine

/-- The indexes after recording transfers. -/
def ofList (transfers : List Transfer) : Indexes :=
  transfers.foldl add empty

/-- The transfers of every kind that lead to an address. -/
def transfersTo (indexes : Indexes) (a : Address) : List Transfer :=
  indexes.byTarget.getD a []

/-- The calls and tail calls that a routine makes. -/
def edgesFrom (indexes : Indexes) (routine : Address) : List Transfer :=
  indexes.byRoutine.getD routine []

end Indexes

/-- Buckets with their keys in the order in which they are met. -/
abbrev Visit := List (Address × List Transfer)

namespace Visit

/-- The visit meets every bucket of an index once. -/
def Meets (visit : Visit) (buckets : Buckets) : Prop :=
  visit.Perm buckets.toList

def transfers (visit : Visit) : List Transfer :=
  visit.flatMap Prod.snd

/-- The edges in the order of `edgeOrder`, from a visit of the buckets by routine. -/
def edges (visit : Visit) : List Transfer :=
  visit.transfers.mergeSort fun a b => (edgeOrder a b).isLE

/-- The calls and jumps between banks in the order of `siteOrder`, from a visit of the buckets by
target. -/
def crossBank (visit : Visit) : List Transfer :=
  (visit.transfers.filter Transfer.crossesBank).mergeSort fun a b => (siteOrder a b).isLE

end Visit

end WidthTrace.CallGraph
