import Mathlib.Algebra.Group.Nat.Defs
import Mathlib.Logic.Function.Basic
import SystemProg.Lib.Run

set_option autoImplicit false

-- `utils/heap_help/heap_help.cpp`. An allocation record is addressed by its batch, in the order in
-- which these are made, and its index there. What `malloc` returns for a batch holds anything. A
-- backtrace is known by its length.

namespace SystemProg.Utils

abbrev Pointer := UInt64

def allocationBatchSize : Nat := 1024

structure Address where
  batch : Nat
  index : Nat
deriving DecidableEq, Repr

structure Allocation where
  traceSize : Int
  mem : Pointer
  size : UInt64
  next : Option Address
deriving DecidableEq, Repr

inductive Report where
  | batchAllocated
  | batchNotFull
  | emplaced
  | traceSize
  | freeingUnknown
deriving DecidableEq, Repr

structure HeapHelp where
  allocations : Pointer → Option Address
  allocPool : Option Address
  allocBatch : Option Nat
  allocCount : UInt64
  backtraceOn : Bool
  -- The batches and what they hold.
  used : Nat → Nat
  batches : Nat
  record : Address → Allocation

namespace HeapHelp

def create (backtraceOn : Bool) (memory : Address → Allocation) : HeapHelp where
  allocations := fun _ => none
  allocPool := none
  allocBatch := none
  allocCount := 0
  backtraceOn := backtraceOn
  used := fun _ => 0
  batches := 0
  record := memory

def setRecord (s : HeapHelp) (a : Address) (allocation : Allocation) : HeapHelp :=
  { s with record := Function.update s.record a allocation }

def setUsed (s : HeapHelp) (batch used : Nat) : HeapHelp :=
  { s with used := Function.update s.used batch used }

-- `malloc` of a batch; `memory` says that it succeeds.
def newBatch (s : HeapHelp) (memory : Bool) : Except Report (Nat × HeapHelp) :=
  if memory then
    .ok (s.batches, { s.setUsed s.batches 0 with
      allocBatch := some s.batches, batches := s.batches + 1 })
  else .error .batchAllocated

-- The batch from which the next new record comes.
def currentBatch (s : HeapHelp) (memory : Bool) : Except Report (Nat × HeapHelp) :=
  match s.allocBatch with
  | none => s.newBatch memory
  | some batch =>
      if s.used batch = allocationBatchSize then s.newBatch memory
      else if s.used batch < allocationBatchSize then .ok (batch, s)
      else .error .batchNotFull

def takeRecord (s : HeapHelp) (memory : Bool) : Except Report (Address × HeapHelp) :=
  match s.allocPool with
  | some a => .ok (a, { s with allocPool := (s.record a).next })
  | none => (s.currentBatch memory).map fun (batch, s) =>
      ({ batch := batch, index := s.used batch }, s.setUsed batch (s.used batch + 1))

-- `depth` is what `backtrace` returns.
def recordTrace (s : HeapHelp) (a : Address) (depth : Int) : HeapHelp :=
  if s.backtraceOn then s.setRecord a { s.record a with traceSize := depth } else s

-- The node of the map is taken to be there: the assertion of `hh_allocator::allocate` is left out.
def trace (s : HeapHelp) (ptr : Pointer) (size : UInt64) (memory : Bool) (depth : Int) :
    Except Report HeapHelp :=
  match s.takeRecord memory with
  | .error report => .error report
  | .ok (a, s) =>
      let filled := s.setRecord a { s.record a with mem := ptr, size := size }
      if (filled.allocations ptr).isSome then .error .emplaced
      else
        let mapped := { filled with
          allocations := Function.update filled.allocations ptr (some a)
          allocCount := filled.allocCount + 1 }
        let traced := mapped.recordTrace a depth
        if 0 ≤ (traced.record a).traceSize then .ok traced else .error .traceSize

def untrace (s : HeapHelp) (ptr : Pointer) : Except Report HeapHelp :=
  match s.allocations ptr with
  | none => .error .freeingUnknown
  | some a =>
      .ok { s.setRecord a { s.record a with next := s.allocPool } with
        allocPool := some a
        allocations := Function.update s.allocations ptr none }

inductive Action where
  | trace (ptr : Pointer) (size : UInt64) (memory : Bool) (depth : Int)
  | untrace (ptr : Pointer)
deriving DecidableEq, Repr

def call (s : HeapHelp) : Action → Except Report HeapHelp
  | .trace ptr size memory depth => s.trace ptr size memory depth
  | .untrace ptr => s.untrace ptr

def step (s : HeapHelp) (action : Action) : Option HeapHelp := (s.call action).toOption

end HeapHelp

end SystemProg.Utils
