import PointerGuard.Violation

namespace PointerGuard

inductive Counter where
  /-- Checks of accesses, calls and lifetimes. -/
  | checks
  | metadataStores
  | metadataLoads
  /-- Copies of at least one entry. -/
  | metadataCopies
  | framesPushed
  | heapAllocations
  | heapDeallocations
  | stackAllocations
  | stackDeallocations
  /-- Violations after which the process went on. -/
  | suppressedViolations
  | spatialViolations
  | temporalViolations
  | resourceViolations
  | protocolViolations
  /-- Calls that came before there was anything to check against. -/
  | skippedDuringInit
deriving DecidableEq, Repr

namespace Counter

def name : Counter → String
  | checks => "checks"
  | metadataStores => "metadata_stores"
  | metadataLoads => "metadata_loads"
  | metadataCopies => "metadata_copies"
  | framesPushed => "frames_pushed"
  | heapAllocations => "heap_allocations"
  | heapDeallocations => "heap_deallocations"
  | stackAllocations => "stack_allocations"
  | stackDeallocations => "stack_deallocations"
  | suppressedViolations => "suppressed_violations"
  | spatialViolations => "spatial_violations"
  | temporalViolations => "temporal_violations"
  | resourceViolations => "resource_violations"
  | protocolViolations => "protocol_violations"
  | skippedDuringInit => "skipped_during_init"

def all : List Counter :=
  [checks, metadataStores, metadataLoads, metadataCopies, framesPushed, heapAllocations,
   heapDeallocations, stackAllocations, stackDeallocations, suppressedViolations,
   spatialViolations, temporalViolations, resourceViolations, protocolViolations,
   skippedDuringInit]

def ofKind : ViolationKind → Counter
  | .spatial => spatialViolations
  | .temporal => temporalViolations
  | .resource => resourceViolations
  | .protocol => protocolViolations

end Counter

/-- The counters, which wrap. -/
structure Metrics where
  checks : Word := 0
  metadataStores : Word := 0
  metadataLoads : Word := 0
  metadataCopies : Word := 0
  framesPushed : Word := 0
  heapAllocations : Word := 0
  heapDeallocations : Word := 0
  stackAllocations : Word := 0
  stackDeallocations : Word := 0
  suppressedViolations : Word := 0
  spatialViolations : Word := 0
  temporalViolations : Word := 0
  resourceViolations : Word := 0
  protocolViolations : Word := 0
  skippedDuringInit : Word := 0
deriving DecidableEq, Repr, Inhabited

namespace Metrics

def get (m : Metrics) : Counter → Word
  | .checks => m.checks
  | .metadataStores => m.metadataStores
  | .metadataLoads => m.metadataLoads
  | .metadataCopies => m.metadataCopies
  | .framesPushed => m.framesPushed
  | .heapAllocations => m.heapAllocations
  | .heapDeallocations => m.heapDeallocations
  | .stackAllocations => m.stackAllocations
  | .stackDeallocations => m.stackDeallocations
  | .suppressedViolations => m.suppressedViolations
  | .spatialViolations => m.spatialViolations
  | .temporalViolations => m.temporalViolations
  | .resourceViolations => m.resourceViolations
  | .protocolViolations => m.protocolViolations
  | .skippedDuringInit => m.skippedDuringInit

def bump (m : Metrics) : Counter → Metrics
  | .checks => { m with checks := m.checks + 1 }
  | .metadataStores => { m with metadataStores := m.metadataStores + 1 }
  | .metadataLoads => { m with metadataLoads := m.metadataLoads + 1 }
  | .metadataCopies => { m with metadataCopies := m.metadataCopies + 1 }
  | .framesPushed => { m with framesPushed := m.framesPushed + 1 }
  | .heapAllocations => { m with heapAllocations := m.heapAllocations + 1 }
  | .heapDeallocations => { m with heapDeallocations := m.heapDeallocations + 1 }
  | .stackAllocations => { m with stackAllocations := m.stackAllocations + 1 }
  | .stackDeallocations => { m with stackDeallocations := m.stackDeallocations + 1 }
  | .suppressedViolations => { m with suppressedViolations := m.suppressedViolations + 1 }
  | .spatialViolations => { m with spatialViolations := m.spatialViolations + 1 }
  | .temporalViolations => { m with temporalViolations := m.temporalViolations + 1 }
  | .resourceViolations => { m with resourceViolations := m.resourceViolations + 1 }
  | .protocolViolations => { m with protocolViolations := m.protocolViolations + 1 }
  | .skippedDuringInit => { m with skippedDuringInit := m.skippedDuringInit + 1 }

/-- Counts a violation after which the process goes on. -/
def recordSuppressed (m : Metrics) (kind : ViolationKind) : Metrics :=
  (m.bump .suppressedViolations).bump (.ofKind kind)

theorem get_bump (m : Metrics) (c d : Counter) :
    (m.bump c).get d = if d = c then m.get d + 1 else m.get d := by
  cases c <;> cases d <;> rfl

end Metrics

/-- The counters at one moment, and the number of installed secondary tables. -/
structure Snapshot where
  metrics : Metrics
  secondaryTables : Nat := 0
deriving DecidableEq, Repr, Inhabited

def Snapshot.entries (s : Snapshot) : List (String × Word) :=
  ("secondary_tables", .ofNat s.secondaryTables) ::
    Counter.all.map fun c => (c.name, s.metrics.get c)

end PointerGuard
