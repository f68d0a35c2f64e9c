import Mathlib.Data.Nat.Bitwise

/-!
# Zone configurations

What the root zone passes to start a zone, from `config.rs`: the parts that the creation of a zone
reads outside its own page tables and device emulation.

## Main definitions

* `HvConfigMemoryRegion`, `HvIvcConfig`, `HvZoneConfig`: the configurations
* `HvZoneConfig.memoryRegionsUsed`, `HvZoneConfig.cpuList`, `HvZoneConfig.ivcConfig`: the accessors
* `HvZoneConfig.dtbIpa`: where the zone sees its device tree
-/

namespace Hvisor

/-- The regions that a configuration has room for. -/
def CONFIG_MAX_MEMORY_REGIONS : Nat := 64
/-- The functions that a configuration has room for. -/
def CONFIG_MAX_PCI_DEV : Nat := 16
/-- The shared memories that a configuration has room for. -/
def CONFIG_MAX_IVC_CONGIGS : Nat := 2

/-- A region of a configuration. -/
structure HvConfigMemoryRegion where
  memType : Nat
  physicalStart : Nat
  virtualStart : Nat
  size : Nat
  deriving DecidableEq

/-- How a zone takes part in a shared memory. -/
structure HvIvcConfig where
  ivcId : Nat
  peerId : Nat
  controlTableIpa : Nat
  sharedMemIpa : Nat
  rwSecSize : Nat
  outSecSize : Nat
  interruptNum : Nat
  maxPeers : Nat
  deriving DecidableEq

/-- The configuration of a zone, as far as the list of zones, its memory and its shared memories
need it. -/
structure HvZoneConfig where
  zoneId : Nat
  cpus : BitVec 64
  numMemoryRegions : Nat
  memoryRegions : Vector HvConfigMemoryRegion CONFIG_MAX_MEMORY_REGIONS
  numIvcConfigs : Nat
  ivcConfigs : Vector HvIvcConfig CONFIG_MAX_IVC_CONGIGS
  entryPoint : Nat
  dtbLoadPaddr : Nat
  numPciDevs : Nat
  allocPciDevs : Vector Nat CONFIG_MAX_PCI_DEV
  deriving DecidableEq

namespace HvZoneConfig

/-- `memory_regions()`; a count beyond the array panics. -/
def memoryRegionsUsed (self : HvZoneConfig) : Option (List HvConfigMemoryRegion) :=
  if self.numMemoryRegions ≤ CONFIG_MAX_MEMORY_REGIONS then
    some (self.memoryRegions.toList.take self.numMemoryRegions)
  else none

/-- `ivc_config()`; a count beyond the array panics. -/
def ivcConfig (self : HvZoneConfig) : Option (List HvIvcConfig) :=
  if self.numIvcConfigs ≤ CONFIG_MAX_IVC_CONGIGS then
    some (self.ivcConfigs.toList.take self.numIvcConfigs)
  else none

/-- `cpus()`: the CPUs of the bitmap in increasing order. -/
def cpuList (self : HvZoneConfig) : List Nat := (List.range 64).filter self.cpus.getLsbD

/-- The device tree's address in the zone, by the last region that holds it. -/
def dtbIpa (self : HvZoneConfig) (regions : List HvConfigMemoryRegion) : Nat :=
  regions.foldl (fun ipa region =>
    if region.physicalStart ≤ self.dtbLoadPaddr ∧
        self.dtbLoadPaddr < region.physicalStart + region.size then
      region.virtualStart + self.dtbLoadPaddr - region.physicalStart
    else ipa) (2 ^ 64 - 1)

end HvZoneConfig

end Hvisor
