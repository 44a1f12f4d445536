import GuestMemory.Cache.Control
import GuestMemory.Data

/-!
Settings of an address space, and how settings and cache control are stored.
-/
namespace GuestMemory

structure Settings where
  /-- Reserve a host window on the guest space for emitted code. -/
  window : Bool := false
  /-- Route cacheable accesses through the cache model. -/
  cacheModel : Bool := false
  arenaSize : Nat := 64 * 1024 * 1024
  /-- Report the first guest faults. -/
  logFaults : Bool := true
  deriving DecidableEq, Repr, Inhabited

namespace Settings

/-- A field that is missing has its default. -/
def ofData? (d : Data) : Option Settings := do
  match ← d.fields? ["fastmem", "cache_emulation", "arena_size", "log_guest_faults"] with
  | [window, cacheModel, arenaSize, logFaults] =>
    let standard : Settings := {}
    return {
      window := ← (window.map Data.toBool?).getD standard.window
      cacheModel := ← (cacheModel.map Data.toBool?).getD standard.cacheModel
      arenaSize := ← (arenaSize.map (Data.toNat? 0x10000000000000000)).getD standard.arenaSize
      logFaults := ← (logFaults.map Data.toBool?).getD standard.logFaults }
  | _ => none

def toData (s : Settings) : Data := .record [
  ("fastmem", .bool s.window), ("cache_emulation", .bool s.cacheModel),
  ("arena_size", .integer s.arenaSize), ("log_guest_faults", .bool s.logFaults)]

end Settings

namespace Cache

def TlbEntry.ofData? (d : Data) : Option TlbEntry := do
  match ← d.fields? ["page_mask", "entry_hi", "entry_lo0", "entry_lo1"] with
  | [some mask, some hi, some lo0, some lo1] =>
    return ⟨← mask.toUInt32?, ← hi.toUInt32?, ← lo0.toUInt32?, ← lo1.toUInt32?⟩
  | _ => none

def TlbEntry.toData (e : TlbEntry) : Data := .record [
  ("page_mask", .integer e.mask.toNat), ("entry_hi", .integer e.hi.toNat),
  ("entry_lo0", .integer e.lo0.toNat), ("entry_lo1", .integer e.lo1.toNat)]

def Control.ofData? (d : Data) : Option Control := do
  match ← d.fields? ["config", "tlb"] with
  | [some config, some tlb] =>
    return { config := ← config.toUInt32?, tlb := ← (← tlb.toList?).mapM TlbEntry.ofData? }
  | _ => none

def Control.toData (c : Control) : Data := .record [
  ("config", .integer c.config.toNat), ("tlb", .list (c.tlb.map TlbEntry.toData))]

end Cache

end GuestMemory
