import WidthTrace.Cartridge.Image
import WidthTrace.Cpu.State

/-!
# Configuring an analysis

An analysis starts at the configured entry points, or at the targets of the
hardware vectors if none are given.
-/

namespace WidthTrace

/-- `vectors` allows the hardware vectors as roots, and `detect` the discovery of hooks. -/
structure Config where
  mapping : Mapping
  entries : List Address
  state : CpuState
  vectors : Bool
  detect : Bool

namespace Config

def default : Config := ⟨.loRom, [], .native8, true, true⟩

instance : Inhabited Config := ⟨default⟩

/-- The addresses that an analysis of an image starts from. -/
def roots (config : Config) (image : Image) : List Address :=
  if !config.entries.isEmpty then config.entries
  else if config.vectors then (HardwareVector.all.filterMap image.vector?).eraseDups
  else []

theorem roots_of_entries {config : Config} (image : Image) (given : config.entries ≠ []) :
    config.roots image = config.entries := by
  rw [roots, List.isEmpty_eq_false_iff.mpr given]
  rfl

/-- The roots are the configured entry points or, without any, what the vectors point to if they are
allowed. -/
theorem mem_roots {config : Config} {image : Image} {a : Address} :
    a ∈ config.roots image ↔ a ∈ config.entries ∨
      config.entries = [] ∧ config.vectors = true ∧ ∃ vector, image.vector? vector = some a := by
  by_cases given : config.entries = []
  · have pointed : a ∈ (HardwareVector.all.filterMap image.vector?).eraseDups ↔
        ∃ vector, image.vector? vector = some a := by
      rw [List.mem_eraseDups, List.mem_filterMap]
      exact exists_congr fun vector => and_iff_right vector.mem_all
    rw [roots, given]
    cases config.vectors with
    | false => simp
    | true => simp [pointed]
  · rw [roots_of_entries image given]
    simp [given]

end Config

end WidthTrace
