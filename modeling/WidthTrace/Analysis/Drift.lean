import WidthTrace.Analysis.Config
import WidthTrace.Hook.Basic
import WidthTrace.Trace.Run

/-!
# Drift between two images

Both images are traced from their roots alone. Where a hook is reached in both,
its entry widths should not contradict each other.
-/

namespace WidthTrace.Drift

/-- The trace of all roots of an image, entered together. -/
def traceOf (image : Image) (config : Config) : Trace :=
  ((config.roots image).foldl (fun trace root => trace.enter root config.state)
    Trace.empty).finish image

/-- The flags on which the states at a hook contradict each other. -/
def hookFindings (baseline patched : Trace) (hook : Hook) : List Finding :=
  match baseline.stateAt? hook.address, patched.stateAt? hook.address with
  | some before, some after =>
      (before.conflicts after).map fun flag => .drift hook flag before after
  | _, _ => []

def findings (baseline patched : Image) (hooks : List Hook) (config : Config) : List Finding :=
  hooks.flatMap (hookFindings (traceOf baseline config) (traceOf patched config))

end WidthTrace.Drift
