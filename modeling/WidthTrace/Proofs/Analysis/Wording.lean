import Mathlib.Data.List.Forall2
import WidthTrace.Proofs.Analysis.Exploration

/-!
# Symbols and wording

Symbols name addresses in messages, and discovered hooks take their names from them. A
name decides nothing: a hook under another name is traced from the same state and judged
by the same contract, and what is found for it is the same finding under that name. Two
reports that differ in their symbols therefore say the same in other words, unless the
symbols decide which addresses are discovered at all.
-/

namespace WidthTrace

/-- The diagnostics differ in their messages at most. -/
structure Diagnostic.Reworded (first second : Diagnostic) : Prop where
  severity : first.severity = second.severity
  kind : first.kind = second.kind
  address : first.address = second.address
  source : first.source = second.source
  context : first.context = second.context

/-- The hook under another name. -/
def Hook.rename (hook : Hook) (name : String) : Hook :=
  { hook with name }

/-- The hooks differ in their names at most. -/
def Hook.Renamed (first second : Hook) : Prop :=
  first.rename second.name = second

namespace Finding

/-- The finding with another name for the hook that it is about, if it is about one. -/
def rename (name : String) : Finding → Finding
  | .unreachedHook hook => .unreachedHook (hook.rename name)
  | .entryViolation hook site expected actual =>
      .entryViolation (hook.rename name) site expected actual
  | .unknownAtEntry hook flag actual => .unknownAtEntry (hook.rename name) flag actual
  | .missingReturns hook => .missingReturns (hook.rename name)
  | .exitViolation hook site expected actual =>
      .exitViolation (hook.rename name) site expected actual
  | .unknownAtExit hook site flag actual => .unknownAtExit (hook.rename name) site flag actual
  | .drift hook flag baseline patched => .drift (hook.rename name) flag baseline patched
  | finding => finding

/-- The findings differ at most in the name of the hook that they are about. -/
def Renamed (first second : Finding) : Prop :=
  ∃ name, first.rename name = second

theorem Renamed.refl (finding : Finding) : finding.Renamed finding := by
  cases finding with
  | unreachedHook hook | entryViolation hook | unknownAtEntry hook | missingReturns hook
  | exitViolation hook | unknownAtExit hook | drift hook => exact ⟨hook.name, rfl⟩
  | _ => exact ⟨"", rfl⟩

/-- Whatever names the addresses, a finding under another name is a diagnostic in other words. -/
theorem Renamed.reworded {first second : Finding} (renamed : first.Renamed second)
    (one other : Address → String) :
    (first.diagnostic one).Reworded (second.diagnostic other) := by
  obtain ⟨name, rfl⟩ := renamed
  cases first <;> exact ⟨rfl, rfl, rfl, rfl, rfl⟩

end Finding

namespace Hook

theorem entryFindings_rename (hook : Hook) (name : String) (trace : Trace) (kept : CpuState) :
    (hook.rename name).entryFindings trace kept =
      (hook.entryFindings trace kept).map (.rename name) := by
  have sameContract : (hook.rename name).entry = hook.entry := rfl
  have sameCheckpoints : (hook.rename name).checkpoints trace kept = hook.checkpoints trace kept :=
    rfl
  rw [entryFindings, entryFindings, sameContract, sameCheckpoints]
  cases hook.entry with
  | none => rfl
  | some expected =>
      rw [List.map_filterMap]
      refine List.filterMap_congr fun (site, actual) _ => ?_
      rw [apply_ite (Option.map _)]
      rfl

theorem returnFindings_rename (hook : Hook) (name : String) (expected : CpuState) (ret : Return) :
    (hook.rename name).returnFindings expected ret =
      (hook.returnFindings expected ret).map (.rename name) := by
  rw [returnFindings, returnFindings, List.map_append, List.map_map, apply_ite (List.map _)]
  rfl

theorem exitFindings_rename (hook : Hook) (name : String) (trace : Trace) :
    (hook.rename name).exitFindings trace = (hook.exitFindings trace).map (.rename name) := by
  have sameContract : (hook.rename name).exit = hook.exit := rfl
  have sameReturns : trace.returnsOf (hook.rename name).address = trace.returnsOf hook.address :=
    rfl
  rw [exitFindings, exitFindings, sameContract, sameReturns]
  cases hook.exit with
  | none => rfl
  | some expected =>
      cases trace.returnsOf hook.address with
      | nil => rfl
      | cons ret rest =>
          rw [List.map_flatMap]
          exact List.flatMap_congr fun ret _ => returnFindings_rename hook name expected ret

/-- A hook under another name has the same findings under that name. -/
theorem contractFindings_rename (hook : Hook) (name : String) (trace : Trace) :
    (hook.rename name).contractFindings trace =
      (hook.contractFindings trace).map (.rename name) := by
  have sameAddress : (hook.rename name).address = hook.address := rfl
  rw [contractFindings, contractFindings, sameAddress]
  cases trace.stateAt? hook.address with
  | none =>
      rw [apply_ite (List.map _)]
      rfl
  | some kept =>
      have sameUnknown : (hook.rename name).unknownFindings kept =
          (hook.unknownFindings kept).map (.rename name) := by
        rw [unknownFindings, unknownFindings, List.map_map]
        rfl
      rw [List.map_append, List.map_append, ← entryFindings_rename, ← exitFindings_rename,
        ← sameUnknown]

theorem Renamed.contractFindings {first second : Hook} (renamed : first.Renamed second)
    (trace : Trace) :
    List.Forall₂ Finding.Renamed (first.contractFindings trace)
      (second.contractFindings trace) := by
  rw [← renamed, contractFindings_rename, List.forall₂_map_right_iff]
  exact List.forall₂_same.mpr fun finding _ => ⟨second.name, rfl⟩

theorem Renamed.isValidated_iff {first second : Hook} (renamed : first.Renamed second) :
    first.isValidated ↔ second.isValidated := by
  rw [← renamed]
  exact Iff.rfl

/-- If the same addresses have names, the same hooks are discovered, under these names. -/
theorem renamed_discover (image : Image) {first second : SymbolTable}
    (named : ∀ address, first.contains address = second.contains address) :
    List.Forall₂ Renamed (discover image first) (discover image second) := by
  rw [discover, discover, funext named, List.forall₂_map_left_iff, List.forall₂_map_right_iff]
  exact List.forall₂_same.mpr fun target _ => rfl

end Hook

namespace Trace

theorem exploreHook_eq_of_renamed (image : Image) (state : CpuState) (trace : Trace)
    {first second : Hook} (renamed : first.Renamed second) :
    trace.exploreHook image state first = trace.exploreHook image state second := by
  rw [← renamed]
  rfl

theorem renamed_contractFindings (trace : Trace) {hooks others : List Hook}
    (renamed : List.Forall₂ Hook.Renamed hooks others) :
    List.Forall₂ Finding.Renamed (trace.contractFindings hooks)
      (trace.contractFindings others) := by
  have validated : List.Forall₂ Hook.Renamed (hooks.filter Hook.isValidated)
      (others.filter Hook.isValidated) :=
    List.rel_filter (fun _ _ same => same.isValidated_iff) renamed
  exact List.rel_flatMap validated fun _ _ same => same.contractFindings trace

end Trace

namespace Report

open Trace

/-- The reports differ in the names of their hooks and in the messages at most. -/
structure Reworded (first second : Report) : Prop where
  trace : first.trace = second.trace
  hooks : List.Forall₂ Hook.Renamed first.hooks second.hooks
  critical : List.Forall₂ Hook.Renamed first.critical second.critical
  diagnostics : List.Forall₂ Diagnostic.Reworded first.diagnostics second.diagnostics

variable {image : Image} {config : Config}

/-- Both runs explore a hook, or both pass over it, and so they stay equal from hook to hook. -/
theorem explored_eq_of_renamed {hooks others : List Hook}
    (renamed : List.Forall₂ Hook.Renamed hooks others) :
    explored image config hooks = explored image config others := by
  rw [explored, explored]
  generalize rooted image config = trace
  induction renamed generalizing trace with
  | nil => rfl
  | cons same _ ih =>
      rw [List.foldl_cons, List.foldl_cons, exploreHook_eq_of_renamed _ _ _ same]
      exact ih _

theorem traceOf_eq_of_renamed {hooks others : List Hook}
    (renamed : List.Forall₂ Hook.Renamed hooks others) :
    traceOf image config hooks = traceOf image config others := by
  rw [traceOf_eq_conclude, traceOf_eq_conclude, explored_eq_of_renamed renamed]

/-- What the parts of a report find is about the same, whatever the names of the hooks. -/
theorem renamed_findings (trace : Trace) {hooks others : List Hook}
    (renamed : List.Forall₂ Hook.Renamed hooks others) :
    List.Forall₂ Finding.Renamed
      (trace.findings.toList ++ trace.contractFindings hooks ++ trace.graph.findings)
      (trace.findings.toList ++ trace.contractFindings others ++ trace.graph.findings) := by
  have same (findings : List Finding) : List.Forall₂ Finding.Renamed findings findings :=
    List.forall₂_same.mpr fun finding _ => .refl finding
  exact List.rel_append (List.rel_append (same _) (renamed_contractFindings trace renamed))
    (same _)

/-- Reports about the same hooks under other names say the same, whatever their symbols: their
traces are equal, so that only what the contracts find can be under another name. -/
theorem reworded_ofImage {first second : SymbolTable} {one other : Option Manifest}
    (hooks : List.Forall₂ Hook.Renamed (contracts image config first one).1
      (contracts image config second other).1)
    (critical : List.Forall₂ Hook.Renamed (contracts image config first one).2
      (contracts image config second other).2) :
    (ofImage image config first one).Reworded (ofImage image config second other) := by
  have trace : (ofImage image config first one).trace = (ofImage image config second other).trace :=
    traceOf_eq_of_renamed hooks
  have findings : List.Forall₂ Finding.Renamed (ofImage image config first one).findings
      (ofImage image config second other).findings := by
    have parts (symbols : SymbolTable) (manifest : Option Manifest) :
        let report := ofImage image config symbols manifest
        report.findings = report.trace.findings.toList ++
          report.trace.contractFindings (report.hooks ++ report.critical) ++
            report.trace.graph.findings := rfl
    rw [parts first one, parts second other, trace]
    exact renamed_findings _ (List.rel_append hooks critical)
  exact ⟨trace, hooks, critical,
    List.rel_map (fun _ _ renamed => renamed.reworded _ _) findings⟩

/-- With a manifest, symbols change no more than the messages: the trace with its states, returns
and call graph is the same, and so are the hooks. Discovered hooks may change their names too,
provided that the same addresses have one. -/
theorem symbols_affect_wording_only (image : Image) (config : Config)
    (first second : SymbolTable) :
    (∀ manifest : Manifest,
      let one := ofImage image config first (some manifest)
      let other := ofImage image config second (some manifest)
      one.trace = other.trace ∧ one.hooks = other.hooks ∧ one.critical = other.critical ∧
        List.Forall₂ Diagnostic.Reworded one.diagnostics other.diagnostics) ∧
    ((config.detect = true → ∀ address, first.contains address = second.contains address) →
      (ofImage image config first none).Reworded (ofImage image config second none)) := by
  have same (hooks : List Hook) : List.Forall₂ Hook.Renamed hooks hooks :=
    List.forall₂_same.mpr fun _ _ => rfl
  constructor
  · intro manifest one other
    have reworded : one.Reworded other := reworded_ofImage (same _) (same _)
    exact ⟨reworded.trace, rfl, rfl, reworded.diagnostics⟩
  · intro named
    refine reworded_ofImage ?hooks (same _)
    case hooks =>
      change List.Forall₂ _ (if config.detect then _ else _) (if config.detect then _ else _)
      split
      · rename_i detects
        exact Hook.renamed_discover image (named detects)
      · exact .nil

/-- A long call to an address outside the image. -/
def farCallImage : Image :=
  ⟨⟨#[0x22, 0x00, 0x00, 0x7E]⟩, .loRom⟩

def farTarget : Address :=
  ⟨0x7E, 0x0000⟩

/-- An analysis of discovered hooks alone. -/
def discovering : Config :=
  { Config.default with vectors := false }

/-- The only hook is never reached, and the message says so in the words of the symbols. -/
theorem message_of_farCallImage {symbols : SymbolTable} {name : String}
    (discovered : Hook.discover farCallImage symbols = [Hook.plain name farTarget .jsl]) :
    s!"Entry point {symbols.render farTarget} was never visited" ∈
      (ofImage farCallImage discovering symbols none).diagnostics.map Diagnostic.message := by
  have explored : explored farCallImage discovering [Hook.plain name farTarget .jsl] =
      (step farCallImage)^[2] (empty.enter farTarget .native8) := by
    have ends : ((step farCallImage)^[2] (empty.enter farTarget .native8)).isIdle = true := by
      decide +kernel
    exact run_eq_iterate ends
  have traced : Finding.unreachedEntry farTarget ∈
      (traceOf farCallImage discovering (Hook.discover farCallImage symbols)).findings.toList := by
    rw [discovered, traceOf_eq_conclude, explored]
    decide +kernel
  have found : Finding.unreachedEntry farTarget ∈
      (ofImage farCallImage discovering symbols none).findings :=
    List.mem_append_left _ (List.mem_append_left _ traced)
  exact List.mem_map_of_mem (List.mem_map_of_mem found)

/-- The hook and the message take the name from the symbols, and nothing else does. -/
theorem wording_of_farCallImage :
    let early := ofImage farCallImage discovering (.ofList [(farTarget, "early")]) none
    let late := ofImage farCallImage discovering (.ofList [(farTarget, "late")]) none
    early.hooks = [Hook.plain "early" farTarget .jsl] ∧
      late.hooks = [Hook.plain "late" farTarget .jsl] ∧
      "Entry point early was never visited" ∈ early.diagnostics.map Diagnostic.message ∧
      "Entry point late was never visited" ∈ late.diagnostics.map Diagnostic.message ∧
      early.Reworded late := by
  intro early late
  have earlyHooks : early.hooks = [Hook.plain "early" farTarget .jsl] := by decide +kernel
  have lateHooks : late.hooks = [Hook.plain "late" farTarget .jsl] := by decide +kernel
  have sameNamed (address : Address) : (SymbolTable.ofList [(farTarget, "early")]).contains address =
      (SymbolTable.ofList [(farTarget, "late")]).contains address := by
    simp only [SymbolTable.contains, SymbolTable.ofList, List.foldl_cons, List.foldl_nil,
      SymbolTable.insert, Std.TreeMap.contains_insert]
  exact ⟨earlyHooks, lateHooks, message_of_farCallImage earlyHooks,
    message_of_farCallImage lateHooks,
    (symbols_affect_wording_only farCallImage discovering _ _).2 fun _ => sameNamed⟩

end Report

end WidthTrace
