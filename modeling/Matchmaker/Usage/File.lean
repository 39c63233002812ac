import Matchmaker.Usage.Report
import Matchmaker.Usage.Settings
import Matchmaker.Yaml.Decode

/-!
Exports of usage and settings of the correction as documents.
-/
namespace Matchmaker

namespace WindowUsage

def ofNode? (d : Yaml.Document) (node : Yaml.Node) : Option (WindowUsage Float) := do
  let record ← d.asRecord? node
  let usage? (node : Yaml.Node) : Option (Usage Float) :=
    (d.asMap? d.asText? d.asFloat? node).map fun found => .ofList found
  let groups ← Yaml.field? record "groups" usage?
  let identities ← Yaml.field? record "identities" (d.asMap? d.asText? usage?)
  some ⟨groups.getD ∅, .ofList (identities.getD [])⟩

end WindowUsage

namespace UsageExport

def ofDocument? (d : Yaml.Document) : Option (UsageExport Float) := do
  let record ← d.rootRecord?
  let windows ← Yaml.field? record "windows" (d.asMap? d.asWord? (WindowUsage.ofNode? d))
  some (.ofList (windows.getD []))

def read : Option String → Except CollaboratorError (UsageExport Float)
  | none => .error .unreadable
  | some text =>
    match (Yaml.Document.ofText? text).bind ofDocument? with
    | none => .error .malformed
    | some windows => checked windows

end UsageExport

namespace UsageWindow

def ofNode? (d : Yaml.Document) (node : Yaml.Node) : Option (UsageWindow Float) := do
  let record ← d.asRecord? node
  let span ← (← Yaml.field? record "time_span_secs" d.asWord?)
  let weight ← (← Yaml.field? record "weight" d.asFloat?)
  let maxCorrection ← (← Yaml.field? record "max_correction" d.asFloat?)
  some ⟨span, weight, maxCorrection⟩

end UsageWindow

namespace HistorySettings

/-- Settings that are not given are the standard ones, but there are no windows. -/
def ofDocument? (d : Yaml.Document) : Option (HistorySettings Float) := do
  let record ← d.rootRecord?
  let enabled ← Yaml.field? record "enabled" d.asBool?
  let period ← Yaml.field? record "update_period_secs" d.asWord?
  let maxCorrection ← Yaml.field? record "global_max_correction" d.asFloat?
  let windows ← Yaml.field? record "windows" fun node =>
    (d.asItems? node).bind fun items => items.mapM (UsageWindow.ofNode? d)
  let s : HistorySettings Float := standard
  some ⟨enabled.getD s.enabled, period.getD s.period, maxCorrection.getD s.maxCorrection,
    windows.getD []⟩

def read : Option String → Except SettingsError (HistorySettings Float)
  | none => .error .unreadable
  | some text =>
    match (Yaml.Document.ofText? text).bind ofDocument? with
    | none => .error .malformed
    | some settings => settings.checked

end HistorySettings

end Matchmaker
