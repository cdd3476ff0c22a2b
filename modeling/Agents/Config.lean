import Agents.Capability
import Agents.Extraction
import Agents.Json.Decode
import Agents.Toml.Parser

/-! # Configuration

Settings of the runtime, each with a default. They are written as a TOML document in which
anything may be left out and unknown keys are ignored.
-/

namespace Agents

structure SandboxLimits where
  memoryLimitBytes : Nat := 16 * 1024 * 1024
  /-- How long a script may run, in milliseconds. -/
  deadlineMs : Nat := 5000
  /-- How many operations a script may perform; zero sets no limit. -/
  maxOperations : Nat := 1000000
  /-- The modules that may be imported. -/
  allowedModules : List String := []
  capabilities : List Capability := Capability.all
deriving DecidableEq, Repr, Inhabited

structure HttpLimits where
  /-- Where scripts may fetch from. -/
  allowedBaseUrls : List String := []
  timeoutMs : Nat := 30000
deriving DecidableEq, Repr, Inhabited

structure Config where
  maxRetries : Nat := 2
  /-- The model of agents that name none. -/
  defaultModel : String := "default"
  sandbox : SandboxLimits := {}
  http : HttpLimits := {}
  /-- What encloses the JSON in a model's answer. -/
  extraction : Delimiters := ⟨"```json".toList, "```".toList⟩
deriving DecidableEq, Repr, Inhabited

namespace SandboxLimits

def capabilitySet (l : SandboxLimits) : CapabilitySet := .ofList l.capabilities

def toJson (l : SandboxLimits) : Json :=
  .obj [("memory_limit_bytes", .ofNat l.memoryLimitBytes), ("deadline_ms", .ofNat l.deadlineMs),
    ("max_operations", .ofNat l.maxOperations),
    ("allowed_modules", .arr (l.allowedModules.map Json.str)),
    ("capabilities", .arr (l.capabilities.map fun c => .str c.name))]

def ofJson? : Json.Decoder SandboxLimits := fun json => do
  let fields ← Json.record
    ["memory_limit_bytes", "deadline_ms", "max_operations", "allowed_modules", "capabilities"] json
  let default : SandboxLimits := {}
  return {
    memoryLimitBytes :=
      ← Json.Fields.defaulted "memory_limit_bytes" (.word 64) default.memoryLimitBytes fields
    deadlineMs := ← Json.Fields.defaulted "deadline_ms" (.word 64) default.deadlineMs fields
    maxOperations :=
      ← Json.Fields.defaulted "max_operations" (.word 64) default.maxOperations fields
    allowedModules :=
      ← Json.Fields.defaulted "allowed_modules" (.list .string) default.allowedModules fields
    capabilities :=
      ← Json.Fields.defaulted "capabilities"
          (.list (.enum (Capability.all.map fun c => (c.name, c)))) default.capabilities fields }

end SandboxLimits

namespace HttpLimits

def toJson (l : HttpLimits) : Json :=
  .obj [("allowed_base_urls", .arr (l.allowedBaseUrls.map Json.str)),
    ("timeout_ms", .ofNat l.timeoutMs)]

def ofJson? : Json.Decoder HttpLimits := fun json => do
  let fields ← Json.record ["allowed_base_urls", "timeout_ms"] json
  let default : HttpLimits := {}
  return {
    allowedBaseUrls :=
      ← Json.Fields.defaulted "allowed_base_urls" (.list .string) default.allowedBaseUrls fields
    timeoutMs := ← Json.Fields.defaulted "timeout_ms" (.word 64) default.timeoutMs fields }

end HttpLimits

namespace Config

private def delimitersToJson (d : Delimiters) : Json :=
  .obj [("start", .str (String.ofList d.start)), ("end", .str (String.ofList d.finish))]

private def delimitersOfJson? : Json.Decoder Delimiters := fun json => do
  let fields ← Json.record ["start", "end"] json
  let default : Config := {}
  let text (key : String) (fallback : List Char) : Option (List Char) :=
    Json.Fields.defaulted key (fun json => json.str?.map String.toList) fallback fields
  return ⟨← text "start" default.extraction.start, ← text "end" default.extraction.finish⟩

def toJson (c : Config) : Json :=
  .obj [("max_retries", .ofNat c.maxRetries), ("default_model", .str c.defaultModel),
    ("sandbox", c.sandbox.toJson), ("http", c.http.toJson),
    ("extraction", delimitersToJson c.extraction)]

def ofJson? : Json.Decoder Config := fun json => do
  let fields ← Json.record
    ["max_retries", "default_model", "sandbox", "http", "extraction"] json
  let default : Config := {}
  return {
    maxRetries := ← Json.Fields.defaulted "max_retries" (.word 32) default.maxRetries fields
    defaultModel := ← Json.Fields.defaulted "default_model" .string default.defaultModel fields
    sandbox := ← Json.Fields.defaulted "sandbox" SandboxLimits.ofJson? default.sandbox fields
    http := ← Json.Fields.defaulted "http" HttpLimits.ofJson? default.http fields
    extraction :=
      ← Json.Fields.defaulted "extraction" delimitersOfJson? default.extraction fields }

def isHttpUrl (url : String) : Bool :=
  "http://".toList.isPrefixOf url.toList || "https://".toList.isPrefixOf url.toList

def complaint? (c : Config) : Option String :=
  if c.sandbox.deadlineMs = 0 then some "sandbox.deadline_ms must be greater than zero"
  else if c.sandbox.memoryLimitBytes = 0 then
    some "sandbox.memory_limit_bytes must be greater than zero"
  else (c.http.allowedBaseUrls.find? (!isHttpUrl ·)).map fun bad =>
    "http.allowed_base_urls entry '" ++ bad ++ "' is not an http(s) URL"

def validate (c : Config) : Except Error Config :=
  match c.complaint? with
  | some reason => .error (.config reason)
  | none => .ok c

def ofToml (text : String) : Except Error Config :=
  let malformed (what : String) : Except Error Config :=
    .error (.config ("failed to parse runtime config TOML: " ++ what))
  match Toml.parse? text with
  | none => malformed "not a TOML document"
  | some json =>
    match ofJson? json with
    | none => malformed "a setting has the wrong type"
    | some c => c.validate

end Config

end Agents
