import StridedViews.Layout.Basic
import StridedViews.Text.Record
import StridedViews.Toml.Document
import StridedViews.View.ReleasePolicy

/-!
Configuration of a view host: what releasing an exported view does, the highest rank of a view,
whether buffers are counted, and whether the host's own buffers are read-only by default. A
configuration is read from the members of a settings table, in which every known key may be missing
and every unknown one is ignored, and is written back as TOML.
-/

namespace StridedViews

/-- The configuration of a view host. -/
structure Config where
  releasePolicy : ReleasePolicy := .bestEffort
  maxDimensions : Nat := StridedViews.maxDimensions
  trackStats : Bool := true
  defaultReadOnly : Bool := false
  deriving DecidableEq, Repr, Inhabited

/-- Why there is no configuration. -/
inductive ConfigError where
  | unreadable (path reason : String)
  | malformed
  | unwritable
  | tooManyDimensions (n : Nat)
  deriving DecidableEq, Repr

/-- The text of a configuration error. -/
def ConfigError.message : ConfigError → String
  | unreadable path reason => s!"cannot read config '{path}': {reason}"
  | malformed => "TOML parse error"
  | unwritable => "TOML serialise error"
  | tooManyDimensions n => s!"max_dimensions {n} exceeds the limit of {maxDimensions}"

namespace Config

open Toml (Node Entries)

/-- A setting, or its default if the key is missing; `none` if the value is of the wrong sort. -/
def setting {α : Type} (entries : Entries) (key : String) (default : α)
    (read : Node → Option α) : Option α :=
  match entries.lookup key with
  | none => some default
  | some n => read n

/-- A policy: its name, or a table whose only key is its name and whose value there is a blank. What
counts as a blank depends on the notation that the settings come from. -/
def readPolicy (isBlank : Node → Bool) : Node → Option ReleasePolicy
  | .text s => ReleasePolicy.ofName? s
  | .table _ [(key, n)] => if isBlank n then ReleasePolicy.ofName? key else none
  | _ => none

/-- A size that an unsigned word holds. -/
def readSize : Node → Option Nat
  | .integer i => if 0 ≤ i then Word.unsigned? i.toNat else none
  | _ => none

def readFlag : Node → Option Bool
  | .boolean b => some b
  | _ => none

/-- Reads the members of a settings table, checking each on its own only. -/
def ofEntries? (isBlank : Node → Bool) (entries : Entries) : Option Config := do
  let standard : Config := {}
  return {
    releasePolicy :=
      ← setting entries "release_policy" standard.releasePolicy (readPolicy isBlank)
    maxDimensions := ← setting entries "max_dimensions" standard.maxDimensions readSize
    trackStats := ← setting entries "track_stats" standard.trackStats readFlag
    defaultReadOnly := ← setting entries "default_read_only" standard.defaultReadOnly readFlag }

/-- Accepts a configuration whose highest rank no layout exceeds. -/
def validate (c : Config) : Except ConfigError Unit :=
  if c.maxDimensions > StridedViews.maxDimensions then .error (.tooManyDimensions c.maxDimensions)
  else .ok ()

/-- Reads and validates a TOML document. -/
def ofToml (text : String) : Except ConfigError Config := do
  match (Toml.read? text).bind (ofEntries? Node.isEmpty) with
  | none => throw .malformed
  | some c =>
    c.validate
    return c

/-- Reads the content of a file, `none` if there is no file of that name. -/
def ofFile (path : String) (content : Option ByteArray) : Except ConfigError Config :=
  match content with
  | none => .error (.unreadable path "No such file or directory (os error 2)")
  | some bytes =>
    match String.fromUTF8? bytes with
    | none => .error (.unreadable path "stream did not contain valid UTF-8")
    | some text => ofToml text

/-- Writes a configuration as a TOML document; the highest rank must be a signed word. -/
def toToml (c : Config) : Except ConfigError String :=
  match Word.distance? c.maxDimensions with
  | none => .error .unwritable
  | some n =>
    .ok (String.join
      [s!"release_policy = \"{c.releasePolicy.name}\"\n", s!"max_dimensions = {n}\n",
       s!"track_stats = {Text.truth c.trackStats}\n",
       s!"default_read_only = {Text.truth c.defaultReadOnly}\n"])

/-- The text of a configuration. -/
def describe (c : Config) : String :=
  Text.describe "RuntimeConfig"
    [("release_policy", c.releasePolicy.label), ("max_dimensions", toString c.maxDimensions),
     ("track_stats", Text.truth c.trackStats),
     ("default_read_only", Text.truth c.defaultReadOnly)]

end Config
end StridedViews
