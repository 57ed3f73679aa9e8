import Signatory.Error
import Signatory.Toml.Reader

/-! The version of a package: that under which it is installed, or else the one that the description of its
project names. -/

namespace Signatory.Package
set_option autoImplicit false

/-- The version where nothing tells another. -/
def defaultVersion : Toml := .text "0.1.0"

def describedVersion (description : Toml.Table) : Except Error Toml :=
  match Entries.find? ("project" : Text) description with
  | none => .ok defaultVersion
  | some (.table project) => .ok ((Entries.find? ("version" : Text) project).getD defaultVersion)
  | some _ => .error .wrongKind

/-- A description that is not there or cannot be read tells nothing. One with a surrogate is no text of a file. -/
def version (installed description : Option Text) : Except Error Toml :=
  if description.any (·.any CodePoint.isSurrogate) then .error .notUnicode
  else
    match installed with
    | some version => .ok (.text version)
    | none => ((description.bind Toml.parse?).map describedVersion).getD (.ok defaultVersion)

end Signatory.Package
