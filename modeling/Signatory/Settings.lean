import Signatory.Binary64.Decimal
import Signatory.Error
import Signatory.Log
import Signatory.OrderedMap
import Signatory.Text.Quoted

/-! Settings that come from the environment: time limits in seconds, an API key, and where the certificates of
a gateway are found. A setting that is empty counts as unset. -/

namespace Signatory
set_option autoImplicit false

abbrev Environment := OrderedMap Text Text

namespace Environment

/-- A variable that is set to something. -/
def setting? (env : Environment) (name : Text) : Option Text := (env.find? name).filter (!·.isEmpty)

/-- An environment keeps bytes. A surrogate in it stands for a byte beyond ASCII, and no byte is zero. -/
def checkText (s : Text) : Except Error Unit :=
  if s.any fun p => p.isSurrogate && !(0xDC80 ≤ p.val && p.val < 0xDD00) then .error .notUnicode
  else if s.any fun p => p.val = 0 then .error .unreadable
  else .ok ()

def check (env : Environment) : Except Error Unit :=
  env.entries.forM fun e => do
    checkText e.1
    checkText e.2

end Environment

namespace Settings

def timeoutVariable : Text := "LEDGERKIT_GATEWAY_TIMEOUT"

def pollIntervalVariable : Text := "LEDGERKIT_POLL_INTERVAL"

def apiKeyVariable : Text := "LEDGERKIT_API_KEY"

def certificateVariable : Text := "LEDGERKIT_GATEWAY_CA"

def strictCertificateVariable : Text := "LEDGERKIT_GATEWAY_STRICT_CA"

/-- A number of seconds. One that cannot be read gives the default, and a warning. -/
def seconds (env : Environment) (name : Text) (default : Int) : Binary64 × List LogLine :=
  let default := Binary64.ofInt default
  match env.setting? name with
  | none => (default, [])
  | some raw =>
    match Binary64.parse? raw with
    | some x => (x, [])
    | none =>
      (default, [⟨.warning,
        .concat ["Ignoring invalid ", name, "=", Text.Quoted.encode raw, ", using ", default.render]⟩])

/-- Seconds that one call may take. -/
def timeout (env : Environment) : Binary64 × List LogLine := seconds env timeoutVariable 5

/-- Seconds between two looks at a result. -/
def pollInterval (env : Environment) : Binary64 × List LogLine := seconds env pollIntervalVariable 1

def apiKey (env : Environment) : Option Text := env.setting? apiKeyVariable

/-- A file with certificates that replace those of the system. -/
def certificatePath (env : Environment) : Option Text := env.setting? certificateVariable

def strictCertificate (env : Environment) : Bool := env.find? strictCertificateVariable == some ("1" : Text)

end Settings

end Signatory
