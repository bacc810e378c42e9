import Polish.Config.Settings

/-!
# Settings from a file

`Settings.load` is `load_engine_config`, from the content of the file on: the content is read as a
document, a document that counts as nothing configures nothing, any other one has to be a map, and
what comes of it is validated.  The reader of documents is a parameter, as the validator is.
-/

set_option autoImplicit false

namespace Polish.Config

variable {τ ε : Type}

/-- Why there are no settings in a file. -/
inductive FileFault (τ ε : Type) where
  | unreadable (trouble : τ)
  | notAMap
  | invalid (complaint : ε)

/-- What a file is said to be instead of a map. -/
def notAMapMessage (path : String) : String := s!"Engine configuration in {path} must be a mapping"

/-- The settings of a file with some content. -/
def Settings.load (read : String → Except τ Value) (validate : Validator ε) (content : String) :
    Except (FileFault τ ε) Settings :=
  match read content with
  | .error trouble => .error (.unreadable trouble)
  | .ok value =>
    match if value.isVoid then .map [] else value with
    | .map entries => (validate schema (.map entries)).mapError .invalid
    | _ => .error .notAMap

end Polish.Config
