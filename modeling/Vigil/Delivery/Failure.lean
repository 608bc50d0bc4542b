/-!
# Undelivered messages

Why a message did not reach those it was meant for: its template could not be rendered, the channel is
set up so that it can never deliver, the service could not be reached, or the service refused.
-/

namespace Vigil

/-- Why a template gives no message. -/
inductive TemplateError where
  | malformed
  | blank (template : String)
  deriving DecidableEq, Repr

/-- What is wrong with the set-up of a channel. -/
inductive SetupError where
  | fieldRequired (service field : String)
  | invalidMethod (method : String)
  | stated (reason : String)
  deriving DecidableEq, Repr

/-- Why a message was not delivered. -/
inductive DeliveryError where
  | unreachable
  | refused (status : Nat) (body : String)
  | template (cause : TemplateError)
  | setup (cause : SetupError)
  deriving DecidableEq, Repr

def SetupError.message : SetupError → String
  | .fieldRequired service field => s!"{service} channel requires '{field}'"
  | .invalidMethod method => s!"invalid method '{method}'"
  | .stated reason => reason

def DeliveryError.message : DeliveryError → String
  | .unreachable => "HTTP request failed"
  | .refused status body => s!"unexpected status {status}: {body}"
  | .template .malformed => "template rendering failed"
  | .template (.blank source) =>
    s!"template rendering failed: template '{source}' rendered to an empty message"
  | .setup cause => s!"configuration error: {cause.message}"

end Vigil
