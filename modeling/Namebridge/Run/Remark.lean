import Namebridge.Archive
import Namebridge.Json.Fault

/-!
# Explanations of failures

A failure is explained by remarks, the most general first and the cause last. Most are sentences.
The causes that come from outside of the program, from a JSON text, from an archive or from the
network, are kept as what they are.
-/

namespace Namebridge

/-- A part of the explanation of a failure. -/
inductive Remark where
  | sentence (text : String)
  | json (fault : Json.Fault)
  | archive (fault : Archive.Fault)
  /-- A request was not answered, or its answer was cut short. -/
  | network
deriving DecidableEq, Repr

namespace Remark

/-- A remark in words. -/
def text : Remark → String
  | sentence text => text
  | json fault => fault.message
  | archive fault => fault.message
  | network => "the request failed"

/-- Sentences as remarks. -/
def sentences (texts : List String) : List Remark := texts.map sentence

end Remark

end Namebridge
