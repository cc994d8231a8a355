import AgentTranscript.Document
import AgentTranscript.Views.Sessions

/-! Reading the body a merged view points at. -/

set_option autoImplicit false

namespace AgentTranscript

/-- Where bodies come from at one moment: sources on disk, and archived objects
through the plaintext cache. -/
structure Bodies where
  load : Load
  loadPlaintext : String → String → Except Error Bytes

/-- `serde_json::from_slice` of a document. -/
class DocumentReader where
  fromSlice : Bytes → Except Error ArchiveDocument

/-- `Remote` documents are keyed by their content hash, local ones by the
fingerprint of their source. -/
def fingerprintOf (view : MergedView) : String :=
  match view.pick with
  | .remote => view.contentHash
  | .local => view.localFingerprint.getD ""
  | .ambiguous => ""

def ArchiveDocument.intoTranscript (document : ArchiveDocument) : Except Error Transcript :=
  if document.schema ≠ documentSchema then .error (.schema document.schema)
  else .ok { metadata := document.metadata, body := document.messages }

section Transcript

variable [HarnessNames] [DocumentReader]

def documentFromPlaintext (bytes : Bytes) : Except Error ArchiveDocument := do
  let document ← DocumentReader.fromSlice bytes
  if document.schema ≠ documentSchema then .error (.schema document.schema)
  else .ok document

omit [DocumentReader] in
def loadError (view : MergedView) (failure : LoadFailure) : Error :=
  let message := match failure with
    | .transient message => message
    | .broken message => message
  let harness := HarnessNames.display view.harness
  .msg s!"reading {harness} {view.sessionId}: {message}"

def transcript (bodies : Bodies) (view : MergedView) : Except Error Transcript :=
  let harness := HarnessNames.display view.harness
  match view.pick with
  | .ambiguous => .error (.ambiguous harness view.sessionId)
  | .local =>
      match view.localSource with
      | none => .error (.msg s!"local session {harness} {view.sessionId} has no source")
      | some source =>
          match bodies.load view.harness source with
          | .ok transcript => .ok transcript
          | .error failure => .error (loadError view failure)
  | .remote =>
      match view.objectKey with
      | none => .error (.msg s!"remote session {harness} {view.sessionId} has no object")
      | some objectKey => do
          let plain ← bodies.loadPlaintext objectKey view.contentHash
          let document ← documentFromPlaintext plain
          document.intoTranscript

end Transcript

end AgentTranscript
