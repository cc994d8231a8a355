import AgentTranscript.Library.VersionedCell
import AgentTranscript.Document

/-! The bucket as its clients see it: conditional writes of versioned objects. -/

set_option autoImplicit false

namespace AgentTranscript

open VersionedCell

abbrev ETag := String

structure Fetched (Blob : Type) where
  body : Blob
  etag : Option ETag
  deriving DecidableEq, Repr

inductive Precondition where
  | none
  | ifMatch (etag : ETag)
  | ifNoneMatchStar
  deriving DecidableEq, Repr

def Precondition.guard : Precondition → Guard ETag
  | .none => .always
  | .ifMatch etag => .version etag
  | .ifNoneMatchStar => .absent

/-- GET of an object. The store answers every read with an ETag. -/
def getObject {Blob : Type} (cell : Cell Blob ETag) : Option (Fetched Blob) :=
  cell.content.map fun stored => { body := stored.1, etag := some stored.2 }

/-- The catalog as an object body: `serde_json` and then `crypto::encrypt` under
the catalog's key, with the random nonce made explicit. -/
class CatalogCodec (Blob : Type) where
  encode : Nonce → Catalog → Except Error Blob
  decode : Blob → Except Error Catalog
  decode_encode : ∀ nonce catalog body, encode nonce catalog = .ok body →
    decode body = .ok catalog

@[reducible] def CatalogCodec.plain : CatalogCodec Catalog where
  encode _ catalog := .ok catalog
  decode := .ok
  decode_encode := by
    intro _ catalog body encoded
    exact encoded ▸ rfl

section Load

variable [HarnessNames] {Blob : Type} [CatalogCodec Blob]

def loadCatalog (fetched : Option (Fetched Blob)) : Except Error (Catalog × Option ETag) :=
  match fetched with
  | none => .ok (Catalog.empty, none)
  | some fetched => do
      let catalog ← CatalogCodec.decode fetched.body
      validate catalog
      .ok (catalog, fetched.etag)

/-- Reading `body`, or its absence, as a valid catalog. -/
def Reads (body : Option Blob) (catalog : Catalog) : Prop :=
  match body with
  | none => catalog = Catalog.empty
  | some body => CatalogCodec.decode body = .ok catalog ∧ validate catalog = .ok ()

end Load

end AgentTranscript
