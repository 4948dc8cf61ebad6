import Mapkeys.Definition
import Mapkeys.Token.Marker

/-!
# Documents

Everything that reading a document gives: its lines, its records, one definition for each record,
and all tokens in order.
-/

namespace Mapkeys

/-- A document that has been read. -/
structure Document where
  text : Text
  lines : List Line
  records : List Record
  definitions : List Definition
  tokens : List Token
  deriving Repr, DecidableEq

namespace Document

/-- Reads a document. -/
def parse (text : Text) : Document :=
  let lines := Line.split text
  let records := Record.segment lines
  { text
    lines
    records
    definitions := records.map Definition.ofRecord
    tokens := Token.sort (records.flatMap Record.tokens ++ Marker.tokens lines records) }

end Document
end Mapkeys
