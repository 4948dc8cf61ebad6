import Mapkeys.Token.Content
import Mapkeys.Text.Quoted

/-!
# Definitions

What a record says about its mapkey: name, texts and the names it calls. Each text is that of the
first tag of its kind.
-/

namespace Mapkeys

open Text

/-- What a record says about its mapkey, by the tokens that say it. -/
structure Definition where
  record : Record
  nameToken : Option Token
  descriptionToken : Option Token
  labelToken : Option Token
  systemToken : Option Token
  callTokens : List Token
  deriving Repr, DecidableEq

namespace Definition

/-- The definition that a record gives. -/
def ofRecord (record : Record) : Definition :=
  let tokens := record.tokens
  { record
    nameToken := Token.first? .name tokens
    descriptionToken := Token.first? .description tokens
    labelToken := Token.first? .label tokens
    systemToken := Token.first? .systemInstruction tokens
    callTokens := tokens.filter (·.kind = .nestedCall) }

/-- The name of the mapkey. -/
def name (definition : Definition) : Text := definition.record.name

/-- The description of the mapkey. -/
def description? (definition : Definition) : Option Text :=
  definition.descriptionToken.map Token.value

/-- The label of the mapkey. -/
def label? (definition : Definition) : Option Text := definition.labelToken.map Token.value

/-- The instruction for the system. -/
def system? (definition : Definition) : Option Text := definition.systemToken.map Token.value

/-- The names that the mapkey calls, in the order of the source and as often as it calls them. -/
def calledNames (definition : Definition) : List Text := definition.callTokens.map Token.value

/-- The offsets of the record. -/
def span (definition : Definition) : Span := ⟨definition.record.start, definition.record.stop⟩

end Definition

/-! ## One-line summaries -/

/-- A record in one line. -/
def Record.summary (record : Record) : Text :=
  "Block(id=".toList ++ quoted record.id ++ ", name=".toList ++ quoted record.name
    ++ ", lines=".toList ++ ofNat record.declaration.index ++ ['-'] ++ ofNat record.lastLine.index
    ++ ", tokens=".toList ++ ofNat record.tokens.length ++ [')']

/-- A definition in one line. -/
def Definition.summary (definition : Definition) : Text :=
  "MapkeyDefinition(name=".toList ++ quoted definition.name
    ++ ", range=".toList ++ ofNat definition.record.start ++ ['-']
    ++ ofNat definition.record.stop
    ++ ", calls=".toList ++ quotedList definition.calledNames ++ [')']

end Mapkeys
