import FreeswitchEsl.Text

/-!
# Third-party code

The client calls `percent_encoding`, `serde_json` and `quick_xml`.  Their sources
are not part of the repository, so the model takes their functions as parameters.
What a result relies on is a named hypothesis about them.
-/

namespace FreeswitchEsl

/-- `serde_json::Value`.  A number is kept as the text it is printed as. -/
inductive JsonValue where
  | null
  | bool (value : Bool)
  | number (text : Str)
  | string (text : Str)
  | array (items : List JsonValue)
  | object (members : List (Str × JsonValue))

/-- What `quick_xml::Reader::read_event` can report, as far as the decoder looks
at it.  A text carries the result of `unescape`. -/
inductive XmlEvent where
  | start (name : Str)
  | endTag (name : Str)
  | text (unescaped : Except Str Str)
  | other

/-- All events of a document, and the error that ends them when the end of the
document is not reached. -/
structure XmlReading where
  events : List XmlEvent
  error : Option Str

structure Crates where
  /-- `percent_decode_str(s).decode_utf8()`, nothing if the bytes are not UTF-8. -/
  percentDecodeUtf8 : Str → Option Str
  /-- `percent_encode(s.as_bytes(), NON_ALPHANUMERIC)`. -/
  percentEncode : Str → Str
  /-- `serde_json::from_str::<Value>`. -/
  jsonFromStr : Str → Except Str JsonValue
  /-- `Value::to_string`. -/
  jsonToString : JsonValue → Str
  /-- The events that `quick_xml::Reader::from_str` reads. -/
  xmlRead : Str → XmlReading

/-- The documented behaviour of `percent_encoding`: the encoding leaves ASCII
letters and digits and writes everything else with `%`, decoding undoes it, and
a text without `%` decodes to itself. -/
structure Crates.PercentLaws (X : Crates) : Prop where
  decode_encode : ∀ s, X.percentDecodeUtf8 (X.percentEncode s) = some s
  mem_encode : ∀ s, ∀ c ∈ X.percentEncode s, c.isAlphanum = true ∨ c = '%'
  decode_plain : ∀ s, '%' ∉ s → X.percentDecodeUtf8 s = some s

end FreeswitchEsl
