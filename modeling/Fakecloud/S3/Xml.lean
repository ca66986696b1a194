import Fakecloud.Core.Http

/-!
# The XML of S3 bodies

S3 reads its XML bodies with a search for tags, not with a parser: `extract_xml_value`,
`decode_xml_entities`, and the loops that collect the repeated elements of a body.
-/

namespace Fakecloud.S3

open Text Fakecloud.Core

/-! ## Text nodes -/

/-- `u32::from_str_radix` with radix 16. -/
def parseHexU32 (s : Str) : Option ℕ := parseHex (2 ^ 32) s

/-- `char::from_u32`. -/
def charFromU32 (n : ℕ) : Option Char := if n.isValidChar then some (Char.ofNat n) else none

/-- The character of an entity, without its `&` and `;`. -/
def xmlEntity (entity : Str) : Option Char :=
  if entity == "amp" then some '&'
  else if entity == "lt" then some '<'
  else if entity == "gt" then some '>'
  else if entity == "quot" then some '"'
  else if entity == "apos" then some '\''
  else
    let hex := ((entity.dropPrefix? "#x").or (entity.dropPrefix? "#X")).bind parseHexU32
    (hex.or ((entity.dropPrefix? ['#']).bind (parseUnsigned (2 ^ 32)))).bind charFromU32

/-- The entity that starts behind an ampersand, with its length; a name has at most ten bytes. -/
def entityAt (s : Str) : Option (Char × ℕ) :=
  (splitOnce ';' s).bind fun cut =>
    if (utf8 cut.1).length ≤ 10 then (xmlEntity cut.1).map fun c => (c, cut.1.length + 1) else none

/-- The scan of `decode_xml_entities`; the counter is what is left of an entity. -/
def decodeEntitiesFrom : ℕ → Str → Str
  | _, [] => []
  | k + 1, _ :: s => decodeEntitiesFrom k s
  | 0, c :: s =>
    if c == '&' then
      match entityAt s with
      | some (decoded, n) => decoded :: decodeEntitiesFrom n s
      | none => '&' :: decodeEntitiesFrom 0 s
    else c :: decodeEntitiesFrom 0 s

def decodeXmlEntities (s : Str) : Str := decodeEntitiesFrom 0 s

def openTag (tag : Str) : Str := '<' :: tag ++ ['>']

def closeTag (tag : Str) : Str := '<' :: '/' :: tag ++ ['>']

/-- The text of the first element with a tag; a self-closing element that comes first is empty. -/
def extractXmlValue (xml tag : Str) : Option Str :=
  let selfClosing := (xml.dropInfix? ('<' :: tag ++ " />")).or
    (xml.dropInfix? ('<' :: tag ++ "/>"))
  let opened := xml.dropInfix? (openTag tag)
  let isEmpty := match selfClosing, opened with
    | some closed, some cut => decide (closed.1.length < cut.1.length)
    | some _, none => true
    | none, _ => false
  if isEmpty then some []
  else
    opened.bind fun cut => (cut.2.dropInfix? (closeTag tag)).map fun inner => decodeXmlEntities inner.1

/-! ## Repeated elements -/

/-- What stands in the elements with a tag, in order; the counter bounds the rounds. -/
def xmlBodies (tag : Str) : ℕ → Str → List Str
  | 0, _ => []
  | n + 1, xml =>
    match xml.dropInfix? (openTag tag) with
    | none => []
    | some cut =>
      match cut.2.dropInfix? (closeTag tag) with
      | none => []
      | some inner => inner.1 :: xmlBodies tag n inner.2

def parseTaggingXml (xml : Str) : List (Str × Str) :=
  (xmlBodies "Tag" xml.length xml).filterMap fun body =>
    (extractXmlValue body "Key").bind fun key =>
      (extractXmlValue body "Value").map fun value => (key, value)

def createBucketConfigurationTags (body : Str) : List (Str × Str) :=
  if body.isEmpty || !containsStr body "CreateBucketConfiguration" then [] else parseTaggingXml body

/-- The body as text; what is not UTF-8 counts as nothing. -/
def bodyText (body : Bytes) : Str := (fromUtf8 body).getD []

def replicationRoleArn (body : Bytes) : Option Str :=
  (fromUtf8 body).bind fun text =>
    (text.dropInfix? (openTag "Role")).bind fun cut =>
      (cut.2.dropInfix? (closeTag "Role")).bind fun inner =>
        if (trim inner.1).isEmpty then none else some (trim inner.1)

end Fakecloud.S3
