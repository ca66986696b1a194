import Fakecloud.Core.Auth
import Fakecloud.Lib.Percent

/-!
# Requests

What dispatch reads of an HTTP request, and the request it hands to a service.

* `HeaderMap` keeps the header lines in wire order; its names are lower-case tokens by construction.
  `getStr` reads the first line of a name, and only if that line is visible ASCII.
* `queryMap` is the query string as the web framework decodes it: `+` is a space, and the last value
  of a repeated key wins.
* `decodeFormUrlencoded` is the decoder of form bodies, which drops a malformed escape instead of
  keeping it.
* `splitPathSegments` splits the raw path, drops empty segments and decodes each of the others.
-/

namespace Fakecloud.Core

open Text

/-! ## Headers -/

/-- The characters of a header name after the HTTP library has lower-cased it. -/
def isNameChar (c : Char) : Bool :=
  ('a' ≤ c && c ≤ 'z') || c.isDigit || List.contains ("!#$%&'*+-.^_`|~" : Str) c

/-- What `HeaderName::from_bytes` accepts. -/
def isHeaderName (s : Str) : Bool := !s.isEmpty && s.all isNameChar

/-- The lines of a request's headers, in wire order. -/
structure HeaderMap where
  lines : List (Str × Bytes)
  named : ∀ line ∈ lines, isHeaderName line.1 = true

/-- `HeaderValue::to_str`: visible ASCII and tabs only. -/
def toStr? (value : Bytes) : Option Str :=
  if value.all fun b => (0x20 ≤ b && b < 0x7F) || b == 0x09 then
    some (value.map fun b => Char.ofNat b.toNat)
  else none

namespace HeaderMap

theorem named_nil : ∀ line ∈ ([] : List (Str × Bytes)), isHeaderName line.1 = true := by simp

def get (h : HeaderMap) (name : Str) : Option Bytes := h.lines.lookup name

/-- The first line of a name, if it is readable. -/
def getStr (h : HeaderMap) (name : Str) : Option Str := (h.get name).bind toStr?

def allStr (h : HeaderMap) (name : Str) : List Str :=
  (h.lines.filter fun line => line.1 == name).filterMap fun line => toStr? line.2

def containsKey (h : HeaderMap) (name : Str) : Bool := (h.get name).isSome

def insertNew (h : HeaderMap) (name : Str) (value : Bytes) : HeaderMap :=
  if hn : isHeaderName name = true then
    ⟨h.lines ++ [(name, value)], by
      intro line hmem
      rcases List.mem_append.mp hmem with hold | hnew
      · exact h.named line hold
      · rw [List.mem_singleton.mp hnew]
        exact hn⟩
  else h

end HeaderMap

/-! ## Query strings and forms -/

abbrev QueryMap := List (Str × Str)

/-- The value of a parameter: the last one given. -/
def QueryMap.get (q : QueryMap) (key : Str) : Option Str := q.reverse.lookup key

def QueryMap.containsKey (q : QueryMap) (key : Str) : Bool := (q.get key).isSome

/-- The pairs of a query string before anything is decoded; a parameter without `=` has no value. -/
def rawPairs (s : Str) : List (Str × Str) :=
  ((s.splitOn '&').filter fun pair => !pair.isEmpty).map fun pair =>
    (splitOnce '=' pair).getD (pair, [])

/-- One component as the web framework decodes it. -/
def formDecode (s : Str) : Str := percentDecode (s.map fun c => if c = '+' then ' ' else c)

def queryMap (query : Str) : QueryMap :=
  (rawPairs query).map fun kv => (formDecode kv.1, formDecode kv.2)

/-- The bytes of a form component; a malformed escape is dropped with the bytes it would cover. -/
def urlDecodeBytes : Bytes → Bytes
  | [] => []
  | b :: rest =>
    if b == 0x2B then 0x20 :: urlDecodeBytes rest
    else if b == 0x25 then
      match rest with
      | h :: l :: rest =>
        match hexVal (Char.ofNat h.toNat), hexVal (Char.ofNat l.toNat) with
        | some x, some y => UInt8.ofNat (16 * x + y) :: urlDecodeBytes rest
        | _, _ => urlDecodeBytes rest
      | _ => []
    else b :: urlDecodeBytes rest

def urlDecode (s : Str) : Str := utf8Lossy (urlDecodeBytes (utf8 s))

/-- `str::from_utf8`. -/
def fromUtf8 (body : Bytes) : Option Str :=
  if utf8 (utf8Lossy body) = body then some (utf8Lossy body) else none

/-- The parameters of a form body; a body that is not UTF-8 has none. -/
def decodeFormUrlencoded (body : Bytes) : QueryMap :=
  (rawPairs ((fromUtf8 body).getD [])).map fun kv => (urlDecode kv.1, urlDecode kv.2)

/-! ## Paths -/

/-- `percent_decode_segment`: decode the segment, which changes nothing unless it holds a `%`. -/
def percentDecodeSegment (segment : Str) : Str :=
  if segment.contains '%' then percentDecode segment else segment

/-- The decoded segments of a raw path, the empty ones dropped. -/
def splitPathSegments (rawPath : Str) : List Str :=
  ((rawPath.splitOn '/').filter fun s => !s.isEmpty).map percentDecodeSegment

/-! ## Requests -/

structure HttpRequest where
  method : Str
  /-- the raw path of the URI -/
  path : Str
  /-- the raw query of the URI, without the question mark -/
  query : Str
  headers : HeaderMap
  body : Bytes
  /-- set by in-process code only: the request is for this service -/
  pinned : Option Str := none
  /-- set by in-process code only -/
  internalCaller : Option InternalCaller := none
  remoteAddr : IpAddr
  /-- a method is a token, so it holds no line break -/
  methodToken : '\n' ∉ method

structure AwsRequest where
  service : Str
  action : Str
  region : Str
  accountId : Str
  headers : HeaderMap
  queryParams : QueryMap
  body : Bytes
  bodyStream : Option Bytes
  pathSegments : List Str
  rawPath : Str
  rawQuery : Str
  method : Str
  isQueryProtocol : Bool
  accessKeyId : Option Str
  principal : Option Principal

end Fakecloud.Core
