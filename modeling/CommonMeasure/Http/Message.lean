import CommonMeasure.Foundation.Text
import Mathlib

namespace CommonMeasure.Http

/-! ### Header fields -/

def MAX_HEADER_BYTES : Nat := 64 * 1024

def MAX_BODY_BYTES : Nat := 32 * 1024 * 1024

def maxWord : Nat := 2 ^ 64

def isDigit (b : UInt8) : Bool := 48 ≤ b && b ≤ 57

def isAlphabetic (b : UInt8) : Bool := 65 ≤ b && b ≤ 90 || 97 ≤ b && b ≤ 122

def isHexDigit (b : UInt8) : Bool := isDigit b || 65 ≤ b && b ≤ 70 || 97 ≤ b && b ≤ 102

def lower (b : UInt8) : UInt8 := if 65 ≤ b ∧ b ≤ 90 then b + 32 else b

def eqIgnoreCase (a b : Bytes) : Bool := a.map lower = b.map lower

def upperHex (digit : Nat) : UInt8 := if digit < 10 then 48 + digit.toUInt8 else 55 + digit.toUInt8

def renderOpaque (bytes : Bytes) : Bytes :=
  bytes.flatMap fun byte =>
    if byte = 92 then [92, 92]
    else if 128 ≤ byte then [92, 120, upperHex (byte.toNat / 16), upperHex (byte.toNat % 16)]
    else [byte]

structure Field where
  name : Bytes
  value : Bytes
  received : Option Bytes
  deriving DecidableEq

abbrev Headers := List Field

def Field.inbound (name value : Bytes) : Field :=
  match fromUtf8 value with
  | some _ => ⟨name, value, none⟩
  | none => ⟨name, renderOpaque value, some value⟩

def Field.named (field : Field) (name : String) : Bool := eqIgnoreCase field.name (utf8 name)

def Headers.get (headers : Headers) (name : String) : Option Bytes :=
  (headers.find? fun field => field.named name).map Field.value

def readLineBytes : Bytes → Nat → Except String (Bytes × Bytes × Nat)
  | [], _ => .error "read header byte"
  | _ :: _, 0 => .error "header block too large"
  | b :: rest, budget + 1 =>
    if b = newline then .ok ([], rest, budget)
    else match readLineBytes rest budget with
      | .ok (line, rest, budget) => .ok (b :: line, rest, budget)
      | .error error => .error error

def readLineBounded (bytes : Bytes) (budget : Nat) : Except String (Bytes × Bytes × Nat) :=
  match readLineBytes bytes budget with
  | .ok (line, rest, budget) => .ok (stripReturn line, rest, budget)
  | .error error => .error error

def isTokenByte (b : UInt8) : Bool := isDigit b || isAlphabetic b || b ∈ utf8 "!#$%&'*+-.^_`|~"

def isOws (b : UInt8) : Bool := b = 32 || b = 9

def trimOws (value : Bytes) : Bytes := ((value.dropWhile isOws).reverse.dropWhile isOws).reverse

def hexText (byte : UInt8) : String := String.ofList [Nat.digitChar (byte.toNat / 16), Nat.digitChar (byte.toNat % 16)]

def checkInboundField (name value : Bytes) : Except String Unit :=
  if name = [] ∨ ¬name.all isTokenByte then .error "a header name is not a token"
  else match value.find? fun b => b < 32 && b ≠ 9 || b = 127 with
    | some byte => .error ("a header has control byte 0x" ++ hexText byte ++ " in its value")
    | none => .ok ()

def readField (line : Bytes) : Except String Field :=
  if 58 ∈ line then
    let name := line.takeWhile (· ≠ 58)
    let value := trimOws ((line.dropWhile (· ≠ 58)).drop 1)
    match fromUtf8 name with
    | none => .error "a header name is not a token"
    | some _ =>
      match checkInboundField name value with
      | .error error => .error error
      | .ok () => .ok (.inbound name value)
  else .error "a header line has no colon"

/-- Each turn reads a line, so as many turns as there are bytes are enough: with none left there is nothing to read. -/
def headersFrom : Nat → Bytes → Nat → Headers → Except String (Headers × Bytes × Nat)
  | 0, _, _, _ => .error "read header byte"
  | turns + 1, bytes, budget, headers =>
    match readLineBounded bytes budget with
    | .error error => .error error
    | .ok ([], rest, budget) => .ok (headers, rest, budget)
    | .ok (line, rest, budget) =>
      match readField line with
      | .error error => .error error
      | .ok field => headersFrom turns rest budget (headers ++ [field])

def readHeaders (bytes : Bytes) (budget : Nat) : Except String (Headers × Bytes × Nat) :=
  headersFrom bytes.length bytes budget []

def decimalValue (digits : Bytes) : Nat := digits.foldl (fun value digit => value * 10 + (digit.toNat - 48)) 0

def hexDigitValue (b : UInt8) : Nat :=
  if isDigit b then b.toNat - 48 else if b ≤ 70 then b.toNat - 55 else b.toNat - 87

def hexValue (digits : Bytes) : Nat := digits.foldl (fun value digit => value * 16 + hexDigitValue digit) 0

def lengths (headers : Headers) : List Bytes := (headers.filter fun field => field.named "content-length").map Field.value

def agreed : List Bytes → Except String (Option Bytes)
  | [] => .ok none
  | first :: rest =>
    if rest.all (· = first) then .ok (some first)
    else .error "the message declares two different content-length values"

def contentLength (headers : Headers) : Except String (Option Nat) :=
  match agreed (lengths headers) with
  | .error error => .error error
  | .ok none => .ok none
  | .ok (some value) =>
    if value = [] ∨ ¬value.all isDigit then .error "the content-length is not a decimal number"
    else if decimalValue value < maxWord then .ok (some (decimalValue value))
    else .error "parse content-length"

def overCeiling : Option Nat → String
  | some declared => "body of " ++ toString declared ++ " bytes exceeds size ceiling of " ++ toString MAX_BODY_BYTES ++
      " bytes; none of it was read"
  | none => "body exceeds size ceiling of " ++ toString MAX_BODY_BYTES ++ " bytes; reading stopped there"

def trailerFrom : Nat → Bytes → Nat → Except String Bytes
  | 0, _, _ => .error "read header byte"
  | turns + 1, bytes, budget =>
    match readLineBounded bytes budget with
    | .error error => .error error
    | .ok ([], rest, _) => .ok rest
    | .ok (_, rest, budget) => trailerFrom turns rest budget

def chunkSize (line : Bytes) : Except String Nat :=
  let digits := line.takeWhile (· ≠ 59)
  if digits = [] ∨ ¬digits.all isHexDigit then .error "a chunk size is not hexadecimal"
  else if hexValue digits < maxWord then .ok (hexValue digits)
  else .error ("parse chunk size \"" ++ (fromUtf8 digits).getD "" ++ "\"")

def chunksFrom : Nat → Bytes → Nat → Bytes → Except String (Bytes × Bytes)
  | 0, _, _, _ => .error "read header byte"
  | turns + 1, bytes, budget, body =>
    match readLineBounded bytes budget with
    | .error error => .error error
    | .ok (line, rest, budget) =>
      match chunkSize line with
      | .error error => .error error
      | .ok size =>
        if MAX_BODY_BYTES < body.length + size then .error (overCeiling none)
        else if size = 0 then
          match trailerFrom rest.length rest budget with
          | .error error => .error error
          | .ok rest => .ok (body, rest)
        else if rest.length < size then .error "read chunk"
        else match rest.drop size with
          | cr :: lf :: after =>
            if cr = carriageReturn ∧ lf = newline then chunksFrom turns after budget (body ++ rest.take size)
            else .error "chunk data is not terminated by CRLF"
          | _ => .error "read chunk terminator"

def readChunked (bytes : Bytes) : Except String (Bytes × Bytes) := chunksFrom bytes.length bytes MAX_HEADER_BYTES []

def readBody (headers : Headers) (allowEofDelimited : Bool) (bytes : Bytes) : Except String (Bytes × Bytes) :=
  match contentLength headers with
  | .error error => .error error
  | .ok declared =>
    match headers.get "Transfer-Encoding" with
    | some coding =>
      if declared.isSome then .error "message declares both Content-Length and Transfer-Encoding"
      else if eqIgnoreCase coding (utf8 "chunked") then readChunked bytes
      else .error "unsupported transfer encoding: only chunked is read"
    | none =>
      match declared with
      | some length =>
        if MAX_BODY_BYTES < length then .error (overCeiling (some length))
        else if bytes.length < length then .error "read body"
        else .ok (bytes.take length, bytes.drop length)
      | none =>
        if allowEofDelimited then if MAX_BODY_BYTES < bytes.length then .error (overCeiling none) else .ok (bytes, [])
        else .ok ([], bytes)

inductive Coded where
  | request
  | response (gzipRequested : Bool)

def splitOn (separator : UInt8) : Bytes → List Bytes
  | [] => [[]]
  | b :: rest =>
    if b = separator then [] :: splitOn separator rest
    else match splitOn separator rest with
      | [] => [[b]]
      | part :: parts => (b :: part) :: parts

def codings (values : List Bytes) : List Bytes :=
  ((values.flatMap (splitOn 44)).map trimOws).filter fun coding => coding ≠ []

def isGzip (coding : Bytes) : Bool := eqIgnoreCase coding (utf8 "gzip") || eqIgnoreCase coding (utf8 "x-gzip")

def Headers.values (headers : Headers) (name : String) : List Bytes :=
  (headers.filter fun field => field.named name).map Field.value

def codingNamed (coding : Bytes) : String :=
  (["gzip", "x-gzip", "deflate", "compress", "x-compress", "br", "zstd", "dcb"].find? fun known =>
    eqIgnoreCase (utf8 known) coding).getD "an unrecognised coding"

def named (codings : List Bytes) : String := String.intercalate ", " (codings.map codingNamed)

def contentCoding (headers : Headers) (reading : Coded) : Except String Bool :=
  let codings := (codings (headers.values "content-encoding")).filter fun coding => !eqIgnoreCase coding (utf8 "identity")
  match reading with
  | .request => if codings = [] then .ok false else .error ("unsupported content encoding " ++ named codings)
  | .response gzipRequested =>
    let unrequested := codings.filter fun coding => !(gzipRequested && isGzip coding)
    let accepted := if gzipRequested then "gzip" else "identity"
    match codings, unrequested with
    | [], _ => .ok false
    | [_], [] => .ok true
    | _, [] => .error "response content coding applies gzip more than once, and this edge removes one gzip coding only"
    | _, unrequested => .error ("response content coding " ++ named unrequested ++
      " was not requested: the request accepted " ++
        accepted ++ " only")

def gunzip (decoder : Bytes → Except String Bytes) (coded : Bytes) : Except String Bytes :=
  match decoder coded with
  | .error error => .error ("gzip body could not be decoded: " ++ error)
  | .ok decoded =>
    if MAX_BODY_BYTES < decoded.length then
      .error ("gzip body decodes past the size ceiling of " ++ toString MAX_BODY_BYTES ++ " bytes")
    else .ok decoded

structure Request where
  method : Bytes
  target : Bytes
  headers : Headers
  body : Bytes
  deriving DecidableEq

structure Response where
  status : Nat
  reason : Bytes
  headers : Headers
  body : Bytes
  /-- The body as served, where a coding was removed. -/
  coded : Option Bytes
  deriving DecidableEq

def isAscii (b : UInt8) : Bool := b < 128

def checkVersion (version : Bytes) : Except String Unit :=
  if version = utf8 "HTTP/1.1" ∨ version = utf8 "HTTP/1.0" then .ok ()
  else .error "unsupported version: only HTTP/1.1 and HTTP/1.0 are spoken"

def splitSpace (line : Bytes) : Bytes × Option Bytes :=
  (line.takeWhile (· ≠ 32), if 32 ∈ line then some ((line.dropWhile (· ≠ 32)).drop 1) else none)

def readRequestHead (bytes : Bytes) : Except String ((Bytes × Bytes) × Headers × Bytes) :=
  match readLineBounded bytes MAX_HEADER_BYTES with
  | .error error => .error error
  | .ok (line, rest, budget) =>
    if ¬line.all isAscii then .error "the request line is not ASCII"
    else match splitSpace line with
      | (_, none) => .error "missing target"
      | (method, some more) =>
        match splitSpace more with
        | (_, none) => .error "missing version"
        | (target, some version) =>
          match checkVersion version with
          | .error error => .error error
          | .ok () =>
            match readHeaders rest budget with
            | .error error => .error error
            | .ok (headers, rest, _) =>
              match contentCoding headers .request with
              | .error error => .error error
              | .ok _ => .ok ((method, target), headers, rest)

def readRequest (bytes : Bytes) : Except String (Request × Bytes) :=
  match readRequestHead bytes with
  | .error error => .error error
  | .ok ((method, target), headers, rest) =>
    match readBody headers false rest with
    | .error error => .error error
    | .ok (body, rest) => .ok (⟨method, target, headers, body⟩, rest)

/-- `u16::from_str`. -/
def parseStatus (text : Bytes) : Except String Nat :=
  let digits := if text.head? = some 43 then text.drop 1 else text
  if digits = [] ∨ ¬digits.all isDigit ∨ 65536 ≤ decimalValue digits then .error "parse status"
  else .ok (decimalValue digits)

def reasonText (reason : Bytes) : Bytes :=
  match fromUtf8 reason with
  | some _ => reason
  | none => renderOpaque reason

/-- A response's status and reason, its fields, whether its body is coded and what follows the fields. -/
def readResponseHead (gzipRequested : Bool) (bytes : Bytes) : Except String ((Nat × Bytes) × Headers × Bool × Bytes) :=
  match readLineBounded bytes MAX_HEADER_BYTES with
  | .error error => .error error
  | .ok (line, rest, budget) =>
    let (version, more) := splitSpace line
    if ¬version.all isAscii then .error "the status line is not ASCII"
    else match checkVersion version with
      | .error error => .error error
      | .ok () =>
        match more with
        | none => .error "missing status"
        | some more =>
          let (text, reason) := splitSpace more
          if ¬text.all isAscii then .error "the status line is not ASCII"
          else match parseStatus text with
            | .error error => .error error
            | .ok status =>
              match readHeaders rest budget with
              | .error error => .error error
              | .ok (headers, rest, _) =>
                match contentCoding headers (.response gzipRequested) with
                | .error error => .error error
                | .ok coded => .ok ((status, reasonText (reason.getD [])), headers, coded, rest)

def bodiless (status : Nat) : Bool := 100 ≤ status && status < 200 || status = 204 || status = 304

def readResponseTo (decoder : Bytes → Except String Bytes) (gzipRequested : Bool) (bytes : Bytes) :
    Except String (Response × Bytes) :=
  match readResponseHead gzipRequested bytes with
  | .error error => .error error
  | .ok ((status, reason), headers, coded, rest) =>
    match if bodiless status then .ok ([], rest) else readBody headers true rest with
    | .error error => .error error
    | .ok (served, rest) =>
      if coded && served ≠ [] then
        match gunzip decoder served with
        | .error error => .error error
        | .ok body => .ok (⟨status, reason, headers, body, some served⟩, rest)
      else .ok (⟨status, reason, headers, served, none⟩, rest)

def readResponse (decoder : Bytes → Except String Bytes) (bytes : Bytes) : Except String (Response × Bytes) :=
  readResponseTo decoder true bytes

end CommonMeasure.Http
