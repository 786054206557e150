import CommonMeasure.Http.Framing
import CommonMeasure.Json.Text

/-!
# Writing HTTP messages

A message is written as its head, in one piece, and then its body.
-/

namespace CommonMeasure.Http

/-- What a message is written to: the bytes taken so far, how many more it takes, and whether it then flushes. -/
structure Writer where
  written : Bytes
  room : Nat
  flushes : Bool
  deriving DecidableEq

def Writer.writeAll (writer : Writer) (bytes : Bytes) : Except String Unit × Writer :=
  if bytes.length ≤ writer.room then
    (.ok (), { writer with written := writer.written ++ bytes, room := writer.room - bytes.length })
  else
    (.error "failed to write whole buffer", { writer with written := writer.written ++ bytes.take writer.room, room := 0 })

def Writer.flush (writer : Writer) : Except String Unit × Writer :=
  if writer.flushes then (.ok (), writer) else (.error "failed to flush", writer)

def checkField (name value : Bytes) : Except String Unit :=
  if name = [] ∨ ¬name.all isTokenByte then .error "a header name is not a token"
  else match value.find? fun b => b < 32 || b = 127 with
    | some byte => .error ("header " ++ (fromUtf8 name).getD "" ++ " has control byte 0x" ++ hexText byte ++ " in its value")
    | none => .ok ()

def checkFields : Headers → Except String Unit
  | [] => .ok ()
  | field :: rest =>
    match checkField field.name field.value with
    | .error error => .error error
    | .ok () => checkFields rest

def crlf : Bytes := [carriageReturn, newline]

def fieldLine (field : Field) : Bytes := field.name ++ utf8 ": " ++ field.value ++ crlf

def contentLengthField (length : Nat) : Field := ⟨utf8 "Content-Length", Json.decimal length, none⟩

def requestHead (req : Request) : Bytes :=
  let hasLength := req.headers.any fun field => field.named "content-length"
  req.method ++ utf8 " " ++ req.target ++ utf8 " HTTP/1.1" ++ crlf ++ req.headers.flatMap fieldLine ++
    (if req.body ≠ [] ∧ ¬hasLength then fieldLine (contentLengthField req.body.length) else []) ++ crlf

def Response.servedBody (resp : Response) : Bytes := resp.coded.getD resp.body

def Field.framing (field : Field) : Bool :=
  field.named "content-length" || field.named "transfer-encoding" || field.named "connection"

def responseHead (resp : Response) : Bytes :=
  utf8 "HTTP/1.1 " ++ Json.decimal resp.status ++ utf8 " " ++ resp.reason ++ crlf ++
    (resp.headers.filter (!·.framing)).flatMap fieldLine ++ fieldLine (contentLengthField resp.servedBody.length) ++
    utf8 "Connection: close" ++ crlf ++ crlf

def Writer.send (writer : Writer) (head body : Bytes) : Except String Unit × Writer :=
  match writer.writeAll head with
  | (.error error, writer) => (.error error, writer)
  | (.ok (), writer) =>
    match writer.writeAll body with
    | (.error error, writer) => (.error error, writer)
    | (.ok (), writer) => writer.flush

def writeRequest (writer : Writer) (req : Request) : Except String Unit × Writer :=
  match checkFields req.headers with
  | .error error => (.error error, writer)
  | .ok () => writer.send (requestHead req) req.body

def writeResponse (writer : Writer) (resp : Response) : Except String Unit × Writer :=
  match checkFields resp.headers with
  | .error error => (.error error, writer)
  | .ok () => writer.send (responseHead resp) resp.servedBody

/-! ### What a writer that succeeds has written -/

theorem Writer.writeAll_ok {writer after : Writer} {bytes : Bytes} (ok : writer.writeAll bytes = (.ok (), after)) :
    after.written = writer.written ++ bytes := by
  unfold Writer.writeAll at ok
  split at ok
  · obtain ⟨_, rfl⟩ := Prod.mk.inj ok
    rfl
  · cases ok

theorem Writer.send_ok {writer after : Writer} {head body : Bytes} (ok : writer.send head body = (.ok (), after)) :
    after.written = writer.written ++ (head ++ body) := by
  unfold Writer.send at ok
  split at ok
  · cases ok
  · rename_i headed wroteHead
    split at ok
    · cases ok
    · rename_i bodied wroteBody
      have flushed : after = bodied := by
        unfold Writer.flush at ok
        split at ok
        · exact (Prod.mk.inj ok).2.symm
        · cases ok
      rw [flushed, Writer.writeAll_ok wroteBody, Writer.writeAll_ok wroteHead, List.append_assoc]

theorem checkFields_ok {headers : Headers} (ok : checkFields headers = .ok ()) :
    ∀ field ∈ headers, checkField field.name field.value = .ok () := by
  induction headers with
  | nil => simp
  | cons field rest ih =>
    rw [checkFields] at ok
    split at ok
    · cases ok
    · rename_i first
      exact List.forall_mem_cons.mpr ⟨first, ih ok⟩

/-- A field as a reader takes it: a token, and text without white space around it or control bytes in it. -/
structure Plain (field : Field) : Prop where
  name : field.name ≠ []
  token : field.name.all isTokenByte = true
  text : (fromUtf8 field.value).isSome
  trimmed : trimOws field.value = field.value
  control : ∀ b ∈ field.value, (b < 32 || b = 127) = false
  received : field.received = none

theorem utf8_spelled {bytes : Bytes} (ascii : ∀ b ∈ bytes, b < 128) : utf8 (spelled bytes) = bytes := by
  rw [spelled, utf8_ofList]
  induction bytes with
  | nil => rfl
  | cons b bytes ih =>
    obtain ⟨first, rest⟩ := List.forall_mem_cons.mp ascii
    have small : b.toNat < 128 := by simpa [UInt8.lt_iff_toNat_lt] using first
    have value : (Char.ofUInt8 b).val.toNat = b.toNat := by simp [Char.ofUInt8]
    have one : String.utf8EncodeChar (Char.ofUInt8 b) = [b] := by
      rw [String.utf8EncodeChar]
      simp [value, show b.toNat ≤ 127 by omega]
    rw [List.map_cons, List.flatMap_cons, one, ih rest]
    rfl

theorem ascii_text {bytes : Bytes} (ascii : ∀ b ∈ bytes, b < 128) : (fromUtf8 bytes).isSome := by
  rw [← utf8_spelled ascii, fromUtf8_utf8]
  rfl

theorem token_plain {name : Bytes} (token : name.all isTokenByte = true) :
    ∀ b ∈ name, b < 128 ∧ b ≠ 58 ∧ b ≠ newline ∧ b ≠ carriageReturn := by
  have all : ∀ b : Fin 256, isTokenByte (UInt8.ofFin b) = true → UInt8.ofFin b < 128 ∧ UInt8.ofFin b ≠ 58 ∧
      UInt8.ofFin b ≠ newline ∧ UInt8.ofFin b ≠ carriageReturn := by decide +kernel
  intro b listed
  exact all b.toFin (List.all_eq_true.mp token b listed)

theorem control_free {value : Bytes} (control : ∀ b ∈ value, (b < 32 || b = 127) = false) :
    newline ∉ value ∧ carriageReturn ∉ value := by
  constructor
  · intro listed
    cases control newline listed
  · intro listed
    cases control carriageReturn listed

section

variable {line rest : Bytes} {budget : Nat}

theorem readLineBytes_eq (free : LineFree line) (within : line.length < budget) :
    readLineBytes (line ++ newline :: rest) budget = .ok (line, rest, budget - line.length - 1) := by
  induction line generalizing budget with
  | nil =>
    obtain ⟨budget, rfl⟩ := Nat.exists_eq_succ_of_ne_zero (Nat.ne_of_gt within)
    simp [readLineBytes]
  | cons b line ih =>
    simp only [LineFree, List.mem_cons, not_or] at free
    rw [List.length_cons] at within
    obtain ⟨budget, rfl⟩ := Nat.exists_eq_succ_of_ne_zero (Nat.ne_of_gt (Nat.lt_of_le_of_lt (Nat.zero_le _) within))
    rw [List.cons_append, readLineBytes, if_neg (Ne.symm free.1), ih free.2 (by omega)]
    simp only [List.length_cons, Except.ok.injEq, Prod.mk.injEq, true_and]
    omega

theorem readLineBounded_crlf (free : LineFree line) (within : line.length + 2 ≤ budget) :
    readLineBounded (line ++ crlf ++ rest) budget = .ok (line, rest, budget - (line.length + 2)) := by
  have split : line ++ crlf ++ rest = (line ++ [carriageReturn]) ++ newline :: rest := by simp [crlf]
  have freeReturn : LineFree (line ++ [carriageReturn]) := by
    simp only [LineFree, List.mem_append, List.mem_singleton, not_or]
    exact ⟨free, by decide⟩
  rw [split, readLineBounded, readLineBytes_eq freeReturn (by simp; omega)]
  simp [stripReturn]
  omega

theorem readField_line {field : Field} (plain : Plain field) :
    readField (field.name ++ utf8 ": " ++ field.value) = .ok field := by
  have colon : utf8 ": " = [58, 32] := by decide
  have token := token_plain plain.token
  have before : ∀ b ∈ field.name, decide (b ≠ 58) = true := fun b listed => decide_eq_true (token b listed).2.1
  have whole : field.name ++ utf8 ": " ++ field.value = field.name ++ 58 :: 32 :: field.value := by simp [colon]
  have value : trimOws (32 :: field.value) = field.value := by
    rw [trimOws, List.dropWhile_cons_of_pos (by decide)]
    exact plain.trimmed
  have name : (fromUtf8 field.name).isSome := ascii_text fun b listed => (token b listed).1
  obtain ⟨text, textIs⟩ := Option.isSome_iff_exists.mp name
  obtain ⟨valueText, valueIs⟩ := Option.isSome_iff_exists.mp plain.text
  have inbound : checkInboundField field.name field.value = .ok () := by
    have tokens : ¬(field.name = [] ∨ ¬field.name.all isTokenByte) := by simp [plain.name, plain.token]
    have none_ : field.value.find? (fun b => b < 32 && b ≠ 9 || b = 127) = none := by
      rw [List.find?_eq_none]
      intro b listed
      have clean := plain.control b listed
      simp only [Bool.or_eq_false_iff, decide_eq_false_iff_not] at clean
      simp [clean]
    rw [checkInboundField, if_neg tokens, none_]
  rw [whole, readField, if_pos (by simp)]
  simp only [List.takeWhile_append_of_pos before, List.dropWhile_append_of_pos before]
  simp only [ne_eq, not_true_eq_false, decide_false, Bool.false_eq_true, not_false_eq_true, List.takeWhile_cons_of_neg,
    List.dropWhile_cons_of_neg, List.append_nil, List.drop_one, List.tail_cons, value, textIs, inbound]
  obtain ⟨name, value, received⟩ := field
  have received := plain.received
  simp only at received valueIs
  simp [Field.inbound, valueIs, received]

theorem fieldLine_length (field : Field) : (fieldLine field).length = field.name.length + field.value.length + 4 := by
  have colon : (utf8 ": ").length = 2 := by decide
  simp only [fieldLine, List.length_append, colon, crlf, List.length_cons, List.length_nil]
  omega

theorem headersFrom_lines {turns : Nat} {headers : Headers} (plain : ∀ field ∈ headers, Plain field)
    (enough : headers.length < turns) (within : (headers.flatMap fieldLine).length + 2 ≤ budget) (before : Headers) :
    headersFrom turns (headers.flatMap fieldLine ++ crlf ++ rest) budget before =
      .ok (before ++ headers, rest, budget - ((headers.flatMap fieldLine).length + 2)) := by
  induction headers generalizing turns budget before with
  | nil =>
    obtain ⟨turns, rfl⟩ := Nat.exists_eq_succ_of_ne_zero (Nat.ne_of_gt enough)
    have empty : readLineBounded ([] ++ crlf ++ rest) budget = _ := readLineBounded_crlf lineFree_nil within
    rw [List.nil_append] at empty
    rw [headersFrom, List.flatMap_nil, List.nil_append, empty]
    simp
  | cons field headers ih =>
    obtain ⟨first, others⟩ := List.forall_mem_cons.mp plain
    have length := fieldLine_length field
    rw [List.length_cons] at enough
    rw [List.flatMap_cons, List.length_append] at within
    obtain ⟨turns, rfl⟩ := Nat.exists_eq_succ_of_ne_zero (Nat.ne_of_gt (Nat.lt_of_le_of_lt (Nat.zero_le _) enough))
    obtain ⟨line, lineIs⟩ : ∃ line, field.name ++ utf8 ": " ++ field.value = line := ⟨_, rfl⟩
    have whole : (field :: headers).flatMap fieldLine ++ crlf ++ rest =
        line ++ crlf ++ (headers.flatMap fieldLine ++ crlf ++ rest) := by
      simp [fieldLine, ← lineIs]
    have lineLength : line.length + 2 = (fieldLine field).length := by
      rw [fieldLine, lineIs]
      simp [crlf]
    have free : LineFree line := by
      have token := token_plain first.token
      have colon : utf8 ": " = [58, 32] := by decide
      have name : newline ∉ field.name := fun listed => (token newline listed).2.2.1 rfl
      rw [← lineIs, colon]
      simp only [LineFree, List.mem_append, not_or]
      exact ⟨⟨name, by decide⟩, (control_free first.control).1⟩
    have some_ : line ≠ [] := by
      rw [← lineIs]
      simp [first.name]
    have read : readField line = .ok field := lineIs ▸ readField_line first
    rw [whole, headersFrom, readLineBounded_crlf free (by omega)]
    cases line with
    | nil => exact (some_ rfl).elim
    | cons b line =>
      simp only [read]
      rw [ih others (by omega) (by omega)]
      simp only [List.append_assoc, List.cons_append, List.nil_append, List.flatMap_cons, List.length_append,
        Except.ok.injEq, Prod.mk.injEq, true_and]
      omega

theorem headers_length (headers : Headers) : headers.length ≤ (headers.flatMap fieldLine).length := by
  induction headers with
  | nil => rfl
  | cons field headers ih =>
    rw [List.flatMap_cons, List.length_append, fieldLine_length, List.length_cons]
    omega

theorem readHeaders_lines {headers : Headers} (plain : ∀ field ∈ headers, Plain field)
    (within : (headers.flatMap fieldLine).length + 2 ≤ budget) :
    readHeaders (headers.flatMap fieldLine ++ crlf ++ rest) budget =
      .ok (headers, rest, budget - ((headers.flatMap fieldLine).length + 2)) := by
  have few := headers_length headers
  apply headersFrom_lines plain _ within
  simp only [List.length_append, crlf, List.length_cons, List.length_nil]
  omega

end

theorem decimalValue_eq (text : Bytes) : decimalValue text = Json.digitsValue text := by
  unfold decimalValue Json.digitsValue
  induction text using List.reverseRecOn with
  | nil => rfl
  | append_singleton text b ih =>
    rw [List.foldl_append, ih]
    simp [Nat.ofDigits_cons]
    omega

theorem decimalValue_decimal (n : Nat) : decimalValue (Json.decimal n) = n :=
  (decimalValue_eq _).trans (Json.digitsValue_decimal n)

theorem decimal_nonempty (n : Nat) : Json.decimal n ≠ [] := by
  intro empty
  have number := Json.isNumber_decimal n
  rw [empty] at number
  cases number

theorem decimal_bytes (n : Nat) : ∀ b ∈ Json.decimal n,
    b < 128 ∧ isOws b = false ∧ (b < 32 || b = 127) = false ∧ b ≠ 32 ∧ b ≠ newline ∧ b ≠ 43 := by
  have all : ∀ b : Fin 256, isDigit (UInt8.ofFin b) = true → UInt8.ofFin b < 128 ∧ isOws (UInt8.ofFin b) = false ∧
      (UInt8.ofFin b < 32 || UInt8.ofFin b = 127) = false ∧ UInt8.ofFin b ≠ 32 ∧ UInt8.ofFin b ≠ newline ∧
      UInt8.ofFin b ≠ 43 := by decide +kernel
  intro b listed
  exact all b.toFin (Json.decimal_digits n b listed)

theorem contentLengthField_plain (length : Nat) : Plain (contentLengthField length) where
  name := show utf8 "Content-Length" ≠ [] by decide
  token := show (utf8 "Content-Length").all isTokenByte = true by decide
  text := ascii_text fun b listed => (decimal_bytes length b listed).1
  trimmed := trimOws_free fun b listed => (decimal_bytes length b listed).2.1
  control := fun b listed => (decimal_bytes length b listed).2.2.1
  received := rfl

def connectionField : Field := ⟨utf8 "Connection", utf8 "close", none⟩

theorem connectionField_plain : Plain connectionField where
  name := by decide
  token := by decide
  text := by simp [connectionField]
  trimmed := by decide
  control := by decide +kernel
  received := rfl

theorem connectionField_line : fieldLine connectionField = utf8 "Connection: close" ++ crlf := by decide

structure Unpadded (field : Field) : Prop where
  name : field.name ≠ []
  token : field.name.all isTokenByte = true
  text : (fromUtf8 field.value).isSome
  trimmed : trimOws field.value = field.value
  received : field.received = none

def declaredCodings (headers : Headers) : List Bytes :=
  (codings (headers.values "content-encoding")).filter fun coding => !eqIgnoreCase coding (utf8 "identity")

def unframed (headers : Headers) : Headers := headers.filter (!·.framing)

structure ReadableResponse (decoder : Bytes → Except String Bytes) (resp : Response) : Prop where
  status : 200 ≤ resp.status ∧ resp.status ≤ 999 ∧ resp.status ≠ 204 ∧ resp.status ≠ 304
  reason : (fromUtf8 resp.reason).isSome
  line : carriageReturn ∉ resp.reason ∧ newline ∉ resp.reason
  fields : ∀ field ∈ resp.headers, Unpadded field
  coding : (declaredCodings resp.headers = [] ∧ resp.coded = none) ∨
    ∃ coding bytes, declaredCodings resp.headers = [coding] ∧ isGzip coding = true ∧ resp.coded = some bytes ∧
      decoder bytes = .ok resp.body
  head : (responseHead resp).length ≤ MAX_HEADER_BYTES
  body : resp.body.length ≤ MAX_BODY_BYTES ∧ resp.servedBody.length ≤ MAX_BODY_BYTES

structure ReadableRequest (req : Request) : Prop where
  line : ∀ b ∈ req.method ++ req.target, isAscii b = true ∧ b ≠ 32 ∧ (b < 32 || b = 127) = false
  fields : ∀ field ∈ req.headers, Unpadded field
  coding : declaredCodings req.headers = []
  transfer : req.headers.values "Transfer-Encoding" = []
  length : ∃ text, text ≠ [] ∧ text.all isDigit = true ∧ decimalValue text = req.body.length ∧
    ∀ value ∈ lengths req.headers, value = text
  head : (requestHead req).length ≤ MAX_HEADER_BYTES
  body : req.body.length ≤ MAX_BODY_BYTES

theorem checkField_plain {field : Field} (unpadded : Unpadded field) (ok : checkField field.name field.value = .ok ()) :
    Plain field := by
  refine ⟨unpadded.name, unpadded.token, unpadded.text, unpadded.trimmed, ?_, unpadded.received⟩
  have tokens : ¬(field.name = [] ∨ ¬field.name.all isTokenByte) := by simp [unpadded.name, unpadded.token]
  rw [checkField, if_neg tokens] at ok
  split at ok
  · cases ok
  · rename_i clean
    intro b listed
    simpa using List.find?_eq_none.mp clean b listed

theorem splitSpace_eq {before : Bytes} (free : 32 ∉ before) (after : Bytes) :
    splitSpace (before ++ 32 :: after) = (before, some after) := by
  have other : ∀ b ∈ before, decide (b ≠ 32) = true := by
    intro b listed
    rw [decide_eq_true_eq]
    rintro rfl
    exact free listed
  rw [splitSpace, if_pos (by simp), List.takeWhile_append_of_pos other, List.dropWhile_append_of_pos other]
  simp

theorem parseStatus_decimal {status : Nat} (small : status < 65536) : parseStatus (Json.decimal status) = .ok status := by
  have digits : (Json.decimal status).all isDigit = true := List.all_eq_true.mpr (Json.decimal_digits status)
  have sign : (Json.decimal status).head? ≠ some 43 := by
    intro plus
    exact (decimal_bytes status 43 (List.mem_of_mem_head? plus)).2.2.2.2.2 rfl
  rw [parseStatus]
  simp only [if_neg sign, decimalValue_decimal]
  rw [if_neg]
  simp [decimal_nonempty, digits, small]

theorem named_framing {field : Field} {name : String} (named : field.named name = true) :
    field.framing = (⟨utf8 name, [], none⟩ : Field).framing := by
  unfold Field.named eqIgnoreCase at named
  have same := of_decide_eq_true named
  unfold Field.framing Field.named eqIgnoreCase
  rw [same]

theorem framing_named {field : Field} {name : String} (framing : field.framing = true)
    (kept : (⟨utf8 name, [], none⟩ : Field).framing = false) : field.named name = false := by
  cases named : field.named name with
  | false => rfl
  | true =>
    rw [named_framing named, kept] at framing
    cases framing

theorem values_append (a b : Headers) (name : String) :
    Headers.values (a ++ b) name = Headers.values a name ++ Headers.values b name := by
  simp [Headers.values]

theorem values_unframed {headers : Headers} {name : String} (kept : (⟨utf8 name, [], none⟩ : Field).framing = false) :
    (unframed headers).values name = headers.values name := by
  unfold unframed Headers.values
  rw [List.filter_filter]
  congr 1
  apply List.filter_congr
  intro field _
  cases named : field.named name with
  | false => rfl
  | true => simp [named_framing named, kept]

def writtenFields (resp : Response) : Headers :=
  unframed resp.headers ++ [contentLengthField resp.servedBody.length, connectionField]

theorem contentLengthField_named (length : Nat) : (contentLengthField length).named "content-length" = true :=
  show eqIgnoreCase (utf8 "Content-Length") (utf8 "content-length") = true by decide

theorem contentLengthField_framing (length : Nat) : (contentLengthField length).framing = true := by
  rw [Field.framing, contentLengthField_named]
  rfl

theorem connectionField_framing : connectionField.framing = true := by decide

theorem writtenFields_unframed (resp : Response) : unframed (writtenFields resp) = unframed resp.headers := by
  simp [writtenFields, unframed, List.filter_append, contentLengthField_framing, connectionField_framing]

theorem writtenFields_values (resp : Response) {name : String} (kept : (⟨utf8 name, [], none⟩ : Field).framing = false) :
    (writtenFields resp).values name = resp.headers.values name := by
  have own : Headers.values [contentLengthField resp.servedBody.length, connectionField] name = [] := by
    have length := framing_named (contentLengthField_framing resp.servedBody.length) kept
    have connection := framing_named connectionField_framing kept
    simp [Headers.values, length, connection]
  rw [writtenFields, values_append, own, List.append_nil, values_unframed kept]

theorem unframed_values {headers : Headers} {name : String} (framing : (⟨utf8 name, [], none⟩ : Field).framing = true) :
    (unframed headers).values name = [] := by
  unfold unframed Headers.values
  rw [List.filter_filter, List.map_eq_nil_iff, List.filter_eq_nil_iff]
  intro field _
  cases named : field.named name with
  | false => simp
  | true => simp [named_framing named, framing]

theorem lengths_values (headers : Headers) : lengths headers = headers.values "content-length" := rfl

theorem written_lengths (resp : Response) : lengths (writtenFields resp) = [Json.decimal resp.servedBody.length] := by
  have connection : connectionField.named "content-length" = false := by decide
  rw [lengths_values, writtenFields, values_append, unframed_values (by decide)]
  have value : (contentLengthField resp.servedBody.length).value = Json.decimal resp.servedBody.length := rfl
  simp [Headers.values, contentLengthField_named, connection, value]

theorem written_transfer (resp : Response) : (writtenFields resp).values "Transfer-Encoding" = [] := by
  have length : (contentLengthField resp.servedBody.length).named "Transfer-Encoding" = false :=
    show eqIgnoreCase (utf8 "Content-Length") (utf8 "Transfer-Encoding") = false by decide
  have connection : connectionField.named "Transfer-Encoding" = false := by decide
  rw [writtenFields, values_append, unframed_values (by decide)]
  simp [Headers.values, length, connection]

theorem readBody_length {headers : Headers} {text body : Bytes} (some_ : text ≠ []) (digits : text.all isDigit = true)
    (length : decimalValue text = body.length) (declared : lengths headers ≠ [])
    (same : ∀ value ∈ lengths headers, value = text) (transfer : headers.values "Transfer-Encoding" = [])
    (small : body.length ≤ MAX_BODY_BYTES) (eofDelimited : Bool) : readBody headers eofDelimited body = .ok (body, []) := by
  have word : body.length < maxWord := Nat.lt_of_le_of_lt small (by decide)
  have one : agreed (lengths headers) = .ok (some text) := by
    cases values : lengths headers with
    | nil => exact (declared values).elim
    | cons first others =>
      rw [values, List.forall_mem_cons] at same
      obtain ⟨rfl, others⟩ := same
      rw [agreed, if_pos (by simpa using others)]
  have content : contentLength headers = .ok (some body.length) := by
    rw [contentLength, one]
    simp [some_, digits, length, word]
  have coding : headers.get "Transfer-Encoding" = none := by rw [get_values, transfer, List.head?_nil]
  rw [readBody, content]
  simp [coding, Nat.not_lt.mpr small]

theorem responseHead_lines (resp : Response) :
    responseHead resp = (utf8 "HTTP/1.1" ++ 32 :: (Json.decimal resp.status ++ 32 :: resp.reason)) ++ crlf ++
      ((writtenFields resp).flatMap fieldLine ++ crlf) := by
  have version : utf8 "HTTP/1.1 " = utf8 "HTTP/1.1" ++ [32] := by decide
  have space : utf8 " " = [32] := by decide
  unfold responseHead writtenFields unframed
  rw [version, space, List.flatMap_append, List.flatMap_cons, List.flatMap_cons, connectionField_line]
  simp

theorem readResponseHead_written {resp : Response} {decoder : Bytes → Except String Bytes}
    (readable : ReadableResponse decoder resp) (checked : checkFields resp.headers = .ok ()) (rest : Bytes) {coded : Bool}
    (coding : contentCoding (writtenFields resp) (.response true) = .ok coded) :
    readResponseHead true (responseHead resp ++ rest) = .ok ((resp.status, resp.reason), writtenFields resp, coded, rest) := by
  have plain : ∀ field ∈ writtenFields resp, Plain field := by
    intro field listed
    rw [writtenFields, List.mem_append, List.mem_cons, List.mem_singleton] at listed
    rcases listed with kept | rfl | rfl
    · have listed := (List.mem_filter.mp kept).1
      exact checkField_plain (readable.fields field listed) (checkFields_ok checked field listed)
    · exact contentLengthField_plain _
    · exact connectionField_plain
  have version : utf8 "HTTP/1.1" = [72, 84, 84, 80, 47, 49, 46, 49] := by decide
  have digits := decimal_bytes resp.status
  have statusFree : 32 ∉ Json.decimal resp.status := fun listed => (digits 32 listed).2.2.2.1 rfl
  have lineFree : LineFree (utf8 "HTTP/1.1" ++ 32 :: (Json.decimal resp.status ++ 32 :: resp.reason)) := by
    have statusLine : newline ∉ Json.decimal resp.status := fun listed => (digits newline listed).2.2.2.2.1 rfl
    have reason := readable.line.2
    rw [version]
    simp only [LineFree, List.mem_append, List.mem_cons, not_or]
    exact ⟨by decide, by decide, statusLine, by decide, reason⟩
  obtain ⟨line, lineIs⟩ : ∃ line, utf8 "HTTP/1.1" ++ 32 :: (Json.decimal resp.status ++ 32 :: resp.reason) = line :=
    ⟨_, rfl⟩
  have head := readable.head
  rw [responseHead_lines, lineIs] at head
  simp only [List.length_append, crlf, List.length_cons, List.length_nil] at head
  have ascii : (utf8 "HTTP/1.1").all isAscii = true := by decide
  have asciiStatus : (Json.decimal resp.status).all isAscii = true := by
    rw [List.all_eq_true]
    intro b listed
    exact decide_eq_true (digits b listed).1
  obtain ⟨text, textIs⟩ := Option.isSome_iff_exists.mp readable.reason
  have fields : readHeaders ((writtenFields resp).flatMap fieldLine ++ crlf ++
    rest) (MAX_HEADER_BYTES - (line.length + 2)) = _ :=
    readHeaders_lines plain (by omega)
  rw [responseHead_lines, List.append_assoc, lineIs, readResponseHead, readLineBounded_crlf (lineIs ▸ lineFree) (by omega)]
  simp only
  rw [← lineIs, splitSpace_eq (by decide)]
  simp only [ascii, checkVersion, true_or, if_true, not_true_eq_false, if_false]
  rw [splitSpace_eq statusFree]
  have small : resp.status < 65536 := by
    have := readable.status
    omega
  simp only [asciiStatus, not_true_eq_false, if_false, parseStatus_decimal small]
  rw [lineIs, fields]
  simp only [coding, Option.getD_some, reasonText, textIs]

theorem readResponse_written {resp : Response} {decoder : Bytes → Except String Bytes}
    (nothing : ∀ body, decoder [] = .ok body → body = []) (readable : ReadableResponse decoder resp)
    (checked : checkFields resp.headers = .ok ()) :
    ∃ coded, readResponse decoder (responseHead resp ++ resp.servedBody) =
      .ok (⟨resp.status, resp.reason, writtenFields resp, resp.body, coded⟩, []) := by
  have status := readable.status
  have bodied : bodiless resp.status = false := by
    simp only [bodiless, Bool.or_eq_false_iff, Bool.and_eq_false_iff, decide_eq_false_iff_not]
    omega
  have served : readBody (writtenFields resp) true resp.servedBody = .ok (resp.servedBody, []) := by
    apply readBody_length (decimal_nonempty _) (List.all_eq_true.mpr (Json.decimal_digits _)) (decimalValue_decimal _)
    · simp [written_lengths]
    · simp [written_lengths]
    · exact written_transfer resp
    · exact readable.body.2
  have declared : declaredCodings (writtenFields resp) = declaredCodings resp.headers := by
    rw [declaredCodings, writtenFields_values resp (by decide), declaredCodings]
  have reads {coded : Bool} (coding : contentCoding (writtenFields resp) (.response true) = .ok coded) :=
    readResponseHead_written readable checked resp.servedBody coding
  rcases readable.coding with ⟨none_, plain⟩ | ⟨coding, bytes, one, gzip, codedIs, decodes⟩
  · have coding : contentCoding (writtenFields resp) (.response true) = .ok false := by
      rw [← declared] at none_
      unfold declaredCodings at none_
      rw [contentCoding]
      simp only [none_]
    refine ⟨none, ?_⟩
    rw [readResponse, readResponseTo, reads coding]
    simp only [bodied, Bool.false_eq_true, if_false, served, Bool.false_and]
    rw [Response.servedBody, plain]
    rfl
  · have coding : contentCoding (writtenFields resp) (.response true) = .ok true := by
      rw [← declared] at one
      unfold declaredCodings at one
      rw [contentCoding]
      simp [one, gzip]
    have servedIs : resp.servedBody = bytes := by
      rw [Response.servedBody, codedIs]
      rfl
    rw [readResponse, readResponseTo, reads coding]
    rw [servedIs] at served
    simp only [bodied, Bool.false_eq_true, if_false, servedIs, served, Bool.true_and]
    by_cases empty : bytes = []
    · have body : resp.body = [] := nothing _ (empty ▸ decodes)
      exact ⟨none, by simp [empty, body]⟩
    · have decoded : gunzip decoder bytes = .ok resp.body := by
        rw [gunzip, decodes]
        simp [Nat.not_lt.mpr readable.body.1]
      exact ⟨some bytes, by simp [empty, decoded]⟩

def writtenRequestFields (req : Request) : Headers :=
  req.headers ++ if req.body ≠ [] ∧ ¬(req.headers.any fun field => field.named "content-length") then
    [contentLengthField req.body.length] else []

theorem requestHead_lines (req : Request) :
    requestHead req = (req.method ++ 32 :: (req.target ++ 32 :: utf8 "HTTP/1.1")) ++ crlf ++
      ((writtenRequestFields req).flatMap fieldLine ++ crlf) := by
  have version : utf8 " HTTP/1.1" = 32 :: utf8 "HTTP/1.1" := by decide
  have space : utf8 " " = [32] := by decide
  unfold requestHead writtenRequestFields
  dsimp only
  rw [version, space, List.flatMap_append]
  split <;> simp

theorem writtenRequestFields_values (req : Request) {name : String}
    (kept : (⟨utf8 name, [], none⟩ : Field).framing = false ∨ name = "Transfer-Encoding") :
    (writtenRequestFields req).values name = req.headers.values name := by
  rw [writtenRequestFields, values_append]
  split
  · have other : (contentLengthField req.body.length).named name = false := by
      rcases kept with kept | rfl
      · exact framing_named (contentLengthField_framing _) kept
      · show eqIgnoreCase (utf8 "Content-Length") (utf8 "Transfer-Encoding") = false
        decide
    simp [Headers.values, other]
  · simp [Headers.values]

theorem writtenRequestFields_unframed (req : Request) : unframed (writtenRequestFields req) = unframed req.headers := by
  rw [writtenRequestFields, unframed, List.filter_append]
  split <;> simp [unframed, contentLengthField_framing]

theorem lengths_nil {headers : Headers} : lengths headers = [] ↔
    (headers.any fun field => field.named "content-length") = false := by
  simp [lengths]

theorem readBody_written {req : Request} (readable : ReadableRequest req) :
    readBody (writtenRequestFields req) false req.body = .ok (req.body, []) := by
  have transfer : (writtenRequestFields req).values "Transfer-Encoding" = [] :=
    (writtenRequestFields_values req (Or.inr rfl)).trans readable.transfer
  by_cases declares : lengths req.headers = []
  · have hasLength := lengths_nil.mp declares
    by_cases empty : req.body = []
    · have same : writtenRequestFields req = req.headers := by simp [writtenRequestFields, empty]
      have content : contentLength req.headers = .ok none := by
        rw [contentLength, declares]
        rfl
      have coding : req.headers.get "Transfer-Encoding" = none := by rw [get_values, readable.transfer, List.head?_nil]
      rw [same, readBody, content, empty]
      simp [coding]
    · have added : writtenRequestFields req = req.headers ++ [contentLengthField req.body.length] := by
        rw [writtenRequestFields, hasLength, if_pos]
        exact ⟨empty, by simp⟩
      have lengths : lengths (writtenRequestFields req) = [Json.decimal req.body.length] := by
        have value : (contentLengthField req.body.length).value = Json.decimal req.body.length := rfl
        rw [added, lengths_values, values_append, ← lengths_values, declares]
        simp [Headers.values, contentLengthField_named, value]
      apply readBody_length (decimal_nonempty _) (List.all_eq_true.mpr (Json.decimal_digits _)) (decimalValue_decimal _)
      · simp [lengths]
      · simp [lengths]
      · exact transfer
      · exact readable.body
  · obtain ⟨text, some_, digits, length, all⟩ := readable.length
    have hasLength : (req.headers.any fun field => field.named "content-length") = true := by
      rw [lengths_nil] at declares
      simpa using declares
    have same : writtenRequestFields req = req.headers := by simp [writtenRequestFields, hasLength]
    rw [same] at transfer ⊢
    exact readBody_length some_ digits length declares all transfer readable.body false

theorem readRequest_written {req : Request} (readable : ReadableRequest req) (checked : checkFields req.headers = .ok ()) :
    readRequest (requestHead req ++ req.body) = .ok (⟨req.method, req.target, writtenRequestFields req, req.body⟩, []) := by
  have plain : ∀ field ∈ writtenRequestFields req, Plain field := by
    intro field listed
    rw [writtenRequestFields, List.mem_append] at listed
    rcases listed with listed | added
    · exact checkField_plain (readable.fields field listed) (checkFields_ok checked field listed)
    · split at added
      · rw [List.mem_singleton.mp added]
        exact contentLengthField_plain _
      · cases added
  have method : ∀ b ∈ req.method, isAscii b = true ∧ b ≠ 32 ∧ (b < 32 || b = 127) = false := fun b listed =>
    readable.line b (List.mem_append_left _ listed)
  have target : ∀ b ∈ req.target, isAscii b = true ∧ b ≠ 32 ∧ (b < 32 || b = 127) = false := fun b listed =>
    readable.line b (List.mem_append_right _ listed)
  have version : utf8 "HTTP/1.1" = [72, 84, 84, 80, 47, 49, 46, 49] := by decide
  obtain ⟨line, lineIs⟩ : ∃ line, req.method ++ 32 :: (req.target ++ 32 :: utf8 "HTTP/1.1") = line := ⟨_, rfl⟩
  have lineFree : LineFree line := by
    have inMethod : newline ∉ req.method := (control_free fun b listed => (method b listed).2.2).1
    have inTarget : newline ∉ req.target := (control_free fun b listed => (target b listed).2.2).1
    rw [← lineIs, version]
    simp only [LineFree, List.mem_append, List.mem_cons, not_or]
    exact ⟨inMethod, by decide, inTarget, by decide⟩
  have ascii : line.all isAscii = true := by
    rw [← lineIs, version, List.all_eq_true]
    intro b listed
    simp only [List.mem_append, List.mem_cons] at listed
    rcases listed with listed | rfl | listed | rfl | listed
    · exact (method b listed).1
    · rfl
    · exact (target b listed).1
    · rfl
    · rcases listed with rfl | rfl | rfl | rfl | rfl | rfl | rfl | rfl | listed
      all_goals first | rfl | cases listed
  have head := readable.head
  rw [requestHead_lines, lineIs] at head
  simp only [List.length_append, crlf, List.length_cons, List.length_nil] at head
  have fields : readHeaders ((writtenRequestFields req).flatMap fieldLine ++ crlf ++ req.body)
      (MAX_HEADER_BYTES - (line.length + 2)) = _ := readHeaders_lines plain (by omega)
  have coding : contentCoding (writtenRequestFields req) .request = .ok false := by
    have none_ := readable.coding
    rw [declaredCodings, ← writtenRequestFields_values req (Or.inl (by decide))] at none_
    rw [contentCoding]
    simp only [none_, if_true]
  have body := readBody_written readable
  have methodFree : 32 ∉ req.method := fun listed => (method 32 listed).2.1 rfl
  have targetFree : 32 ∉ req.target := fun listed => (target 32 listed).2.1 rfl
  have readHead : readRequestHead (requestHead req ++ req.body) =
      .ok ((req.method, req.target), writtenRequestFields req, req.body) := by
    rw [requestHead_lines, List.append_assoc, lineIs, readRequestHead, readLineBounded_crlf lineFree (by omega)]
    simp only [ascii, not_true_eq_false, if_false]
    rw [← lineIs, splitSpace_eq methodFree]
    simp only
    rw [splitSpace_eq targetFree]
    simp only [checkVersion, true_or, if_true]
    rw [lineIs, fields]
    simp only [coding]
  rw [readRequest, readHead]
  simp only [body]

/-- What a response's writer that succeeds has written reads back, and so for a request's; a writer that refuses a
header has written nothing. -/
theorem written_read_back (decoder : Bytes → Except String Bytes) (nothing : ∀ body, decoder [] = .ok body → body = []) :
    (∀ resp writer after, ReadableResponse decoder resp → writeResponse writer resp = (.ok (), after) →
      ∃ sent read, after.written = writer.written ++ sent ∧ readResponse decoder sent = .ok (read, []) ∧
        read.status = resp.status ∧ read.reason = resp.reason ∧ read.body = resp.body ∧
        unframed read.headers = unframed resp.headers) ∧
    (∀ req writer after, ReadableRequest req → writeRequest writer req = (.ok (), after) →
      ∃ sent read, after.written = writer.written ++ sent ∧ readRequest sent = .ok (read, []) ∧
        read.method = req.method ∧ read.target = req.target ∧ read.body = req.body ∧
        unframed read.headers = unframed req.headers) ∧
    (∀ resp writer error, checkFields resp.headers = .error error → writeResponse writer resp = (.error error, writer)) ∧
    (∀ req writer error, checkFields req.headers = .error error → writeRequest writer req = (.error error, writer)) := by
  refine ⟨?_, ?_, ?_, ?_⟩
  · intro resp writer after readable wrote
    unfold writeResponse at wrote
    split at wrote
    · cases wrote
    · rename_i checked
      obtain ⟨coded, read⟩ := readResponse_written nothing readable checked
      exact ⟨_, _, Writer.send_ok wrote, read, rfl, rfl, rfl, writtenFields_unframed resp⟩
  · intro req writer after readable wrote
    unfold writeRequest at wrote
    split at wrote
    · cases wrote
    · rename_i checked
      exact ⟨_, _, Writer.send_ok wrote, readRequest_written readable checked, rfl, rfl, rfl,
        writtenRequestFields_unframed req⟩
  · intro resp writer error refused
    rw [writeResponse, refused]
  · intro req writer error refused
    rw [writeRequest, refused]

def codedBody : Bytes := [31, 139, 8, 0, 0, 0, 0, 0, 2, 3, 75, 4, 0, 67, 190, 183, 232, 1, 0, 0, 0]

def exampleDecoder (coded : Bytes) : Except String Bytes :=
  if coded = codedBody then .ok (utf8 "a") else .error "invalid gzip header"

def exampleResponse : Response :=
  ⟨200, utf8 "OK", [⟨utf8 "content-encoding", utf8 "gzip", none⟩, ⟨utf8 "Content-Length", utf8 "1", none⟩], utf8 "a",
    some codedBody⟩

def emptyWriter : Writer := ⟨[], 1000, true⟩

theorem exampleResponse_reads_back :
    ∃ sent read, (writeResponse emptyWriter exampleResponse).2.written = [] ++ sent ∧
      readResponse exampleDecoder sent = .ok (read, []) ∧ read.status = 200 ∧ read.reason = utf8 "OK" ∧
      read.body = utf8 "a" ∧
      unframed read.headers = unframed exampleResponse.headers := by
  have nothing : ∀ body, exampleDecoder [] = .ok body → body = [] := by
    intro body decoded
    cases decoded
  have readable : ReadableResponse exampleDecoder exampleResponse := by
    refine ⟨by decide, by simp [exampleResponse], by decide, ?_, Or.inr ?_, by decide, by decide⟩
    · intro field listed
      simp only [exampleResponse, List.mem_cons, List.not_mem_nil, or_false] at listed
      rcases listed with rfl | rfl
      all_goals exact ⟨by decide, by decide, by simp, by decide, rfl⟩
    · exact ⟨utf8 "gzip", codedBody, by decide, by decide, rfl, by decide⟩
  exact (written_read_back exampleDecoder nothing).1 exampleResponse emptyWriter _ readable (by decide)

def chunkedRequest : Request :=
  ⟨utf8 "POST", utf8 "/", [⟨utf8 "Transfer-Encoding", utf8 "chunked", none⟩], utf8 "0\r\n\r\n"⟩

def respelledRequest : Request :=
  ⟨utf8 "GET", utf8 "/", [⟨utf8 "Content-Length", utf8 "0", none⟩, ⟨utf8 "Content-Length", utf8 "00", none⟩], []⟩

/-- A target that is not ASCII, coded bytes without a coding, a transfer coding of a request and two spellings of one
length are written and do not read back. -/
theorem written_unread :
    ((∀ b ∈ utf8 "GET" ++ utf8 "/é", b ≠ 32 ∧ (b < 32 || b = 127) = false) ∧
      (writeRequest emptyWriter ⟨utf8 "GET", utf8 "/é", [], []⟩).1 = .ok () ∧
      readRequest (writeRequest emptyWriter ⟨utf8 "GET", utf8 "/é", [], []⟩).2.written =
        .error "the request line is not ASCII") ∧
    ((writeResponse emptyWriter ⟨200, utf8 "OK", [], utf8 "a", some codedBody⟩).1 = .ok () ∧
      (readResponse exampleDecoder (writeResponse emptyWriter ⟨200, utf8 "OK", [], utf8 "a", some codedBody⟩).2.written).map
        (·.1.body) = .ok codedBody ∧ codedBody ≠ utf8 "a") ∧
    ((writeRequest emptyWriter chunkedRequest).1 = .ok () ∧
      readRequest (writeRequest emptyWriter chunkedRequest).2.written =
        .error "message declares both Content-Length and Transfer-Encoding") ∧
    ((writeRequest emptyWriter respelledRequest).1 = .ok () ∧
      readRequest (writeRequest emptyWriter respelledRequest).2.written =
        .error "the message declares two different content-length values") := by
  decide +kernel

end CommonMeasure.Http
