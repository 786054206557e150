import CommonMeasure.Http.Message

/-!
# How a body is framed

An accepted message's body is framed in one way by all of its fields, except where the first of its transfer codings is
chunked and a later field names another.
-/

namespace CommonMeasure.Http

/-! ### Lines and chunks -/

def Line (bytes line rest : Bytes) : Prop := bytes = line ++ newline :: rest ∧ LineFree line

inductive Trailer : Bytes → Bytes → Prop
  | last {bytes line rest} : Line bytes line rest → stripReturn line = [] → Trailer bytes rest
  | field {bytes line more rest} : Line bytes line more → stripReturn line ≠ [] → Trailer more rest → Trailer bytes rest

/-- A chunked body, and what follows it: each chunk's data is as long as its line gives and ends with CRLF. -/
inductive Chunks : Bytes → Bytes → Bytes → Prop
  | last {bytes line more rest} : Line bytes line more → chunkSize (stripReturn line) = .ok 0 → Trailer more rest →
      Chunks bytes [] rest
  | chunk {bytes line data more body rest} : Line bytes line (data ++ carriageReturn :: newline :: more) → data ≠ [] →
      chunkSize (stripReturn line) = .ok data.length → Chunks more body rest → Chunks bytes (data ++ body) rest

theorem Line.unique {bytes line rest other more : Bytes} (is : Line bytes line rest) (also : Line bytes other more) :
    line = other ∧ rest = more := by
  obtain ⟨rfl, free⟩ := is
  obtain ⟨same, freeToo⟩ := also
  induction line generalizing other with
  | nil =>
    cases other with
    | nil => exact ⟨rfl, (List.cons.inj same).2⟩
    | cons b other =>
      obtain ⟨rfl, _⟩ := List.cons.inj same
      exact (freeToo List.mem_cons_self).elim
  | cons b line ih =>
    cases other with
    | nil =>
      obtain ⟨rfl, _⟩ := List.cons.inj same
      exact (free List.mem_cons_self).elim
    | cons c other =>
      obtain ⟨rfl, tail⟩ := List.cons.inj same
      obtain ⟨rfl, rest⟩ := ih (fun listed => free (List.mem_cons_of_mem _ listed)) tail
        fun listed => freeToo (List.mem_cons_of_mem _ listed)
      exact ⟨rfl, rest⟩

theorem Trailer.unique {bytes rest more : Bytes} (is : Trailer bytes rest) (also : Trailer bytes more) : rest = more := by
  induction is with
  | last line empty =>
    cases also with
    | last other _ => exact (line.unique other).2
    | field other some_ _ =>
      obtain ⟨rfl, _⟩ := line.unique other
      exact (some_ empty).elim
  | field line some_ _ ih =>
    cases also with
    | last other empty =>
      obtain ⟨rfl, _⟩ := line.unique other
      exact (some_ empty).elim
    | field other _ later =>
      obtain ⟨_, rfl⟩ := line.unique other
      exact ih later

theorem Chunks.unique {bytes body rest other more : Bytes} (is : Chunks bytes body rest) (also : Chunks bytes other more) :
    body = other ∧ rest = more := by
  induction is generalizing other with
  | last line zero trailer =>
    cases also with
    | last another _ ends =>
      obtain ⟨_, rfl⟩ := line.unique another
      exact ⟨rfl, trailer.unique ends⟩
    | chunk another some_ size _ =>
      obtain ⟨rfl, _⟩ := line.unique another
      rw [zero] at size
      exact (some_ (List.length_eq_zero_iff.mp (Except.ok.inj size).symm)).elim
  | chunk line some_ size _ ih =>
    cases also with
    | last another zero _ =>
      obtain ⟨rfl, _⟩ := line.unique another
      rw [zero] at size
      exact (some_ (List.length_eq_zero_iff.mp (Except.ok.inj size).symm)).elim
    | chunk another _ also later =>
      obtain ⟨rfl, same⟩ := line.unique another
      rw [size] at also
      obtain ⟨rfl, left⟩ := List.append_inj same (Except.ok.inj also)
      obtain ⟨_, left⟩ := List.cons.inj left
      obtain ⟨_, rfl⟩ := List.cons.inj left
      obtain ⟨rfl, rest⟩ := ih later
      exact ⟨rfl, rest⟩

section

variable {bytes line rest body : Bytes} {budget left : Nat}

theorem readLineBytes_line (read : readLineBytes bytes budget = .ok (line, rest, left)) : Line bytes line rest := by
  induction bytes generalizing budget line with
  | nil => cases read
  | cons b bytes ih =>
    cases budget with
    | zero => cases read
    | succ budget =>
      unfold readLineBytes at read
      split at read
      · rename_i ends
        obtain ⟨rfl, same⟩ := Prod.mk.inj (Except.ok.inj read)
        obtain ⟨rfl, _⟩ := Prod.mk.inj same
        exact ⟨by rw [ends]; rfl, by simp⟩
      · rename_i other
        split at read
        · rename_i inner after afterwards found
          obtain ⟨rfl, same⟩ := Prod.mk.inj (Except.ok.inj read)
          obtain ⟨rfl, rfl⟩ := Prod.mk.inj same
          obtain ⟨rfl, free⟩ := ih found
          refine ⟨rfl, ?_⟩
          simp only [LineFree, List.mem_cons, not_or]
          exact ⟨Ne.symm other, free⟩
        · cases read

theorem readLineBounded_line (read : readLineBounded bytes budget = .ok (line, rest, left)) :
    ∃ whole, Line bytes whole rest ∧ line = stripReturn whole := by
  unfold readLineBounded at read
  split at read
  · rename_i whole after budget found
    obtain ⟨rfl, same⟩ := Prod.mk.inj (Except.ok.inj read)
    obtain ⟨rfl, _⟩ := Prod.mk.inj same
    exact ⟨whole, readLineBytes_line found, rfl⟩
  · cases read

theorem trailerFrom_trailer {turns : Nat} (read : trailerFrom turns bytes budget = .ok rest) : Trailer bytes rest := by
  induction turns generalizing bytes budget with
  | zero => cases read
  | succ turns ih =>
    unfold trailerFrom at read
    split at read
    · cases read
    · rename_i after left found
      obtain rfl := Except.ok.inj read
      obtain ⟨whole, line, empty⟩ := readLineBounded_line found
      exact .last line empty.symm
    · rename_i other after left some_ found
      obtain ⟨whole, line, same⟩ := readLineBounded_line found
      exact .field line (fun empty => some_ (same.trans empty)) (ih read)

theorem chunksFrom_chunks {turns : Nat} {before : Bytes} (read : chunksFrom turns bytes budget before = .ok (body, rest))
    (few : before.length ≤ MAX_BODY_BYTES) :
    ∃ more, body = before ++ more ∧ Chunks bytes more rest ∧ body.length ≤ MAX_BODY_BYTES := by
  induction turns generalizing bytes budget before with
  | zero => cases read
  | succ turns ih =>
    unfold chunksFrom at read
    split at read
    · cases read
    rename_i found
    obtain ⟨whole, line, rfl⟩ := readLineBounded_line found
    split at read
    · cases read
    rename_i size sized
    split at read
    · cases read
    rename_i fits
    split at read
    · rename_i zero
      split at read
      · cases read
      rename_i trailer
      obtain ⟨rfl, rfl⟩ := Prod.mk.inj (Except.ok.inj read)
      rw [zero] at sized
      exact ⟨[], by simp, .last line sized (trailerFrom_trailer trailer), few⟩
    rename_i some_
    split at read
    · cases read
    rename_i long
    split at read
    · rename_i cr lf after dropped
      split at read
      · rename_i ends
        obtain ⟨rfl, rfl⟩ := ends
        have data : (List.take size _).length = size := List.length_take_of_le (Nat.le_of_not_lt long)
        obtain ⟨more, rfl, chunks, bounded⟩ := ih read (by rw [List.length_append, data]; omega)
        refine ⟨_, List.append_assoc _ _ _, ?_, bounded⟩
        apply Chunks.chunk _ _ (data ▸ sized) chunks
        · rw [← dropped, List.take_append_drop]
          exact line
        · intro empty
          rw [empty] at data
          exact some_ data.symm
      · cases read
    · cases read

theorem readChunked_chunks (read : readChunked bytes = .ok (body, rest)) :
    Chunks bytes body rest ∧ body.length ≤ MAX_BODY_BYTES := by
  obtain ⟨_, rfl, chunks, bounded⟩ := chunksFrom_chunks read (Nat.zero_le _)
  exact ⟨chunks, bounded⟩

end

def transferCodings (headers : Headers) : List Bytes := codings (headers.values "Transfer-Encoding")

theorem get_values (headers : Headers) (name : String) : headers.get name = (headers.values name).head? := by
  unfold Headers.get Headers.values
  rw [List.head?_map, List.head?_filter]

theorem codings_cons (first : Bytes) (others : List Bytes) : codings (first :: others) = codings [first] ++ codings others := by
  simp [codings]

theorem splitOn_free {separator : UInt8} {text : Bytes} (free : separator ∉ text) : splitOn separator text = [text] := by
  induction text with
  | nil => rfl
  | cons b rest ih =>
    simp only [List.mem_cons, not_or] at free
    rw [splitOn, if_neg (Ne.symm free.1), ih free.2]

theorem trimOws_free {text : Bytes} (free : ∀ b ∈ text, isOws b = false) : trimOws text = text := by
  have same {bytes : Bytes} (free : ∀ b ∈ bytes, isOws b = false) : bytes.dropWhile isOws = bytes := by
    cases bytes with
    | nil => rfl
    | cons b rest => rw [List.dropWhile_cons_of_neg (by simp [free b])]
  rw [trimOws, same free, same (fun b listed => free b (List.mem_reverse.mp listed)), List.reverse_reverse]

theorem codings_chunked {value : Bytes} (is : eqIgnoreCase value (utf8 "chunked") = true) : codings [value] = [value] := by
  have lowered : value.map lower = [99, 104, 117, 110, 107, 101, 100] := of_decide_eq_true is
  have plain : ∀ b ∈ value, b ≠ 44 ∧ isOws b = false := by
    intro b listed
    have letter : lower b ∈ ([99, 104, 117, 110, 107, 101, 100] : Bytes) := lowered ▸ List.mem_map_of_mem listed
    refine ⟨?_, ?_⟩
    · rintro rfl
      simp [lower] at letter
    · by_contra white
      have blank : b = 32 ∨ b = 9 := by simpa [isOws, or_iff_not_imp_left] using white
      rcases blank with rfl | rfl <;> simp [lower] at letter
  have some_ : value ≠ [] := by
    rintro rfl
    cases lowered
  simp [codings, splitOn_free fun listed => (plain 44 listed).1 rfl, trimOws_free fun b listed => (plain b listed).2, some_]

structure Framed (headers : Headers) (eofDelimited : Bool) (after body rest : Bytes) : Prop where
  lengths : ∀ one ∈ lengths headers, ∀ other ∈ lengths headers, one = other
  apart : headers.values "Transfer-Encoding" ≠ [] → Http.lengths headers = []
  chunked : headers.values "Transfer-Encoding" ≠ [] →
    ∃ coding, transferCodings headers = [coding] ∧ eqIgnoreCase coding (utf8 "chunked") = true
  small : body.length ≤ MAX_BODY_BYTES
  ends : if headers.values "Transfer-Encoding" ≠ [] then Chunks after body rest
    else match contentLength headers with
      | .ok (some length) => length ≤ after.length ∧ body = after.take length ∧ rest = after.drop length
      | .ok none => if eofDelimited then body = after ∧ rest = [] else body = [] ∧ rest = after
      | .error _ => False

section

variable {headers : Headers} {eofDelimited : Bool} {after body rest : Bytes}

theorem Framed.unique {other more : Bytes} (framed : Framed headers eofDelimited after body rest)
    (also : Framed headers eofDelimited after other more) : body = other ∧ rest = more := by
  have one := framed.ends
  have another := also.ends
  split at one
  · rename_i coded
    rw [if_pos coded] at another
    exact one.unique another
  · rename_i plain
    rw [if_neg plain] at another
    cases declared : contentLength headers with
    | error error =>
      rw [declared] at one
      exact one.elim
    | ok length =>
      rw [declared] at one another
      cases length with
      | some length =>
        obtain ⟨_, rfl, rfl⟩ := one
        obtain ⟨_, rfl, rfl⟩ := another
        exact ⟨rfl, rfl⟩
      | none =>
        cases eofDelimited with
        | true =>
          obtain ⟨rfl, rfl⟩ := one
          exact ⟨another.1.symm, another.2.symm⟩
        | false =>
          obtain ⟨rfl, rfl⟩ := one
          exact ⟨another.1.symm, another.2.symm⟩

def splitCoding (headers : Headers) : Bool :=
  match headers.values "Transfer-Encoding" with
  | first :: others => eqIgnoreCase first (utf8 "chunked") && codings others ≠ []
  | [] => false

theorem contentLength_agreed {declared : Option Nat} (read : contentLength headers = .ok declared) :
    (∀ one ∈ lengths headers, ∀ other ∈ lengths headers, one = other) ∧ (declared = none ↔ lengths headers = []) := by
  unfold contentLength at read
  cases values : lengths headers with
  | nil =>
    rw [values] at read
    obtain rfl := Except.ok.inj read
    simp
  | cons first others =>
    rw [values] at read
    by_cases same : (others.all fun value => decide (value = first)) = true
    · simp only [agreed, if_pos same] at read
      have all : ∀ one ∈ first :: others, one = first := by
        rintro one (_ | ⟨_, listed⟩)
        · rfl
        · exact of_decide_eq_true (List.all_eq_true.mp same one listed)
      refine ⟨fun one listed other also => (all one listed).trans (all other also).symm, ?_⟩
      split at read
      · cases read
      · split at read
        · obtain rfl := Except.ok.inj read
          simp
        · cases read
    · simp only [agreed, if_neg same] at read
      cases read

theorem readBody_coded {first : Bytes} {others : List Bytes} (values : headers.values "Transfer-Encoding" = first :: others) :
    readBody headers eofDelimited after = .ok (body, rest) ↔
      lengths headers = [] ∧ eqIgnoreCase first (utf8 "chunked") = true ∧ readChunked after = .ok (body, rest) := by
  unfold readBody
  rw [get_values, values]
  cases declared : contentLength headers with
  | error error =>
    simp only [reduceCtorEq, false_iff, not_and]
    intro none
    rw [contentLength, none] at declared
    cases declared
  | ok length =>
    have agreed := (contentLength_agreed declared).2
    cases length with
    | some length =>
      have some_ : lengths headers ≠ [] := fun none => by cases agreed.mpr none
      simp [some_]
    | none =>
      have none : lengths headers = [] := agreed.mp rfl
      cases is : eqIgnoreCase first (utf8 "chunked") <;> simp [none, is]

theorem framed_iff (read : readBody headers eofDelimited after = .ok (body, rest)) :
    Framed headers eofDelimited after body rest ↔ splitCoding headers = false := by
  cases values : headers.values "Transfer-Encoding" with
  | cons first others =>
    obtain ⟨none, is, chunked⟩ := (readBody_coded values).mp read
    obtain ⟨chunks, small⟩ := readChunked_chunks chunked
    have combined : transferCodings headers = first :: codings others := by
      rw [transferCodings, values, codings_cons, codings_chunked is]
      rfl
    have split : splitCoding headers = false ↔ codings others = [] := by
      simp [splitCoding, values, is]
    rw [split]
    constructor
    · intro framed
      obtain ⟨coding, one, _⟩ := framed.chunked (by simp [values])
      rw [combined] at one
      exact (List.cons.inj one).2
    · intro only
      refine ⟨by simp [none], fun _ => none, fun _ => ⟨first, by rw [combined, only], is⟩, small, ?_⟩
      rw [if_pos (by simp [values])]
      exact chunks
  | nil =>
    have unsplit : splitCoding headers = false := by simp [splitCoding, values]
    have plain : ¬headers.values "Transfer-Encoding" ≠ [] := by simp [values]
    refine ⟨fun _ => unsplit, fun _ => ?_⟩
    unfold readBody at read
    rw [get_values, values] at read
    cases declared : contentLength headers with
    | error error =>
      rw [declared] at read
      cases read
    | ok length =>
      rw [declared] at read
      have whole (framed : match length with
          | some length => length ≤ after.length ∧ body = after.take length ∧ rest = after.drop length
          | none => if eofDelimited then body = after ∧ rest = [] else body = [] ∧ rest = after)
          (small : body.length ≤ MAX_BODY_BYTES) : Framed headers eofDelimited after body rest := by
        refine ⟨(contentLength_agreed declared).1, fun coded => (plain coded).elim, fun coded => (plain coded).elim, small,
          ?_⟩
        rw [if_neg plain, declared]
        cases length <;> exact framed
      cases length with
      | some length =>
        dsimp only [List.head?_nil] at read
        split at read
        · cases read
        rename_i fits
        split at read
        · cases read
        rename_i long
        obtain ⟨rfl, rfl⟩ := Prod.mk.inj (Except.ok.inj read)
        have within := Nat.le_of_not_lt long
        exact whole ⟨within, rfl, rfl⟩ (by rw [List.length_take_of_le within]; omega)
      | none =>
        dsimp only [List.head?_nil] at read
        split at read
        · rename_i ends
          split at read
          · cases read
          rename_i fits
          obtain ⟨rfl, rfl⟩ := Prod.mk.inj (Except.ok.inj read)
          exact whole (by simp [ends]) (Nat.le_of_not_lt fits)
        · rename_i ends
          obtain ⟨rfl, rfl⟩ := Prod.mk.inj (Except.ok.inj read)
          exact whole (by simp [ends]) (Nat.zero_le _)

end

/-! ### Messages -/

def FramedRequest (bytes : Bytes) : Prop :=
  ∀ request rest, readRequest bytes = .ok (request, rest) →
    ∃ after, readRequestHead bytes = .ok ((request.method, request.target), request.headers, after) ∧
      Framed request.headers false after request.body rest ∧
      ∀ body more, Framed request.headers false after body more → body = request.body ∧ more = rest

/-- An accepted response's body, as served, is framed as its fields have it where its status has a body. -/
def FramedResponse (decoder : Bytes → Except String Bytes) (gzipRequested : Bool) (bytes : Bytes) : Prop :=
  ∀ response rest, readResponseTo decoder gzipRequested bytes = .ok (response, rest) →
    response.body.length ≤ MAX_BODY_BYTES ∧
    ∃ coded after, readResponseHead gzipRequested bytes =
        .ok ((response.status, response.reason), response.headers, coded, after) ∧
      if bodiless response.status then response.body = [] ∧ rest = after
      else Framed response.headers true after (response.coded.getD response.body) rest ∧
        ∀ body more, Framed response.headers true after body more →
          body = response.coded.getD response.body ∧ more = rest

def SplitRequest (bytes : Bytes) : Prop :=
  ∃ line headers after body rest, readRequestHead bytes = .ok (line, headers, after) ∧ splitCoding headers = true ∧
    lengths headers = [] ∧ readChunked after = .ok (body, rest)

/-- A response with chunks to read under a split transfer coding, and to decode where they are coded. -/
def SplitResponse (decoder : Bytes → Except String Bytes) (gzipRequested : Bool) (bytes : Bytes) : Prop :=
  ∃ status reason headers coded after body rest,
    readResponseHead gzipRequested bytes = .ok ((status, reason), headers, coded, after) ∧ bodiless status = false ∧
    splitCoding headers = true ∧ lengths headers = [] ∧ readChunked after = .ok (body, rest) ∧
    ((coded && body ≠ []) = true → ∃ decoded, gunzip decoder body = .ok decoded)

section

variable {decoder : Bytes → Except String Bytes} {gzipRequested : Bool} {bytes rest : Bytes}

theorem splitCoding_chunked {headers : Headers} (split : splitCoding headers = true) :
    ∃ first others, headers.values "Transfer-Encoding" = first :: others ∧ eqIgnoreCase first (utf8 "chunked") = true := by
  unfold splitCoding at split
  split at split
  · rename_i first others values
    exact ⟨first, others, values, (Bool.and_eq_true_iff.mp split).1⟩
  · cases split

theorem readBody_split {headers : Headers} {eofDelimited : Bool} {after body : Bytes} (split : splitCoding headers = true) :
    readBody headers eofDelimited after = .ok (body, rest) ↔ lengths headers = [] ∧ readChunked after = .ok (body, rest) := by
  obtain ⟨first, others, values, is⟩ := splitCoding_chunked split
  simp [readBody_coded values, is]

theorem readRequest_iff {request : Request} :
    readRequest bytes = .ok (request, rest) ↔
      ∃ after, readRequestHead bytes = .ok ((request.method, request.target), request.headers, after) ∧
        readBody request.headers false after = .ok (request.body, rest) := by
  unfold readRequest
  constructor
  · intro read
    split at read
    · cases read
    rename_i after head
    split at read
    · cases read
    rename_i found
    obtain ⟨rfl, rfl⟩ := Prod.mk.inj (Except.ok.inj read)
    exact ⟨after, head, found⟩
  · rintro ⟨after, head, found⟩
    rw [head]
    dsimp only
    rw [found]

theorem readResponseTo_served {response : Response} (read : readResponseTo decoder gzipRequested bytes = .ok (response, rest)) :
    ∃ coded after, readResponseHead gzipRequested bytes =
        .ok ((response.status, response.reason), response.headers, coded, after) ∧
      (if bodiless response.status then .ok ([], after) else readBody response.headers true after) =
        .ok (response.coded.getD response.body, rest) ∧
      (response.coded = none ∨ response.coded ≠ some [] ∧ response.body.length ≤ MAX_BODY_BYTES) ∧
      ((coded && response.coded.getD response.body ≠ []) = true →
        ∃ decoded, gunzip decoder (response.coded.getD response.body) = .ok decoded) := by
  unfold readResponseTo at read
  split at read
  · cases read
  rename_i after head
  split at read
  · cases read
  rename_i served left found
  split at read
  · rename_i decodes
    split at read
    · cases read
    rename_i body decoded
    obtain ⟨rfl, rfl⟩ := Prod.mk.inj (Except.ok.inj read)
    refine ⟨_, after, head, found, .inr ⟨?_, ?_⟩, fun _ => ⟨body, decoded⟩⟩
    · rintro same
      simp [Option.some.inj same] at decodes
    · unfold gunzip at decoded
      split at decoded
      · cases decoded
      · split at decoded
        · cases decoded
        · rename_i fits
          obtain rfl := Except.ok.inj decoded
          exact Nat.le_of_not_lt fits
  · rename_i plain
    obtain ⟨rfl, rfl⟩ := Prod.mk.inj (Except.ok.inj read)
    exact ⟨_, after, head, found, .inl rfl, fun decodes => (plain decodes).elim⟩

theorem framedRequest_iff : FramedRequest bytes ↔ ¬SplitRequest bytes := by
  constructor
  · rintro framed ⟨line, headers, after, body, rest, head, split, lengths, chunked⟩
    have read : readRequest bytes = .ok (⟨line.1, line.2, headers, body⟩, rest) :=
      readRequest_iff.mpr ⟨after, head, (readBody_split split).mpr ⟨lengths, chunked⟩⟩
    obtain ⟨again, same, ends, _⟩ := framed _ _ read
    rw [head] at same
    obtain rfl : after = again := by injection same with same; injection same with _ same; injection same
    have whole := (framed_iff ((readBody_split split).mpr ⟨lengths, chunked⟩)).mp ends
    rw [split] at whole
    cases whole
  · intro unsplit request rest read
    obtain ⟨after, head, found⟩ := readRequest_iff.mp read
    have framed : Framed request.headers false after request.body rest := by
      refine (framed_iff found).mpr (Bool.eq_false_iff.mpr fun split => unsplit ?_)
      obtain ⟨lengths, chunked⟩ := (readBody_split split).mp found
      exact ⟨_, _, after, _, rest, head, split, lengths, chunked⟩
    exact ⟨after, head, framed, fun _ _ other => other.unique framed⟩

theorem framedResponse_iff :
    FramedResponse decoder gzipRequested bytes ↔ ¬SplitResponse decoder gzipRequested bytes := by
  constructor
  · rintro framed ⟨status, reason, headers, coded, after, body, rest, head, has, split, lengths, chunked, decodes⟩
    have found : readBody headers true after = .ok (body, rest) := (readBody_split split).mpr ⟨lengths, chunked⟩
    have read : ∃ response, readResponseTo decoder gzipRequested bytes = .ok (response, rest) ∧
        response.headers = headers ∧ response.status = status ∧ response.coded.getD response.body = body := by
      unfold readResponseTo
      rw [head]
      dsimp only
      rw [has, if_neg Bool.false_ne_true, found]
      dsimp only
      by_cases codes : (coded && body ≠ []) = true
      · obtain ⟨decoded, is⟩ := decodes codes
        rw [if_pos codes, is]
        exact ⟨_, rfl, rfl, rfl, rfl⟩
      · rw [if_neg codes]
        exact ⟨_, rfl, rfl, rfl, rfl⟩
    obtain ⟨response, read, rfl, rfl, rfl⟩ := read
    obtain ⟨_, again, afterAgain, same, ends⟩ := framed _ _ read
    rw [head] at same
    obtain rfl : after = afterAgain := by
      injection same with same
      injection same with _ same
      injection same with _ same
      injection same
    rw [has, if_neg Bool.false_ne_true] at ends
    have whole := (framed_iff found).mp ends.1
    rw [split] at whole
    cases whole
  · intro unsplit response rest read
    obtain ⟨coded, after, head, found, bounded, decodes⟩ := readResponseTo_served read
    cases has : bodiless response.status with
    | true =>
      rw [has, if_pos rfl] at found
      obtain ⟨nothing, rfl⟩ := Prod.mk.inj (Except.ok.inj found)
      have empty : response.body = [] := by
        rcases bounded with plain | ⟨some_, _⟩
        · rw [plain] at nothing
          exact nothing.symm
        · cases served : response.coded with
          | none =>
            rw [served] at nothing
            exact nothing.symm
          | some served =>
            simp_all
      refine ⟨by simp [empty], coded, after, head, ?_⟩
      rw [if_pos rfl]
      exact ⟨empty, rfl⟩
    | false =>
      rw [has, if_neg Bool.false_ne_true] at found
      have framed : Framed response.headers true after (response.coded.getD response.body) rest := by
        refine (framed_iff found).mpr (Bool.eq_false_iff.mpr fun split => unsplit ?_)
        obtain ⟨lengths, chunked⟩ := (readBody_split split).mp found
        exact ⟨_, _, _, coded, after, _, rest, head, has, split, lengths, chunked, decodes⟩
      refine ⟨?_, coded, after, head, ?_⟩
      · rcases bounded with plain | ⟨_, small⟩
        · have small := framed.small
          rwa [plain] at small
        · exact small
      · rw [if_neg Bool.false_ne_true]
        exact ⟨framed, fun _ _ other => other.unique framed⟩

end

/-- A message is framed by all its fields, each in one way, exactly where no later field names another transfer coding. -/
theorem framing_exact (decoder : Bytes → Except String Bytes) (bytes : Bytes) :
    (FramedRequest bytes ↔ ¬SplitRequest bytes) ∧
    ∀ gzipRequested, FramedResponse decoder gzipRequested bytes ↔ ¬SplitResponse decoder gzipRequested bytes :=
  ⟨framedRequest_iff, fun _ => framedResponse_iff⟩

/-- A body read as chunked, though its fields combined name gzip over it. -/
theorem framing_split : ¬∀ bytes, FramedRequest bytes := by
  intro framed
  let bytes := utf8 "POST / HTTP/1.1\r\nTransfer-Encoding: chunked\r\nTransfer-Encoding: gzip\r\n\r\n0\r\n\r\n"
  have read : readRequest bytes = .ok (⟨utf8 "POST", utf8 "/", [.inbound (utf8 "Transfer-Encoding") (utf8 "chunked"),
      .inbound (utf8 "Transfer-Encoding") (utf8 "gzip")], []⟩, []) := by decide
  obtain ⟨_, _, ends, _⟩ := framed bytes _ _ read
  obtain ⟨coding, one, _⟩ := ends.chunked (by decide)
  have two : transferCodings [.inbound (utf8 "Transfer-Encoding") (utf8 "chunked"),
      .inbound (utf8 "Transfer-Encoding") (utf8 "gzip")] = [utf8 "chunked", utf8 "gzip"] := by decide
  rw [two] at one
  cases (List.cons.inj one).2

end CommonMeasure.Http
