import CommonMeasure.Foundation.Words

namespace CommonMeasure.Optimise

/-- `char::to_lowercase`, as far as a word is one still in lower case. -/
structure Casing where
  lower : Char → List Char
  some_ : ∀ c, lower c ≠ []
  black : ∀ c, isWhitespace c = false → ∀ d ∈ lower c, isWhitespace d = false

def Casing.ascii : Casing where
  lower c := if 65 ≤ c.toNat ∧ c.toNat ≤ 90 then [Char.ofNat (c.toNat + 32)] else [c]
  some_ c := by split <;> exact List.cons_ne_nil _ _
  black c black d listed := by
    have letters : ∀ n ≤ 90, 65 ≤ n → isWhitespace (Char.ofNat (n + 32)) = false := by decide
    split at listed
    · rename_i upper
      rw [List.mem_singleton.mp listed]
      exact letters _ upper.2 upper.1
    · rw [List.mem_singleton.mp listed]
      exact black

def MINIMUM_PHRASE_WORDS : Nat := 4

structure SpanOrigin where
  reference : String
  start : Nat
  stop : Nat
  deriving DecidableEq

structure RemovedSpan where
  start : Nat
  stop : Nat
  words : Nat
  content_hash : String
  first_kept : SpanOrigin
  deriving DecidableEq

structure ContextEnvelope where
  source_url : String
  deriving DecidableEq

structure Source where
  envelope : ContextEnvelope
  text : List Char
  deriving DecidableEq

structure KeptSource where
  envelope : ContextEnvelope
  text : List Char
  input_hash : String
  output_hash : String
  tokens_in : Nat
  tokens_out : Nat
  removed_spans : List RemovedSpan
  deriving DecidableEq

structure DroppedSource where
  envelope : ContextEnvelope
  duplicate_of : String
  tokens : Nat
  deriving DecidableEq

structure Transformation where
  kept : List KeptSource
  dropped : List DroppedSource
  deriving DecidableEq

structure KeptWord where
  form : List Char
  source : Nat
  start : Nat
  stop : Nat
  deriving DecidableEq

structure Occurrence where
  place : Nat
  stretch_end : Nat
  deriving DecidableEq

structure KeptContext where
  words : List KeptWord := []
  index : AList fun _ : List Char => List Occurrence := ∅
  stretch_start : Option Nat := none
  pending : List (Nat × Nat) := []

structure Word where
  start : Nat
  stop : Nat
  form : List Char
  deriving DecidableEq

def KeptContext.open_block (context : KeptContext) : KeptContext := { context with stretch_start := some context.words.length }

def KeptContext.interrupt (context : KeptContext) : KeptContext :=
  { context with
    stretch_start := some context.words.length
    pending := context.pending ++ (context.stretch_start.map fun start => (start, context.words.length)).toList }

def joined (forms : List (List Char)) : List Char := List.intercalate [Char.ofNat 1] forms

def KeptContext.ngram_key (context : KeptContext) (place : Nat) : List Char :=
  joined (((context.words.drop place).take MINIMUM_PHRASE_WORDS).map KeptWord.form)

def KeptContext.indexed (context : KeptContext) (stretch : Nat × Nat) : KeptContext :=
  { context with
    index := (List.range' stretch.1 (stretch.2 + 1 - MINIMUM_PHRASE_WORDS - stretch.1)).foldl (fun index place =>
      let key := context.ngram_key place
      index.insert key ((index.lookup key).getD [] ++ [⟨place, stretch.2⟩])) context.index }

def KeptContext.close_block (context : KeptContext) : KeptContext :=
  let pending := context.pending ++ (context.stretch_start.map fun start => (start, context.words.length)).toList
  pending.foldl KeptContext.indexed { context with stretch_start := none, pending := [] }

def KeptContext.push (context : KeptContext) (word : KeptWord) : KeptContext :=
  { context with words := context.words ++ [word] }

def alike : List (List Char) → List (List Char) → Nat
  | a :: as, b :: bs => if a = b then alike as bs + 1 else 0
  | _, _ => 0

def KeptContext.reach (context : KeptContext) (occurrence : Occurrence) (words : List Word) : Nat :=
  MINIMUM_PHRASE_WORDS + alike
    (((context.words.take occurrence.stretch_end).drop (occurrence.place + MINIMUM_PHRASE_WORDS)).map KeptWord.form)
    ((words.drop MINIMUM_PHRASE_WORDS).map Word.form)

def KeptContext.furthest (context : KeptContext) (occurrences : List Occurrence) (words : List Word) : Option (Nat × Nat) :=
  occurrences.foldl (fun best occurrence =>
    match best with
    | none => some (occurrence.place, context.reach occurrence words)
    | some (place, held) =>
      if held < context.reach occurrence words then some (occurrence.place, context.reach occurrence words)
      else some (place, held)) none

def phraseOf (words : List Word) : List (List Char) := (words.take MINIMUM_PHRASE_WORDS).map Word.form

def KeptContext.longest_match (context : KeptContext) (words : List Word) : Option (Nat × Nat) :=
  if words.length < MINIMUM_PHRASE_WORDS then none
  else match context.index.lookup (joined (phraseOf words)) with
    | none => none
    | some occurrences => context.furthest occurrences words

structure Block where
  start : Nat
  stop : Nat
  deriving DecidableEq

/-- The blocks of the text that follows, its index, the block held so far, and the white space since: how many
characters, and whether one is a newline. -/
def blocksFrom : Nat → Option Block → Nat → Bool → List Char → List Block
  | _, held, _, _, [] => held.toList
  | index, held, run, newline, c :: rest =>
    let stop := index + c.utf8Size
    if isWhitespace c then blocksFrom stop held (run + 1) (newline || c = '\n') rest
    else if 2 ≤ run ∨ newline = true then held.toList ++ blocksFrom stop (some ⟨index, stop⟩) 0 false rest
    else blocksFrom stop (some ⟨(held.map Block.start).getD index, stop⟩) 0 false rest

def blocks (text : List Char) : List Block := blocksFrom 0 none 0 false text

section

variable (casing : Casing) (digest : List Char → String)

def formOf (text : List Char) : List Char := text.flatMap casing.lower

def words_of (block : List Char) (offset : Nat) : List Word :=
  (wordsAt offset block).map fun word => ⟨word.start, word.stop, formOf casing word.text⟩

/-- `str::trim_end`. -/
def trimEnd (text : List Char) : List Char := (text.reverse.dropWhile isWhitespace).reverse

def canonical (text : List Char) : List Char :=
  trimEnd ((words text).flatMap fun word => formOf casing word.text ++ [' '])

def approximate_tokens (text : List Char) : Nat := (words text).length

def exciseFrom (text : List Char) : Nat → List RemovedSpan → List Char
  | cursor, [] => (slice text cursor (byteLen text)).getD []
  | cursor, span :: spans => (slice text cursor span.start).getD [] ++ exciseFrom text span.stop spans

def excise (text : List Char) (spans : List RemovedSpan) : List Char := exciseFrom text 0 spans

structure Reading where
  context : KeptContext
  previous_end : Nat
  removed_spans : List RemovedSpan

abbrev Matcher := KeptContext → List Word → Option (Nat × Nat)

def Reading.removed (reading : Reading) (text : List Char) (reference : Nat → String) (words : List Word)
    (antecedent length : Nat) : Reading :=
  let stop := ((words[length - 1]?).map Word.stop).getD 0
  let first := reading.context.words[antecedent]?
  let last := reading.context.words[antecedent + length - 1]?
  { context := reading.context.interrupt
    previous_end := stop
    removed_spans := reading.removed_spans ++ [{
      start := reading.previous_end
      stop := stop
      words := length
      content_hash := digest ((slice text reading.previous_end stop).getD [])
      first_kept := ⟨reference ((first.map KeptWord.source).getD 0), (first.map KeptWord.start).getD 0,
        (last.map KeptWord.stop).getD 0⟩ }] }

def Reading.kept (reading : Reading) (source : Nat) (word : Word) : Reading :=
  { reading with
    context := reading.context.push ⟨word.form, source, word.start, word.stop⟩
    previous_end := word.stop }

def readWord (matcher : Matcher) (text : List Char) (reference : Nat → String) (source : Nat) (word : Word)
    (rest : List Word) (reading : Reading) : List Word × Reading :=
  match matcher reading.context (word :: rest) with
  | some (antecedent, length) =>
    ((word :: rest).drop length, reading.removed digest text reference (word :: rest) antecedent length)
  | none => (rest, reading.kept source word)

def readWords (matcher : Matcher) (text : List Char) (reference : Nat → String) (source : Nat) :
    Nat → List Word → Reading → Reading
  | turns + 1, word :: rest, reading =>
    let next := readWord digest matcher text reference source word rest reading
    readWords matcher text reference source turns next.1 next.2
  | _, _, reading => reading

def blockWords (text : List Char) (block : Block) : List Word :=
  words_of casing ((slice text block.start block.stop).getD []) block.start

def readBlock (matcher : Matcher) (text : List Char) (reference : Nat → String) (source : Nat) (reading : Reading)
    (block : Block) : Reading :=
  let words := blockWords casing text block
  let read := readWords digest matcher text reference source words.length words
    { reading with context := reading.context.open_block }
  { read with context := read.context.close_block }

structure State where
  kept : List KeptSource := []
  dropped : List DroppedSource := []
  seen_sources : List (List Char × String) := []
  context : KeptContext := {}

def State.reference (state : State) (envelope : ContextEnvelope) (source : Nat) : String :=
  ((state.kept[source]?).map fun kept => kept.envelope.source_url).getD envelope.source_url

def State.readSource (matcher : Matcher) (state : State) (source : Source) : Reading :=
  (blocks source.text).foldl
    (readBlock casing digest matcher source.text (state.reference source.envelope) state.kept.length)
    ⟨state.context, 0, []⟩

def keptSource (source : Source) (removed_spans : List RemovedSpan) : KeptSource :=
  let output := excise source.text removed_spans
  { envelope := source.envelope
    text := output
    input_hash := digest source.text
    output_hash := digest output
    tokens_in := approximate_tokens source.text
    tokens_out := approximate_tokens output
    removed_spans := removed_spans }

def State.take (matcher : Matcher) (state : State) (source : Source) : State :=
  let whole := canonical casing source.text
  match state.seen_sources.find? fun seen => seen.1 = whole with
  | some seen =>
    { state with dropped := state.dropped ++ [⟨source.envelope, seen.2, approximate_tokens source.text⟩] }
  | none =>
    let reading := state.readSource casing digest matcher source
    { state with
      kept := state.kept ++ [keptSource digest source reading.removed_spans]
      seen_sources := state.seen_sources ++ [(whole, source.envelope.source_url)]
      context := reading.context }

def takeAll (matcher : Matcher) (sources : List Source) : State := sources.foldl (State.take casing digest matcher) {}

/-- `invoke`: the transformation. -/
def invoke (sources : List Source) : Transformation :=
  let state := takeAll casing digest KeptContext.longest_match sources
  ⟨state.kept, state.dropped⟩

end

end CommonMeasure.Optimise
