import CommonMeasure.Integrity.Release
import CommonMeasure.Mediation.Crossing

/-!
# A text in parts

The part of a text that a fetch asks for, by characters, cut out of its bytes, and what is shown of a signed release beside it.
-/

namespace CommonMeasure.Mediation
open Integrity (Signed)

/-! ### A window as the code cuts it -/

/-- `u64::MAX`. -/
def U64_MAX : Nat := 2 ^ 64 - 1

def saturating_add (a b : Nat) : Nat := min (a + b) U64_MAX

/-- `str::char_indices`, from a byte on. -/
def char_indices : Nat → List Char → List (Nat × Char)
  | _, [] => []
  | index, c :: text => (index, c) :: char_indices (index + c.utf8Size) text

/-- `usize_max` is the largest index the platform has. -/
def byte_index (usize_max : Nat) (text : List Char) (chars : Nat) : Nat :=
  (((if chars ≤ usize_max then some chars else none).bind fun chars => (char_indices 0 text)[chars]?).map Prod.fst).getD
    (byteLen text)

def FetchWindow.slice_bytes (usize_max : Nat) (window : FetchWindow) (text : List Char) : Option Part := do
  let total_chars := text.length
  let start := byte_index usize_max text window.offset
  let rest ← CommonMeasure.slice text start (byteLen text)
  let end_ := start + byte_index usize_max rest window.max_chars
  let part ← CommonMeasure.slice text start end_
  return ⟨part, window.offset, min window.max_chars (total_chars - window.offset), total_chars⟩

def Part.truncated_u64 (part : Part) : Bool := saturating_add part.offset part.chars < part.total_chars

section

variable {usize_max : Nat} {text : List Char}

theorem char_indices_get (index : Nat) (text : List Char) (n : Nat) :
    ((char_indices index text)[n]?).map Prod.fst = if n < text.length then some (index + byteLen (text.take n)) else none := by
  induction text generalizing index n with
  | nil =>
    have past : ¬n < ([] : List Char).length := Nat.not_lt_zero n
    rw [char_indices, List.getElem?_nil, Option.map_none, if_neg past]
  | cons c text ih =>
    cases n with
    | zero => rfl
    | succ n =>
      rw [char_indices, List.getElem?_cons_succ, ih, List.length_cons, List.take_succ_cons, byteLen_cons]
      by_cases within : n < text.length
      · rw [if_pos within, if_pos (by omega), Nat.add_assoc]
      · rw [if_neg within, if_neg (by omega)]

theorem length_le_byteLen (text : List Char) : text.length ≤ byteLen text := by
  induction text with
  | nil => exact Nat.le_refl 0
  | cons c text ih =>
    have positive := c.utf8Size_pos
    rw [List.length_cons, byteLen_cons]
    omega

theorem byte_index_take (fits : byteLen text ≤ usize_max) (chars : Nat) :
    byte_index usize_max text chars = byteLen (text.take chars) := by
  have few := length_le_byteLen text
  unfold byte_index
  by_cases indexed : chars ≤ usize_max
  · rw [if_pos indexed, Option.bind_some, char_indices_get]
    by_cases within : chars < text.length
    · rw [if_pos within, Option.getD_some, Nat.zero_add]
    · rw [if_neg within, Option.getD_none, List.take_of_length_le (by omega)]
  · rw [if_neg indexed, Option.bind_none, Option.map_none, Option.getD_none, List.take_of_length_le (by omega)]

theorem take_lies (text : List Char) (offset chars : Nat) :
    Lies text (byteLen (text.take offset)) (byteLen (text.take offset) + byteLen ((text.drop offset).take chars))
      ((text.drop offset).take chars) := by
  refine ⟨text.take offset, (text.drop offset).drop chars, ?_, rfl, rfl⟩
  rw [List.append_assoc, List.take_append_drop, List.take_append_drop]

theorem slice_bytes_eq (fits : byteLen text ≤ usize_max) (window : FetchWindow) :
    window.slice_bytes usize_max text = some (window.slice text) := by
  have whole : Lies text (byteLen (text.take window.offset)) (byteLen text) (text.drop window.offset) := by
    refine ⟨text.take window.offset, [], ?_, rfl, ?_⟩
    · rw [List.append_nil, List.take_append_drop]
    · rw [← byteLen_append, List.take_append_drop]
  have shorter : byteLen (text.drop window.offset) ≤ usize_max := by
    have parts := byteLen_append (text.take window.offset) (text.drop window.offset)
    rw [List.take_append_drop] at parts
    omega
  unfold FetchWindow.slice_bytes
  simp only [byte_index_take fits, slice_iff.mpr whole, Option.bind_eq_bind, Option.bind_some, byte_index_take shorter,
    slice_iff.mpr (take_lies text window.offset window.max_chars)]
  rfl

theorem truncated_u64_eq (short : text.length ≤ U64_MAX) (window : FetchWindow) :
    (window.slice text).truncated_u64 = (window.slice text).truncated := by
  unfold Part.truncated_u64 Part.truncated saturating_add
  rw [decide_eq_decide]
  show min _ _ < text.length ↔ _ < text.length
  omega

def reading (text : List Char) (max_chars : Nat → Nat) : Nat → Nat → Nat → List Part
  | 0, _, _ => []
  | fuel + 1, i, offset =>
    let part := (FetchWindow.mk offset (max_chars i) true).slice text
    part :: if part.truncated then reading text max_chars fuel (i + 1) (part.offset + part.chars) else []

theorem slice_truncated {text : List Char} {window : FetchWindow} :
    (window.slice text).truncated = true ↔ window.offset + window.max_chars < text.length := by
  show decide (window.offset + min window.max_chars (text.length - window.offset) < text.length) = true ↔ _
  rw [decide_eq_true_iff]
  omega

variable {max_chars : Nat → Nat}

theorem reading_spec (positive : ∀ i, 1 ≤ max_chars i) {fuel i offset : Nat} (enough : text.length < offset + fuel) :
    ((reading text max_chars fuel i offset).map Part.text).flatten = text.drop offset ∧
      (∀ n part, (reading text max_chars fuel i offset)[n]? = some part →
        (∃ at_, part = (FetchWindow.mk at_ (max_chars (i + n)) true).slice text ∧ offset ≤ at_) ∧
          (part.truncated = true ↔ n + 1 < (reading text max_chars fuel i offset).length)) ∧
      (∀ at_, offset ≤ at_ → at_ < text.length → ∃ part ∈ reading text max_chars fuel i offset,
        part.offset ≤ at_ ∧ at_ < part.offset + part.chars) := by
  induction fuel generalizing i offset with
  | zero =>
    refine ⟨?_, fun n part found => ?_, fun at_ _ _ => ?_⟩
    · rw [List.drop_of_length_le (by omega)]
      rfl
    · cases found
    · omega
  | succ fuel ih =>
    rw [reading]
    have some_ := positive i
    have more := @slice_truncated text (.mk offset (max_chars i) true)
    generalize first : (FetchWindow.mk offset (max_chars i) true).slice text = part at more ⊢
    have starts : part.offset = offset := by rw [← first]; rfl
    have counts : part.chars = min (max_chars i) (text.length - offset) := by rw [← first]; rfl
    have covers : part.text = (text.drop offset).take (max_chars i) := by rw [← first]; rfl
    by_cases truncated : part.truncated = true
    · have within := more.mp truncated
      dsimp only at within
      have whole : part.chars = max_chars i := by omega
      obtain ⟨tile, each, found⟩ := @ih (i + 1) (part.offset + part.chars) (by omega)
      rw [if_pos truncated]
      refine ⟨?_, ?_, ?_⟩
      · rw [List.map_cons, List.flatten_cons, tile, covers, starts, whole, ← List.drop_drop, List.take_append_drop]
      · intro n other at_
        cases n with
        | zero =>
          cases at_
          refine ⟨⟨offset, first.symm, Nat.le_refl _⟩, iff_of_true truncated ?_⟩
          have nonempty : reading text max_chars fuel (i + 1) (part.offset + part.chars) ≠ [] := by
            intro empty
            have rest := tile
            rw [empty] at rest
            have length := congrArg List.length rest
            rw [List.length_drop] at length
            simp only [List.map_nil, List.flatten_nil, List.length_nil] at length
            omega
          have positive := List.length_pos_iff.mpr nonempty
          rw [List.length_cons]
          omega
        | succ n =>
          rw [List.getElem?_cons_succ] at at_
          obtain ⟨⟨place, is, past⟩, last⟩ := each n other at_
          refine ⟨⟨place, ?_, by omega⟩, ?_⟩
          · have index : i + 1 + n = i + (n + 1) := by omega
            rw [is, index]
          · rw [last, List.length_cons]
            omega
      · intro at_ from_ within
        by_cases here : at_ < part.offset + part.chars
        · exact ⟨part, List.mem_cons_self, by omega, here⟩
        · obtain ⟨other, listed, inside⟩ := found at_ (by omega) within
          exact ⟨other, List.mem_cons_of_mem _ listed, inside⟩
    · have past := mt more.mpr truncated
      dsimp only at past
      rw [if_neg truncated]
      refine ⟨?_, ?_, ?_⟩
      · have rest : (text.drop offset).length ≤ max_chars i := by
          rw [List.length_drop]
          omega
        rw [List.map_singleton, List.flatten_singleton, covers, List.take_of_length_le rest]
      · intro n other at_
        cases n with
        | zero =>
          cases at_
          exact ⟨⟨offset, first.symm, Nat.le_refl _⟩, iff_of_false truncated (by simp)⟩
        | succ n => cases at_
      · intro at_ from_ within
        exact ⟨part, List.mem_cons_self, by omega, by omega⟩

structure ReleaseRecord where
  media_type : String
  verification : Integrity.VerificationState
  reason : Option String
  signer_public_key : String
  text_sha256 : String
  title : String
  url : String
  licence : String
  attribution : String
  terms : List String
  released_at : String
  signed : Signed

structure ShownPassage where
  id : String
  text : List Char

structure ShownMarker where
  passage : String
  label : String
  text : List Char

structure Shown where
  record : ReleaseRecord
  content_hash : String
  passages : List ShownPassage
  passages_total : Nat
  markers : List ShownMarker

def overlaps (usize_max : Nat) (text : List Char) (part : Part) (passage : Integrity.Passage) : Bool :=
  let start := byte_index usize_max text part.offset
  let end_ := start + byteLen part.text
  let whole := part.offset = 0 && !part.truncated_u64
  whole || (passage.start < end_ && start < passage.stop)

def release_shown (usize_max : Nat) (record : ReleaseRecord) (text : List Char) (part : Part) (content_hash : String) :
    Shown × List Char :=
  let passages := (record.signed.passages.filter (overlaps usize_max text part)).filterMap fun passage =>
    (slice text passage.start passage.stop).map fun body => ShownPassage.mk passage.id body
  let ids := passages.map ShownPassage.id
  let markers := (record.signed.markers.filter (·.passage ∈ ids)).filterMap fun marker =>
    (slice text marker.start marker.stop).map fun body => ShownMarker.mk marker.passage marker.label body
  (⟨record, content_hash, passages, record.signed.passages.length, markers⟩,
    (passages.flatMap fun passage => passage.text ++ ['\n']) ++ markers.flatMap fun marker => marker.text ++ ['\n'])

/-- A passage and a part have a byte in common, or the passage has none and stands strictly inside the part. -/
def Meets (text : List Char) (part : Part) (passage : Integrity.Passage) : Prop :=
  let start := byteLen (text.take part.offset)
  let end_ := start + byteLen part.text
  (∃ byte, passage.start ≤ byte ∧ byte < passage.stop ∧ start ≤ byte ∧ byte < end_) ∨
    passage.start = passage.stop ∧ start < passage.start ∧ passage.start < end_

structure Spanned (text : List Char) (signed : Signed) : Prop where
  passages : ∀ p ∈ signed.passages, ∃ part, Lies text p.start p.stop part
  markers : ∀ m ∈ signed.markers, ∃ part, Lies text m.start m.stop part

theorem lies_ends {start stop : Nat} {part : List Char} (lies : Lies text start stop part) :
    start ≤ stop ∧ stop ≤ byteLen text := by
  obtain ⟨before, after, rfl, from_, to_⟩ := lies
  rw [byteLen_append, byteLen_append]
  omega

def Part.Whole (part : Part) : Prop := part.offset = 0 ∧ part.truncated = false

theorem overlaps_iff (fits : byteLen text ≤ usize_max) (short : text.length ≤ U64_MAX) {window : FetchWindow}
    (positive : 1 ≤ window.max_chars) {passage : Integrity.Passage} {body : List Char}
    (lies : Lies text passage.start passage.stop body) :
    overlaps usize_max text (window.slice text) passage = true ↔
      (window.slice text).Whole ∨ Meets text (window.slice text) passage := by
  obtain ⟨ordered, inside⟩ := lies_ends lies
  unfold overlaps Meets Part.Whole
  rw [byte_index_take fits, truncated_u64_eq short]
  simp only [Bool.or_eq_true, Bool.and_eq_true, decide_eq_true_eq, Bool.not_eq_true']
  apply or_congr Iff.rfl
  constructor
  · rintro ⟨early, late⟩
    by_cases empty : passage.start = passage.stop
    · exact .inr ⟨empty, by omega, early⟩
    · left
      refine ⟨max passage.start (byteLen (text.take (window.slice text).offset)), by omega, by omega, by omega, ?_⟩
      by_cases some_ : (window.slice text).text = []
      · -- An empty part is past the end of the text, where no passage reaches.
        have past : text.length ≤ window.offset := by
          have length := congrArg List.length some_
          replace length : ((text.drop window.offset).take window.max_chars).length = 0 := length
          rw [List.length_take, List.length_drop] at length
          omega
        replace late : byteLen (text.take window.offset) < passage.stop := late
        rw [List.take_of_length_le past] at late
        omega
      · have bytes := byteLen_pos some_
        omega
  · rintro (⟨byte, from_, to_, start, end_⟩ | ⟨empty, start, end_⟩)
    · omega
    · omega

theorem filterMap_forall₂ {α β : Type} {R : α → β → Prop} {f : α → Option β} {items : List α}
    (each : ∀ a ∈ items, ∃ b, f a = some b ∧ R a b) : List.Forall₂ R items (items.filterMap f) := by
  induction items with
  | nil => exact .nil
  | cons a items ih =>
    obtain ⟨b, is, related⟩ := each a List.mem_cons_self
    rw [List.filterMap_cons_some is]
    exact .cons related (ih fun other listed => each other (List.mem_cons_of_mem _ listed))

def ShownPassage.Of (text : List Char) (passage : Integrity.Passage) (shown : ShownPassage) : Prop :=
  shown.id = passage.id ∧ Lies text passage.start passage.stop shown.text

def ShownMarker.Of (text : List Char) (marker : Integrity.KeptSpan) (shown : ShownMarker) : Prop :=
  shown.passage = marker.passage ∧ shown.label = marker.label ∧ Lies text marker.start marker.stop shown.text

structure ShownBeside (usize_max : Nat) (text : List Char) (part : Part) (signed : Signed) (shown : Shown) : Prop where
  passages : List.Forall₂ (ShownPassage.Of text) (signed.passages.filter (overlaps usize_max text part)) shown.passages
  listed : ∀ p ∈ signed.passages, overlaps usize_max text part p = true ↔ part.Whole ∨ Meets text part p
  markers : List.Forall₂ (ShownMarker.Of text)
    (signed.markers.filter fun m => ∃ p ∈ signed.passages.filter (overlaps usize_max text part), p.id = m.passage) shown.markers

theorem shown_ids {passages : List Integrity.Passage} {shown : List ShownPassage}
    (of_ : List.Forall₂ (ShownPassage.Of text) passages shown) :
    shown.map ShownPassage.id = passages.map Integrity.Passage.id := by
  induction of_ with
  | nil => rfl
  | cons one _ ih => rw [List.map_cons, List.map_cons, one.1, ih]

theorem release_shown_beside (fits : byteLen text ≤ usize_max) (short : text.length ≤ U64_MAX) {record : ReleaseRecord}
    (spanned : Spanned text record.signed) {window : FetchWindow} (positive : 1 ≤ window.max_chars) (content_hash : String) :
    ShownBeside usize_max text (window.slice text) record.signed
      (release_shown usize_max record text (window.slice text) content_hash).1 := by
  have passages : List.Forall₂ (ShownPassage.Of text)
      (record.signed.passages.filter (overlaps usize_max text (window.slice text)))
      (release_shown usize_max record text (window.slice text) content_hash).1.passages := by
    apply filterMap_forall₂
    intro passage listed
    obtain ⟨part, lies⟩ := spanned.passages passage (List.mem_filter.mp listed).1
    exact ⟨⟨passage.id, part⟩, by rw [slice_iff.mpr lies, Option.map_some], rfl, lies⟩
  refine ⟨passages, fun p listed => ?_, ?_⟩
  · obtain ⟨part, lies⟩ := spanned.passages p listed
    exact overlaps_iff fits short positive lies
  · have ids := shown_ids passages
    have same : (record.signed.markers.filter fun m =>
        ∃ p ∈ record.signed.passages.filter (overlaps usize_max text (window.slice text)), p.id = m.passage) =
        record.signed.markers.filter fun m =>
          m.passage ∈ (release_shown usize_max record text (window.slice text) content_hash).1.passages.map ShownPassage.id := by
      apply List.filter_congr
      intro m _
      rw [ids, decide_eq_decide, List.mem_map]
    rw [same]
    apply filterMap_forall₂
    intro marker listed
    obtain ⟨part, lies⟩ := spanned.markers marker (List.mem_filter.mp listed).1
    exact ⟨⟨marker.passage, marker.label, part⟩, by rw [slice_iff.mpr lies, Option.map_some], rfl, rfl, lies⟩

theorem byteLen_take_mono {m n : Nat} (fewer : m ≤ n) : byteLen (text.take m) ≤ byteLen (text.take n) := by
  have parts := byteLen_append ((text.take n).take m) ((text.take n).drop m)
  rw [List.take_append_drop, List.take_take, Nat.min_eq_left fewer] at parts
  omega

theorem passage_met {passage : Integrity.Passage} {body : List Char} (lies : Lies text passage.start passage.stop body)
    (some_ : passage.start < passage.stop) : ∃ at_, at_ < text.length ∧ ∀ window : FetchWindow,
      window.offset ≤ at_ → at_ < window.offset + (window.slice text).chars → Meets text (window.slice text) passage := by
  obtain ⟨before, after, is, from_, to_⟩ := lies
  obtain ⟨c, rest, rfl⟩ : ∃ c rest, body = c :: rest := by
    cases body with
    | nil =>
      rw [byteLen_nil] at to_
      omega
    | cons c rest => exact ⟨c, rest, rfl⟩
  have upto : text.take before.length = before := by
    rw [is, List.append_assoc, List.take_left]
  have through : text.take (before.length + 1) = before ++ [c] := by
    rw [is, List.append_assoc, List.cons_append, List.take_append, List.take_of_length_le (by omega), Nat.add_sub_cancel_left]
    rfl
  refine ⟨before.length, ?_, fun window ahead behind => ?_⟩
  · rw [is, List.length_append, List.length_append, List.length_cons]
    omega
  · left
    have starts := @byteLen_take_mono text _ _ ahead
    rw [upto] at starts
    refine ⟨passage.start, Nat.le_refl _, some_, ?_, ?_⟩
    · rw [← from_]
      exact starts
    · have chars : (window.slice text).chars ≤ window.max_chars := Nat.min_le_left _ _
      have ends := @byteLen_take_mono text (before.length + 1) (window.offset + window.max_chars) (by omega)
      rw [through, List.take_add, byteLen_append, byteLen_append] at ends
      have positive := c.utf8Size_pos
      have single : byteLen [c] = c.utf8Size := rfl
      show passage.start < byteLen (text.take window.offset) + byteLen ((text.drop window.offset).take window.max_chars)
      omega

/-! ### The whole text -/

/-- Every part on the way through the text: what it is cut from, that it has at most what was asked for, that only the last is not
followed by another, and that together they are the text and show every passage with a byte. -/
structure InParts (usize_max : Nat) (text : List Char) (max_chars : Nat → Nat) (signed : Signed) (parts : List Part) :
    Prop where
  tiles : (parts.map Part.text).flatten = text
  some_ : parts ≠ []
  few : parts.length ≤ text.length + 1
  each : ∀ n part, parts[n]? = some part → part.text.length ≤ max_chars n ∧ (part.truncated = true ↔ n + 1 < parts.length)
  shown : ∀ p ∈ signed.passages, p.start < p.stop → ∃ part ∈ parts, overlaps usize_max text part p = true

theorem reading_length (fuel i offset : Nat) : (reading text max_chars fuel i offset).length ≤ fuel := by
  induction fuel generalizing i offset with
  | zero => exact Nat.le_refl 0
  | succ fuel ih =>
    rw [reading]
    split
    · exact Nat.succ_le_succ (ih _ _)
    · exact Nat.succ_le_succ (Nat.zero_le _)

/-- Asked for in any amounts, the parts are the text. -/
theorem text_in_parts (fits : byteLen text ≤ usize_max) (short : text.length ≤ U64_MAX) {record : ReleaseRecord}
    (spanned : Spanned text record.signed) (positive : ∀ i, 1 ≤ max_chars i) :
    InParts usize_max text max_chars record.signed (reading text max_chars (text.length + 1) 0 0) ∧
      ∀ window : FetchWindow, 1 ≤ window.max_chars →
        window.slice_bytes usize_max text = some (window.slice text) ∧
          (window.slice text).truncated_u64 = (window.slice text).truncated ∧
          ((window.slice text).past_end.isSome = true ↔ 0 < window.offset ∧ text.length ≤ window.offset) ∧
          ∀ content_hash, ShownBeside usize_max text (window.slice text) record.signed
            (release_shown usize_max record text (window.slice text) content_hash).1 := by
  obtain ⟨tiles, each, covered⟩ := @reading_spec text max_chars positive (text.length + 1) 0 0 (by omega)
  refine ⟨⟨by rw [tiles, List.drop_zero], ?_, reading_length _ _ _, fun n part found => ?_, fun p listed some_ => ?_⟩,
    fun window named => ⟨slice_bytes_eq fits window, truncated_u64_eq short window, ?_,
      release_shown_beside fits short spanned named⟩⟩
  · exact List.cons_ne_nil _ _
  · obtain ⟨⟨at_, is, _⟩, last⟩ := each n part found
    refine ⟨?_, last⟩
    rw [is, Nat.zero_add]
    exact List.length_take_le _ _
  · obtain ⟨body, lies⟩ := spanned.passages p listed
    obtain ⟨at_, within, met⟩ := passage_met lies some_
    obtain ⟨part, here, ahead, behind⟩ := covered at_ (Nat.zero_le _) within
    obtain ⟨n, found⟩ := List.getElem?_of_mem here
    obtain ⟨⟨place, is, _⟩, _⟩ := each n part found
    refine ⟨part, here, ?_⟩
    rw [is] at ahead behind ⊢
    exact (overlaps_iff fits short (positive _) lies).mpr (.inr (met _ ahead behind))
  · show Option.isSome (if 0 < window.offset ∧ text.length ≤ window.offset then some _ else none) = true ↔ _
    split
    · exact iff_of_true rfl ‹_›
    · exact iff_of_false Bool.false_ne_true ‹_›

end

def emptyPassage : ReleaseRecord where
  media_type := ""
  verification := .verified
  reason := none
  signer_public_key := ""
  text_sha256 := ""
  title := ""
  url := ""
  licence := ""
  attribution := ""
  terms := []
  released_at := ""
  signed := ⟨Integrity.LABELLED, [⟨"first", 0, 1⟩, ⟨"empty", 1, 1⟩, ⟨"last", 2, 3⟩], [⟨0, 1, "a", "first"⟩]⟩

theorem emptyPassage_spanned : Spanned ['a', 'b', 'c'] emptyPassage.signed where
  passages p listed := by
    simp only [emptyPassage, List.mem_cons, List.not_mem_nil, or_false] at listed
    rcases listed with rfl | rfl | rfl
    · exact ⟨['a'], [], ['b', 'c'], rfl, rfl, rfl⟩
    · exact ⟨[], ['a'], ['b', 'c'], rfl, rfl, rfl⟩
    · exact ⟨['c'], ['a', 'b'], [], rfl, rfl, rfl⟩
  markers m listed := by
    rw [List.mem_singleton.mp listed]
    exact ⟨['a'], [], ['b', 'c'], rfl, rfl, rfl⟩

theorem text_in_parts_empty :
    InParts U64_MAX ['a', 'b', 'c'] (fun _ => 2) emptyPassage.signed (reading ['a', 'b', 'c'] (fun _ => 2) 4 0 0) ∧
      ∀ window : FetchWindow, 1 ≤ window.max_chars →
        window.slice_bytes U64_MAX ['a', 'b', 'c'] = some (window.slice ['a', 'b', 'c']) ∧
          (window.slice ['a', 'b', 'c']).truncated_u64 = (window.slice ['a', 'b', 'c']).truncated ∧
          ((window.slice ['a', 'b', 'c']).past_end.isSome = true ↔ 0 < window.offset ∧ 3 ≤ window.offset) ∧
          ∀ content_hash, ShownBeside U64_MAX ['a', 'b', 'c'] (window.slice ['a', 'b', 'c']) emptyPassage.signed
            (release_shown U64_MAX emptyPassage ['a', 'b', 'c'] (window.slice ['a', 'b', 'c']) content_hash).1 :=
  text_in_parts (by decide) (by decide) emptyPassage_spanned fun _ => by decide

/-- A passage with no bytes is shown beside a part it shares none with. -/
theorem empty_passage_shown :
    (release_shown U64_MAX emptyPassage ['a', 'b', 'c'] ((FetchWindow.mk 0 2 true).slice ['a', 'b', 'c']) "").1.passages.map
        ShownPassage.id = ["first", "empty"] ∧
      ((FetchWindow.mk 0 2 true).slice ['a', 'b', 'c']).truncated = true ∧ ¬∃ byte, 1 ≤ byte ∧ byte < 1 := by
  refine ⟨by decide +kernel, by decide, ?_⟩
  rintro ⟨byte, from_, to_⟩
  omega

end CommonMeasure.Mediation
